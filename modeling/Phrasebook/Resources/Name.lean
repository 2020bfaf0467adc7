import Phrasebook.Text.Lower

/-!
Names of resources. Backslashes and slashes separate alike, and case does not count. A requested
name fits a candidate that equals it or ends with it after a slash. The sibling of a document for a
locale carries the locale before its extension.
-/

namespace Phrasebook.Resource

def normalize (name : Text) : Text := name.map fun c => if c = '\\' then '/' else c

def dropDotSlashes : Text → Text
  | '.' :: '/' :: rest => dropDotSlashes rest
  | s => s

def comparable (name : Text) : Text := (normalize name).toLower

def nameMatches (candidate requested : Text) : Bool :=
  let c := comparable candidate
  let r := dropDotSlashes (comparable requested)
  c = r || ('/' :: r).isSuffixOf c

/-- A file name cut at its last dot; a dot at the front does not cut. -/
def stemAndExtension (fileName : Text) : Text × Option Text :=
  match Cut.last '.' fileName with
  | some (stem, extension) => if stem.isEmpty then (fileName, none) else (stem, some extension)
  | none => (fileName, none)

def stem (fileName : Text) : Text := (stemAndExtension fileName).1

def siblingFileName (fileName suffix : Text) : Text :=
  match stemAndExtension fileName with
  | (stem, some extension) => stem ++ '_' :: suffix ++ '.' :: extension
  | (stem, none) => stem ++ '_' :: suffix

/-- The sibling of a document in its directory, so that with the suffix `de` the name
`i18n/strings.toml` becomes `i18n/strings_de.toml`. -/
def siblingName (file suffix : Text) : Text :=
  let file := normalize file
  match Cut.last '/' file with
  | some (directory, fileName) =>
    let sibling := siblingFileName fileName suffix
    if directory.isEmpty then sibling else directory ++ '/' :: sibling
  | none => siblingFileName file suffix

end Phrasebook.Resource
