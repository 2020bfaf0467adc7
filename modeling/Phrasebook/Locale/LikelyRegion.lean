import Phrasebook.Locale.Identifier

/-!
The likely script and region of a language, as the locale data of Unicode gives them, and the
identifier that they complete. A script that is not the usual one of its language changes the
region only where the data says so. The placeholder script `Zzzz` counts as no script.

The data is not complete. It is that of the languages below, of four of them in a script that is
not their usual one, and of eight scripts without a language. The data of Unicode has some
thousand languages and most scripts, and knows of some pairs by their region; an identifier for
which only those say something stays as it is here, or keeps the usual region of its language.
-/

namespace Phrasebook.Locale

/-- Languages with their regions, by the script in which they are usually written. -/
def likelyByScript : List (String × String) := [
  ("Latn", "de-DE sk-SK fr-FR en-US es-ES pt-BR it-IT nl-NL pl-PL cs-CZ hr-HR bs-BA sl-SI " ++
    "ro-RO hu-HU fi-FI sv-SE nb-NO nn-NO no-NO da-DK is-IS et-EE lv-LV lt-LT tr-TR " ++
    "vi-VN id-ID ms-MY fil-PH az-AZ uz-UZ tk-TM sw-TZ zu-ZA af-ZA sq-AL eu-ES gl-ES " ++
    "ca-ES ga-IE cy-GB gd-GB mt-MT in-ID tl-PH la-VA eo-001 ang-GB jv-ID su-ID ku-TR " ++
    "om-ET so-SO ha-NG ig-NG yo-NG rw-RW mg-MG mi-NZ haw-US sm-WS to-TO fj-FJ br-FR " ++
    "co-FR fy-NL lb-LU oc-FR rm-CH sc-IT wa-BE"),
  ("Cyrl", "ru-RU uk-UA sr-RS mk-MK bg-BG kk-KZ ky-KG tg-TJ mn-MN be-BY"),
  ("Grek", "el-GR grc-GR"),
  ("Arab", "ar-EG fa-IR ur-PK ps-AF sd-PK ug-CN"),
  ("Hebr", "he-IL iw-IL yi-UA"),
  ("Deva", "hi-IN mr-IN ne-NP"),
  ("Beng", "bn-BD"),
  ("Taml", "ta-IN"),
  ("Telu", "te-IN"),
  ("Mlym", "ml-IN"),
  ("Knda", "kn-IN"),
  ("Gujr", "gu-IN"),
  ("Guru", "pa-IN"),
  ("Sinh", "si-LK"),
  ("Thai", "th-TH"),
  ("Laoo", "lo-LA"),
  ("Khmr", "km-KH"),
  ("Mymr", "my-MM"),
  ("Jpan", "ja-JP"),
  ("Kore", "ko-KR"),
  ("Hans", "zh-CN"),
  ("Hant", "yue-HK"),
  ("Geor", "ka-GE"),
  ("Armn", "hy-AM"),
  ("Ethi", "am-ET ti-ET"),
  ("Tibt", "bo-CN dz-BT"),
  ("Thaa", "dv-MV")]

def likelyInScript : List (String × String × String) :=
  [("zh", "Hant", "TW"), ("uz", "Arab", "AF"), ("pa", "Arab", "PK"), ("az", "Arab", "IR")]

def likelyOfScript : List (String × String × String) :=
  [("Latn", "en", "US"), ("Cyrl", "ru", "RU"), ("Arab", "ar", "EG"), ("Jpan", "ja", "JP"),
    ("Hans", "zh", "CN"), ("Hant", "zh", "TW"), ("Grek", "el", "GR"), ("Hebr", "he", "IL")]

def likely? (language : Text) : Option (Text × Text) :=
  likelyByScript.findSome? fun (script, pairs) =>
    (Text.segments ' ' pairs.toList).findSome? fun written =>
      match Cut.first '-' written with
      | some (l, region) => if l = language then some (script.toList, region) else none
      | none => none

def regionInScript? (language script : Text) : Option Text :=
  likelyInScript.findSome? fun (l, s, region) =>
    if l.toList = language ∧ s.toList = script then some region.toList else none

def ofScript? (script : Text) : Option (Text × Text) :=
  likelyOfScript.findSome? fun (s, l, region) =>
    if s.toList = script then some (l.toList, region.toList) else none

def maximize (l : Locale) : Locale :=
  let l := if l.script = some "Zzzz".toList then { l with script := none } else l
  if l.language = undetermined then
    match l.script.bind ofScript? with
    | some (language, region) => { l with language, region := l.region.or (some region) }
    | none => l
  else
    match likely? l.language with
    | some (script, region) =>
      let region := (l.script.bind (regionInScript? l.language)).getD region
      { l with script := l.script.or (some script), region := l.region.or (some region) }
    | none => l

/-- Adds the likely region to an identifier that has none. A script is not added. -/
def withDefaultRegion (l : Locale) : Locale :=
  if !l.isNeutral || l.isInvariant then l
  else
    let filled := l.maximize
    if l.script.isNone then { filled with script := none } else filled

end Phrasebook.Locale
