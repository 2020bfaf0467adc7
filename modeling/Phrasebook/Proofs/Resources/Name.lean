import Mathlib.Data.List.Nodup
import Phrasebook.Proofs.Text.Segments
import Phrasebook.Resources.Embedded

/-! Which document a name asks for. A document fits a name that it equals, or that it ends with on a
path boundary, as names are compared; a set answers with the first of its documents that fits. -/
namespace Phrasebook

namespace Resource

/-- A requested name as it is compared: a leading `./` does not count. -/
def plain (name : Text) : Text := dropDotSlashes (comparable name)

/-- The document has the requested name, or ends with it on a path boundary. -/
def Fits (candidate requested : Text) : Prop :=
  comparable candidate = plain requested ∨
    ∃ above, comparable candidate = above ++ '/' :: plain requested

/-- The name is `place`, which is a directory with its slash or nothing, then a file name. -/
structure Filed (name place fileName : Text) : Prop where
  spelled : normalize name = place ++ fileName
  within : place = [] ∨ ∃ directory, place = directory ++ ['/']
  oneName : '/' ∉ fileName

/-- The name is `place`, which is a directory with its slash or nothing, then a stem and an
extension. -/
structure Placed (name place stem extension : Text) : Prop where
  spelled : normalize name = place ++ stem ++ '.' :: extension
  within : place = [] ∨ ∃ directory ≠ [], place = directory ++ ['/']
  named : stem ≠ []
  oneName : '/' ∉ stem ++ '.' :: extension
  oneExtension : '.' ∉ extension

instance (name place stem extension : Text) : Decidable (Placed name place stem extension) :=
  decidable_of_iff (normalize name = place ++ stem ++ '.' :: extension ∧
      (place = [] ∨ place.dropLast ≠ [] ∧ place = place.dropLast ++ ['/']) ∧
      stem ≠ [] ∧ '/' ∉ stem ++ '.' :: extension ∧ '.' ∉ extension) <| by
    constructor
    · rintro ⟨spelled, within, named, oneName, oneExtension⟩
      exact ⟨spelled, within.imp_right fun inside => ⟨_, inside⟩, named, oneName, oneExtension⟩
    · rintro ⟨spelled, within, named, oneName, oneExtension⟩
      refine ⟨spelled, within.imp_right ?_, named, oneName, oneExtension⟩
      rintro ⟨directory, inside, rfl⟩
      rw [List.dropLast_concat]
      exact ⟨inside, rfl⟩

theorem Placed.startsWith {name place stem extension : Text}
    (placed : Placed name place stem extension) : place <+: normalize name := by
  rw [placed.spelled, List.append_assoc]
  exact List.prefix_append place _

theorem nameMatches_iff_fits {candidate requested : Text} :
    nameMatches candidate requested = true ↔ Fits candidate requested := by
  have boundary : '/' :: plain requested <:+ comparable candidate ↔
      ∃ above, comparable candidate = above ++ '/' :: plain requested :=
    exists_congr fun _ => eq_comm
  simp only [nameMatches, Fits, Bool.or_eq_true, decide_eq_true_eq, List.isSuffixOf_iff_suffix]
  exact or_congr Iff.rfl boundary

instance (candidate requested : Text) : Decidable (Fits candidate requested) :=
  decidable_of_iff _ nameMatches_iff_fits

/-- Segments without the dots in front. A dot that nothing follows stays. -/
def withoutDots : List Text → List Text
  | ['.'] :: next :: rest => withoutDots (next :: rest)
  | segments => segments

theorem withoutDots_dot {segments : List Text} (more : segments ≠ []) :
    withoutDots (['.'] :: segments) = withoutDots segments := by
  obtain ⟨next, rest, rfl⟩ := List.exists_cons_of_ne_nil more
  rfl

theorem withoutDots_of_ne {first : Text} (noDot : first ≠ ['.']) (rest : List Text) :
    withoutDots (first :: rest) = first :: rest := by
  apply withoutDots.eq_2
  intro next others dotted
  exact noDot (List.cons.inj dotted).1

theorem withoutDots_suffix (segments : List Text) : withoutDots segments <:+ segments := by
  fun_induction withoutDots segments with
  | case1 next rest ih => exact ih.trans (List.suffix_cons ['.'] (next :: rest))
  | case2 segments => exact List.suffix_rfl

/-- A text loses each `./` in front as its segments lose the dots. -/
theorem segments_dropDotSlashes (s : Text) :
    Text.segments '/' (dropDotSlashes s) = withoutDots (Text.segments '/' s) := by
  fun_induction dropDotSlashes s with
  | case1 rest ih =>
      have dotted : Text.segments '/' ('.' :: '/' :: rest) = ['.'] :: Text.segments '/' rest :=
        List.splitOn_append_cons_self ['.'] rest
      rw [ih, dotted, withoutDots_dot (List.splitOn_ne_nil '/' rest)]
  | case2 s undotted =>
      refine (withoutDots.eq_2 _ fun next rest dotted => ?_).symm
      have joined : Text.joinWith '/' (Text.segments '/' s) = s := List.intercalate_splitOn '/'
      rw [dotted, Text.joinWith, List.intercalate_cons_cons] at joined
      exact undotted _ joined.symm

theorem dropDotSlashes_eq_or (s : Text) :
    s = dropDotSlashes s ∨ ∃ above, s = above ++ '/' :: dropDotSlashes s := by
  have ends := withoutDots_suffix (Text.segments '/' s)
  rw [← segments_dropDotSlashes] at ends
  exact Cut.splitOn_suffix_iff.mp ends

theorem fits_of_comparable_eq {candidate requested : Text}
    (same : comparable candidate = comparable requested) : Fits candidate requested := by
  rw [Fits, same]
  exact dropDotSlashes_eq_or (comparable requested)

theorem backslash_not_mem_normalize (name : Text) : '\\' ∉ normalize name := by
  intro there
  obtain ⟨c, -, made⟩ := List.mem_map.mp there
  split at made
  · cases made
  · exact absurd made ‹_›

theorem normalize_of_not_mem {name : Text} (absent : '\\' ∉ name) : normalize name = name := by
  refine (List.map_congr_left fun c hc => if_neg ?_).trans (List.map_id name)
  rintro rfl
  exact absent hc

theorem normalize_normalize (name : Text) : normalize (normalize name) = normalize name :=
  normalize_of_not_mem (backslash_not_mem_normalize name)

theorem stemAndExtension_extended {stem extension : Text} (named : stem ≠ [])
    (oneExtension : '.' ∉ extension) :
    stemAndExtension (stem ++ '.' :: extension) = (stem, some extension) := by
  rw [stemAndExtension, Cut.last_eq_some_iff.mpr ⟨rfl, oneExtension⟩]
  exact if_neg fun empty => named (List.isEmpty_iff.mp empty)

theorem siblingFileName_spelled {stem extension : Text} (named : stem ≠ [])
    (oneExtension : '.' ∉ extension) (suffix : Text) :
    siblingFileName (stem ++ '.' :: extension) suffix =
      stem ++ '_' :: suffix ++ '.' :: extension := by
  rw [siblingFileName, stemAndExtension_extended named oneExtension]

theorem Filed.siblingName_eq {name place fileName : Text} (filed : Filed name place fileName)
    (suffix : Text) : siblingName name suffix =
      (if place = ['/'] then [] else place) ++ siblingFileName fileName suffix := by
  rw [siblingName, filed.spelled]
  rcases filed.within with rfl | ⟨directory, rfl⟩
  · rw [List.nil_append, Cut.last_eq_none_iff.mpr filed.oneName]
    rfl
  · rw [List.append_assoc, List.singleton_append,
      Cut.last_eq_some_iff.mpr ⟨rfl, filed.oneName⟩]
    cases directory with
    | nil => rfl
    | cons c rest => simp

theorem Placed.filed {name place stem extension : Text} (placed : Placed name place stem extension) :
    Filed name place (stem ++ '.' :: extension) := by
  refine ⟨?_, placed.within.imp_right fun ⟨directory, _, spelled⟩ => ⟨directory, spelled⟩,
    placed.oneName⟩
  rw [placed.spelled, List.append_assoc]

/-- A sibling lies in the directory of its document, and carries its suffix before the extension. -/
theorem Placed.siblingName_eq {name place stem extension : Text}
    (placed : Placed name place stem extension) (suffix : Text) :
    siblingName name suffix = place ++ stem ++ '_' :: suffix ++ '.' :: extension := by
  have notTop : place ≠ ['/'] := by
    rcases placed.within with rfl | ⟨directory, inside, rfl⟩
    · exact (List.cons_ne_nil _ _).symm
    · simpa using inside
  rw [placed.filed.siblingName_eq, if_neg notTop,
    siblingFileName_spelled placed.named placed.oneExtension]
  simp only [List.append_assoc]

end Resource

namespace Embedded

open Resource

/-- The first document of a list that fits a name. -/
def FirstFitting (documents : List (Text × Text)) (requested : Text) (found : Text × Text) : Prop :=
  ∃ before after, documents = before ++ found :: after ∧ Fits found.1 requested ∧
    ∀ earlier ∈ before, ¬ Fits earlier.1 requested

/-- Whatever a list answers a name with has that very name, and does not only end with it. -/
def AnswersByName (documents : List (Text × Text)) (requested : Text) : Prop :=
  ∀ found, FirstFitting documents requested found → comparable found.1 = comparable requested

section

variable {documents : List (Text × Text)} {requested : Text} {found : Text × Text}

theorem FirstFitting.mem (first : FirstFitting documents requested found) : found ∈ documents := by
  obtain ⟨before, after, rfl, -, -⟩ := first
  exact List.mem_append_right before List.mem_cons_self

theorem FirstFitting.fits (first : FirstFitting documents requested found) :
    Fits found.1 requested := by
  obtain ⟨-, -, -, fits, -⟩ := first
  exact fits

theorem firstFitting_iff_find? : FirstFitting documents requested found ↔
    (documents.find? fun d => nameMatches d.1 requested) = some found := by
  simp only [FirstFitting, List.find?_eq_some_iff_append, nameMatches_iff_fits,
    Bool.not_eq_true', ← Bool.not_eq_true]
  constructor
  · rintro ⟨before, after, listed, fits, earlier⟩
    exact ⟨fits, before, after, listed, earlier⟩
  · rintro ⟨fits, before, after, listed, earlier⟩
    exact ⟨before, after, listed, fits, earlier⟩

theorem exists_firstFitting {document : Text × Text} (there : document ∈ documents)
    (fits : Fits document.1 requested) : ∃ found, FirstFitting documents requested found := by
  cases answer : documents.find? fun d => nameMatches d.1 requested with
  | none =>
      exact (List.find?_eq_none.mp answer document there (nameMatches_iff_fits.mpr fits)).elim
  | some found => exact ⟨found, firstFitting_iff_find?.mpr answer⟩

theorem answersByName_of_forall
    (all : ∀ d ∈ documents, Fits d.1 requested → comparable d.1 = comparable requested) :
    AnswersByName documents requested := fun found first => all found first.mem first.fits

end

theorem read_eq_some_iff {e : Embedded} {requested copy : Text} :
    e.read requested = some copy ↔
      ∃ candidate, FirstFitting e.documents requested (candidate, copy) := by
  rw [read, Option.map_eq_some_iff, Prod.exists]
  simp only [firstFitting_iff_find?]
  constructor
  · rintro ⟨candidate, _, found, rfl⟩
    exact ⟨candidate, found⟩
  · rintro ⟨candidate, found⟩
    exact ⟨candidate, copy, found, rfl⟩

theorem FirstFitting.read_eq {e : Embedded} {requested : Text} {found : Text × Text}
    (first : FirstFitting e.documents requested found) : e.read requested = some found.2 :=
  read_eq_some_iff.mpr ⟨found.1, first⟩

/-- Where a document has the very name that is asked for, names being distinct, it is read if what
answers the name has it. -/
theorem read_of_answersByName {e : Embedded}
    (distinct : (e.documents.map fun d => comparable d.1).Nodup) {requested : Text}
    {document : Text × Text} (listed : document ∈ e.documents)
    (same : comparable document.1 = comparable requested)
    (byName : AnswersByName e.documents requested) : e.read requested = some document.2 := by
  obtain ⟨found, first⟩ := exists_firstFitting listed (fits_of_comparable_eq same)
  have one : found = document :=
    List.inj_on_of_nodup_map distinct first.mem listed ((byName found first).trans same.symm)
  rw [first.read_eq, one]

end Embedded

end Phrasebook
