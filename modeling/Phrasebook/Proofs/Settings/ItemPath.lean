import Mathlib.Data.List.TakeWhile
import Phrasebook.Proofs.Accessors.Identifier
import Phrasebook.Proofs.Text.Lower
import Phrasebook.Proofs.Text.Segments
import Phrasebook.Settings.Basic

/-! The paths of items that valid settings hold. Such a path is words between double colons, perhaps
behind double colons, and a bare name of a crate is made absolute. Words may be keywords: what is
accepted is a path of the language exactly where keywords stand at the start only, and there for a
place from which a path that is not absolute can go on. -/
namespace Phrasebook.Settings

open Accessors (Word identifier keywords identifier_eq_self_iff)
open Accessors.namespaceSegments (splitColons)

def colons : Text := "::".toList

theorem splitColons_colons (rest : Text) :
    splitColons (colons ++ rest) = [] :: splitColons rest := by
  change splitColons (':' :: ':' :: rest) = _
  rw [splitColons]

theorem splitColons_ne_nil (s : Text) : splitColons s ≠ [] := by
  fun_cases splitColons s with
  | case1 => exact List.cons_ne_nil _ _
  | case2 => exact List.cons_ne_nil _ _
  | case3 => exact List.cons_ne_nil _ _
  | case4 => exact List.cons_ne_nil _ _

theorem splitColons_cons {c : Char} (other : c ≠ ':') (rest : Text) :
    splitColons (c :: rest) = (splitColons rest).modifyHead (c :: ·) := by
  have apart : ∀ after : Text, c = ':' → rest = ':' :: after → False :=
    fun _ same => (other same).elim
  obtain ⟨first, others, parts⟩ := List.exists_cons_of_ne_nil (splitColons_ne_nil rest)
  rw [splitColons, parts]
  · rfl
  · exact apart

theorem intercalate_splitColons (s : Text) : colons.intercalate (splitColons s) = s := by
  fun_induction splitColons s with
  | case1 rest ih =>
      rw [List.intercalate_cons_of_ne_nil (splitColons_ne_nil rest), ih]
      rfl
  | case2 c rest _ first others parts ih =>
      rw [parts] at ih
      by_cases more : others = []
      · rw [more, List.intercalate_singleton] at ih ⊢
        rw [ih]
      · rw [List.intercalate_cons_of_ne_nil more] at ih ⊢
        rw [List.cons_append, List.cons_append, ih]
  | case3 c rest _ none => exact (splitColons_ne_nil rest none).elim
  | case4 => rfl

theorem splitColons_append {segment : Text} (whole : ':' ∉ segment) (rest : Text) :
    splitColons (segment ++ rest) = (splitColons rest).modifyHead (segment ++ ·) := by
  induction segment with
  | nil =>
      obtain ⟨first, others, parts⟩ := List.exists_cons_of_ne_nil (splitColons_ne_nil rest)
      rw [List.nil_append, parts]
      rfl
  | cons c segment ih =>
      rw [List.mem_cons, not_or] at whole
      rw [List.cons_append, splitColons_cons (Ne.symm whole.1), ih whole.2,
        List.modifyHead_modifyHead]
      rfl

theorem splitColons_intercalate {segments : List Text} (some : segments ≠ [])
    (whole : ∀ s ∈ segments, ':' ∉ s) : splitColons (colons.intercalate segments) = segments := by
  induction segments with
  | nil => exact (some rfl).elim
  | cons s rest ih =>
      obtain ⟨here, later⟩ := List.forall_mem_cons.mp whole
      by_cases more : rest = []
      · have single := splitColons_append here []
        rw [List.append_nil] at single
        rw [more, List.intercalate_singleton, single]
        exact congrArg (fun t => [t]) (List.append_nil s)
      · rw [List.intercalate_cons_of_ne_nil more, List.append_assoc, splitColons_append here,
          splitColons_colons, ih more later, List.modifyHead_cons, List.append_nil]

/-- A path by its segments; it may start at the root of all paths. -/
structure ItemPath where
  rooted : Bool
  segments : List Text
deriving DecidableEq

namespace ItemPath

def text (p : ItemPath) : Text :=
  (if p.rooted then colons else []) ++ colons.intercalate p.segments

/-- The path that a text is read as. -/
def ofText (t : Text) : ItemPath :=
  ⟨(Cut.lead colons t).isSome, itemSegments ((Cut.lead colons t).getD t)⟩

/-- Some words, keywords or not. -/
structure Spelled (p : ItemPath) : Prop where
  some : p.segments ≠ []
  words : ∀ s ∈ p.segments, Word s

/-- What a path may start with besides names, unless it starts at the root: the crate, the module
that it stands in, or modules above that. -/
inductive Start : List Text → Prop where
  | crate : Start ["crate".toList]
  | own : Start ["self".toList]
  | above (count : Nat) : Start (List.replicate count "super".toList)

/-- A path of the language: names that are their own identifiers, behind a start. -/
def WellFormed (p : ItemPath) : Prop :=
  p.segments ≠ [] ∧ ∃ start names, p.segments = start ++ names ∧ Start start ∧
    (p.rooted = true → start = []) ∧ ∀ n ∈ names, identifier n = n

/-- The segments that are not part of the start. -/
def names (p : ItemPath) : List Text :=
  match p.rooted, p.segments with
  | true, segments => segments
  | false, [] => []
  | false, first :: rest =>
    if first = "crate".toList ∨ first = "self".toList then rest
    else (first :: rest).dropWhile (· = "super".toList)

/-- The path of a crate, seen from anywhere: a bare name starts at the root. -/
def absolute (p : ItemPath) : ItemPath := ⟨p.rooted || p.segments.length == 1, p.segments⟩

theorem text_ofText (t : Text) : (ofText t).text = t := by
  rw [ofText, text]
  cases found : Cut.lead colons t with
  | none => exact intercalate_splitColons t
  | some rest =>
      rw [Cut.lead_eq_some_iff.mp found]
      exact congrArg (colons ++ ·) (intercalate_splitColons rest)

theorem mem_text {p : ItemPath} {c : Char} (there : c ∈ p.text) :
    c ∈ colons ∨ ∃ s ∈ p.segments, c ∈ s := by
  rw [text, List.mem_append] at there
  refine there.elim (fun top => ?_) Cut.mem_intercalate
  split at top
  · exact .inl top
  · cases top

theorem ofText_segments_ne_nil (t : Text) : (ofText t).segments ≠ [] := splitColons_ne_nil _

namespace Spelled

variable {p q : ItemPath} (spelled : p.Spelled)
include spelled

theorem colon_not_mem : ∀ s ∈ p.segments, ':' ∉ s :=
  fun s there => (spelled.words s there).not_mem (by decide)

theorem splitColons_eq : splitColons (colons.intercalate p.segments) = p.segments :=
  splitColons_intercalate spelled.some spelled.colon_not_mem

theorem lead_eq_none : Cut.lead colons (colons.intercalate p.segments) = none := by
  refine Option.eq_none_iff_forall_ne_some.mpr fun rest found => ?_
  have starts := Cut.lead_eq_some_iff.mp found
  have first := spelled.splitColons_eq
  rw [starts, splitColons_colons] at first
  exact (spelled.words [] (first ▸ List.mem_cons_self)).present rfl

theorem ofText_text : ofText p.text = p := by
  obtain ⟨rooted, segments⟩ := p
  have split := spelled.splitColons_eq
  cases rooted with
  | true =>
      have found : Cut.lead colons (text ⟨true, segments⟩) = .some (colons.intercalate segments) :=
        Cut.lead_eq_some_iff.mpr rfl
      rw [ofText, found]
      exact congrArg (ItemPath.mk true) split
  | false =>
      have none : Cut.lead colons (text ⟨false, segments⟩) = .none := spelled.lead_eq_none
      rw [ofText, none]
      exact congrArg (ItemPath.mk false) split

theorem contains_colons_iff :
    Text.contains colons p.text = true ↔ p.rooted = true ∨ p.segments.length ≠ 1 := by
  rw [Text.contains_iff, text]
  obtain ⟨first, rest, parts⟩ := List.exists_cons_of_ne_nil spelled.some
  cases rooted : p.rooted with
  | true => exact iff_of_true (List.prefix_append colons _).isInfix (.inl rfl)
  | false =>
      rw [parts]
      by_cases more : rest = []
      · subst more
        have whole : ':' ∉ first := spelled.colon_not_mem first (parts ▸ List.mem_cons_self)
        have spelling : colons.intercalate [first] = first := List.intercalate_singleton
        refine iff_of_false (fun inside => whole ?_) (by simp)
        rw [spelling] at inside
        exact inside.subset (List.mem_cons_self : ':' ∈ colons)
      · have long : (first :: rest).length ≠ 1 := by simpa using more
        refine iff_of_true ?_ (.inr long)
        rw [List.intercalate_cons_of_ne_nil more]
        exact ⟨first, colons.intercalate rest, rfl⟩

theorem runtimePath_eq {o : Accessors.Options} (named : o.runtimeCrate = p.text) :
    o.runtimePath = p.absolute.text := by
  rw [Accessors.Options.runtimePath, named]
  have bare := spelled.contains_colons_iff
  obtain ⟨rooted, segments⟩ := p
  split
  · rename_i inside
    rcases bare.mp inside with top | long
    · obtain rfl : rooted = true := top
      rfl
    · have notOne : (segments.length == 1) = false := beq_eq_false_iff_ne.mpr long
      rw [absolute, notOne, Bool.or_false]
  · rename_i outside
    obtain ⟨top, single⟩ := not_or.mp (fun far => outside (bare.mpr far))
    obtain rfl : rooted = false := eq_false_of_ne_true top
    have one : (segments.length == 1) = true := beq_iff_eq.mpr (Decidable.not_not.mp single)
    rw [absolute, one]
    rfl

theorem absolute : p.absolute.Spelled := ⟨spelled.some, spelled.words⟩

end Spelled

theorem word_of_start {start : List Text} (h : Start start) : ∀ s ∈ start, Word s := by
  cases h with
  | crate => decide +kernel
  | own => decide +kernel
  | above count =>
      have word : Word "super".toList := by decide +kernel
      intro s there
      rw [(List.mem_replicate.mp there).2]
      exact word

theorem WellFormed.spelled {p : ItemPath} (h : p.WellFormed) : p.Spelled := by
  obtain ⟨some, start, names, parts, starts, -, own⟩ := h
  refine ⟨some, fun s there => ?_⟩
  rw [parts] at there
  rcases List.mem_append.mp there with first | later
  · exact word_of_start starts s first
  · exact (identifier_eq_self_iff.mp (own s later)).1

theorem names_of_place {first : Text} {rest : List Text}
    (place : first = "crate".toList ∨ first = "self".toList) :
    names ⟨false, first :: rest⟩ = rest := if_pos place

theorem names_of_relative {segments : List Text}
    (noPlace : ∀ s ∈ segments.head?, ¬ (s = "crate".toList ∨ s = "self".toList)) :
    names ⟨false, segments⟩ = segments.dropWhile (· = "super".toList) := by
  cases segments with
  | nil => rfl
  | cons first rest => exact if_neg (noPlace first rfl)

/-- However a path is taken apart into a start and the rest, the segments that are not part of its
own start are among the rest. -/
theorem names_subset {p : ItemPath} {start rest : List Text} (parts : p.segments = start ++ rest)
    (starts : Start start) (top : p.rooted = true → start = []) : p.names ⊆ rest := by
  obtain ⟨rooted, segments⟩ := p
  obtain rfl : segments = start ++ rest := parts
  cases rooted with
  | true =>
      obtain rfl : start = [] := top rfl
      exact List.Subset.refl _
  | false =>
      cases starts with
      | crate => exact List.Subset.refl _
      | own => exact List.Subset.refl _
      | above count =>
          by_cases place : ∃ s ∈ (List.replicate count "super".toList ++ rest).head?,
              s = "crate".toList ∨ s = "self".toList
          · -- Modules above stand before no such place, so there are none of them.
            obtain ⟨s, head, place⟩ := place
            cases count with
            | zero =>
                obtain ⟨others, rfl⟩ := List.head?_eq_some_iff.mp head
                exact (names_of_place place).symm ▸ List.subset_cons_self s others
            | succ count =>
                have other : ¬ ("super".toList = "crate".toList ∨
                    "super".toList = "self".toList) := by decide
                cases head
                exact (other place).elim
          · have above : ∀ s ∈ List.replicate count "super".toList,
                decide (s = "super".toList) = true := fun s there =>
              decide_eq_true (List.mem_replicate.mp there).2
            rw [names_of_relative (fun s head found => place ⟨s, head, found⟩),
              List.dropWhile_append_of_pos above]
            exact List.dropWhile_subset _

theorem exists_start (p : ItemPath) : ∃ start, p.segments = start ++ p.names ∧ Start start ∧
    (p.rooted = true → start = []) := by
  obtain ⟨rooted, segments⟩ := p
  cases rooted with
  | true => exact ⟨[], rfl, .above 0, fun _ => rfl⟩
  | false =>
      by_cases place : ∃ s ∈ segments.head?, s = "crate".toList ∨ s = "self".toList
      · obtain ⟨s, head, place⟩ := place
        obtain ⟨rest, rfl⟩ := List.head?_eq_some_iff.mp head
        refine ⟨[s], by rw [names_of_place place]; rfl, ?_, nofun⟩
        rcases place with rfl | rfl
        · exact .crate
        · exact .own
      · rw [names_of_relative fun s head found => place ⟨s, head, found⟩]
        have above : segments.takeWhile (· = "super".toList) =
            List.replicate (segments.takeWhile (· = "super".toList)).length "super".toList :=
          List.eq_replicate_of_mem fun s there => by
            have same := List.mem_takeWhile_imp there
            exact of_decide_eq_true same
        exact ⟨_, List.takeWhile_append_dropWhile.symm, above ▸ .above _, nofun⟩

/-- A path that is spelled is one of the language unless a keyword stands behind its start. -/
theorem Spelled.wellFormed_iff {p : ItemPath} (spelled : p.Spelled) :
    p.WellFormed ↔ ∀ n ∈ p.names, n ∉ keywords := by
  constructor
  · rintro ⟨-, start, rest, parts, starts, top, own⟩ n there
    exact (identifier_eq_self_iff.mp (own n (names_subset parts starts top there))).2
  · intro free
    obtain ⟨start, parts, starts, top⟩ := exists_start p
    refine ⟨spelled.some, start, p.names, parts, starts, top, fun n there => ?_⟩
    have word := spelled.words n (parts ▸ List.mem_append_right start there)
    exact identifier_eq_self_iff.mpr ⟨word, free n there⟩

end ItemPath

/-- A text that is a path of the language. -/
def IsPath (t : Text) : Prop := ∃ p : ItemPath, p.WellFormed ∧ t = p.text

theorem isPath_text_iff {p : ItemPath} (spelled : p.Spelled) :
    IsPath p.text ↔ ∀ n ∈ p.names, n ∉ keywords := by
  rw [← spelled.wellFormed_iff]
  constructor
  · rintro ⟨q, wellFormed, same⟩
    have equal : p = q := by rw [← spelled.ofText_text, same, wellFormed.spelled.ofText_text]
    exact equal ▸ wellFormed
  · exact fun wellFormed => ⟨p, wellFormed, rfl⟩

theorem isDigit_of_isAlpha {c : Char} (letter : c.isAlpha = true) : c.isDigit = false := by
  have between := Text.ascii_of_isAlpha letter
  refine eq_false_of_ne_true fun digit => ?_
  obtain ⟨-, below⟩ := Char.isDigit_iff_toNat.mp digit
  have nine : '9'.toNat = 0x39 := rfl
  omega

theorem isItemSegment_iff {s : Text} : isItemSegment s = true ↔ Word s := by
  cases s with
  | nil => exact iff_of_false Bool.false_ne_true fun word => word.present rfl
  | cons c rest =>
      simp only [isItemSegment, Bool.and_eq_true, Bool.or_eq_true, beq_iff_eq, bne_iff_ne,
        List.all_eq_true, Accessors.isIdentifierChar_iff]
      constructor
      · rintro ⟨⟨first, others⟩, more⟩
        refine ⟨List.cons_ne_nil _ _, List.forall_mem_cons.mpr ⟨?_, others⟩, ?_, more⟩
        · refine first.symm.imp_left fun letter => ?_
          rw [Char.isAlphanum, letter, Bool.true_or]
        · intro c' head
          cases head
          rcases first with rfl | letter
          · decide
          · exact isDigit_of_isAlpha letter
      · intro word
        obtain ⟨first, others⟩ := List.forall_mem_cons.mp word.chars
        refine ⟨⟨first.symm.imp_right fun sign => ?_, others⟩, word.more⟩
        rwa [Char.isAlphanum, word.noDigit c rfl, Bool.or_false] at sign

theorem isItemPath_iff {t : Text} : isItemPath t = true ↔ (ItemPath.ofText t).Spelled := by
  rw [isItemPath, List.all_eq_true]
  simp only [isItemSegment_iff]
  exact ⟨fun words => ⟨ItemPath.ofText_segments_ne_nil t, words⟩, fun spelled => spelled.words⟩

theorem isItemPath_of_isValid {s : Settings} (valid : s.isValid = true) :
    isItemPath s.resourcesPath = true ∧ isItemPath s.runtimeCrate = true := by
  have nothing : s.errors = [] := List.isEmpty_iff.mp valid
  simp only [errors, List.append_eq_nil_iff, ite_eq_left_iff, List.cons_ne_nil, imp_false,
    Decidable.not_not] at nothing
  exact ⟨nothing.1.1.2, nothing.1.2⟩

/-- The two paths that valid settings give to generated source, the one of the resources and the one
of the runtime crate, made absolute where it is a bare name. Each is words between double colons,
perhaps behind double colons. It is a path of the language exactly when no keyword stands behind its
start, which is the crate, the own module or modules above in a path that is not absolute. -/
theorem paths_of_valid {s : Settings} (valid : s.isValid = true) :
    ∃ resources crate : ItemPath,
      (resources.Spelled ∧ s.resourcesPath = resources.text) ∧
      (crate.Spelled ∧ s.runtimeCrate = crate.text) ∧
      (crate.absolute.Spelled ∧ s.options.runtimePath = crate.absolute.text) ∧
      (IsPath s.resourcesPath ↔ ∀ n ∈ resources.names, n ∉ keywords) ∧
      (IsPath s.options.runtimePath ↔ ∀ n ∈ crate.absolute.names, n ∉ keywords) := by
  obtain ⟨resources, crate⟩ := isItemPath_of_isValid valid
  rw [isItemPath_iff] at resources crate
  have toResources := (ItemPath.text_ofText s.resourcesPath).symm
  have toCrate := (ItemPath.text_ofText s.runtimeCrate).symm
  have toRuntime := crate.runtimePath_eq (o := s.options) toCrate
  refine ⟨_, _, ⟨resources, toResources⟩, ⟨crate, toCrate⟩, ⟨crate.absolute, toRuntime⟩, ?_, ?_⟩
  · have decided := isPath_text_iff resources
    rwa [← toResources] at decided
  · rw [toRuntime]
    exact isPath_text_iff crate.absolute

/-- Settings with resources two modules above and a bare crate. -/
def nested : Settings := { Settings.default with resourcesPath := "super::super::TEXTS".toList }

theorem paths_of_valid_nested :
    nested.isValid = true ∧ IsPath "super::super::TEXTS".toList ∧
      nested.options.runtimePath = "::echoes".toList ∧ IsPath "::echoes".toList := by
  have valid : nested.isValid = true := by decide +kernel
  obtain ⟨resources, crate, ⟨spelled, written⟩, ⟨spelled', written'⟩, ⟨-, runtime⟩, isPath,
    isPath'⟩ := paths_of_valid valid
  have same : resources = ⟨false, ["super".toList, "super".toList, "TEXTS".toList]⟩ := by
    rw [← spelled.ofText_text, ← written]
    decide +kernel
  have same' : crate = ⟨false, ["echoes".toList]⟩ := by
    rw [← spelled'.ofText_text, ← written']
    decide +kernel
  subst same same'
  exact ⟨valid, isPath.mpr (by decide +kernel), runtime, isPath'.mpr (by decide +kernel)⟩

/-- Settings that name an item by a keyword, and the crate itself as the crate of the library. -/
def keyworded : Settings :=
  { Settings.default with
    resourcesPath := "crate::type".toList
    runtimeCrate := "crate".toList }

theorem keywords_taken_for_names :
    keyworded.isValid = true ∧ ¬ IsPath keyworded.resourcesPath ∧
      keyworded.options.runtimePath = "::crate".toList ∧
      ¬ IsPath keyworded.options.runtimePath := by
  have item : (⟨false, ["crate".toList, "type".toList]⟩ : ItemPath).Spelled :=
    ⟨List.cons_ne_nil _ _, by decide +kernel⟩
  have top : (⟨true, ["crate".toList]⟩ : ItemPath).Spelled :=
    ⟨List.cons_ne_nil _ _, by decide +kernel⟩
  exact ⟨by decide +kernel, fun path => absurd ((isPath_text_iff item).mp path) (by decide +kernel),
    rfl, fun path => absurd ((isPath_text_iff top).mp path) (by decide +kernel)⟩

end Phrasebook.Settings
