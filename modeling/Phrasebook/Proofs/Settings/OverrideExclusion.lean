import Phrasebook.Proofs.Glob.Matching
import Phrasebook.Proofs.Resources.Overrides
import Phrasebook.Proofs.Settings.Validity

/-! What overrides take away from the documents. The directory of the copies is excluded by a pattern
that is a text, so it is what the text says: written with its names and nothing between them but
single slashes, the directory is excluded with all that is below it; a segment that does not count
as a component, but is written, lets the pattern exclude nothing; and names that are no text are
taken for what is shown of them. -/
namespace Phrasebook

open Ignore (pathAt)
open Phrasebook.Path (bodyComponents component? isBlank slash PlainPlace)

def Settings.withoutOverrides (s : Settings) : Settings :=
  { s with fileOverrides := { s.fileOverrides with enabled := false } }

namespace OverrideSettings

/-- The path of the override directory below the project: a relative one as it is, and what is left
of an absolute one. -/
def relative? (root : Path) (o : OverrideSettings) : Option Path :=
  if Path.isAbsolute o.root then Path.relativeTo root o.root else some o.root

/-- The override directory is named, however it is spelled, by these names below the project. -/
structure LiesAt (root : Path) (o : OverrideSettings) (names : List Bytes) : Prop where
  path : ∃ relative, o.relative? root = some relative ∧
    relative.components.filter (· ≠ .current) = names.map .named
  proper : names ≠ []

end OverrideSettings

/-! ### Components of text -/

namespace Path

open Utf8 (encode)

/-- A name as it is shown, with replacement characters for what is no text. -/
def shown (name : Bytes) : Bytes := encode (toText name)

theorem shown_encode (t : Text) : shown (encode t) = encode t := by
  rw [shown, toText, Utf8.decodeLossy_encode]

/-- Only what is text is shown as a text without replacement characters. -/
theorem shown_eq_iff {name : Bytes} {t : Text} (clear : '\uFFFD' ∉ t) :
    shown name = encode t ↔ name = encode t :=
  Utf8.encode_injective.eq_iff.trans (Utf8.decodeLossy_eq_iff clear)

def Component.shown : Component → Component
  | named name => named (Path.shown name)
  | c => c

theorem component?_shown (segment : Bytes) :
    component? (shown segment) = (component? segment).map Component.shown := by
  have empty : shown segment = [] ↔ segment = [] := shown_eq_iff (t := []) (by decide)
  have one : shown segment = [dot] ↔ segment = [dot] := shown_eq_iff (t := ['.']) (by decide)
  have two : shown segment = [dot, dot] ↔ segment = [dot, dot] :=
    shown_eq_iff (t := ['.', '.']) (by decide)
  simp only [component?, empty, one, two]
  split_ifs <;> rfl

theorem toText_pathAt (segments : List Bytes) :
    toText (pathAt segments) = Text.joinWith '/' (segments.map toText) := by
  induction segments with
  | nil => rfl
  | cons first rest ih =>
      by_cases more : rest = []
      · subst more
        rw [pathAt_singleton, List.map_singleton, Text.joinWith, List.intercalate_singleton]
      · have moreText : rest.map toText ≠ [] := fun none => more (List.map_eq_nil_iff.mp none)
        rw [pathAt_cons more, List.map_cons, Text.joinWith,
          List.intercalate_cons_of_ne_nil moreText, List.append_assoc]
        exact (Utf8.decodeLossy_append_ascii first (pathAt rest) (by decide)).trans
          (congrArg (toText first ++ '/' :: ·) ih)

theorem splitOn_toText (p : Path) : (toText p).splitOn '/' = (p.splitOn slash).map toText := by
  have whole : ∀ part ∈ (p.splitOn slash).map toText, '/' ∉ part := by
    intro part there inside
    obtain ⟨segment, found, rfl⟩ := List.mem_map.mp there
    exact Cut.not_mem_segment found
      (Utf8.mem_of_mem_decodeLossy (c := '/') (by decide) (by decide) inside)
  have some : (p.splitOn slash).map toText ≠ [] := fun none =>
    List.splitOn_ne_nil slash p (List.map_eq_nil_iff.mp none)
  have spelled : pathAt (p.splitOn slash) = p := List.intercalate_splitOn slash
  calc (toText p).splitOn '/'
    _ = (toText (pathAt (p.splitOn slash))).splitOn '/' := by rw [spelled]
    _ = (Text.joinWith '/' ((p.splitOn slash).map toText)).splitOn '/' := by rw [toText_pathAt]
    _ = (p.splitOn slash).map toText := List.splitOn_intercalate '/' whole some

theorem bodyComponents_toText (p : Path) :
    bodyComponents (encode (toText p)) = (bodyComponents p).map Component.shown := by
  rw [bodyComponents, Utf8.splitOn_encode, splitOn_toText, List.map_map, List.filterMap_map,
    bodyComponents, List.map_filterMap]
  exact List.filterMap_congr fun segment _ => component?_shown segment

theorem bodyComponents_dropDotSlashes (s : Text) :
    bodyComponents (encode (Resource.dropDotSlashes s)) = bodyComponents (encode s) := by
  fun_induction Resource.dropDotSlashes s with
  | case1 rest ih => exact ih.trans (bodyComponents_append [dot] (encode rest)).symm
  | case2 s => rfl

theorem bodyComponents_slashes {slashes : Text} (all : ∀ c ∈ slashes, (c == '/') = true)
    (s : Text) : bodyComponents (encode (slashes ++ s)) = bodyComponents (encode s) := by
  induction slashes with
  | nil => rfl
  | cons c rest ih =>
      obtain ⟨here, later⟩ := List.forall_mem_cons.mp all
      obtain rfl := beq_iff_eq.mp here
      exact (bodyComponents_slash _).trans (ih later)

theorem bodyComponents_before_slashes {slashes : Text} (all : ∀ c ∈ slashes, (c == '/') = true)
    (s : Text) : bodyComponents (encode (s ++ slashes)) = bodyComponents (encode s) := by
  cases slashes with
  | nil => rw [List.append_nil]
  | cons c rest =>
      obtain ⟨here, later⟩ := List.forall_mem_cons.mp all
      obtain rfl := beq_iff_eq.mp here
      have none : bodyComponents (encode rest) = [] := by
        have empty := bodyComponents_slashes later []
        rwa [List.append_nil] at empty
      rw [Utf8.encode_append]
      refine (bodyComponents_append _ (encode rest)).trans ?_
      rw [none, List.append_nil]

theorem bodyComponents_trim (s : Text) :
    bodyComponents (encode (Cut.trim (· == '/') s)) = bodyComponents (encode s) := by
  obtain ⟨before, after, spelled, front, back⟩ := Cut.exists_trim (· == '/') s
  conv_rhs => rw [spelled]
  rw [bodyComponents_before_slashes back, bodyComponents_slashes front]

theorem name_of_component? {segment name : Bytes} (h : component? segment = some (.named name)) :
    segment = name := by
  rw [component?] at h
  split at h
  · cases h
  · split at h
    · cases h
    · cases h
      rfl

theorem filter_of_components {segments names : List Bytes}
    (h : segments.filterMap component? = names.map .named) :
    segments.filter (fun s => !isBlank s) = names := by
  induction segments generalizing names with
  | nil =>
      rw [List.filterMap_nil] at h
      exact (List.map_eq_nil_iff.mp h.symm).symm
  | cons s rest ih =>
      cases counts : component? s with
      | none =>
          have blank : isBlank s = true := Option.isNone_iff_eq_none.mpr counts
          rw [List.filterMap_cons_none counts] at h
          rw [List.filter_cons_of_neg (by simp [blank]), ih h]
      | some c =>
          have present : isBlank s = false := by rw [isBlank, counts]; rfl
          rw [List.filterMap_cons_some counts] at h
          obtain ⟨n, others, rfl, rfl, later⟩ := List.map_eq_cons_iff.mp h.symm
          rw [List.filter_cons_of_pos (by simp [present]), ih later.symm, name_of_component? counts]

/-- A path goes on behind a directory where its names go on behind those of the directory. -/
theorem prefix_pathAt_iff {segments place : List Bytes} (some : segments ≠ [])
    (whole : ∀ s ∈ segments, slash ∉ s) (plain : PlainPlace place) :
    pathAt segments ++ [slash] <+: pathAt place ↔ ∃ rest ≠ [], place = segments ++ rest := by
  constructor
  · rintro ⟨behind, spelled⟩
    refine ⟨behind.splitOn slash, List.splitOn_ne_nil _ _, ?_⟩
    rw [← plain.splitOn_pathAt, ← spelled, List.append_assoc, List.singleton_append,
      List.splitOn_append_cons_self]
    exact congrArg (· ++ _) (List.splitOn_intercalate slash whole some)
  · rintro ⟨rest, more, rfl⟩
    rw [pathAt_append some more]
    exact ⟨pathAt rest, by rw [List.append_assoc, List.singleton_append]⟩

end Path

namespace OverrideSettings

variable {root : Path} {o : OverrideSettings} {names : List Bytes}

theorem LiesAt.exists_relative (lies : LiesAt root o names) :
    ∃ relative, o.relative? root = some relative ∧ Path.isAbsolute relative = false ∧
      bodyComponents relative = names.map .named := by
  obtain ⟨relative, found, named⟩ := lies.path
  refine ⟨relative, found, ?_⟩
  cases absolute : Path.isAbsolute relative with
  | false => exact ⟨rfl, by rw [← named, Path.filter_components absolute]⟩
  | true =>
      -- the root would be among the components
      obtain ⟨rest, rfl⟩ := List.head?_eq_some_iff.mp (beq_iff_eq.mp absolute)
      cases names <;> cases named

/-- What is below the project is made of segments of the directory. -/
theorem segments_of_relative? {relative : Path} (found : o.relative? root = some relative)
    (proper : Path.isAbsolute relative = false) :
    ∀ segment ∈ relative.splitOn slash, segment ∈ o.root.splitOn slash := by
  rw [relative?] at found
  split at found
  · rename_i absolute
    obtain ⟨rest, spelled⟩ := List.head?_eq_some_iff.mp (beq_iff_eq.mp absolute)
    rw [spelled] at found ⊢
    obtain ⟨segments, among, rfl⟩ :=
      (Path.relativeTo_absolute found).resolve_left (ne_true_of_eq_false proper)
    have written : (slash :: rest).splitOn slash = [] :: rest.splitOn slash :=
      List.splitOn_append_cons_self [] rest
    have whole : ∀ s ∈ segments, slash ∉ s := fun s hs => Cut.not_mem_segment (among.mem hs)
    rw [written]
    intro segment there
    by_cases none : segments = []
    · subst none
      exact List.mem_cons.mpr (.inl (List.mem_singleton.mp there))
    · have spelled : (pathAt segments).splitOn slash = segments :=
        List.splitOn_intercalate slash whole none
      rw [spelled] at there
      exact List.mem_cons_of_mem _ (among.mem there)
  · cases found
    exact fun segment there => there

/-- What is below the project of a directory that is shown without backslashes is shown so. -/
theorem clear_of_relative? (separated : '\\' ∉ o.root.toText) {relative : Path}
    (found : o.relative? root = some relative) (proper : Path.isAbsolute relative = false) :
    '\\' ∉ relative.toText := by
  intro there
  have joined : relative.toText = Text.joinWith '/' ((relative.splitOn slash).map Path.toText) := by
    rw [← Path.splitOn_toText]
    exact (List.intercalate_splitOn '/').symm
  rw [joined] at there
  rcases Text.mem_joinWith there with impossible | ⟨part, hpart, inside⟩
  · cases impossible
  · obtain ⟨segment, written, rfl⟩ := List.mem_map.mp hpart
    have ofRoot : Path.toText segment ∈ o.root.toText.splitOn '/' := by
      rw [Path.splitOn_toText]
      exact List.mem_map_of_mem (segments_of_relative? found proper segment written)
    exact separated (Text.mem_of_mem_segment ofRoot inside)

theorem LiesAt.shown_eq (lies : LiesAt root o names) {t : Text} (isText : o.root = Utf8.encode t) :
    names.map Path.shown = names := by
  obtain ⟨relative, found, proper, named⟩ := lies.exists_relative
  have segments := Path.filter_of_components named
  refine (List.map_congr_left fun name there => ?_).trans (List.map_id names)
  rw [← segments, List.mem_filter] at there
  have ofRoot := segments_of_relative? found proper name there.1
  rw [isText, Utf8.splitOn_encode] at ofRoot
  obtain ⟨part, -, rfl⟩ := List.mem_map.mp ofRoot
  exact Path.shown_encode part

end OverrideSettings

namespace DocumentFilter

open OverrideSettings (LiesAt)

variable {root : Path} {s : Settings} {f : DocumentFilter} {names : List Bytes}

/-- The directory is written as it is shown, with what does not count at the ends cut off. -/
theorem overrideDir?_of_relative {o : OverrideSettings} {relative : Path}
    (clear : '\\' ∉ relative.toText) (found : o.relative? root = some relative)
    (present : Cut.trim (· == '/') (Resource.dropDotSlashes relative.toText) ≠ [])
    (notDot : Cut.trim (· == '/') (Resource.dropDotSlashes relative.toText) ≠ ['.']) :
    overrideDir? root o =
      some (Cut.trim (· == '/') (Resource.dropDotSlashes relative.toText)) := by
  change ((o.relative? root).map _).filter _ = _
  rw [found, Option.map_some, Resource.normalize_of_not_mem clear, Option.filter_some]
  exact if_pos (by simp [present, notDot])

/-- An override directory that lies below the project is written with its names and, it may be, with
segments that do not count. -/
theorem exists_overrideDir? {o : OverrideSettings} (lies : LiesAt root o names)
    (separated : '\\' ∉ o.root.toText) : ∃ dir, overrideDir? root o = some dir ∧ '\\' ∉ dir ∧
      ((Text.segments '/' dir).map Utf8.encode).filter (fun part => !isBlank part) =
        names.map Path.shown := by
  obtain ⟨relative, found, proper, named⟩ := lies.exists_relative
  have clear := OverrideSettings.clear_of_relative? separated found proper
  have components : bodyComponents (Utf8.encode
      (Cut.trim (· == '/') (Resource.dropDotSlashes relative.toText))) =
        (names.map Path.shown).map .named := by
    rw [Path.bodyComponents_trim, Path.bodyComponents_dropDotSlashes, Path.bodyComponents_toText,
      named, List.map_map, List.map_map]
    rfl
  have some : (names.map Path.shown).map Path.Component.named ≠ [] := fun none =>
    lies.proper (List.map_eq_nil_iff.mp (List.map_eq_nil_iff.mp none))
  refine ⟨Cut.trim (· == '/') (Resource.dropDotSlashes relative.toText), ?_, ?_, ?_⟩
  · apply overrideDir?_of_relative clear found
    all_goals
      intro nothing
      rw [nothing] at components
      exact some components.symm
  · exact fun there => clear (mem_of_mem_dropDotSlashes (mem_of_mem_trim there))
  · apply Path.filter_of_components
    rw [← components, bodyComponents, Utf8.splitOn_encode]

/-- A relative directory as its names with slashes between them, dots in front and slashes
behind. -/
def spelling (dots : Nat) (parts : List Text) (slashes : Nat) : Text :=
  (List.replicate dots "./".toList).flatten ++ Text.joinWith '/' parts ++ List.replicate slashes '/'

theorem dropDotSlashes_dots (dots : Nat) (s : Text) : Resource.dropDotSlashes
    ((List.replicate dots "./".toList).flatten ++ s) = Resource.dropDotSlashes s := by
  induction dots with
  | zero => rfl
  | succ dots ih =>
      rw [List.replicate_succ, List.flatten_cons, List.append_assoc]
      exact ih

section Spelled

variable {parts : List Text} (some : parts ≠ []) (whole : ∀ part ∈ parts, '/' ∉ part)
  (counts : ∀ part ∈ parts, part ≠ [] ∧ part ≠ ['.'])

include some whole

theorem segments_joinWith : Text.segments '/' (Text.joinWith '/' parts) = parts :=
  List.splitOn_intercalate '/' whole some

include counts

theorem dropDotSlashes_joinWith (slashes : Nat) :
    Resource.dropDotSlashes (Text.joinWith '/' parts ++ List.replicate slashes '/') =
      Text.joinWith '/' parts ++ List.replicate slashes '/' := by
  have segments : ∃ more, (Text.joinWith '/' parts ++ List.replicate slashes '/').splitOn '/' =
      parts ++ more := by
    cases slashes with
    | zero => exact ⟨[], by simpa using segments_joinWith some whole⟩
    | succ slashes =>
        refine ⟨(List.replicate slashes '/').splitOn '/', ?_⟩
        rw [List.replicate_succ, List.splitOn_append_cons_self]
        exact congrArg (· ++ _) (segments_joinWith some whole)
  obtain ⟨more, segments⟩ := segments
  obtain ⟨first, rest, rfl⟩ := List.exists_cons_of_ne_nil some
  have noDot : first ≠ ['.'] := (counts first List.mem_cons_self).2
  apply Cut.splitOn_injective '/'
  calc (Resource.dropDotSlashes _).splitOn '/'
    _ = Resource.withoutDots (first :: rest ++ more) := by
      rw [← segments]
      exact Resource.segments_dropDotSlashes _
    _ = first :: rest ++ more := Resource.withoutDots_of_ne noDot (rest ++ more)
    _ = _ := segments.symm

theorem trim_joinWith : Cut.trim (· == '/') (Text.joinWith '/' parts) = Text.joinWith '/' parts := by
  have present : [] ∉ Text.segments '/' (Text.joinWith '/' parts) := by
    rw [segments_joinWith some whole]
    exact fun there => (counts [] there).1 rfl
  apply Cut.trim_eq_self
  · intro c rest spelled slashed
    obtain rfl := beq_iff_eq.mp slashed
    have first := List.splitOn_append_cons_self [] rest (a := '/')
    rw [spelled] at present
    exact present (by rw [Text.segments]; exact first ▸ List.mem_cons_self)
  · intro c rest spelled slashed
    obtain rfl := beq_iff_eq.mp slashed
    rw [spelled, Text.segments, List.splitOn_append_cons_self] at present
    exact present (List.mem_append_right _ (List.mem_singleton_self _))

theorem isAbsolute_spelling (dots slashes : Nat) :
    Path.isAbsolute (Utf8.encode (spelling dots parts slashes)) = false := by
  refine eq_false_of_ne_true fun absolute => ?_
  obtain ⟨rest, spelled⟩ := Utf8.head_of_encode (c := '/') (by decide) (beq_iff_eq.mp absolute)
  cases dots with
  | zero =>
      obtain ⟨first, others, rfl⟩ := List.exists_cons_of_ne_nil some
      obtain ⟨c, name, rfl⟩ := List.exists_cons_of_ne_nil (counts first List.mem_cons_self).1
      have front : c = '/' := by
        have head := congrArg List.head? spelled
        cases others <;> simpa [spelling, Text.joinWith, List.intercalate_cons_cons] using head
      exact whole _ List.mem_cons_self (front ▸ List.mem_cons_self)
  | succ dots => cases spelled

theorem overrideDir?_spelling (root : Path) {o : OverrideSettings}
    (separated : '\\' ∉ o.root.toText) {dots slashes : Nat}
    (spelled : o.root = Path.ofText (spelling dots parts slashes)) :
    overrideDir? root o = Option.some (Text.joinWith '/' parts) := by
  have trimmed : Cut.trim (· == '/') (Resource.dropDotSlashes o.root.toText) =
      Text.joinWith '/' parts := by
    have slashed : ∀ c ∈ List.replicate slashes '/', (c == '/') = true := fun c there =>
      beq_iff_eq.mpr (List.eq_of_mem_replicate there)
    have padded := Cut.trim_padded (List.forall_mem_nil _) slashed (Text.joinWith '/' parts)
    rw [spelled, Path.toText, Path.ofText, Utf8.decodeLossy_encode, spelling, List.append_assoc,
      dropDotSlashes_dots, dropDotSlashes_joinWith some whole counts]
    exact padded.trans (trim_joinWith some whole counts)
  have relative : o.relative? root = Option.some o.root := by
    have notAbsolute := isAbsolute_spelling some whole counts dots slashes
    exact if_neg (ne_true_of_eq_false (spelled ▸ notAbsolute))
  have segments := segments_joinWith some whole
  rw [← trimmed] at segments ⊢
  apply overrideDir?_of_relative separated relative
  · intro empty
    rw [empty] at segments
    exact (counts [] (segments ▸ List.mem_cons_self)).1 rfl
  · intro dotted
    rw [dotted] at segments
    exact (counts ['.'] (segments ▸ List.mem_cons_self)).2 rfl

end Spelled

theorem readPatterns_concat (setting : Text) (patterns : List Text) {last : Text} {p : Glob.Pattern}
    (read : Glob.parse false last = .ok p) :
    readPatterns setting (patterns ++ [last]) = (readPatterns setting patterns).map (· ++ [p]) := by
  induction patterns with
  | nil =>
      rw [List.nil_append, readPatterns.eq_2, read]
      rfl
  | cons first rest ih =>
      rw [List.cons_append, readPatterns, readPatterns, ih]
      cases Glob.parse false first with
      | error fault => rfl
      | ok q => cases readPatterns setting rest <;> rfl

theorem ofSettings_enabled (chosen : ofSettings root s = .ok f)
    (enabled : s.fileOverrides.enabled = true) {dir : Text}
    (written : overrideDir? root s.fileOverrides = some dir) (unescaped : '\\' ∉ dir) :
    ∃ f₀, ofSettings root s.withoutOverrides = .ok f₀ ∧ f₀.root = root ∧
      f = { f₀ with excluded := f₀.excluded ++ [dir.map Glob.escapedToken ++ [.everythingBelow]] } := by
  have pattern : overridePattern? root s.fileOverrides = some (Glob.escape dir ++ "/**".toList) := by
    rw [overridePattern?, if_pos enabled, written]
    rfl
  have none : overridePattern? root s.withoutOverrides.fileOverrides = none := rfl
  rw [ofSettings, pattern, Option.toList_some,
    readPatterns_concat _ _ (Glob.parse_escape_below unescaped)] at chosen
  rw [ofSettings, none, Option.toList_none, List.append_nil]
  change ∃ f₀, (readPatterns _ s.includePatterns >>= fun included =>
    readPatterns _ s.excludePatterns >>= fun excluded => _) = _ ∧ _
  cases included : readPatterns Settings.includeField s.includePatterns with
  | error e =>
      rw [included] at chosen
      cases chosen
  | ok inc =>
      cases excluded : readPatterns Settings.excludeField s.excludePatterns with
      | error e =>
          rw [included, excluded] at chosen
          cases chosen
      | ok exc =>
          rw [included, excluded] at chosen
          cases chosen
          exact ⟨⟨root, inc, exc⟩, rfl, rfl, rfl⟩

/-- A document is one without overrides, and not one that goes on behind the override directory. -/
theorem isDocument_excluding (f₀ : DocumentFilter) (dir : Text) {p relative : Path}
    (below : Path.relativeTo f₀.root p = some relative) :
    ({ f₀ with excluded := f₀.excluded ++ [dir.map Glob.escapedToken ++ [.everythingBelow]] } :
      DocumentFilter).isDocument p = true ↔
      f₀.isDocument p = true ∧ ¬ Utf8.encode dir ++ [slash] <+: relative := by
  have split : ∀ excluded q, matchesAny (excluded ++ [q]) relative =
      (matchesAny excluded relative || Glob.isMatchInSet options q relative) := by
    intro excluded q
    simp only [matchesAny, List.any_append, List.any_cons, List.any_nil, Bool.or_false]
  simp only [isDocument, below, split, ← Glob.isMatchInSet_below (o := options) rfl,
    Bool.and_eq_true, Bool.not_or, Bool.not_eq_true', Bool.not_eq_true, and_assoc]

section Written

variable {dir : Text}
  (counts : ((Text.segments '/' dir).map Utf8.encode).filter (fun part => !isBlank part) = names)

include counts

/-- A place lies below a written directory exactly when that is written with its names alone and the
place goes on behind them: no segment of a place is blank. -/
theorem below_written_iff {place : List Bytes} (plain : PlainPlace place) :
    Utf8.encode dir ++ [slash] <+: pathAt place ↔
      (Text.segments '/' dir).map Utf8.encode = names ∧ ∃ rest ≠ [], place = names ++ rest := by
  rw [Utf8.encode_eq_pathAt, Path.prefix_pathAt_iff (Utf8.encode_segments_ne_nil dir)
    Utf8.slash_not_mem_encode_segment plain]
  constructor
  · rintro ⟨rest, more, rfl⟩
    have all : ∀ part ∈ (dir.splitOn '/').map Utf8.encode, (!isBlank part) = true := by
      intro part there
      rw [(plain.plain part (List.mem_append_left _ there)).isBlank_eq]
      rfl
    have same := (List.filter_eq_self.mpr all).symm.trans counts
    exact ⟨same, rest, more, by rw [same]⟩
  · rintro ⟨same, rest, more, rfl⟩
    exact ⟨rest, more, by rw [← same]⟩

/-- A relative directory that is spelled by its names is written with them alone. -/
theorem segments_of_spelling {o : OverrideSettings} (written : overrideDir? root o = some dir)
    (separated : '\\' ∉ o.root.toText) (proper : names ≠ []) {dots slashes : Nat}
    {parts : List Text} (spelled : o.root = Path.ofText (spelling dots parts slashes))
    (named : parts.map Utf8.encode = names) :
    Text.segments '/' dir = parts := by
  have counted : ∀ part ∈ parts, isBlank (Utf8.encode part) = false ∧ slash ∉ Utf8.encode part := by
    intro part there
    have among := List.mem_map_of_mem (f := Utf8.encode) there
    rw [named, ← counts, List.mem_filter, Bool.not_eq_true'] at among
    exact ⟨among.2, Utf8.slash_not_mem_encode_segment _ among.1⟩
  have some : parts ≠ [] := by
    rintro rfl
    exact proper named.symm
  have oneName : ∀ part ∈ parts, '/' ∉ part := fun part there inside =>
    (counted part there).2 (List.mem_flatMap.mpr ⟨'/', inside, List.mem_cons_self⟩)
  have present : ∀ part ∈ parts, part ≠ [] ∧ part ≠ ['.'] := by
    intro part there
    have notBlank := (counted part there).1
    constructor <;> rintro rfl <;> cases notBlank
  have same := (overrideDir?_spelling some oneName present root separated spelled).symm.trans written
  rw [← Option.some.inj same]
  exact segments_joinWith some oneName

end Written

/-- Overrides take those documents away that are below the directory of the copies, as long as the
directory is written, apart from dots in front and slashes at both ends, with its names and a slash
between them; such is every relative directory with nothing else than that. Where a segment that
does not count is written between names, they take nothing away. A directory with names that are no
text is taken for the one with the names that are shown. -/
theorem copies_are_no_documents (chosen : ofSettings root s = .ok f)
    (enabled : s.fileOverrides.enabled = true) (lies : LiesAt root s.fileOverrides names)
    (separated : '\\' ∉ s.fileOverrides.root.toText) :
    ∃ f₀ dir, ofSettings root s.withoutOverrides = .ok f₀ ∧
      overrideDir? root s.fileOverrides = some dir ∧
      ((Text.segments '/' dir).map Utf8.encode).filter (fun part => !isBlank part) =
        names.map Path.shown ∧
      (∀ t, s.fileOverrides.root = Path.ofText t → names.map Path.shown = names) ∧
      (∀ dots parts slashes, s.fileOverrides.root = Path.ofText (spelling dots parts slashes) →
        parts.map Utf8.encode = names → Text.segments '/' dir = parts) ∧
      ∀ p place, PlainPlace place → Path.relativeTo root p = some (pathAt place) →
        (f.isDocument p = true ↔ f₀.isDocument p = true ∧
          ¬ ((Text.segments '/' dir).map Utf8.encode = names.map Path.shown ∧
            ∃ rest ≠ [], place = names.map Path.shown ++ rest)) := by
  obtain ⟨dir, written, unescaped, counts⟩ := exists_overrideDir? lies separated
  obtain ⟨f₀, without, rooted, rfl⟩ := ofSettings_enabled chosen enabled written unescaped
  refine ⟨f₀, dir, without, written, counts, fun t isText => lies.shown_eq isText, ?spelled, ?exact⟩
  case spelled =>
    intro dots parts slashes spelled named
    rw [lies.shown_eq spelled] at counts
    exact segments_of_spelling counts written separated lies.proper spelled named
  case exact =>
    intro p place plain below
    rw [← rooted] at below
    rw [isDocument_excluding f₀ dir below, below_written_iff counts plain]

/-- Settings with copies in this directory. -/
def copying (dir : Text) : Settings :=
  { Settings.default with fileOverrides := ⟨true, Path.ofText dir⟩ }

def projectRoot : Path := Path.ofText "/project".toList

def germanCopies : List Bytes := [Utf8.encode "copies".toList, Utf8.encode "de".toList]

def copyOf (name : Text) : Path :=
  Path.join projectRoot (pathAt (germanCopies ++ [Utf8.encode name]))

theorem liesAt_copies {dir : Text} (relative : Path)
    (found : (copying dir).fileOverrides.relative? projectRoot = some relative)
    (named : relative.components.filter (· ≠ .current) = germanCopies.map .named) :
    LiesAt projectRoot (copying dir).fileOverrides germanCopies :=
  ⟨⟨relative, found, named⟩, by decide⟩

theorem copies_are_no_documents_spelled : ∃ f,
    ofSettings projectRoot (copying (spelling 1 ["copies".toList, "de".toList] 1)) = .ok f ∧
      (copying (spelling 1 ["copies".toList, "de".toList] 1)).fileOverrides.enabled = true ∧
      LiesAt projectRoot (copying (spelling 1 ["copies".toList, "de".toList] 1)).fileOverrides
        germanCopies ∧
      '\\' ∉ (copying (spelling 1 ["copies".toList, "de".toList] 1)).fileOverrides.root.toText ∧
      f.isDocument (copyOf "strings.toml".toList) = false := by
  have lies : LiesAt projectRoot (copying (spelling 1 ["copies".toList, "de".toList] 1)).fileOverrides
      germanCopies := liesAt_copies (Utf8.encode "./copies/de/".toList) rfl (by decide)
  have separated : '\\' ∉
      (copying (spelling 1 ["copies".toList, "de".toList] 1)).fileOverrides.root.toText := by decide
  obtain ⟨f, found, -⟩ := Option.map_eq_some_iff.mp (show (ofSettings projectRoot
    (copying (spelling 1 ["copies".toList, "de".toList] 1))).toOption.map (fun _ => ()) = some () by
      decide +kernel)
  have chosen := Outcome.eq_ok_of_toOption found
  refine ⟨f, chosen, rfl, lies, separated, ?_⟩
  obtain ⟨f₀, dir, -, -, -, -, spelled, exact⟩ := copies_are_no_documents chosen rfl lies separated
  have plain : PlainPlace (germanCopies ++ [Utf8.encode "strings.toml".toList]) :=
    ⟨by decide, by decide⟩
  refine eq_false_of_ne_true fun document => ?_
  obtain ⟨-, apart⟩ := (exact _ _ plain (by decide +kernel)).mp document
  refine apart ⟨?_, [Utf8.encode "strings.toml".toList], by decide, rfl⟩
  rw [spelled 1 ["copies".toList, "de".toList] 1 rfl rfl]
  rfl

/-- A slash that is written twice lets a copy be a document. -/
theorem repeated_slash_keeps_copies :
    ¬ ∀ (root : Path) (s : Settings) (f : DocumentFilter) (names rest : List Bytes) (p : Path),
      ofSettings root s = .ok f → s.fileOverrides.enabled = true →
      LiesAt root s.fileOverrides names → rest ≠ [] → PlainPlace (names ++ rest) →
      Path.relativeTo root p = some (pathAt (names ++ rest)) → f.isDocument p = false := by
  intro all
  obtain ⟨f, found, document⟩ := Option.map_eq_some_iff.mp (show (ofSettings projectRoot
    (copying "copies//de".toList)).toOption.map (·.isDocument (copyOf "strings.toml".toList)) =
      some true by decide +kernel)
  have lies : LiesAt projectRoot (copying "copies//de".toList).fileOverrides germanCopies :=
    liesAt_copies (Utf8.encode "copies//de".toList) rfl (by decide)
  have excluded := all projectRoot (copying "copies//de".toList) f germanCopies
    [Utf8.encode "strings.toml".toList] (copyOf "strings.toml".toList)
    (Outcome.eq_ok_of_toOption found) rfl lies (by decide) ⟨by decide, by decide⟩ (by decide +kernel)
  rw [document] at excluded
  cases excluded

end DocumentFilter

end Phrasebook
