import Mathlib.Data.List.Basic
import Mathlib.Data.List.DropRight
import Mathlib.Data.List.Lex
import Mathlib.Data.List.TakeWhile
import Phrasebook.Ignore.Walk
import Phrasebook.Proofs.Text.Segments

/-! Paths below a directory. The path of a place below a root is found again whole, whatever the root
and its spelling: its components continue those of the root, what is left of it below a directory at
a known place is spelled by the names that remain, and the order of places is that of their paths. -/
namespace Phrasebook.Path

open Ignore (pathAt)

/-- A name that is a component of its own wherever it stands between slashes. -/
structure Plain (name : Bytes) : Prop where
  present : name ≠ []
  notCurrent : name ≠ [dot]
  notParent : name ≠ [dot, dot]
  whole : slash ∉ name

instance (name : Bytes) : Decidable (Plain name) :=
  decidable_of_iff (name ≠ [] ∧ name ≠ [dot] ∧ name ≠ [dot, dot] ∧ slash ∉ name)
    ⟨fun ⟨present, notCurrent, notParent, whole⟩ => ⟨present, notCurrent, notParent, whole⟩,
      fun ⟨present, notCurrent, notParent, whole⟩ => ⟨present, notCurrent, notParent, whole⟩⟩

/-- A segment that does not count. -/
def isBlank (segment : Bytes) : Bool := (component? segment).isNone

theorem isBlank_iff {segment : Bytes} : isBlank segment = true ↔ segment = [] ∨ segment = [dot] := by
  rw [isBlank, component?]
  split
  · exact iff_of_true rfl ‹_›
  · refine iff_of_false ?_ ‹_›
    split <;> exact Bool.false_ne_true

theorem Plain.component?_eq {name : Bytes} (plain : Plain name) :
    component? name = some (.named name) := by
  rw [component?, if_neg (not_or.mpr ⟨plain.present, plain.notCurrent⟩), if_neg plain.notParent]

theorem Plain.isBlank_eq {name : Bytes} (plain : Plain name) : isBlank name = false := by
  rw [isBlank, plain.component?_eq]
  rfl

theorem pathAt_cons {segment : Bytes} {rest : List Bytes} (more : rest ≠ []) :
    pathAt (segment :: rest) = segment ++ slash :: pathAt rest := by
  rw [pathAt, List.intercalate_cons_of_ne_nil more, List.append_assoc]
  rfl

theorem pathAt_singleton (segment : Bytes) : pathAt [segment] = segment := List.intercalate_singleton

theorem skipEmpty_slash (rest : Path) : skipEmpty (slash :: rest) = skipEmpty rest := by
  rw [skipEmpty.eq_def]
  exact if_pos rfl

theorem skipEmpty_dot_slash (rest : Path) : skipEmpty (dot :: slash :: rest) = skipEmpty rest := by
  rw [skipEmpty.eq_def]
  rfl

theorem skipEmpty_append {segment : Bytes} (counts : isBlank segment = false)
    (whole : slash ∉ segment) (rest : Path) : skipEmpty (segment ++ rest) = segment ++ rest := by
  have counts : ¬ (segment = [] ∨ segment = [dot]) := fun blank =>
    Bool.false_ne_true (counts.symm.trans (isBlank_iff.mpr blank))
  cases segment with
  | nil => exact (counts (.inl rfl)).elim
  | cons b after =>
      have notSlash : b ≠ slash := fun same => whole (same ▸ List.mem_cons_self)
      rw [List.cons_append, skipEmpty.eq_def]
      dsimp only
      rw [if_neg notSlash]
      by_cases dotted : b = dot
      · subst dotted
        cases after with
        | nil => exact (counts (.inr rfl)).elim
        | cons c after =>
            have notSlash : c ≠ slash := fun same =>
              whole (same ▸ List.mem_cons_of_mem _ List.mem_cons_self)
            rw [if_pos rfl]
            exact if_neg notSlash
      · rw [if_neg dotted]

theorem skipEmpty_pathAt {segments : List Bytes} (whole : ∀ s ∈ segments, slash ∉ s) :
    skipEmpty (pathAt segments) = pathAt (segments.dropWhile isBlank) := by
  induction segments with
  | nil => rfl
  | cons s rest ih =>
      obtain ⟨here, later⟩ := List.forall_mem_cons.mp whole
      cases counts : isBlank s with
      | false =>
          rw [List.dropWhile_cons_of_neg (ne_true_of_eq_false counts)]
          by_cases more : rest = []
          · rw [more, pathAt_singleton]
            exact (congrArg skipEmpty (List.append_nil s).symm).trans
              ((skipEmpty_append counts here []).trans (List.append_nil s))
          · rw [pathAt_cons more, skipEmpty_append counts here]
      | true =>
          rw [List.dropWhile_cons_of_pos counts, ← ih later]
          by_cases more : rest = []
          · subst more
            rcases isBlank_iff.mp counts with rfl | rfl <;> rfl
          · rw [pathAt_cons more]
            rcases isBlank_iff.mp counts with rfl | rfl
            · exact skipEmpty_slash _
            · exact skipEmpty_dot_slash _

theorem bne_slash {segment : Bytes} (whole : slash ∉ segment) :
    ∀ b ∈ segment, (b != slash) = true := fun _ hb =>
  bne_iff_ne.mpr fun same => whole (same ▸ hb)

theorem dropWhile_append_slash {segment : Bytes} (whole : slash ∉ segment) (rest : Path) :
    (segment ++ slash :: rest).dropWhile (· != slash) = slash :: rest := by
  rw [List.dropWhile_append_of_pos (bne_slash whole)]
  rfl

theorem dropFirst_pathAt {segments : List Bytes} (whole : ∀ s ∈ segments, slash ∉ s) :
    dropFirst (pathAt segments) = pathAt (segments.dropWhile isBlank).tail := by
  have left : ∀ s ∈ segments.dropWhile isBlank, slash ∉ s := fun s hs =>
    whole s (List.dropWhile_subset _ hs)
  rw [dropFirst, skipEmpty_pathAt whole]
  generalize segments.dropWhile isBlank = segments at left ⊢
  cases segments with
  | nil => rfl
  | cons s rest =>
      have here := left s List.mem_cons_self
      by_cases more : rest = []
      · rw [more, pathAt_singleton, List.dropWhile_eq_nil_iff.2 (bne_slash here)]
        rfl
      · rw [pathAt_cons more, dropWhile_append_slash here]
        rfl

/-- The segments behind so many that count, and behind blank ones. -/
def behind : Nat → List Bytes → List Bytes
  | _, [] => []
  | count, s :: rest =>
    if isBlank s then behind count rest
    else
      match count with
      | 0 => s :: rest
      | count + 1 => behind count rest

theorem behind_cons_of_blank {s : Bytes} (blank : isBlank s = true) (count : Nat)
    (rest : List Bytes) : behind count (s :: rest) = behind count rest := by
  rw [behind.eq_def]
  exact if_pos blank

theorem behind_zero_cons {s : Bytes} (counts : isBlank s = false) (rest : List Bytes) :
    behind 0 (s :: rest) = s :: rest := by
  rw [behind, counts]
  rfl

theorem behind_succ_cons {s : Bytes} (counts : isBlank s = false) (count : Nat)
    (rest : List Bytes) : behind (count + 1) (s :: rest) = behind count rest := by
  rw [behind, counts]
  rfl

theorem dropWhile_isBlank (segments : List Bytes) :
    segments.dropWhile isBlank = behind 0 segments := by
  induction segments with
  | nil => rfl
  | cons s rest ih =>
      cases counts : isBlank s with
      | true => rw [List.dropWhile_cons_of_pos counts, behind_cons_of_blank counts, ih]
      | false =>
          rw [List.dropWhile_cons_of_neg (ne_true_of_eq_false counts), behind_zero_cons counts]

theorem behind_tail (count : Nat) (segments : List Bytes) :
    behind 0 (behind count segments).tail = behind (count + 1) segments := by
  fun_induction behind count segments with
  | case1 => rfl
  | case2 count s rest blank ih => rw [ih, behind_cons_of_blank blank]
  | case3 s rest counts =>
      rw [behind_succ_cons (eq_false_of_ne_true counts), List.tail_cons]
  | case4 s rest counts count ih =>
      rw [ih, behind_succ_cons (eq_false_of_ne_true counts)]

/-- Dropping components one by one leaves what is behind them, blanks apart. -/
theorem skipEmpty_repeat_dropFirst {segments : List Bytes} (whole : ∀ s ∈ segments, slash ∉ s)
    (count : Nat) :
    skipEmpty (Nat.repeat dropFirst count (pathAt segments)) = pathAt (behind count segments) := by
  -- What is left after each drop is spelled by segments again, and only blanks may stand before
  -- what is behind as many components.
  have spelled : ∃ left, (∀ s ∈ left, slash ∉ s) ∧
      Nat.repeat dropFirst count (pathAt segments) = pathAt left ∧
      behind 0 left = behind count segments := by
    induction count with
    | zero => exact ⟨segments, whole, rfl, rfl⟩
    | succ count ih =>
        obtain ⟨left, whole, spelled, same⟩ := ih
        refine ⟨(left.dropWhile isBlank).tail, fun s hs => ?_, ?_, ?_⟩
        · exact whole s (List.dropWhile_subset _ (List.mem_of_mem_tail hs))
        · rw [Nat.repeat, spelled, dropFirst_pathAt whole]
        · rw [dropWhile_isBlank, behind_tail, ← behind_tail count, ← same, behind_tail]
  obtain ⟨left, whole, spelled, same⟩ := spelled
  rw [spelled, skipEmpty_pathAt whole, dropWhile_isBlank, same]

theorem behind_of_plain {names : List Bytes} (plain : ∀ n ∈ names, Plain n) (count : Nat) :
    behind count names = names.drop count := by
  induction names generalizing count with
  | nil => rw [behind, List.drop_nil]
  | cons n rest ih =>
      obtain ⟨here, later⟩ := List.forall_mem_cons.mp plain
      cases count with
      | zero => exact behind_zero_cons here.isBlank_eq rest
      | succ count => exact (behind_succ_cons here.isBlank_eq count rest).trans (ih later count)

theorem behind_append (before : List Bytes) {names : List Bytes} (plain : ∀ n ∈ names, Plain n)
    (count : Nat) :
    behind ((before.filterMap component?).length + count) (before ++ names) =
      names.drop count := by
  induction before with
  | nil => rw [List.filterMap_nil, List.length_nil, Nat.zero_add]; exact behind_of_plain plain count
  | cons s before ih =>
      cases counts : component? s with
      | none =>
          have blank : isBlank s = true := Option.isNone_iff_eq_none.mpr counts
          rw [List.filterMap_cons_none counts, List.cons_append, behind_cons_of_blank blank, ih]
      | some c =>
          have present : isBlank s = false := by rw [isBlank, counts]; rfl
          rw [List.filterMap_cons_some counts, List.length_cons, Nat.succ_add, List.cons_append,
            behind_succ_cons present, ih]

theorem behind_suffix (count : Nat) (segments : List Bytes) : behind count segments <:+ segments := by
  fun_induction behind count segments with
  | case1 => exact List.suffix_rfl
  | case2 count s rest blank ih => exact ih.trans (List.suffix_cons s rest)
  | case3 s rest counts => exact List.suffix_rfl
  | case4 s rest counts count ih => exact ih.trans (List.suffix_cons s rest)

theorem pathAt_append {before after : List Bytes} (some : before ≠ []) (more : after ≠ []) :
    pathAt (before ++ after) = pathAt before ++ slash :: pathAt after :=
  Cut.intercalate_append [slash] some more

theorem reverse_pathAt (segments : List Bytes) :
    (pathAt segments).reverse = pathAt (segments.reverse.map List.reverse) := by
  induction segments with
  | nil => rfl
  | cons s rest ih =>
      by_cases more : rest = []
      · rw [more, pathAt_singleton]
        exact (pathAt_singleton _).symm
      · have others : rest.reverse.map List.reverse ≠ [] := by simp [more]
        rw [pathAt_cons more, List.reverse_append, List.reverse_cons, ih, List.reverse_cons,
          List.map_append, List.map_singleton, pathAt_append others (List.cons_ne_nil _ _),
          pathAt_singleton, List.append_assoc, List.singleton_append]

theorem isBlank_reverse (s : Bytes) : isBlank s.reverse = isBlank s := by
  rw [Bool.eq_iff_iff, isBlank_iff, isBlank_iff, List.reverse_eq_nil_iff, List.reverse_eq_iff]
  rfl

theorem skipEmptyEnd_segments {segments : List Bytes} (whole : ∀ s ∈ segments, slash ∉ s) :
    skipEmptyEnd (pathAt segments) = pathAt (segments.rdropWhile isBlank) := by
  have reversed : ∀ s ∈ segments.reverse.map List.reverse, slash ∉ s := by
    intro s hs there
    obtain ⟨t, ht, rfl⟩ := List.mem_map.mp hs
    exact whole t (List.mem_reverse.mp ht) (List.mem_reverse.mp there)
  have blank : isBlank ∘ List.reverse = isBlank := funext isBlank_reverse
  rw [skipEmptyEnd, reverse_pathAt, skipEmpty_pathAt reversed, List.dropWhile_map, blank,
    reverse_pathAt, ← List.map_reverse, List.map_map, List.reverse_involutive.comp_self,
    List.map_id]
  rfl

theorem skipEmptyEnd_pathAt {names : List Bytes} (plain : ∀ n ∈ names, Plain n) :
    skipEmptyEnd (pathAt names) = pathAt names := by
  have last : ∀ some : names ≠ [], ¬ isBlank (names.getLast some) = true := fun some =>
    ne_true_of_eq_false (plain _ (List.getLast_mem some)).isBlank_eq
  rw [skipEmptyEnd_segments fun n hn => (plain n hn).whole, List.rdropWhile_eq_self_iff.mpr last]

theorem components_eq (p : Path) :
    p.components = (splitHead p).1.toList ++ bodyComponents (splitHead p).2 := rfl

theorem bodyComponents_append (x q : Path) :
    bodyComponents (x ++ slash :: q) = bodyComponents x ++ bodyComponents q := by
  rw [bodyComponents, List.splitOn_append_cons_self, List.filterMap_append]
  rfl

theorem splitHead_append {x : Path} (named : x ≠ []) (q : Path) :
    splitHead (x ++ slash :: q) = ((splitHead x).1, (splitHead x).2 ++ slash :: q) := by
  cases x with
  | nil => exact (named rfl).elim
  | cons b rest =>
      have next : ((rest ++ slash :: q).isEmpty ∨ (rest ++ slash :: q).head? = some slash) ↔
          (rest.isEmpty ∨ rest.head? = some slash) := by
        cases rest <;> simp
      rw [List.cons_append, splitHead, splitHead]
      by_cases rooted : b = slash
      · rw [if_pos rooted, if_pos rooted]
      · rw [if_neg rooted, if_neg rooted]
        by_cases current : b = dot ∧ (rest.isEmpty ∨ rest.head? = some slash)
        · rw [if_pos current, if_pos (current.imp_right next.mpr)]
        · rw [if_neg current, if_neg fun h => current (h.imp_right next.mp)]
          rfl

theorem bodyComponents_slash (q : Path) : bodyComponents (slash :: q) = bodyComponents q :=
  bodyComponents_append [] q

theorem not_current_mem_bodyComponents (body : Path) : .current ∉ bodyComponents body := by
  intro there
  obtain ⟨segment, -, made⟩ := List.mem_filterMap.mp there
  rw [component?] at made
  split at made
  · cases made
  · split at made <;> cases made

/-- A dot in front of a relative path is the only one among its components. -/
theorem filter_components {p : Path} (relative : isAbsolute p = false) :
    p.components.filter (· ≠ .current) = bodyComponents p := by
  have body : ∀ q, (bodyComponents q).filter (· ≠ .current) = bodyComponents q := fun q =>
    List.filter_eq_self.mpr fun c there => decide_eq_true fun same =>
      not_current_mem_bodyComponents q (same ▸ there)
  cases p with
  | nil => rfl
  | cons b rest =>
      have notSlash : b ≠ slash := by
        rintro rfl
        cases relative
      rw [components_eq, splitHead, if_neg notSlash]
      by_cases current : b = dot ∧ (rest.isEmpty ∨ rest.head? = some slash)
      · obtain ⟨rfl, next⟩ := current
        have same : bodyComponents (dot :: rest) = bodyComponents rest := by
          cases rest with
          | nil => rfl
          | cons c q =>
              obtain rfl : c = slash := by simpa using next
              exact (bodyComponents_append [dot] q).trans (bodyComponents_slash q).symm
        rw [if_pos ⟨rfl, next⟩, same]
        exact body rest
      · rw [if_neg current]
        exact body (b :: rest)

/-- How a root leads a path: by its head and the segments after that. -/
structure Leads (root : Path) (head : Option Component) (before : List Bytes) : Prop where
  components : root.components = head.toList ++ before.filterMap component?
  joined : ∀ q, isAbsolute q = false → (splitHead (join root q)).1 = head ∧
    (splitHead (join root q)).2.splitOn slash = before ++ q.splitOn slash

theorem join_of_relative {root q : Path} (relative : isAbsolute q = false) :
    join root q = if root.isEmpty ∨ root.getLast? = some slash then root ++ q
      else root ++ slash :: q := by
  rw [join, relative]
  rfl

theorem isAbsolute_of_not_mem {q : Path} (whole : slash ∉ q) : isAbsolute q = false := by
  cases q with
  | nil => rfl
  | cons b rest =>
      refine beq_eq_false_iff_ne.mpr fun same => whole ?_
      rw [List.head?_cons, Option.some.injEq] at same
      exact same ▸ List.mem_cons_self

/-- Joined to a directory, a path is spelled by its own segments behind those of the directory; of
these a blank one at the end is left out. -/
theorem exists_splitOn_join (dir : Path) : ∃ before,
    (∀ q, isAbsolute q = false → (join dir q).splitOn slash = before ++ q.splitOn slash) ∧
      (dir.splitOn slash = before ∨ dir.splitOn slash = before ++ [[]]) := by
  by_cases empty : dir = []
  · subst empty
    refine ⟨[], fun q relative => ?_, .inr rfl⟩
    rw [join_of_relative relative, if_pos (.inl rfl), List.nil_append, List.nil_append]
  by_cases trailing : dir.getLast? = some slash
  · obtain ⟨x, rfl⟩ := List.getLast?_eq_some_iff.mp trailing
    refine ⟨x.splitOn slash, fun q relative => ?_, .inr (List.splitOn_append_cons_self _ _)⟩
    rw [join_of_relative relative, if_pos (.inr trailing), List.append_assoc,
      List.singleton_append, List.splitOn_append_cons_self]
  · refine ⟨dir.splitOn slash, fun q relative => ?_, .inl rfl⟩
    rw [join_of_relative relative, if_neg (by simp [empty, trailing]),
      List.splitOn_append_cons_self]

theorem length_le_length_join (p : Path) {q : Path} (relative : isAbsolute q = false) :
    p.length ≤ (join p q).length := by
  rw [join_of_relative relative]
  split <;> simp

theorem isAbsolute_join {root q : Path} (relative : isAbsolute q = false) :
    isAbsolute (join root q) = isAbsolute root := by
  rw [join_of_relative relative]
  cases root with
  | nil => exact relative
  | cons b rest => split <;> rfl

theorem join_ne_nil {root q : Path} (named : root ≠ []) (relative : isAbsolute q = false) :
    join root q ≠ [] := by
  obtain ⟨b, rest, rfl⟩ := List.exists_cons_of_ne_nil named
  rw [join_of_relative relative]
  split <;> exact List.cons_ne_nil _ _

theorem mem_join {root q : Path} (relative : isAbsolute q = false) {b : UInt8}
    (h : b ∈ join root q) : b ∈ root ∨ b = slash ∨ b ∈ q := by
  rw [join_of_relative relative] at h
  split at h
  · exact (List.mem_append.mp h).imp_right .inr
  · exact (List.mem_append.mp h).imp_right List.mem_cons.mp

/-- A name joined to a path ends the path, so that what is joined to both is set off by a slash. -/
theorem join_join {root name q : Path} (plain : Plain name) (relative : isAbsolute q = false) :
    join (join root name) q = join root (name ++ slash :: q) := by
  have relativeName : isAbsolute name = false := isAbsolute_of_not_mem plain.whole
  have relativeBoth : isAbsolute (name ++ slash :: q) = false := by
    obtain ⟨b, rest, rfl⟩ := List.exists_cons_of_ne_nil plain.present
    exact relativeName
  have notEmpty : ¬ (join root name).isEmpty = true := by
    rw [join_of_relative relativeName]
    split <;> simp [plain.present]
  have notSlash : ¬ (join root name).getLast? = some slash := by
    obtain ⟨front, last, rfl⟩ := (List.eq_nil_or_concat' name).resolve_left plain.present
    have ends : last ≠ slash := by
      rintro rfl
      exact plain.whole (by simp)
    have spelled : ∃ front', join root (front ++ [last]) = front' ++ [last] := by
      rw [join_of_relative relativeName]
      split
      · exact ⟨root ++ front, (List.append_assoc _ _ _).symm⟩
      · exact ⟨root ++ slash :: front, by simp⟩
    obtain ⟨front', spelled⟩ := spelled
    rw [spelled, List.getLast?_concat, Option.some.injEq]
    exact ends
  rw [join_of_relative relative, if_neg (not_or.mpr ⟨notEmpty, notSlash⟩),
    join_of_relative relativeName, join_of_relative relativeBoth]
  split <;> simp

theorem exists_leads {root : Path} (named : root ≠ []) : ∃ head before, Leads root head before := by
  have notEmpty : ¬ root.isEmpty = true := fun empty => named (List.isEmpty_iff.mp empty)
  by_cases trailing : root.getLast? = some slash
  · obtain ⟨x, rfl⟩ := List.getLast?_eq_some_iff.mp trailing
    by_cases top : x = []
    · subst top
      refine ⟨some .root, [], rfl, fun q relative => ?_⟩
      rw [join_of_relative relative, if_pos (.inr trailing)]
      exact ⟨rfl, rfl⟩
    · refine ⟨(splitHead x).1, (splitHead x).2.splitOn slash, ?_, fun q relative => ?_⟩
      · rw [components_eq, splitHead_append top, bodyComponents_append]
        exact congrArg _ (List.append_nil _)
      · rw [join_of_relative relative, if_pos (.inr trailing), List.append_assoc,
          List.singleton_append, splitHead_append top]
        exact ⟨rfl, List.splitOn_append_cons_self _ _⟩
  · refine ⟨(splitHead root).1, (splitHead root).2.splitOn slash, rfl, fun q relative => ?_⟩
    rw [join_of_relative relative, if_neg (not_or.mpr ⟨notEmpty, trailing⟩), splitHead_append named]
    exact ⟨rfl, List.splitOn_append_cons_self _ _⟩

/-- The components of a path below a root continue those of the root. -/
theorem components_join {root q : Path} (named : root ≠ []) (relative : isAbsolute q = false) :
    (join root q).components = root.components ++ bodyComponents q := by
  obtain ⟨head, before, leads⟩ := exists_leads named
  obtain ⟨hhead, hbody⟩ := leads.joined q relative
  rw [components_eq, leads.components, hhead, bodyComponents, hbody, List.filterMap_append,
    List.append_assoc]
  rfl

theorem bodyComponents_ne_nil {b : UInt8} {rest : Path} (notSlash : b ≠ slash)
    (notCurrent : ¬ (b = dot ∧ (rest.isEmpty ∨ rest.head? = some slash))) :
    bodyComponents (b :: rest) ≠ [] := by
  obtain ⟨first, others, parts⟩ := List.exists_cons_of_ne_nil (List.splitOn_ne_nil slash rest)
  have split : (b :: rest).splitOn slash = (b :: first) :: others := by
    rw [List.splitOn_cons_eq_if_modifyHead, parts]
    exact if_neg fun same => notSlash (beq_iff_eq.mp same)
  cases counts : component? (b :: first) with
  | some c =>
      rw [bodyComponents, split, List.filterMap_cons_some counts]
      exact List.cons_ne_nil _ _
  | none =>
      have blank : isBlank (b :: first) = true := Option.isNone_iff_eq_none.mpr counts
      rcases isBlank_iff.mp blank with empty | dotted
      · exact (List.cons_ne_nil _ _ empty).elim
      · obtain ⟨rfl, rfl⟩ := List.cons.inj dotted
        -- Nothing stands between the dot and what is after it, the end or a slash.
        have spelled : rest = pathAt ([] :: others) := by
          rw [← parts]
          exact (List.intercalate_splitOn slash).symm
        by_cases more : others = []
        · subst more
          exact (notCurrent ⟨rfl, .inl (by rw [spelled]; rfl)⟩).elim
        · rw [pathAt_cons more] at spelled
          exact (notCurrent ⟨rfl, .inr (by rw [spelled]; rfl)⟩).elim

theorem components_ne_nil {root : Path} (named : root ≠ []) : root.components ≠ [] := by
  cases root with
  | nil => exact (named rfl).elim
  | cons b rest =>
      rw [components_eq, splitHead]
      by_cases rooted : b = slash
      · rw [if_pos rooted]
        exact List.cons_ne_nil _ _
      · rw [if_neg rooted]
        by_cases current : b = dot ∧ (rest.isEmpty ∨ rest.head? = some slash)
        · rw [if_pos current]
          exact List.cons_ne_nil _ _
        · rw [if_neg current]
          exact bodyComponents_ne_nil rooted current

/-- What is left of an absolute path below a base is spelled by segments of the path, unless nothing
was taken away. -/
theorem relativeTo_absolute {base rest rel : Path} (h : relativeTo base (slash :: rest) = some rel) :
    isAbsolute rel = true ∨
      ∃ segments, segments.Sublist (rest.splitOn slash) ∧ rel = pathAt segments := by
  have whole : ∀ s ∈ rest.splitOn slash, slash ∉ s := fun s hs => Cut.not_mem_segment hs
  have spelled : rest = pathAt (rest.splitOn slash) := (List.intercalate_splitOn slash).symm
  rw [relativeTo] at h
  split at h
  · obtain rfl := Option.some.inj h
    rw [afterComponents]
    dsimp only
    split
    · exact .inl rfl
    · refine .inr ⟨(behind (base.components.length - 1) (rest.splitOn slash)).rdropWhile isBlank,
        ?_, ?_⟩
      · exact (List.rdropWhile_prefix _ _).sublist.trans (behind_suffix _ _).sublist
      · have left := skipEmpty_repeat_dropFirst whole (base.components.length - 1)
        rw [← spelled] at left
        rw [← skipEmptyEnd_segments fun s hs => whole s ((behind_suffix _ _).mem hs), ← left]
        rfl
  · cases h

/-- The names of a place, which is not the root itself. -/
structure PlainPlace (names : List Bytes) : Prop where
  below : names ≠ []
  plain : ∀ n ∈ names, Plain n

namespace PlainPlace

variable {names : List Bytes} (place : PlainPlace names)
include place

theorem splitOn_pathAt : (pathAt names).splitOn slash = names :=
  List.splitOn_intercalate slash (fun n hn => (place.plain n hn).whole) place.below

theorem bodyComponents_pathAt : bodyComponents (pathAt names) = names.map .named := by
  rw [bodyComponents, place.splitOn_pathAt, ← List.filterMap_eq_map]
  exact List.filterMap_congr fun n hn => (place.plain n hn).component?_eq

theorem isAbsolute_pathAt : isAbsolute (pathAt names) = false := by
  refine eq_false_of_ne_true fun absolute => ?_
  have first := place.splitOn_pathAt
  have slashed : (pathAt names).head? = some slash := beq_iff_eq.mp absolute
  obtain ⟨rest, spelled⟩ := List.head?_eq_some_iff.mp slashed
  rw [spelled, List.splitOn_cons_eq_if_modifyHead, if_pos (beq_self_eq_true slash)] at first
  exact (place.plain [] (first ▸ List.mem_cons_self)).present rfl

theorem components_join {root : Path} (named : root ≠ []) :
    (join root (pathAt names)).components = root.components ++ names.map .named := by
  rw [Path.components_join named place.isAbsolute_pathAt, place.bodyComponents_pathAt]

/-- What is left of a place below a directory that lies where `sub` leads from the root. -/
theorem relativeTo_join {root base : Path} (named : root ≠ []) {sub : List Component}
    (lies : base.components = root.components ++ sub) :
    relativeTo base (join root (pathAt names)) =
      if sub.isPrefixOf (names.map .named) then some (pathAt (names.drop sub.length)) else none := by
  have inside : base.components.isPrefixOf (join root (pathAt names)).components =
      sub.isPrefixOf (names.map .named) := by
    rw [place.components_join named, lies, Bool.eq_iff_iff, List.isPrefixOf_iff_prefix,
      List.isPrefixOf_iff_prefix, List.prefix_append_right_inj]
  -- Below the head, the joined path is spelled by the segments of the root and then the names. A
  -- base that lies alike stops within the names, whatever the segments before them.
  obtain ⟨head, before, leads⟩ := exists_leads named
  obtain ⟨hhead, hbody⟩ := leads.joined _ place.isAbsolute_pathAt
  rw [place.splitOn_pathAt] at hbody
  have spelled : (splitHead (join root (pathAt names))).2 = pathAt (before ++ names) := by
    rw [← hbody]
    exact (List.intercalate_splitOn slash).symm
  have whole : ∀ s ∈ before ++ names, slash ∉ s := fun s hs =>
    Cut.not_mem_segment (hbody ▸ hs)
  have count : base.components.length ≠ 0 := by
    rw [lies, List.length_append]
    have some : root.components.length ≠ 0 := fun none =>
      components_ne_nil named (List.length_eq_zero_iff.mp none)
    omega
  have inBody : base.components.length - head.toList.length =
      (before.filterMap component?).length + sub.length := by
    rw [lies, leads.components, List.length_append, List.length_append]
    omega
  rw [relativeTo, inside, afterComponents]
  dsimp only
  rw [if_neg count, hhead, spelled, inBody, skipEmpty_repeat_dropFirst whole,
    behind_append before place.plain,
    skipEmptyEnd_pathAt fun n hn => place.plain n (List.mem_of_mem_drop hn)]

end PlainPlace

/-- Names that are joined to a root one after the other make the path of their place below it. -/
theorem foldl_join {root : Path} {names : List Bytes} (place : PlainPlace names) :
    names.foldl join root = join root (pathAt names) := by
  obtain ⟨below, plain⟩ := place
  induction names generalizing root with
  | nil => exact (below rfl).elim
  | cons name rest ih =>
      obtain ⟨here, later⟩ := List.forall_mem_cons.mp plain
      by_cases more : rest = []
      · subst more
        rw [pathAt_singleton]
        rfl
      · have relative := (PlainPlace.mk more later).isAbsolute_pathAt
        rw [List.foldl_cons, ih more later, join_join here relative, pathAt_cons more]

def rankOf (names : List Bytes) : List (List Nat) := (names.map Component.named).map Component.rank

/-- Whether a place comes before another or is the same. -/
def placeLe (a b : List Bytes) : Bool := !decide (rankOf b < rankOf a)

theorem placeLe_iff {a b : List Bytes} : placeLe a b = true ↔ rankOf a ≤ rankOf b := by
  rw [placeLe, Bool.not_eq_true', decide_eq_false_iff_not, not_lt]

theorem placeLe_total (a b : List Bytes) : placeLe a b = true ∨ placeLe b a = true := by
  rw [placeLe_iff, placeLe_iff]
  exact le_total _ _

theorem placeLe_trans (a b c : List Bytes) (ab : placeLe a b = true) (bc : placeLe b c = true) :
    placeLe a c = true := placeLe_iff.mpr ((placeLe_iff.mp ab).trans (placeLe_iff.mp bc))

theorem rankOf_injective : Function.Injective rankOf := by
  have each : Function.Injective fun n : Bytes => Component.rank (.named n) := by
    intro m n same
    exact List.map_injective_iff.mpr (fun _ _ => UInt8.toNat_inj.mp) (List.cons.inj same).2
  intro a b same
  rw [rankOf, rankOf, List.map_map, List.map_map] at same
  exact List.map_injective_iff.mpr each same

theorem placeLe_antisymm (a b : List Bytes) (ab : placeLe a b = true) (ba : placeLe b a = true) :
    a = b := rankOf_injective (le_antisymm (placeLe_iff.mp ab) (placeLe_iff.mp ba))

theorem append_lt_append_iff (above : List (List Nat)) {a b : List (List Nat)} :
    above ++ a < above ++ b ↔ a < b := by
  induction above with
  | nil => exact Iff.rfl
  | cons rank above ih => simp [ih]

/-- Paths of places below one root are in the order of the places. -/
theorem le_join {root : Path} (named : root ≠ []) {a b : List Bytes} (ha : PlainPlace a)
    (hb : PlainPlace b) : le (join root (pathAt a)) (join root (pathAt b)) = placeLe a b := by
  rw [le, ha.components_join named, hb.components_join named, List.map_append, List.map_append,
    placeLe, rankOf, rankOf]
  exact congrArg (!·) (decide_eq_decide.mpr (append_lt_append_iff _))

end Phrasebook.Path
