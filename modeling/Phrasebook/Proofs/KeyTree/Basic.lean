import Phrasebook.KeyTree
import Phrasebook.Proofs.Dictionary
import Phrasebook.Proofs.Text.Segments

/-! The entries of a key tree by the segments of their paths, and the shape that trees have which
were built by insertion. What a tree holds is said without any walk over it. -/
namespace Phrasebook

namespace KeyTree

@[simp] theorem entries_group (name : Text) (es : List (Text × Entry))
    (gs : List (Text × KeyTree)) : (group name es gs).entries = es := rfl

@[simp] theorem groups_group (name : Text) (es : List (Text × Entry))
    (gs : List (Text × KeyTree)) : (group name es gs).groups = gs := rfl

abbrev segmentsOf (path : Text) : List Text := Text.segments '.' path

abbrev dotted (segments : List Text) : Text := Text.joinWith '.' segments

theorem dotted_segmentsOf (path : Text) : dotted (segmentsOf path) = path :=
  List.intercalate_splitOn '.'

theorem segmentsOf_dotted {segments : List Text} (nonempty : segments ≠ [])
    (plain : ∀ s ∈ segments, '.' ∉ s) : segmentsOf (dotted segments) = segments :=
  List.splitOn_intercalate '.' plain nonempty

theorem segmentsOf_injective {p q : Text} (h : segmentsOf p = segmentsOf q) : p = q :=
  Cut.splitOn_injective '.' h

/-- A path that goes on through further keys. -/
def through (path : Text) (keys : List Text) : Text := path ++ keys.flatMap ('.' :: ·)

theorem through_nil (path : Text) : through path [] = path := List.append_nil path

theorem through_cons (path key : Text) (keys : List Text) :
    through path (key :: keys) = through (path ++ '.' :: key) keys := by
  rw [through, through, List.flatMap_cons, List.append_assoc]

theorem dotted_cons (key : Text) (keys : List Text) : dotted (key :: keys) = through key keys := by
  induction keys generalizing key with
  | nil => exact (List.intercalate_singleton).trans (through_nil key).symm
  | cons next keys ih =>
      calc dotted (key :: next :: keys)
        _ = key ++ '.' :: dotted (next :: keys) := by
          rw [dotted, Text.joinWith, List.intercalate_cons_cons, List.append_assoc,
            List.singleton_append]
        _ = through key (next :: keys) := by
          rw [ih, through, through, List.flatMap_cons, List.cons_append]

theorem splitPath_append (path : Text) :
    (splitPath path).1 ++ [(splitPath path).2] = segmentsOf path := by
  have nonempty : segmentsOf path ≠ [] := List.splitOn_ne_nil _ _
  have last : (segmentsOf path).getLastD [] = (segmentsOf path).getLast nonempty := by
    rw [List.getLastD_eq_getLast?, List.getLast?_eq_some_getLast nonempty, Option.getD_some]
  calc (splitPath path).1 ++ [(splitPath path).2]
    _ = (segmentsOf path).dropLast ++ [(segmentsOf path).getLast nonempty] := by rw [← last]; rfl
    _ = segmentsOf path := List.dropLast_concat_getLast nonempty

/-- The entry that an insertion of `path` makes. -/
def entryOf (path : Text) : Entry := ⟨(splitPath path).2, path⟩

/-- Neither list of segments leads to or through the other. -/
def Clear (p q : List Text) : Prop := ¬ p <+: q ∧ ¬ q <+: p

theorem Clear.symm {p q : List Text} (h : Clear p q) : Clear q p := And.symm h

theorem clear_cons {k l : Text} {p q : List Text} :
    Clear (k :: p) (l :: q) ↔ (k = l → Clear p q) := by
  by_cases same : k = l
  · subst same
    simp only [Clear, List.prefix_cons_inj, true_implies]
  · simp only [Clear, List.cons_prefix_cons, same, Ne.symm same, false_and, not_false_eq_true,
      and_self, false_implies]

/-- No path of the list leads to or through another of the list, nor occurs twice in it. -/
def Apart (paths : List Text) : Prop :=
  paths.Pairwise fun p q => Clear (segmentsOf p) (segmentsOf q)

/-- A tree holds an entry at a list of segments. -/
inductive Holds : KeyTree → List Text → Entry → Prop
  | here {t : KeyTree} {k : Text} {e : Entry} (h : t.entries.find? k = some e) : Holds t [k] e
  | within {t g : KeyTree} {k : Text} {segments : List Text} {e : Entry}
      (h : t.groups.find? k = some g) (inside : Holds g segments e) : Holds t (k :: segments) e

theorem Holds.nonempty {t : KeyTree} {segments : List Text} {e : Entry} (h : Holds t segments e) :
    segments ≠ [] := by
  cases h with
  | here h => exact List.cons_ne_nil _ _
  | within h inside => exact List.cons_ne_nil _ _

theorem not_holds_nil {t : KeyTree} {e : Entry} : ¬ Holds t [] e := fun h => h.nonempty rfl

theorem holds_cons_iff {t : KeyTree} {k : Text} {segments : List Text} {e : Entry} :
    Holds t (k :: segments) e ↔ (segments = [] ∧ t.entries.find? k = some e) ∨
      ∃ g, t.groups.find? k = some g ∧ Holds g segments e := by
  constructor
  · intro h
    cases h with
    | here h => exact .inl ⟨rfl, h⟩
    | within h inside => exact .inr ⟨_, h, inside⟩
  · rintro (⟨rfl, h⟩ | ⟨g, h, inside⟩)
    · exact .here h
    · exact .within h inside

theorem not_holds_empty {name : Text} {segments : List Text} {e : Entry} :
    ¬ Holds (empty name) segments e := by
  intro h
  cases h with
  | here h => cases h
  | within h inside => cases h

theorem holds_concat_iff {t : KeyTree} {groups : List Text} {last : Text} {e : Entry} :
    Holds t (groups ++ [last]) e ↔ (descend groups t).bind (·.entries.find? last) = some e := by
  induction groups generalizing t with
  | nil =>
      rw [List.nil_append, holds_cons_iff, descend, Option.bind_some]
      constructor
      · rintro (⟨-, h⟩ | ⟨g, -, inside⟩)
        · exact h
        · exact (inside.nonempty rfl).elim
      · intro h
        exact .inl ⟨rfl, h⟩
  | cons k groups ih =>
      have more : groups ++ [last] ≠ [] :=
        List.append_ne_nil_of_right_ne_nil _ (List.cons_ne_nil _ _)
      rw [List.cons_append, holds_cons_iff, descend]
      cases h : t.groups.find? k with
      | none => simp [more]
      | some g => simp [more, ih]

theorem find?_eq_some_iff {t : KeyTree} {path : Text} {e : Entry} :
    t.find? path = some e ↔ Holds t (segmentsOf path) e := by
  rw [← splitPath_append, holds_concat_iff]
  rfl

theorem isEmpty_of_holds {t : KeyTree} {segments : List Text} {e : Entry} (h : Holds t segments e) :
    t.isEmpty = false := by
  obtain ⟨name, es, gs⟩ := t
  cases h with
  | here found =>
      cases es with
      | nil => cases found
      | cons _ _ => rfl
  | within found inside =>
      cases gs with
      | nil => cases found
      | cons _ _ => exact Bool.and_false _

/-- A property of every group of a tree, told together with the names above it. -/
inductive Everywhere (P : List Text → KeyTree → Prop) : List Text → KeyTree → Prop
  | intro {above : List Text} {t : KeyTree} (here : P above t)
      (inner : ∀ k g, t.groups.find? k = some g → Everywhere P (above ++ [k]) g) :
      Everywhere P above t

theorem Everywhere.here {P : List Text → KeyTree → Prop} {above : List Text} {t : KeyTree}
    (h : Everywhere P above t) : P above t := by
  cases h with
  | intro here inner => exact here

theorem Everywhere.inner {P : List Text → KeyTree → Prop} {above : List Text} {t g : KeyTree}
    {k : Text} (h : Everywhere P above t) (found : t.groups.find? k = some g) :
    Everywhere P (above ++ [k]) g := by
  cases h with
  | intro here inner => exact inner k g found

theorem Everywhere.imp {P Q : List Text → KeyTree → Prop} {above : List Text} {t : KeyTree}
    (h : Everywhere P above t) (hPQ : ∀ above t, P above t → Q above t) : Everywhere Q above t := by
  induction h with
  | intro here inner ih => exact .intro (hPQ _ _ here) ih

/-- The children of a group are listed in key order. -/
structure Listed (t : KeyTree) : Prop where
  entries : t.entries.Ordered
  groups : t.groups.Ordered

/-- Trees that are maps at every group, whether or not insertion can make them. -/
abbrev Sorted (above : List Text) (t : KeyTree) : Prop := Everywhere (fun _ => Listed) above t

/-- What insertion keeps of one group, whose names above are given. -/
structure WellKept (above : List Text) (t : KeyTree) : Prop extends Listed t where
  apart : ∀ {k}, k ∈ t.groups.keys → k ∉ t.entries.keys
  entry : ∀ {k e}, t.entries.find? k = some e → '.' ∉ k ∧ e = ⟨k, dotted (above ++ [k])⟩
  group : ∀ {k g}, t.groups.find? k = some g → '.' ∉ k ∧ g.name = k ∧ g.isEmpty = false

/-- Trees as insertion makes them. -/
abbrev Valid (above : List Text) (t : KeyTree) : Prop := Everywhere WellKept above t

theorem Valid.inner {above : List Text} {t g : KeyTree} {k : Text} (h : Valid above t)
    (found : t.groups.find? k = some g) : Valid (above ++ [k]) g := Everywhere.inner h found

theorem Valid.sorted {above : List Text} {t : KeyTree} (h : Valid above t) : Sorted above t :=
  h.imp fun _ _ kept => kept.toListed

theorem valid_empty (above : List Text) (name : Text) : Valid above (empty name) := by
  refine .intro ⟨⟨Dictionary.ordered_nil, Dictionary.ordered_nil⟩, ?_, ?_, ?_⟩ ?_
  · intro k h
    cases h
  · intro k e h
    cases h
  · intro k g h
    cases h
  · intro k g h
    cases h

theorem Valid.exists_holds {above : List Text} {t : KeyTree} (h : Valid above t)
    (nonempty : t.isEmpty = false) : ∃ segments e, Holds t segments e := by
  induction h with
  | @intro above t kept inner ih =>
      obtain ⟨n, es, gs⟩ := t
      cases es with
      | cons e es => exact ⟨[e.1], e.2, .here (if_pos rfl)⟩
      | nil =>
          cases gs with
          | nil => cases nonempty
          | cons g gs =>
              have found : Dictionary.find? g.1 (g :: gs) = some g.2 := if_pos rfl
              obtain ⟨segments, e, inside⟩ := ih g.1 g.2 found (kept.group found).2.2
              exact ⟨g.1 :: segments, e, .within found inside⟩

end KeyTree

end Phrasebook
