import Mathlib.Data.List.Infix
import Phrasebook.Proofs.KeyTree.Requests

/-! Where a refused path meets what is there. The walk stops at the first entry on its way, or at
its end, and the conflict names this place. The name is put together beside the walk, and leading
empty segments get lost in it. -/
namespace Phrasebook.KeyTree

/-- No entry stands on the way to a place. -/
def Unhindered (t : KeyTree) (segments : List Text) : Prop :=
  ∀ shorter, shorter <+: segments → shorter ≠ segments → ∀ e, ¬ Holds t shorter e

/-- An entry or a group stands at a place. -/
def Taken (t : KeyTree) (segments : List Text) : Prop :=
  (∃ e, Holds t segments e) ∨ ∃ g, descend segments t = some g

section Walk

variable {t g : KeyTree} {k : Text} {segments : List Text}

theorem unhindered_singleton (t : KeyTree) (k : Text) : Unhindered t [k] := by
  intro shorter leading proper e held
  cases shorter with
  | nil => exact not_holds_nil held
  | cons first shorter =>
      obtain ⟨rfl, leads⟩ := List.cons_prefix_cons.mp leading
      exact proper (congrArg _ (List.prefix_nil.mp leads))

theorem Unhindered.within (free : t.entries.find? k = none) (found : t.groups.find? k = some g)
    (h : Unhindered g segments) : Unhindered t (k :: segments) := by
  intro shorter leading proper e held
  cases shorter with
  | nil => exact not_holds_nil held
  | cons first shorter =>
      obtain ⟨rfl, leads⟩ := List.cons_prefix_cons.mp leading
      rcases holds_cons_iff.mp held with ⟨-, here⟩ | ⟨g', found', inside⟩
      · cases free.symm.trans here
      · cases found.symm.trans found'
        exact h shorter leads (fun same => proper (congrArg _ same)) e inside

theorem Taken.within (found : t.groups.find? k = some g) (h : Taken g segments) :
    Taken t (k :: segments) := by
  rcases h with ⟨e, held⟩ | ⟨inner, there⟩
  · exact .inl ⟨e, .within found held⟩
  · exact .inr ⟨inner, by rw [descend, found, Option.bind_some, there]⟩

end Walk

/-- Where the walk of an insertion is stopped, and what it says of it. -/
inductive Stopped (entry : Entry) (walked : Text) (groups : List Text) (t : KeyTree) :
    PathConflict → Prop
  | onTheWay {run rest : List Text} {e : Entry} (cut : groups = run ++ rest) (held : Holds t run e)
      (first : Unhindered t run) : Stopped entry walked groups t ⟨run.foldl extend walked⟩
  | atTheEnd (first : Unhindered t (groups ++ [entry.localName]))
      (taken : Taken t (groups ++ [entry.localName])) :
      Stopped entry walked groups t ⟨entry.fullPath⟩

/-- Every refusal comes from an entry or a group that the walk meets. -/
theorem stopped_of_error {entry : Entry} {walked : Text} {groups : List Text} {t : KeyTree}
    {c : PathConflict} (refused : (insertBelow entry walked groups t).2 = .error c) :
    Stopped entry walked groups t c := by
  induction groups generalizing walked t with
  | nil =>
      obtain ⟨name, es, gs⟩ := t
      rw [insertBelow_nil] at refused
      split at refused
      · rename_i there
        cases refused
        refine .atTheEnd (unhindered_singleton _ _) ?_
        rcases Bool.or_eq_true_iff.mp there with isEntry | isGroup
        · obtain ⟨e, found⟩ := Dictionary.contains_iff.mp isEntry
          exact .inl ⟨e, .here found⟩
        · obtain ⟨g, found⟩ := Dictionary.contains_iff.mp isGroup
          exact .inr ⟨g, by rw [List.nil_append, descend, groups_group, found]; rfl⟩
      · cases refused
  | cons segment rest ih =>
      cases he : t.entries.find? segment with
      | some e =>
          rw [insertBelow_cons_of_entry he] at refused
          cases refused
          exact @Stopped.onTheWay _ _ _ _ [segment] rest e rfl (.here he)
            (unhindered_singleton t segment)
      | none =>
          rw [insertBelow_cons he] at refused
          cases hg : t.groups.find? segment with
          | none =>
              -- nothing stands in the way below a group that was not there
              rw [groupAt_of_absent hg, insertBelow_empty] at refused
              cases refused
          | some g =>
              rw [groupAt_of_find? hg] at refused
              cases ih refused with
              | @onTheWay run tail e cut held first =>
                  exact @Stopped.onTheWay _ _ _ _ (segment :: run) tail e (congrArg _ cut)
                    (.within hg held) (first.within he hg)
              | atTheEnd first taken => exact .atTheEnd (first.within he hg) (taken.within hg)

theorem foldl_extend_of_ne {walked : Text} (nonempty : walked ≠ []) (run : List Text) :
    run.foldl extend walked = through walked run := by
  induction run generalizing walked with
  | nil => exact (through_nil walked).symm
  | cons segment rest ih =>
      have step : extend walked segment = walked ++ '.' :: segment :=
        if_neg (mt List.isEmpty_iff.mp nonempty)
      rw [List.foldl_cons, step, ih (by simp), through_cons]

/-- The text of a walk has no separator before the first segment that is not empty. -/
theorem foldl_extend (run : List Text) :
    run.foldl extend [] = dotted (run.dropWhile List.isEmpty) := by
  induction run with
  | nil => rfl
  | cons segment rest ih =>
      have step : extend [] segment = segment := rfl
      rw [List.foldl_cons, step]
      by_cases empty : segment = []
      · subst empty
        exact ih
      · rw [foldl_extend_of_ne empty, List.dropWhile_cons_of_neg (mt List.isEmpty_iff.mp empty),
          dotted_cons]

theorem dotted_dropWhile_ne {run : List Text} (plain : ∀ s ∈ run, '.' ∉ s) (text : Text) :
    dotted (run.dropWhile List.isEmpty) ≠ '.' :: text := by
  induction run with
  | nil => nofun
  | cons segment rest ih =>
      obtain ⟨here, later⟩ := List.forall_mem_cons.mp plain
      cases segment with
      | nil => exact ih later
      | cons c segment =>
          rw [List.dropWhile_cons_of_neg (by simp), dotted_cons]
          rintro same
          exact here ((List.cons.inj same).1 ▸ List.mem_cons_self)

/-- The text of a walk is the path of its segments, unless it starts with an empty segment and goes
on. -/
theorem dotted_dropWhile_eq_iff {run : List Text} (plain : ∀ s ∈ run, '.' ∉ s) :
    dotted (run.dropWhile List.isEmpty) = dotted run ↔ (run.head? = some [] → run = [[]]) := by
  cases run with
  | nil => simp
  | cons segment rest =>
      by_cases empty : segment = []
      · subst empty
        cases rest with
        | nil => exact iff_of_true rfl fun _ => rfl
        | cons next rest =>
            have goesOn : dotted ([] :: next :: rest) = '.' :: through next rest := by
              rw [dotted_cons, through_cons, through, through]
              rfl
            rw [goesOn]
            refine iff_of_false (dotted_dropWhile_ne plain _) fun alone => ?_
            cases alone rfl
      · have kept : (segment :: rest).dropWhile List.isEmpty = segment :: rest :=
          List.dropWhile_cons_of_neg (mt List.isEmpty_iff.mp empty)
        simp [kept, empty]

/-- No entry is found under a leading run of the segments that leaves some of them out. -/
def NoEntryBefore (t : KeyTree) (segments : List Text) : Prop :=
  ∀ shorter, shorter <+: segments → shorter ≠ segments → shorter ≠ [] →
    t.find? (dotted shorter) = none

section Reported

variable {t : KeyTree} {path : Text} {run : List Text}

theorem find?_dotted (nonempty : run ≠ []) (plain : ∀ s ∈ run, '.' ∉ s) {e : Entry} :
    t.find? (dotted run) = some e ↔ Holds t run e := by
  rw [find?_eq_some_iff, segmentsOf_dotted nonempty plain]

theorem Unhindered.noEntryBefore (first : Unhindered t run) (plain : ∀ s ∈ run, '.' ∉ s) :
    NoEntryBefore t run := by
  intro shorter leading proper nonempty
  have plainShorter : ∀ s ∈ shorter, '.' ∉ s := fun s there => plain s (leading.subset there)
  refine Option.eq_none_iff_forall_ne_some.mpr fun e found => ?_
  exact first shorter leading proper e ((find?_dotted nonempty plainShorter).mp found)

end Reported

/-- The first entry on the way to a path stands at this leading run of its segments. -/
structure FirstEntry (t : KeyTree) (path : Text) (run : List Text) : Prop where
  leading : run <+: segmentsOf path
  proper : run ≠ segmentsOf path
  nonempty : run ≠ []
  entry : (t.find? (dotted run)).isSome
  first : NoEntryBefore t run

theorem firstEntry_of_stopped {t : KeyTree} {path : Text} {run rest : List Text} {e : Entry}
    (cut : (splitPath path).1 = run ++ rest) (held : Holds t run e) (first : Unhindered t run) :
    FirstEntry t path run := by
  have whole : run ++ (rest ++ [(splitPath path).2]) = segmentsOf path := by
    rw [← splitPath_append, cut, List.append_assoc]
  have leading : run <+: segmentsOf path := ⟨_, whole⟩
  have plain : ∀ s ∈ run, '.' ∉ s := fun s there => Cut.not_mem_segment (leading.subset there)
  refine ⟨leading, fun same => ?_, held.nonempty, ?_, first.noEntryBefore plain⟩
  · rw [← same] at whole
    simp at whole
  · rw [(find?_dotted held.nonempty plain).mpr held]
    rfl

/-- A refusal has one of two reasons, and the conflict tells the place. An entry stands on the way,
and the path of the first such entry is named, without the separators that it begins with; so it is
the very path of the entry unless this begins with an empty segment and goes on. Or no entry stands
on the way, but something at the end, and the refused path itself is named. -/
theorem refusal_names_its_place {t : KeyTree} {path : Text} {c : PathConflict}
    (refused : (t.insert path).2 = .error c) :
    (∃ run, FirstEntry t path run ∧ c.path = dotted (run.dropWhile List.isEmpty) ∧
      (c.path = dotted run ↔ (run.head? = some [] → run = [[]]))) ∨
    (c.path = path ∧ NoEntryBefore t (segmentsOf path) ∧
      ((t.find? path).isSome ∨ ∃ g, descend (segmentsOf path) t = some g)) := by
  rw [insert_eq] at refused
  cases stopped_of_error refused with
  | @onTheWay run rest e cut held first =>
      have met := firstEntry_of_stopped cut held first
      refine .inl ⟨run, met, foldl_extend run, ?_⟩
      rw [foldl_extend]
      exact dotted_dropWhile_eq_iff fun s there => Cut.not_mem_segment (met.leading.subset there)
  | atTheEnd first taken =>
      rw [entryOf_append] at first taken
      refine .inr ⟨rfl, first.noEntryBefore fun s => Cut.not_mem_segment, ?_⟩
      refine taken.imp_left fun ⟨e, held⟩ => ?_
      rw [find?_eq_some_iff.mpr held]
      rfl

/-- The tree of two keys, one of them in a group without a name. -/
def namelessGroup : KeyTree := root.insertEach ["dialog.ok".toList, ".a".toList]

theorem refusal_names_its_place_dialog :
    (namelessGroup.insert "dialog.ok.no".toList).2 = .error ⟨"dialog.ok".toList⟩ ∧
      ∃ run, FirstEntry namelessGroup "dialog.ok.no".toList run ∧
        "dialog.ok".toList = dotted (run.dropWhile List.isEmpty) ∧
        ("dialog.ok".toList = dotted run ↔ (run.head? = some [] → run = [[]])) := by
  have refused : (namelessGroup.insert "dialog.ok.no".toList).2 = .error ⟨"dialog.ok".toList⟩ := rfl
  have here : ¬ "dialog.ok".toList = "dialog.ok.no".toList := by decide
  exact ⟨refused, (refusal_names_its_place refused).resolve_right fun last => here last.1⟩

/-- The conflict with `.a` is reported for `a`, which no leading run of the refused path spells and
where the tree holds nothing. -/
theorem separator_lost :
    (namelessGroup.insert ".a.b".toList).2 = .error ⟨"a".toList⟩ ∧
      (∀ run, run <+: segmentsOf ".a.b".toList → dotted run ≠ "a".toList) ∧
      namelessGroup.find? "a".toList = none ∧
      namelessGroup.find? ".a".toList = some ⟨"a".toList, ".a".toList⟩ := by
  have other : ∀ run ∈ (segmentsOf ".a.b".toList).inits, dotted run ≠ "a".toList := by decide
  refine ⟨rfl, fun run leading => ?_, rfl, rfl⟩
  exact other run ((List.mem_inits _ _).mpr leading)

end Phrasebook.KeyTree
