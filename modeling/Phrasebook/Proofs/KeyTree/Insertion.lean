import Phrasebook.Proofs.KeyTree.Basic

/-! Insertion adds one entry or nothing. It succeeds exactly when the new path is clear of every
path that the tree holds, and the rest of the tree is as it was. -/
namespace Phrasebook.KeyTree

theorem insertBelow_nil (entry : Entry) (walked name : Text) (es : List (Text × Entry))
    (gs : List (Text × KeyTree)) :
    insertBelow entry walked [] (group name es gs) =
      if Dictionary.contains entry.localName es || Dictionary.contains entry.localName gs then
        (group name es gs, .error ⟨entry.fullPath⟩)
      else (group name (Dictionary.insert entry.localName entry es) gs, .ok ()) := by
  rw [insertBelow]

/-- The group at a name, or a new one. -/
def groupAt (t : KeyTree) (name : Text) : KeyTree := (t.groups.find? name).getD (empty name)

theorem insertBelow_cons_of_entry {entry e : Entry} {walked segment : Text} {rest : List Text}
    {t : KeyTree} (found : t.entries.find? segment = some e) :
    insertBelow entry walked (segment :: rest) t = (t, .error ⟨extend walked segment⟩) := by
  obtain ⟨name, es, gs⟩ := t
  exact if_pos (Dictionary.contains_iff.mpr ⟨e, found⟩)

theorem insertBelow_cons {entry : Entry} {walked segment : Text} {rest : List Text} {t : KeyTree}
    (absent : t.entries.find? segment = none) :
    insertBelow entry walked (segment :: rest) t =
      (group t.name t.entries (t.groups.insert segment
        (insertBelow entry (extend walked segment) rest (t.groupAt segment)).1),
        (insertBelow entry (extend walked segment) rest (t.groupAt segment)).2) := by
  obtain ⟨name, es, gs⟩ := t
  have free : Dictionary.contains segment es = false := Dictionary.contains_eq_false_iff.mpr absent
  exact if_neg (ne_true_of_eq_false free)

theorem insertBelow_empty (entry : Entry) (walked : Text) (groups : List Text) (name : Text) :
    (insertBelow entry walked groups (empty name)).2 = .ok () := by
  induction groups generalizing walked name with
  | nil => rfl
  | cons segment rest ih =>
      rw [insertBelow_cons rfl]
      exact ih _ segment

theorem groupAt_of_find? {t g : KeyTree} {name : Text} (h : t.groups.find? name = some g) :
    t.groupAt name = g := by rw [groupAt, h, Option.getD_some]

theorem groupAt_of_absent {t : KeyTree} {name : Text} (h : t.groups.find? name = none) :
    t.groupAt name = empty name := by rw [groupAt, h, Option.getD_none]

/-- A refusal leaves the tree as it was: only a group that was there before can refuse. -/
theorem insertBelow_of_error {entry : Entry} {walked : Text} {groups above : List Text}
    {t : KeyTree} (sorted : Sorted above t) {c : PathConflict}
    (refused : (insertBelow entry walked groups t).2 = .error c) :
    (insertBelow entry walked groups t).1 = t := by
  induction groups generalizing walked above t with
  | nil =>
      obtain ⟨name, es, gs⟩ := t
      rw [insertBelow_nil] at refused ⊢
      split
      · rfl
      · rename_i free
        rw [if_neg free] at refused
        cases refused
  | cons segment rest ih =>
      cases he : t.entries.find? segment with
      | some e => rw [insertBelow_cons_of_entry he]
      | none =>
          rw [insertBelow_cons he] at refused ⊢
          cases hg : t.groups.find? segment with
          | none =>
              rw [groupAt_of_absent hg, insertBelow_empty] at refused
              cases refused
          | some g =>
              rw [groupAt_of_find? hg] at refused ⊢
              rw [ih (sorted.inner hg) refused]
              obtain ⟨pre, post, before, after⟩ :=
                Dictionary.insert_replace g sorted.here.groups hg
              rw [after, ← before]
              obtain ⟨name, es, gs⟩ := t
              rfl

/-- The group at a name has what all groups have, if a new one has it. -/
theorem Everywhere.groupAt {P : List Text → KeyTree → Prop} {above : List Text} {t : KeyTree}
    {name : Text} (all : Everywhere P above t) (new : Everywhere P (above ++ [name]) (empty name)) :
    Everywhere P (above ++ [name]) (t.groupAt name) := by
  cases h : t.groups.find? name with
  | none => exact groupAt_of_absent h ▸ new
  | some g => exact groupAt_of_find? h ▸ all.inner h

theorem Valid.groupAt {above : List Text} {t : KeyTree} (valid : Valid above t) (name : Text) :
    Valid (above ++ [name]) (t.groupAt name) := Everywhere.groupAt valid (valid_empty _ _)

theorem Valid.name_groupAt {above : List Text} {t : KeyTree} (valid : Valid above t) (name : Text) :
    (t.groupAt name).name = name := by
  cases h : t.groups.find? name with
  | none => exact groupAt_of_absent h ▸ rfl
  | some g => exact groupAt_of_find? h ▸ (valid.here.group h).2.1

theorem holds_groupAt {t : KeyTree} {name : Text} {segments : List Text} {e : Entry} :
    Holds (t.groupAt name) segments e ↔ ∃ g, t.groups.find? name = some g ∧ Holds g segments e := by
  cases h : t.groups.find? name with
  | none => simp [groupAt_of_absent h, not_holds_empty]
  | some g => simp [groupAt_of_find? h]

theorem insertBelow_nil_of_ok {entry : Entry} {walked : Text} {t : KeyTree}
    (accepted : (insertBelow entry walked [] t).2 = .ok ()) :
    t.entries.find? entry.localName = none ∧ t.groups.find? entry.localName = none ∧
      (insertBelow entry walked [] t).1 =
        group t.name (t.entries.insert entry.localName entry) t.groups := by
  obtain ⟨name, es, gs⟩ := t
  rw [insertBelow_nil] at accepted ⊢
  split at accepted
  · cases accepted
  · rename_i free
    rw [if_neg free]
    simp only [Bool.or_eq_true, not_or, Bool.not_eq_true, Dictionary.contains_eq_false_iff] at free
    exact ⟨free.1, free.2, rfl⟩

theorem insertBelow_cons_of_ok {entry : Entry} {walked segment : Text} {rest : List Text}
    {t : KeyTree} (accepted : (insertBelow entry walked (segment :: rest) t).2 = .ok ()) :
    t.entries.find? segment = none ∧
      (insertBelow entry (extend walked segment) rest (t.groupAt segment)).2 = .ok () ∧
      (insertBelow entry walked (segment :: rest) t).1 =
        group t.name t.entries (t.groups.insert segment
          (insertBelow entry (extend walked segment) rest (t.groupAt segment)).1) := by
  cases he : t.entries.find? segment with
  | some e =>
      rw [insertBelow_cons_of_entry he] at accepted
      cases accepted
  | none =>
      rw [insertBelow_cons he] at accepted ⊢
      exact ⟨rfl, accepted, rfl⟩

/-- A group is put under a name: it has to have the property, and so has the group around it. -/
theorem Everywhere.put {P : List Text → KeyTree → Prop} {above : List Text} {t below : KeyTree}
    {name : Text} (all : Everywhere P above t) (inside : Everywhere P (above ++ [name]) below)
    (here : P above (group t.name t.entries (t.groups.insert name below))) :
    Everywhere P above (group t.name t.entries (t.groups.insert name below)) := by
  refine .intro here fun k g found => ?_
  rcases Dictionary.eq_or_find?_of_insert found with ⟨rfl, rfl⟩ | there
  · exact inside
  · exact all.inner there

/-- Insertion keeps the order of the children, in trees that it did not make too. -/
theorem Sorted.insertBelow {entry : Entry} {walked : Text} {groups above : List Text} {t : KeyTree}
    (sorted : Sorted above t) (accepted : (insertBelow entry walked groups t).2 = .ok ()) :
    Sorted above (insertBelow entry walked groups t).1 := by
  induction groups generalizing walked above t with
  | nil =>
      obtain ⟨-, -, shape⟩ := insertBelow_nil_of_ok accepted
      rw [shape]
      refine .intro ⟨sorted.here.entries.insert _ _, sorted.here.groups⟩ fun k g found => ?_
      exact sorted.inner found
  | cons segment rest ih =>
      obtain ⟨-, inside, shape⟩ := insertBelow_cons_of_ok accepted
      rw [shape]
      have sortedAt := Everywhere.groupAt sorted (valid_empty _ segment).sorted
      exact sorted.put (ih sortedAt inside)
        ⟨sorted.here.entries, sorted.here.groups.insert _ _⟩

/-- Insertion succeeds exactly when the new path is clear of what the tree holds. -/
theorem insertBelow_ok_iff {entry : Entry} {walked : Text} {groups above : List Text} {t : KeyTree}
    (valid : Valid above t) :
    (insertBelow entry walked groups t).2 = .ok () ↔
      ∀ q e, Holds t q e → Clear (groups ++ [entry.localName]) q := by
  induction groups generalizing walked above t with
  | nil =>
      obtain ⟨name, es, gs⟩ := t
      rw [insertBelow_nil, List.nil_append]
      constructor
      · intro accepted q e held
        split at accepted
        · cases accepted
        · rename_i free
          simp only [Bool.or_eq_true, not_or, Bool.not_eq_true,
            Dictionary.contains_eq_false_iff] at free
          cases held with
          | here found =>
              refine clear_cons.mpr fun same => ?_
              subst same
              cases free.1.symm.trans found
          | within found inside =>
              refine clear_cons.mpr fun same => ?_
              subst same
              cases free.2.symm.trans found
      · intro clear
        have freeEntry : Dictionary.contains entry.localName es = false := by
          refine Dictionary.contains_eq_false_iff.mpr (Option.eq_none_iff_forall_ne_some.mpr ?_)
          intro e found
          exact (clear _ e (.here found)).1 (List.prefix_refl _)
        have freeGroup : Dictionary.contains entry.localName gs = false := by
          refine Dictionary.contains_eq_false_iff.mpr (Option.eq_none_iff_forall_ne_some.mpr ?_)
          intro g found
          obtain ⟨q, e, inside⟩ := (valid.inner found).exists_holds (valid.here.group found).2.2
          exact (clear _ e (.within found inside)).1 (List.prefix_append [entry.localName] q)
        rw [freeEntry, freeGroup]
        rfl
  | cons segment rest ih =>
      cases he : t.entries.find? segment with
      | some e =>
          rw [insertBelow_cons_of_entry he]
          constructor
          · intro accepted
            cases accepted
          · intro clear
            exact ((clear _ e (.here he)).2 (List.prefix_append [segment] _)).elim
      | none =>
          rw [insertBelow_cons he]
          refine (ih (valid.groupAt segment)).trans
            ⟨fun clear q e held => ?_, fun clear q e held => ?_⟩
          · cases held with
            | here found =>
                refine clear_cons.mpr fun same => ?_
                subst same
                cases he.symm.trans found
            | within found inside =>
                refine clear_cons.mpr fun same => ?_
                subst same
                exact clear _ e (holds_groupAt.mpr ⟨_, found, inside⟩)
          · obtain ⟨g, found, inside⟩ := holds_groupAt.mp held
            exact clear_cons.mp (clear _ e (.within found inside)) rfl

/-- After an insertion the tree holds the new entry and what it held. -/
theorem holds_insertBelow {entry : Entry} {walked : Text} {groups : List Text} {t : KeyTree}
    (accepted : (insertBelow entry walked groups t).2 = .ok ()) {q : List Text} {e : Entry} :
    Holds (insertBelow entry walked groups t).1 q e ↔
      (q = groups ++ [entry.localName] ∧ e = entry) ∨ Holds t q e := by
  induction groups generalizing walked t q with
  | nil =>
      obtain ⟨freeEntry, freeGroup, shape⟩ := insertBelow_nil_of_ok accepted
      rw [shape]
      cases q with
      | nil => simp [not_holds_nil]
      | cons k q =>
          simp only [holds_cons_iff, entries_group, groups_group, Dictionary.find?_insert,
            List.nil_append, List.cons.injEq]
          by_cases same : k = entry.localName
          · subst same
            simp [freeEntry, eq_comm]
          · simp [same]
  | cons segment rest ih =>
      obtain ⟨free, inside, shape⟩ := insertBelow_cons_of_ok accepted
      rw [shape]
      cases q with
      | nil => simp [not_holds_nil]
      | cons k q =>
          simp only [holds_cons_iff, entries_group, groups_group, Dictionary.find?_insert,
            List.cons_append, List.cons.injEq]
          by_cases same : k = segment
          · subst same
            simp [ih inside, holds_groupAt, free]
          · simp [same]

theorem name_insertBelow {entry : Entry} {walked : Text} {groups : List Text} {t : KeyTree}
    (accepted : (insertBelow entry walked groups t).2 = .ok ()) :
    (insertBelow entry walked groups t).1.name = t.name := by
  cases groups with
  | nil => rw [(insertBelow_nil_of_ok accepted).2.2, name]
  | cons segment rest => rw [(insertBelow_cons_of_ok accepted).2.2, name]

theorem Valid.insertBelow {entry : Entry} {walked : Text} {groups above : List Text} {t : KeyTree}
    (valid : Valid above t) (plain : ∀ s ∈ groups ++ [entry.localName], '.' ∉ s)
    (full : entry.fullPath = dotted (above ++ (groups ++ [entry.localName])))
    (accepted : (insertBelow entry walked groups t).2 = .ok ()) :
    Valid above (insertBelow entry walked groups t).1 := by
  induction groups generalizing walked above t with
  | nil =>
      obtain ⟨freeEntry, freeGroup, shape⟩ := insertBelow_nil_of_ok accepted
      rw [shape]
      refine .intro ⟨⟨valid.here.entries.insert _ _, valid.here.groups⟩, ?_, ?_, ?_⟩ ?_
      · intro k hgroup hentry
        rcases Dictionary.keys_insert hentry with rfl | there
        · exact Dictionary.find?_eq_none_iff.mp freeGroup hgroup
        · exact valid.here.apart hgroup there
      · intro k e found
        rcases Dictionary.eq_or_find?_of_insert found with ⟨rfl, rfl⟩ | there
        · exact ⟨plain _ List.mem_cons_self, full ▸ rfl⟩
        · exact valid.here.entry there
      · intro k g found
        exact valid.here.group found
      · intro k g found
        exact valid.inner found
  | cons segment rest ih =>
      obtain ⟨free, inside, shape⟩ := insertBelow_cons_of_ok accepted
      have named := valid.name_groupAt segment
      have validBelow := ih (valid.groupAt segment)
        (fun s hs => plain s (List.mem_cons_of_mem _ hs))
        (by rw [full, List.append_assoc]; rfl) inside
      have filled := isEmpty_of_holds ((holds_insertBelow inside).mpr (.inl ⟨rfl, rfl⟩))
      rw [shape]
      refine valid.put validBelow ⟨⟨valid.here.entries, valid.here.groups.insert _ _⟩, ?_, ?_, ?_⟩
      · intro k hgroup hentry
        rcases Dictionary.keys_insert hgroup with rfl | there
        · exact Dictionary.find?_eq_none_iff.mp free hentry
        · exact valid.here.apart there hentry
      · intro k e found
        exact valid.here.entry found
      · intro k g found
        rcases Dictionary.eq_or_find?_of_insert found with ⟨rfl, rfl⟩ | there
        · exact ⟨plain _ List.mem_cons_self, (name_insertBelow inside).trans named, filled⟩
        · exact valid.here.group there

theorem allEntries_eq (t : KeyTree) :
    t.allEntries = t.entries.map (·.2) ++ t.groups.flatMap fun g => g.2.allEntries := by
  obtain ⟨name, es, gs⟩ := t
  have groupsPart : allEntriesOf gs = gs.flatMap fun g => g.2.allEntries := by
    induction gs with
    | nil => rfl
    | cons g gs ih => rw [allEntriesOf, ih, List.flatMap_cons]
  rw [allEntries, groupsPart]
  rfl

/-- What is new in one group is new among all groups. -/
theorem allEntries_insert {t below : KeyTree} {name : Text} {entry : Entry}
    (ordered : t.groups.Ordered)
    (h : below.allEntries.Perm (entry :: (t.groupAt name).allEntries)) :
    ((t.groups.insert name below).flatMap fun g => g.2.allEntries).Perm
      (entry :: t.groups.flatMap fun g => g.2.allEntries) := by
  cases hg : t.groups.find? name with
  | none =>
      rw [groupAt_of_absent hg] at h
      have hnew := (Dictionary.insert_perm below hg).flatMap_right fun g => g.2.allEntries
      exact hnew.trans (h.append_right _)
  | some g =>
      rw [groupAt_of_find? hg] at h
      obtain ⟨pre, post, before, after⟩ := Dictionary.insert_replace below ordered hg
      rw [after, before, List.flatMap_append, List.flatMap_append, List.flatMap_cons,
        List.flatMap_cons]
      have hpost := (h.append_right (post.flatMap fun g => g.2.allEntries)).append_left
        (pre.flatMap fun g => g.2.allEntries)
      exact hpost.trans List.perm_middle

theorem allEntries_insertBelow {entry : Entry} {walked : Text} {groups above : List Text}
    {t : KeyTree} (valid : Valid above t)
    (accepted : (insertBelow entry walked groups t).2 = .ok ()) :
    (insertBelow entry walked groups t).1.allEntries.Perm (entry :: t.allEntries) := by
  induction groups generalizing walked above t with
  | nil =>
      obtain ⟨freeEntry, freeGroup, shape⟩ := insertBelow_nil_of_ok accepted
      rw [shape, allEntries_eq, allEntries_eq t]
      exact ((Dictionary.insert_perm entry freeEntry).map (·.2)).append_right _
  | cons segment rest ih =>
      obtain ⟨free, inside, shape⟩ := insertBelow_cons_of_ok accepted
      have hgroups := allEntries_insert valid.here.groups (ih (valid.groupAt segment) inside)
      rw [shape, allEntries_eq, allEntries_eq t]
      exact (hgroups.append_left _).trans List.perm_middle

end Phrasebook.KeyTree
