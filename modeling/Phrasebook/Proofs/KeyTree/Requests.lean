import Phrasebook.Proofs.KeyTree.Growth

/-! Runs that go on after a refusal. A refused path changes nothing in the tree, so a run leads to
the tree of the paths that were accepted. What such a tree looks like is known from these paths. -/
namespace Phrasebook.KeyTree

/-- The tree after paths were asked for one after the other, whatever the answers. -/
def insertEach (tree : KeyTree) : List Text → KeyTree
  | [] => tree
  | path :: rest => insertEach (tree.insert path).1 rest

def accepted (tree : KeyTree) : List Text → List Text
  | [] => []
  | path :: rest =>
    match tree.insert path with
    | (next, .ok ()) => path :: accepted next rest
    | (next, .error _) => accepted next rest

section Answers

variable {t : KeyTree} {path : Text}

theorem accepted_cons_of_ok (h : (t.insert path).2 = .ok ()) (rest : List Text) :
    t.accepted (path :: rest) = path :: (t.insert path).1.accepted rest := by
  rw [accepted]
  split <;> rename_i answer <;> rw [answer] at h ⊢
  cases h

theorem accepted_cons_of_error {c : PathConflict} (h : (t.insert path).2 = .error c)
    (rest : List Text) : t.accepted (path :: rest) = (t.insert path).1.accepted rest := by
  rw [accepted]
  split <;> rename_i answer <;> rw [answer] at h ⊢
  cases h

theorem insert_of_error (sorted : Sorted [] t) {c : PathConflict}
    (refused : (t.insert path).2 = .error c) : (t.insert path).1 = t :=
  insertBelow_of_error sorted refused

theorem Sorted.insert (sorted : Sorted [] t) (path : Text) : Sorted [] (t.insert path).1 := by
  cases answer : (t.insert path).2 with
  | ok done => exact sorted.insertBelow answer
  | error c => rwa [insert_of_error sorted answer]

end Answers

/-- A run leads to the tree that its accepted paths alone lead to. -/
theorem insertAll_accepted {t : KeyTree} (sorted : Sorted [] t) (paths : List Text) :
    t.insertAll (t.accepted paths) = .ok (t.insertEach paths) := by
  induction paths generalizing t with
  | nil => rfl
  | cons path rest ih =>
      cases answer : (t.insert path).2 with
      | ok done =>
          rw [accepted_cons_of_ok answer, insertAll_cons, answer, insertEach]
          exact ih (sorted.insert path)
      | error c =>
          rw [accepted_cons_of_error answer, insertEach, insert_of_error sorted answer]
          exact ih sorted

/-- A path is among the accepted ones when it went in at one of its turns. -/
theorem mem_accepted_iff {t : KeyTree} {paths : List Text} {p : Text} :
    p ∈ t.accepted paths ↔ ∃ before after, paths = before ++ p :: after ∧
      ((t.insertEach before).insert p).2 = .ok () := by
  induction paths generalizing t with
  | nil => simp [accepted]
  | cons path rest ih =>
      -- a turn of the run is the first one, or a turn of what is left of it
      have turns : (∃ before after, path :: rest = before ++ p :: after ∧
            ((t.insertEach before).insert p).2 = .ok ()) ↔
          (path = p ∧ (t.insert p).2 = .ok ()) ∨ p ∈ (t.insert path).1.accepted rest := by
        rw [ih]
        constructor
        · rintro ⟨before, after, cut, went⟩
          cases before with
          | nil => exact .inl ⟨(List.cons.inj cut).1, went⟩
          | cons first before =>
              obtain ⟨rfl, later⟩ := List.cons.inj cut
              exact .inr ⟨before, after, later, went⟩
        · rintro (⟨rfl, went⟩ | ⟨before, after, rfl, went⟩)
          · exact ⟨[], rest, rfl, went⟩
          · exact ⟨path :: before, after, rfl, went⟩
      rw [turns]
      cases answer : (t.insert path).2 with
      | ok done =>
          rw [accepted_cons_of_ok answer, List.mem_cons]
          refine or_congr_left ⟨fun same => ⟨same.symm, same ▸ answer⟩, fun h => h.1.symm⟩
      | error c =>
          rw [accepted_cons_of_error answer, or_iff_right]
          rintro ⟨rfl, went⟩
          cases answer.symm.trans went

/-- In every tree of groups in key order, whether insertions can lead to it or not: a refused path
leaves all groups as they were. So a run of requests leads to the tree that its accepted paths alone
lead to. -/
theorem refusal_changes_nothing {t : KeyTree} (sorted : Sorted [] t) :
    (∀ path c, (t.insert path).2 = .error c → (t.insert path).1 = t) ∧
      ∀ paths, t.insertAll (t.accepted paths) = .ok (t.insertEach paths) :=
  ⟨fun _ _ refused => insert_of_error sorted refused, insertAll_accepted sorted⟩

/-- No insertions lead to this tree: a key stands for an entry and for a group, groups are empty and
nothing is called what it is. -/
def tangled : KeyTree :=
  group "top".toList [("a".toList, ⟨"x".toList, "y".toList⟩)]
    [("a".toList, empty "b".toList),
      ("d".toList, group [] [("e".toList, ⟨[], []⟩)] [("e".toList, empty [])])]

theorem tangled_sorted : Sorted [] tangled := by
  have single : ∀ {α : Type} (k : Text) (v : α), Dictionary.Ordered [(k, v)] :=
    fun k v => List.pairwise_singleton _ _
  refine .intro ⟨single _ _, List.pairwise_pair.mpr (by decide)⟩ fun k g found => ?_
  rcases List.mem_pair.mp (Dictionary.mem_of_find? found) with same | same
  · cases same
    exact (valid_empty _ _).sorted
  · cases same
    refine .intro ⟨single _ _, single _ _⟩ fun k g found => ?_
    cases List.mem_singleton.mp (Dictionary.mem_of_find? found)
    exact (valid_empty _ _).sorted

theorem refusal_changes_nothing_tangled :
    Sorted [] tangled ∧
      (tangled.insert "d.e.f".toList).2 = .error ⟨"d.e".toList⟩ ∧
      (tangled.insert "d.e.f".toList).1 = tangled ∧
      tangled.accepted ["d.e.f".toList, "d.f".toList, "a.a".toList, "d.e".toList] =
        ["d.f".toList] ∧
      tangled.insertAll ["d.f".toList] =
        .ok (tangled.insertEach
          ["d.e.f".toList, "d.f".toList, "a.a".toList, "d.e".toList]) := by
  have refused : (tangled.insert "d.e.f".toList).2 = .error ⟨"d.e".toList⟩ := rfl
  have went : tangled.accepted ["d.e.f".toList, "d.f".toList, "a.a".toList, "d.e".toList] =
      ["d.f".toList] := rfl
  obtain ⟨unchanged, run⟩ := refusal_changes_nothing tangled_sorted
  exact ⟨tangled_sorted, refused, unchanged _ _ refused, went, went ▸ run _⟩

/-- A tree of exactly these paths, in the shape that insertion gives: each of them leads to its
entry, no other path leads to one, and the listing has each once. -/
structure Represents (t : KeyTree) (inserted : List Text) : Prop where
  shape : Valid [] t
  found : ∀ p e, t.find? p = some e ↔ p ∈ inserted ∧ e = entryOf p
  listed : t.paths.Perm inserted
  once : t.paths.Nodup

theorem represents_of_ofPaths {t : KeyTree} {paths : List Text} (built : ofPaths paths = .ok t) :
    Represents t paths where
  shape := (grown_of_ofPaths built).valid
  found _ _ := find?_of_ofPaths built
  listed := paths_of_ofPaths built
  once := (paths_of_ofPaths built).nodup_iff.mpr ((ofPaths_ok_iff paths).mp ⟨t, built⟩).nodup

theorem ofPaths_accepted (paths : List Text) :
    ofPaths (root.accepted paths) = .ok (root.insertEach paths) :=
  insertAll_accepted (valid_empty [] []).sorted paths

theorem find?_insert_of_ne {t : KeyTree} (sorted : Sorted [] t) {p q : Text} (other : q ≠ p) :
    (t.insert p).1.find? q = t.find? q := by
  cases answer : (t.insert p).2 with
  | error c => rw [insert_of_error sorted answer]
  | ok done =>
      refine Option.ext fun e => ?_
      rw [find?_eq_some_iff, find?_eq_some_iff, holds_insert answer, or_iff_right]
      rintro ⟨same, -⟩
      exact other (segmentsOf_injective same)

/-- A run from the empty tree, refusals among its answers, leads to a tree that is kept as insertion
keeps it: names are keys, no inner group is empty and no key stands for two things. The paths that
went in at one of their turns are found under themselves, are listed once, and are all there is.
A further path does not touch what is found under another. -/
theorem run_represents_accepted (paths : List Text) :
    Represents (root.insertEach paths) (root.accepted paths) ∧
    (∀ p, p ∈ root.accepted paths ↔ ∃ before after, paths = before ++ p :: after ∧
      ((root.insertEach before).insert p).2 = .ok ()) ∧
    ∀ p q, q ≠ p →
      ((root.insertEach paths).insert p).1.find? q = (root.insertEach paths).find? q := by
  have built := represents_of_ofPaths (ofPaths_accepted paths)
  refine ⟨built, fun p => mem_accepted_iff, fun p q other => ?_⟩
  exact find?_insert_of_ne built.shape.sorted other

/-- A run in which a group, a second entry and what lies below an entry are refused, and the empty
path is not. -/
def dialogRun : List Text :=
  ["dialog.ok".toList, "dialog".toList, "".toList, "dialog.ok".toList, "dialog.ok.no".toList,
    "..".toList]

theorem run_represents_accepted_dialog :
    Represents (root.insertEach dialogRun) ["dialog.ok".toList, "".toList] ∧
      "dialog.ok".toList ≠ "dialog.no".toList ∧
      ((root.insertEach dialogRun).insert "dialog.no".toList).1.find? "dialog.ok".toList =
        some ⟨"ok".toList, "dialog.ok".toList⟩ := by
  have went : root.accepted dialogRun = ["dialog.ok".toList, "".toList] := rfl
  have other : "dialog.ok".toList ≠ "dialog.no".toList := by decide
  obtain ⟨built, -, untouched⟩ := run_represents_accepted dialogRun
  rw [went] at built
  exact ⟨built, other,
    (untouched _ _ other).trans ((built.found _ _).mpr ⟨List.mem_cons_self, rfl⟩)⟩

end Phrasebook.KeyTree
