import Phrasebook.FileTree.Change
import Phrasebook.Proofs.FileTree.Place
import Phrasebook.Proofs.Outcome
import Phrasebook.Proofs.Text.Utf8

/-! What a change leaves as it was. Making directories only adds directories, and writing a file
changes the one place to which its path leads; unless that is a link, the path names the file from
then on, whatever else the tree comes to hold. -/
namespace Phrasebook

namespace FileTree

/-- What stands at a place stood there before, or a directory was made where there was nothing. -/
def Kept (old new : Option Kind) : Prop := new = old ∨ old = none ∧ new = some .directory

theorem Kept.trans {old between new : Option Kind} (h : Kept old between) (h' : Kept between new) :
    Kept old new := by
  rcases h' with rfl | ⟨rfl, made'⟩
  · exact h
  · rcases h with same | ⟨-, made⟩
    · exact .inr ⟨same.symm, made'⟩
    · cases made

theorem lastName_concat (before : List Bytes) (last : Bytes) :
    lastName (before ++ [last]) = last := by
  simp [lastName]

section Target

variable {t : FileTree} {base : Trail} {names : List Bytes} {place : Place} {name : Bytes}

/-- The last name of a path is a link that leads on, or it is the target and a file if anything. -/
theorem target_last {links : Nat} {trail : Trail} {last : Bytes}
    (h : (match trail.node t with
      | directory es =>
        match lookup last es with
        | some (link aim) => t.target links (trail.start aim) (aim.splitOn Path.slash)
        | some (directory _) => .error .isDirectory
        | _ => .ok (trail.place, last)
      | _ => .error .notDirectory) = .ok (place, name)) :
    ∃ es, trail.node t = directory es ∧
      ((∃ aim, lookup last es = some (link aim) ∧
          t.target links (trail.start aim) (aim.splitOn Path.slash) = .ok (place, name)) ∨
        place = trail.place ∧ name = last ∧
          ∀ u, lookup last es = some u → ∃ content, u = file content) := by
  split at h
  · rename_i es here
    refine ⟨es, here, ?_⟩
    split at h
    · rename_i aim entry
      exact .inl ⟨aim, entry, h⟩
    · cases h
    · rename_i notLink notDirectory
      cases h
      refine .inr ⟨rfl, rfl, fun u entry => ?_⟩
      cases u with
      | file content => exact ⟨content, rfl⟩
      | link aim => exact (notLink aim entry).elim
      | directory es' => exact (notDirectory es' entry).elim
  · cases h

/-- What a target says of the directory to which the names before the last one lead. -/
theorem target_succ {links : Nat} (h : t.target (links + 1) base names = .ok (place, name)) :
    ∃ (before : List Bytes) (last : Bytes) (trail : Trail) (es : Entries),
      names = before ++ [last] ∧ IsName last ∧
      Walks t true (linkLimit + 1) base (before ++ [[]]) trail ∧ trail.node t = directory es ∧
      ((∃ aim, lookup last es = some (link aim) ∧
          t.target links (trail.start aim) (aim.splitOn Path.slash) = .ok (place, name)) ∨
        place = trail.place ∧ name = last ∧
          ∀ u, lookup last es = some u → ∃ content, u = file content) := by
  rw [target] at h
  split at h
  · cases h
  rename_i counts
  split at h
  · cases h
  rename_i short
  rcases List.eq_nil_or_concat names with rfl | ⟨before, last, rfl⟩
  · exact (counts (.inl rfl)).elim
  rw [List.concat_eq_append, lastName_concat] at counts short h
  rw [← or_assoc, not_or] at counts
  obtain ⟨trail, walked, h⟩ := Outcome.bind_eq_ok_iff.mp h
  rw [trailAbove, List.dropLast_concat] at walked
  obtain ⟨es, here, outcome⟩ := target_last h
  exact ⟨before, last, trail, es, List.concat_eq_append, ⟨counts.1, counts.2, short⟩,
    .of_walkLinks walked, here, outcome⟩

/-- The target of a path is in a directory, and there is nothing in its place but maybe a file. -/
theorem target_free {links : Nat} (real : base.Real t)
    (h : t.target links base names = .ok (place, name)) :
    ∃ (trail : Trail) (es : Entries), trail.Real t ∧ trail.place = place ∧
      trail.node t = directory es ∧
      ∀ u, lookup name es = some u → ∃ content, u = file content := by
  induction links generalizing base names with
  | zero => cases h
  | succ links ih =>
      obtain ⟨before, last, trail, es, -, -, way, here, on | ⟨rfl, rfl, free⟩⟩ := target_succ h
      · obtain ⟨aim, -, further⟩ := on
        exact ih ((way.real real).start aim) further
      · exact ⟨trail, es, way.real real, rfl, here, free⟩

end Target

end FileTree

namespace FileSystem

open FileTree (Kind Kept Place Trail Entries IsName Walks lookup put checkPath linkLimit
  eq_directory_of_entry eq_file_of_kind eq_link_of_kind)

def kindAt? (s : FileSystem) (place : Place) : Option Kind := s.top.kindAt? place

/-- The other file system has all that this one has, and relative paths go on from the same
place. -/
structure Grows (s s' : FileSystem) : Prop where
  home : s'.home = s.home
  top : s.top.Grows s'.top

/-- The other file system has a node at a place, and is as this one everywhere else. -/
structure SetAt (s : FileSystem) (place : Place) (k : Kind) (s' : FileSystem) : Prop where
  home : s'.home = s.home
  kinds : ∀ q, s'.kindAt? q = if q = place then some k else s.kindAt? q

/-- The other file system is the same but for directories where there was nothing. -/
structure Spreads (s s' : FileSystem) : Prop where
  home : s'.home = s.home
  kept : ∀ place, Kept (s.kindAt? place) (s'.kindAt? place)

theorem Grows.refl (s : FileSystem) : Grows s s := ⟨rfl, .refl s.top⟩

theorem Grows.trans {s s' s'' : FileSystem} (h : s.Grows s') (h' : s'.Grows s'') : s.Grows s'' :=
  ⟨h'.home.trans h.home, h.top.trans h'.top⟩

theorem SetAt.spreads {s s' : FileSystem} {place : Place} (set : s.SetAt place .directory s')
    (free : s.kindAt? place = none) : s.Spreads s' := by
  refine ⟨set.home, fun q => ?_⟩
  rw [set.kinds q]
  split
  · rename_i same
    exact .inr ⟨same ▸ free, rfl⟩
  · exact .inl rfl

theorem SetAt.grows {s s' : FileSystem} {place : Place} {content : Bytes}
    (set : s.SetAt place (.file content) s')
    (free : ∀ k, s.kindAt? place = some k → k.Stays (.file content)) : s.Grows s' := by
  refine ⟨set.home, fun q k there => ?_⟩
  have same := set.kinds q
  rw [kindAt?] at same
  rw [same]
  split
  · rename_i here
    subst here
    exact ⟨_, rfl, free k there⟩
  · exact ⟨k, there, .refl k⟩

namespace Spreads

theorem refl (s : FileSystem) : Spreads s s := ⟨rfl, fun _ => .inl rfl⟩

theorem trans {s s' s'' : FileSystem} (h : s.Spreads s') (h' : s'.Spreads s'') : s.Spreads s'' :=
  ⟨h'.home.trans h.home, fun place => (h.kept place).trans (h'.kept place)⟩

theorem grows {s s' : FileSystem} (h : s.Spreads s') : s.Grows s' := by
  refine ⟨h.home, fun place k there => ?_⟩
  rcases h.kept place with same | ⟨free, -⟩
  · exact ⟨k, same.trans there, .refl k⟩
  · cases free.symm.trans there

end Spreads

section Making

variable {s s' : FileSystem} {p : Path}

/-- An entry without entries of its own, put where there was none or one like it. -/
theorem setAt_put {trail : Trail} (real : trail.Real s.top) {es : Entries}
    (here : trail.node s.top = .directory es) {name : Bytes} (node : FileTree)
    (leaf : node.entries = []) (old : ∀ u, lookup name es = some u → u.entries = []) :
    s.SetAt (trail.place ++ [name]) node.kind (s.modifyEntries (put name node) trail.place) :=
  ⟨rfl, FileTree.kindAt?_put_leaf (by rw [real.at?_place, here]) leaf old⟩

theorem spreads_makeDirectory (h : s.makeDirectory p = .ok s') : s.Spreads s' := by
  obtain ⟨_, -, h⟩ := Outcome.bind_eq_ok_iff.mp h
  obtain ⟨trail, walked, h⟩ := Outcome.bind_eq_ok_iff.mp h
  have real := (Walks.of_walkLinks walked).real (Trail.real_nil s.top)
  split at h
  · rename_i es here
    split at h
    · cases h
    split at h
    · cases h
    split at h
    · cases h
    · rename_i free
      rw [Option.not_isSome_iff_eq_none] at free
      cases h
      have set := setAt_put real here .empty rfl (fun u entry => by rw [free] at entry; cases entry)
      refine set.spreads ?_
      rw [kindAt?, real.kindAt?_entry, here, FileTree.entries, free, Option.map_none]
  · cases h

theorem spreads_ensureDirectory (s : FileSystem) (p : Path) : s.Spreads (s.ensureDirectory p).1 := by
  rw [ensureDirectory]
  split
  · exact spreads_makeDirectory ‹_›
  · exact .refl s

theorem spreads_makeDirectoriesWithin (s : FileSystem) (fuel : Nat) (p : Path) :
    s.Spreads (s.makeDirectoriesWithin fuel p).1 := by
  induction fuel generalizing s p with
  | zero => exact spreads_ensureDirectory s p
  | succ fuel ih =>
      rw [makeDirectoriesWithin]
      split
      · exact .refl s
      split
      · rename_i above _ _
        have made := ih s above
        split
        · rename_i s' within
          rw [within] at made
          exact made.trans (spreads_ensureDirectory _ p)
        · rename_i within
          rw [within] at made
          exact made
      · exact spreads_ensureDirectory s p

theorem spreads_makeDirectories (s : FileSystem) (p : Path) :
    s.Spreads (s.makeDirectories p).1 := spreads_makeDirectoriesWithin s _ p

end Making

section Writing

variable {s s' : FileSystem} {p : Path}

theorem writeFile_eq_ok {content : Bytes} (h : s.writeFile p content = .ok s') :
    ∃ place name, s.top.target (linkLimit + 1) [] (s.names p) = .ok (place, name) ∧
      checkPath p = .ok () ∧ s.SetAt (place ++ [name]) (.file content) s' ∧
      ∀ k, s.kindAt? (place ++ [name]) = some k → k.Stays (.file content) := by
  obtain ⟨⟨⟩, spelled, h⟩ := Outcome.bind_eq_ok_iff.mp h
  obtain ⟨⟨place, name⟩, found, h⟩ := Outcome.bind_eq_ok_iff.mp h
  cases h
  obtain ⟨trail, es, real, rfl, here, free⟩ := FileTree.target_free (Trail.real_nil s.top) found
  refine ⟨trail.place, name, found, spelled, ?_, ?_⟩
  · refine setAt_put real here (.file content) rfl fun u entry => ?_
    obtain ⟨old, rfl⟩ := free u entry
    rfl
  · intro k there
    rw [kindAt?, real.kindAt?_entry, here, FileTree.entries, Option.map_eq_some_iff] at there
    obtain ⟨u, entry, rfl⟩ := there
    obtain ⟨old, rfl⟩ := free u entry
    exact ⟨content, rfl⟩

/-- A path leads to an entry of the directory to which the names before the last one lead, whether
or not that entry is there. -/
structure LeadsTo (s : FileSystem) (p : Path) (spot : Place) : Prop where
  accepted : checkPath p = .ok ()
  last : ∃ (before : List Bytes) (last : Bytes) (trail : Trail),
    s.names p = before ++ [last] ∧ IsName last ∧
      Walks s.top true (linkLimit + 1) [] (before ++ [[]]) trail ∧ spot = trail.place ++ [last]

/-- Whether what a path names is itself a link. -/
def isLinkAt (s : FileSystem) (p : Path) : Bool :=
  match s.locate false p with
  | .ok trail =>
    match trail.node s.top with
    | .link _ => true
    | _ => false
  | .error _ => false

/-- A path leads to the file written for it from then on, unless it names a link. -/
theorem leadsTo_of_writeFile {content : Bytes} (h : s.writeFile p content = .ok s') :
    ∃ spot, s.SetAt spot (.file content) s' ∧
      (∀ k, s.kindAt? spot = some k → k.Stays (.file content)) ∧
      ∀ later, s'.Grows later → later.isLinkAt p = false → later.LeadsTo p spot := by
  obtain ⟨place, name, found, spelled, set, free⟩ := writeFile_eq_ok h
  refine ⟨place ++ [name], set, free, fun later grows unlinked => ?_⟩
  have grown := (set.grows free).trans grows
  have sameNames : later.names p = s.names p := by rw [names, names, grown.home]
  obtain ⟨before, last, trail, es, names, isName, way, here, ending⟩ := FileTree.target_succ found
  obtain ⟨trail', way', beside⟩ := way.beside grown.top (.nil s.top later.top)
  rw [← sameNames] at names
  rcases ending with ⟨aim, entry, -⟩ | ⟨rfl, rfl, -⟩
  · obtain ⟨es', u', here', entry', stays, -⟩ := beside.enter grown.top here entry
    cases eq_link_of_kind stays
    have named : Walks later.top false (linkLimit + 1) [] (before ++ [last]) _ :=
      way'.concat here' isName entry' (.inl rfl)
    have located : later.locate false p = .ok ((last, .link aim) :: trail') := by
      rw [locate, spelled, names]
      exact named.walkLinks_eq
    rw [isLinkAt, located] at unlinked
    cases unlinked
  · exact ⟨spelled, before, name, trail', names, isName, way', by rw [beside.place]⟩

theorem LeadsTo.readBytes {spot : Place} {content : Bytes} (leads : s.LeadsTo p spot)
    (there : s.kindAt? spot = some (.file content)) : s.readBytes p = .ok content := by
  obtain ⟨accepted, before, last, trail, names, isName, way, rfl⟩ := leads
  rw [kindAt?, (way.real (Trail.real_nil s.top)).kindAt?_entry, Option.map_eq_some_iff] at there
  obtain ⟨u, entry, kind⟩ := there
  obtain ⟨es, here⟩ := eq_directory_of_entry entry
  rw [here] at entry
  cases eq_file_of_kind kind
  have named : Walks s.top true (linkLimit + 1) [] (before ++ [last]) _ :=
    way.concat here isName entry (.inr fun target => FileTree.noConfusion)
  rw [FileSystem.readBytes, get, locate, accepted, names]
  have found : s.top.walkLinks true (linkLimit + 1) [] (before ++ [last]) = _ := named.walkLinks_eq
  simp [found, Except.map, Trail.node, bind, Except.bind]

theorem LeadsTo.readText {spot : Place} {text : Text} (leads : s.LeadsTo p spot)
    (there : s.kindAt? spot = some (.file (Utf8.encode text))) : s.readText p = .ok text := by
  rw [FileSystem.readText, leads.readBytes there]
  simp [bind, Except.bind, Utf8.decode?_encode]

end Writing

end FileSystem

end Phrasebook
