import Mathlib.Data.List.Basic
import Mathlib.Data.List.Infix
import Phrasebook.FileTree.Basic
import Phrasebook.Proofs.Path

/-! What lies where. A tree is told by what stands at its places, links not followed; putting an
entry into a directory changes what stands there and below and nothing else. A walk leads to the
same places in every tree that keeps the directories and the links it met. -/
namespace Phrasebook

namespace FileTree

/-- What a node is without its entries. -/
inductive Kind where
  | file (content : Bytes)
  | link (target : Path)
  | directory
deriving DecidableEq

def kind : FileTree → Kind
  | file content => .file content
  | link target => .link target
  | directory _ => .directory

theorem eq_link_of_kind {u : FileTree} {target : Path} (h : u.kind = .link target) :
    u = link target := by
  cases u <;> cases h
  rfl

theorem eq_directory_of_kind {u : FileTree} (h : u.kind = .directory) : ∃ es, u = directory es := by
  cases u <;> cases h
  exact ⟨_, rfl⟩

theorem eq_file_of_kind {u : FileTree} {content : Bytes} (h : u.kind = .file content) :
    u = file content := by
  cases u <;> cases h
  rfl

theorem eq_directory_of_entry {u v : FileTree} {name : Bytes}
    (h : lookup name u.entries = some v) : ∃ es, u = directory es := by
  cases u with
  | directory es => exact ⟨es, rfl⟩
  | file content => cases h
  | link target => cases h

/-- The node at a place, links not followed. -/
def at? : FileTree → Place → Option FileTree
  | t, [] => some t
  | t, name :: rest => (lookup name t.entries).bind (at? · rest)

def kindAt? (t : FileTree) (place : Place) : Option Kind := (t.at? place).map kind

theorem lookup_put (name other : Bytes) (node : FileTree) (es : Entries) :
    lookup other (put name node es) = if name = other then some node else lookup other es := by
  induction es with
  | nil => simp [put, lookup]
  | cons e rest ih =>
      obtain ⟨n, u⟩ := e
      rw [put]
      split
      · rw [lookup]
      split
      · rename_i same
        subst same
        rw [lookup, lookup]
        split <;> rfl
      · rename_i differs
        rw [lookup, lookup, ih]
        grind

theorem at?_append (t : FileTree) (place below : Place) :
    t.at? (place ++ below) = (t.at? place).bind (·.at? below) := by
  induction place generalizing t with
  | nil => rfl
  | cons name rest ih =>
      rw [List.cons_append, at?, at?]
      cases lookup name t.entries with
      | none => rfl
      | some u => exact ih u

theorem at?_of_entries_eq_nil {t : FileTree} (none : t.entries = []) {place : Place}
    (below : place ≠ []) : t.at? place = .none := by
  cases place with
  | nil => exact (below rfl).elim
  | cons name rest => rw [at?, none, lookup, Option.bind_none]

section Put

variable {t : FileTree} {place : Place} {es : Entries}

theorem at?_modifyEntries_put (here : t.at? place = some (directory es)) (name : Bytes)
    (node : FileTree) (below : Place) :
    (t.modifyEntries (put name node) place).at? (place ++ name :: below) = node.at? below := by
  induction place generalizing t with
  | nil =>
      cases here
      rw [modifyEntries, List.nil_append, at?, entries, lookup_put, if_pos rfl, Option.bind_some]
  | cons first rest ih =>
      cases t with
      | file content => cases here
      | link aim => cases here
      | directory es' =>
          rw [at?, entries] at here
          rw [modifyEntries]
          cases found : lookup first es' with
          | none => rw [found] at here; cases here
          | some u =>
              rw [found, Option.bind_some] at here
              rw [List.cons_append, at?, entries, lookup_put, if_pos rfl, Option.bind_some]
              exact ih here

theorem kindAt?_modifyEntries_put {name : Bytes} (node : FileTree) {q : Place}
    (elsewhere : ¬ place ++ [name] <+: q) :
    (t.modifyEntries (put name node) place).kindAt? q = t.kindAt? q := by
  induction place generalizing t q with
  | nil =>
      cases t with
      | file content => rfl
      | link aim => rfl
      | directory es =>
          cases q with
          | nil => rfl
          | cons n q =>
              have other : name ≠ n := by
                rintro rfl
                exact elsewhere ⟨q, rfl⟩
              rw [modifyEntries, kindAt?, kindAt?, at?, at?, entries, entries, lookup_put,
                if_neg other]
  | cons first rest ih =>
      cases t with
      | file content => rfl
      | link aim => rfl
      | directory es =>
          rw [modifyEntries]
          cases found : lookup first es with
          | none => rfl
          | some u =>
              cases q with
              | nil => rfl
              | cons n q =>
                  rw [kindAt?, kindAt?, at?, at?, entries, entries, lookup_put]
                  split
                  · rename_i same
                    subst same
                    rw [found, Option.bind_some, Option.bind_some]
                    refine ih fun into => elsewhere ?_
                    rw [List.cons_append]
                    exact (List.prefix_cons_inj first).mpr into
                  · rfl

/-- Putting what has no entries in place of what has none changes one place. -/
theorem kindAt?_put_leaf (here : t.at? place = some (directory es)) {name : Bytes}
    {node : FileTree} (leaf : node.entries = [])
    (old : ∀ u, lookup name es = some u → u.entries = []) (q : Place) :
    (t.modifyEntries (put name node) place).kindAt? q =
      if q = place ++ [name] then some node.kind else t.kindAt? q := by
  by_cases into : place ++ [name] <+: q
  · obtain ⟨below, rfl⟩ := into
    rw [List.append_assoc, List.singleton_append, kindAt?, at?_modifyEntries_put here]
    cases below with
    | nil => rw [if_pos rfl]; rfl
    | cons n rest =>
        have longer : place ++ name :: n :: rest ≠ place ++ [name] := by simp
        rw [if_neg longer, at?_of_entries_eq_nil leaf (List.cons_ne_nil n rest), kindAt?,
          at?_append, here, Option.bind_some, at?, entries]
        cases found : lookup name es with
        | none => rfl
        | some u =>
            rw [Option.bind_some, at?_of_entries_eq_nil (old u found) (List.cons_ne_nil n rest)]
  · rw [kindAt?_modifyEntries_put node into, if_neg]
    rintro rfl
    exact into (List.prefix_refl _)

end Put

/-- Every node of a trail is the entry of its name in the node before. -/
def Trail.Real (t : FileTree) : Trail → Prop
  | [] => True
  | (name, u) :: above => lookup name (Trail.node t above).entries = some u ∧ Trail.Real t above

namespace Trail

variable {t : FileTree} {trail : Trail}

theorem real_nil (t : FileTree) : Trail.Real t [] := trivial

theorem place_cons (name : Bytes) (u : FileTree) (above : Trail) :
    Trail.place ((name, u) :: above) = above.place ++ [name] := by
  simp [Trail.place]

theorem Real.at?_place (real : trail.Real t) : t.at? trail.place = some (trail.node t) := by
  induction trail with
  | nil => rfl
  | cons e above ih =>
      obtain ⟨name, u⟩ := e
      obtain ⟨entry, real⟩ := real
      rw [place_cons, at?_append, ih real, Option.bind_some, at?, entry]
      rfl

theorem Real.enter (real : trail.Real t) {es : Entries} (here : trail.node t = directory es)
    {name : Bytes} {u : FileTree} (entry : lookup name es = some u) :
    Trail.Real t ((name, u) :: trail) :=
  ⟨by rw [here]; exact entry, real⟩

theorem Real.tail (real : trail.Real t) : Trail.Real t trail.tail := by
  cases trail with
  | nil => exact real
  | cons e above => exact real.2

theorem Real.start (real : trail.Real t) (p : Path) : (trail.start p).Real t := by
  rw [Trail.start]
  split
  · exact real_nil t
  · exact real

theorem Real.kindAt?_place (real : trail.Real t) :
    t.kindAt? trail.place = some (trail.node t).kind := by
  rw [kindAt?, real.at?_place, Option.map_some]

theorem Real.kindAt?_entry (real : trail.Real t) (name : Bytes) :
    t.kindAt? (trail.place ++ [name]) = (lookup name (trail.node t).entries).map kind := by
  rw [kindAt?, at?_append, real.at?_place, Option.bind_some, at?]
  cases lookup name (trail.node t).entries <;> rfl

end Trail

/-- A name that may be that of an entry. -/
structure IsName (name : Bytes) : Prop where
  counts : ¬ (name = [] ∨ name = [Path.dot])
  notParent : name ≠ [Path.dot, Path.dot]
  short : ¬ nameLimit < name.length

/-- The ways on which names lead from a trail to another one, with so many links at most. -/
inductive Walks (t : FileTree) (followLast : Bool) : Nat → Trail → List Bytes → Trail → Prop where
  | arrived {links : Nat} {trail : Trail} : Walks t followLast (links + 1) trail [] trail
  | stay {links : Nat} {trail found : Trail} {name : Bytes} {rest : List Bytes} {es : Entries}
    (here : trail.node t = directory es) (blank : name = [] ∨ name = [Path.dot])
    (further : Walks t followLast (links + 1) trail rest found) :
    Walks t followLast (links + 1) trail (name :: rest) found
  | up {links : Nat} {trail found : Trail} {rest : List Bytes} {es : Entries}
    (here : trail.node t = directory es)
    (further : Walks t followLast (links + 1) trail.tail rest found) :
    Walks t followLast (links + 1) trail ([Path.dot, Path.dot] :: rest) found
  | enter {links : Nat} {trail found : Trail} {name : Bytes} {rest : List Bytes} {es : Entries}
    {u : FileTree} (here : trail.node t = directory es) (isName : IsName name)
    (entry : lookup name es = some u) (notLink : ∀ target, u ≠ link target)
    (further : Walks t followLast (links + 1) ((name, u) :: trail) rest found) :
    Walks t followLast (links + 1) trail (name :: rest) found
  | last {links : Nat} {trail : Trail} {name : Bytes} {es : Entries} {target : Path}
    (here : trail.node t = directory es) (isName : IsName name)
    (entry : lookup name es = some (link target)) (unfollowed : followLast = false) :
    Walks t followLast (links + 1) trail [name] ((name, link target) :: trail)
  | follow {links : Nat} {trail found : Trail} {name : Bytes} {rest : List Bytes} {es : Entries}
    {target : Path} (here : trail.node t = directory es) (isName : IsName name)
    (entry : lookup name es = some (link target)) (followed : rest ≠ [] ∨ followLast = true)
    (further : Walks t followLast links (trail.start target)
      (target.splitOn Path.slash ++ rest) found) :
    Walks t followLast (links + 1) trail (name :: rest) found

section Walks

variable {t : FileTree} {followLast : Bool} {links : Nat} {trail found : Trail}
  {names : List Bytes}

theorem Walks.of_walkLinks (h : walkLinks t followLast links trail names = .ok found) :
    Walks t followLast links trail names found := by
  -- A followed link starts over with other names and one link less.
  induction links generalizing trail found names with
  | zero => cases h
  | succ links ihLinks =>
      induction names generalizing trail with
      | nil => cases h; exact .arrived
      | cons name rest ih =>
          unfold walkLinks walk at h
          split at h
          case h_2 => cases h
          rename_i es here
          split at h
          · exact .stay here ‹_› (ih h)
          rename_i counts
          split at h
          · rename_i parent
            subst parent
            exact .up here (ih h)
          rename_i notParent
          split at h
          · cases h
          rename_i short
          have isName : IsName name := ⟨counts, notParent, short⟩
          split at h
          · cases h
          · rename_i target entry
            split at h
            · rename_i unfollowed
              simp only [Bool.and_eq_true, List.isEmpty_iff, Bool.not_eq_true'] at unfollowed
              obtain ⟨rfl, unfollowed⟩ := unfollowed
              cases h
              exact .last here isName entry unfollowed
            · rename_i followed
              refine .follow here isName entry ?_ (ihLinks h)
              cases rest <;> simp_all
          · rename_i below notLink entry
            exact .enter here isName entry notLink (ih h)

theorem Walks.walkLinks_eq (way : Walks t followLast links trail names found) :
    walkLinks t followLast links trail names = .ok found := by
  induction way with
  | arrived => rfl
  | stay here blank further ih =>
      unfold walkLinks walk
      rw [here]
      exact (if_pos blank).trans ih
  | up here further ih =>
      unfold walkLinks walk
      rw [here]
      exact ih
  | @enter _ _ _ _ _ _ u here isName entry notLink further ih =>
      unfold walkLinks walk
      rw [here]
      dsimp only
      rw [if_neg isName.counts, if_neg isName.notParent, if_neg isName.short, entry]
      cases u with
      | file content => exact ih
      | link target => exact (notLink target rfl).elim
      | directory es => exact ih
  | last here isName entry unfollowed =>
      subst unfollowed
      unfold walkLinks walk
      rw [here]
      dsimp only
      rw [if_neg isName.counts, if_neg isName.notParent, if_neg isName.short, entry]
      rfl
  | follow here isName entry followed further ih =>
      unfold walkLinks walk
      rw [here]
      dsimp only
      rw [if_neg isName.counts, if_neg isName.notParent, if_neg isName.short, entry]
      dsimp only
      rw [if_neg (by rcases followed with more | rfl <;> simp [*])]
      exact ih

theorem Walks.real (way : Walks t followLast links trail names found) (real : trail.Real t) :
    found.Real t := by
  induction way with
  | arrived => exact real
  | stay here blank further ih => exact ih real
  | up here further ih => exact ih real.tail
  | enter here isName entry notLink further ih => exact ih (real.enter here entry)
  | last here isName entry unfollowed => exact real.enter here entry
  | follow here isName entry followed further ih => exact ih (real.start _)

theorem Walks.of_blank {before : List Bytes} (way : Walks t true links trail (before ++ [[]]) found) :
    Walks t true links trail before found := by
  generalize spelled : before ++ [[]] = names at way
  induction way generalizing before with
  | arrived => simp at spelled
  | stay here blank further ih =>
      cases before with
      | nil =>
          cases spelled
          cases further
          exact .arrived
      | cons n before =>
          cases spelled
          exact .stay here blank (ih rfl)
  | up here further ih =>
      cases before with
      | nil => cases spelled
      | cons n before =>
          cases spelled
          exact .up here (ih rfl)
  | enter here isName entry notLink further ih =>
      cases before with
      | nil =>
          cases spelled
          exact (isName.counts (.inl rfl)).elim
      | cons n before =>
          cases spelled
          exact .enter here isName entry notLink (ih rfl)
  | last here isName entry unfollowed => cases unfollowed
  | follow here isName entry followed further ih =>
      cases before with
      | nil =>
          cases spelled
          exact (isName.counts (.inl rfl)).elim
      | cons n before =>
          rw [List.cons_append, List.cons.injEq] at spelled
          obtain ⟨rfl, rfl⟩ := spelled
          exact .follow here isName entry (.inr rfl) (ih (List.append_assoc _ _ _))

/-- A walk goes on from where another one ends, if it needs no links for that. -/
theorem Walks.append {more : List Bytes} {found' : Trail} (way : Walks t true links trail names found)
    (further : ∀ links, Walks t followLast (links + 1) found more found')
    (goesOn : more ≠ [] ∨ followLast = true) :
    Walks t followLast links trail (names ++ more) found' := by
  induction way with
  | arrived => exact further _
  | stay here blank further' ih => exact .stay here blank (ih further)
  | up here further' ih => exact .up here (ih further)
  | enter here isName entry notLink further' ih =>
      exact .enter here isName entry notLink (ih further)
  | last here isName entry unfollowed => cases unfollowed
  | follow here isName entry followed further' ih =>
      have whole := ih further
      rw [List.append_assoc] at whole
      exact .follow here isName entry (goesOn.imp_left (List.append_ne_nil_of_right_ne_nil _)) whole

/-- Where a walk ends in a directory, one more name leads to its entry. -/
theorem Walks.concat {before : List Bytes} (way : Walks t true links trail (before ++ [[]]) found)
    {es : Entries} (here : found.node t = directory es) {name : Bytes} {u : FileTree}
    (isName : IsName name) (entry : lookup name es = some u)
    (reached : followLast = false ∨ ∀ target, u ≠ link target) :
    Walks t followLast links trail (before ++ [name]) ((name, u) :: found) := by
  refine way.of_blank.append (fun links => ?_) (.inl (List.cons_ne_nil name []))
  by_cases isLink : ∃ target, u = link target
  · obtain ⟨target, rfl⟩ := isLink
    exact .last here isName entry (reached.resolve_right fun not => not target rfl)
  · exact .enter here isName entry (fun target same => isLink ⟨target, same⟩) .arrived

/-- A walk over more names passes where a walk over the first of them ends. -/
theorem Walks.rest {more : List Bytes} {found' : Trail} (way : Walks t true links trail names found)
    (whole : Walks t true links trail (names ++ more) found') :
    ∃ left, Walks t true left found more found' := by
  induction way with
  | arrived => exact ⟨_, whole⟩
  | @stay _ _ _ _ rest _ here blank further ih =>
      rw [List.cons_append] at whole
      generalize spelled : rest ++ more = following at whole
      cases whole with
      | stay _ _ whole => exact ih (spelled ▸ whole)
      | up => rcases blank with same | same <;> cases same
      | enter _ isName => exact (isName.counts blank).elim
      | last _ isName => exact (isName.counts blank).elim
      | follow _ isName => exact (isName.counts blank).elim
  | @up _ _ _ rest _ here further ih =>
      rw [List.cons_append] at whole
      generalize spelled : rest ++ more = following at whole
      cases whole with
      | stay _ blank => rcases blank with same | same <;> cases same
      | up _ whole => exact ih (spelled ▸ whole)
      | enter _ isName => exact (isName.notParent rfl).elim
      | last _ isName => exact (isName.notParent rfl).elim
      | follow _ isName => exact (isName.notParent rfl).elim
  | @enter _ _ _ _ rest _ _ here isName entry notLink further ih =>
      rw [List.cons_append] at whole
      generalize spelled : rest ++ more = following at whole
      cases whole with
      | stay _ blank => exact (isName.counts blank).elim
      | up => exact (isName.notParent rfl).elim
      | enter here' _ entry' _ whole =>
          cases here.symm.trans here'
          cases entry.symm.trans entry'
          exact ih (spelled ▸ whole)
      | last here' _ entry' unfollowed => cases unfollowed
      | follow here' _ entry' =>
          cases here.symm.trans here'
          cases entry.symm.trans entry'
          exact (notLink _ rfl).elim
  | last here isName entry unfollowed => cases unfollowed
  | @follow _ _ _ _ rest _ target here isName entry followed further ih =>
      rw [List.cons_append] at whole
      generalize spelled : rest ++ more = following at whole
      cases whole with
      | stay _ blank => exact (isName.counts blank).elim
      | up => exact (isName.notParent rfl).elim
      | enter here' _ entry' notLink =>
          cases here.symm.trans here'
          cases entry.symm.trans entry'
          exact (notLink _ rfl).elim
      | last here' _ entry' unfollowed => cases unfollowed
      | follow here' _ entry' _ whole =>
          cases here.symm.trans here'
          cases entry.symm.trans entry'
          rw [← spelled, ← List.append_assoc] at whole
          exact ih whole

end Walks

/-- What may stand where something stood: the same link, a directory, or a file for a file. -/
def Kind.Stays : Kind → Kind → Prop
  | file _, k => ∃ content, k = file content
  | link target, k => k = link target
  | directory, k => k = directory

/-- The other tree has all that the tree has, if maybe with other content in files. -/
def Grows (t t' : FileTree) : Prop :=
  ∀ place k, t.kindAt? place = some k → ∃ k', t'.kindAt? place = some k' ∧ k.Stays k'

theorem Kind.Stays.refl (k : Kind) : k.Stays k := by
  cases k with
  | file content => exact ⟨content, rfl⟩
  | link target => rfl
  | directory => rfl

theorem Kind.Stays.not_link {u : FileTree} {target : Path} (stays : u.kind.Stays (.link target))
    (notLink : ∀ target, u ≠ FileTree.link target) : False := by
  cases u with
  | file content => obtain ⟨_, other⟩ := stays; cases other
  | link target => exact notLink target rfl
  | directory es => cases stays

theorem Grows.refl (t : FileTree) : Grows t t := fun _ k h => ⟨k, h, .refl k⟩

theorem Grows.trans {t t' t'' : FileTree} (h : Grows t t') (h' : Grows t' t'') : Grows t t'' := by
  intro place k there
  obtain ⟨k', there', stays⟩ := h place k there
  obtain ⟨k'', there'', stays'⟩ := h' place k' there'
  refine ⟨k'', there'', ?_⟩
  cases k with
  | file content => obtain ⟨content', rfl⟩ := stays; exact stays'
  | link target => cases stays; exact stays'
  | directory => cases stays; exact stays'

/-- Trails to one place in two trees. -/
structure Trail.Beside (t t' : FileTree) (trail trail' : Trail) : Prop where
  real : trail.Real t
  real' : trail'.Real t'
  place : trail'.place = trail.place

theorem Trail.place_tail (trail : Trail) : Trail.place trail.tail = trail.place.dropLast := by
  rw [Trail.place, Trail.place, List.map_tail, ← List.dropLast_reverse]

theorem Trail.Beside.nil (t t' : FileTree) : Beside t t' [] [] :=
  ⟨real_nil t, real_nil t', rfl⟩

theorem Trail.Beside.tail {t t' : FileTree} {trail trail' : Trail}
    (beside : Beside t t' trail trail') : Beside t t' trail.tail trail'.tail :=
  ⟨beside.real.tail, beside.real'.tail, by rw [place_tail, place_tail, beside.place]⟩

theorem Trail.Beside.start {t t' : FileTree} {trail trail' : Trail}
    (beside : Beside t t' trail trail') (p : Path) :
    Beside t t' (trail.start p) (trail'.start p) := by
  rw [Trail.start, Trail.start]
  split
  · exact .nil t t'
  · exact beside

section Grows

variable {t t' : FileTree} (grows : Grows t t')
include grows

theorem Trail.Beside.directory {trail trail' : Trail} (beside : Beside t t' trail trail')
    {es : Entries} (here : trail.node t = .directory es) :
    ∃ es', trail'.node t' = .directory es' := by
  have there := beside.real.kindAt?_place
  rw [here] at there
  obtain ⟨k', there', stays⟩ := grows _ _ there
  rw [← beside.place, beside.real'.kindAt?_place, Option.some.injEq] at there'
  exact eq_directory_of_kind (there'.trans stays)

theorem Trail.Beside.enter {trail trail' : Trail} (beside : Beside t t' trail trail')
    {es : Entries} (here : trail.node t = .directory es) {name : Bytes} {u : FileTree}
    (entry : lookup name es = some u) :
    ∃ es' u', trail'.node t' = .directory es' ∧ lookup name es' = some u' ∧
      u.kind.Stays u'.kind ∧ Beside t t' ((name, u) :: trail) ((name, u') :: trail') := by
  obtain ⟨es', here'⟩ := beside.directory grows here
  have there := beside.real.kindAt?_entry name
  rw [here, entries, entry, Option.map_some] at there
  obtain ⟨k', there', stays⟩ := grows _ _ there
  rw [← beside.place, beside.real'.kindAt?_entry, here', entries, Option.map_eq_some_iff] at there'
  obtain ⟨u', entry', rfl⟩ := there'
  refine ⟨es', u', here', entry', stays, beside.real.enter here entry,
    beside.real'.enter here' entry', ?_⟩
  rw [place_cons, place_cons, beside.place]

theorem Walks.beside {followLast : Bool} {links : Nat} {trail found : Trail} {names : List Bytes}
    (way : Walks t followLast links trail names found) {trail' : Trail}
    (beside : Trail.Beside t t' trail trail') :
    ∃ found', Walks t' followLast links trail' names found' ∧ Trail.Beside t t' found found' := by
  induction way generalizing trail' with
  | arrived => exact ⟨trail', .arrived, beside⟩
  | stay here blank further ih =>
      obtain ⟨es', here'⟩ := beside.directory grows here
      obtain ⟨found', way', there⟩ := ih beside
      exact ⟨found', .stay here' blank way', there⟩
  | up here further ih =>
      obtain ⟨es', here'⟩ := beside.directory grows here
      obtain ⟨found', way', there⟩ := ih beside.tail
      exact ⟨found', .up here' way', there⟩
  | enter here isName entry notLink further ih =>
      obtain ⟨es', u', here', entry', stays, inside⟩ := beside.enter grows here entry
      obtain ⟨found', way', there⟩ := ih inside
      refine ⟨found', .enter here' isName entry' ?_ way', there⟩
      rintro target rfl
      exact stays.not_link notLink
  | last here isName entry unfollowed =>
      obtain ⟨es', u', here', entry', stays, inside⟩ := beside.enter grows here entry
      cases eq_link_of_kind stays
      exact ⟨_, .last here' isName entry' unfollowed, inside⟩
  | follow here isName entry followed further ih =>
      obtain ⟨es', u', here', entry', stays, -⟩ := beside.enter grows here entry
      cases eq_link_of_kind stays
      obtain ⟨found', way', there⟩ := ih (beside.start _)
      exact ⟨found', .follow here' isName entry' followed way', there⟩

end Grows

end FileTree

/-- The names of what is joined to a directory are its own behind those of the directory; of these a
blank one at the end is left out. -/
theorem FileSystem.exists_names_join (s : FileSystem) (dir : Path) : ∃ before,
    (∀ q, Path.isAbsolute q = false →
      s.names (Path.join dir q) = before ++ q.splitOn Path.slash) ∧
      (s.names dir = before ∨ s.names dir = before ++ [[]]) := by
  obtain ⟨segments, joined, own⟩ := Path.exists_splitOn_join dir
  refine ⟨(if Path.isAbsolute dir then [] else s.home) ++ segments, fun q relative => ?_, ?_⟩
  · rw [names, joined q relative, Path.isAbsolute_join relative, List.append_assoc]
  · rw [names]
    rcases own with same | same
    · exact .inl (by rw [same])
    · exact .inr (by rw [same, List.append_assoc])

end Phrasebook
