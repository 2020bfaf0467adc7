import Phrasebook.Proofs.Accessors.Generation
import Phrasebook.Proofs.KeyTree.Scopes
import Phrasebook.Proofs.Outcome

/-! Where names collide. Source is emitted exactly when no group has two names with one identifier
and no entry of the class takes that of an item that every class has. Otherwise the first group in
which this happens is told, by its path and by the names that meet. -/
namespace Phrasebook

/-- The names in a group: those of its entries, then those of the groups in it. -/
def KeyTree.childNames (g : KeyTree) : List Text := g.entries.keys ++ g.groups.keys

theorem KeyTree.WellKept.nodup_childNames {above : List Text} {g : KeyTree}
    (kept : WellKept above g) : g.childNames.Nodup := by
  refine List.nodup_append.mpr ⟨kept.entries.nodup, kept.groups.nodup, ?_⟩
  rintro k entry _ group rfl
  exact kept.apart group entry

namespace Accessors

/-- The identifiers that names have taken, the latest first. -/
def taken (names : List Text) : List (Text × Text) := (names.map fun n => (identifier n, n)).reverse

theorem taken_concat (names : List Text) (name : Text) :
    taken (names ++ [name]) = (identifier name, name) :: taken names := by
  simp [taken]

theorem mem_taken {names : List Text} {ident name : Text} :
    (ident, name) ∈ taken names ↔ name ∈ names ∧ identifier name = ident := by
  simp only [taken, List.mem_reverse, List.mem_map, Prod.mk.injEq]
  constructor
  · rintro ⟨n, there, same, rfl⟩
    exact ⟨there, same⟩
  · rintro ⟨there, same⟩
    exact ⟨name, there, same, rfl⟩

theorem keys_taken (names : List Text) :
    Dictionary.keys (taken names) = (names.map identifier).reverse := by
  simp [Dictionary.keys, taken, Function.comp_def]

/-- Names that go in beside earlier ones: no identifier is reserved or there twice. -/
structure Free (reserved earlier names : List Text) : Prop where
  unreserved : ∀ a ∈ names, identifier a ∉ reserved
  distinct : ((earlier ++ names).map identifier).Nodup

/-- What a name meets: a reserved item with its identifier, or an earlier name that has it. -/
inductive Meets (reserved earlier : List Text) (name : Text) : Text → Prop where
  | item (there : identifier name ∈ reserved) : Meets reserved earlier name (identifier name)
  | earlier {first : Text} (there : first ∈ earlier) (same : identifier first = identifier name) :
    Meets reserved earlier name first

/-- How the check of names beside earlier ones ends. -/
inductive Checked (scope : Text) (reserved earlier : List Text) :
    List Text → Except Collision (List (Text × Text)) → Prop where
  | passed {names : List Text} (free : Free reserved earlier names) :
    Checked scope reserved earlier names (.ok (taken (earlier ++ names)))
  | stopped {before after : List Text} {name first : Text} (free : Free reserved earlier before)
    (meets : Meets reserved (earlier ++ before) name first) :
    Checked scope reserved earlier (before ++ name :: after)
      (.error ⟨scope, identifier name, first, name⟩)

/-- A first name that goes in counts as an earlier one for those after it. -/
theorem Checked.cons {scope name : Text} {reserved earlier names : List Text}
    {r : Except Collision (List (Text × Text))} (unreserved : identifier name ∉ reserved)
    (h : Checked scope reserved (earlier ++ [name]) names r) :
    Checked scope reserved earlier (name :: names) r := by
  have free : ∀ {before}, Free reserved (earlier ++ [name]) before →
      Free reserved earlier (name :: before) := by
    intro before free
    refine ⟨List.forall_mem_cons.mpr ⟨unreserved, free.unreserved⟩, ?_⟩
    have distinct := free.distinct
    rwa [List.append_assoc] at distinct
  cases h with
  | passed all =>
      rw [List.append_assoc, List.singleton_append]
      exact .passed (free all)
  | @stopped before after other first all meets =>
      rw [List.append_assoc, List.singleton_append] at meets
      exact @Checked.stopped _ _ _ (name :: before) _ _ _ (free all) meets

theorem Checked.first {scope name first : Text} {reserved earlier rest : List Text}
    (distinct : (earlier.map identifier).Nodup) (meets : Meets reserved earlier name first) :
    Checked scope reserved earlier (name :: rest)
      (.error ⟨scope, identifier name, first, name⟩) := by
  have free : Free reserved earlier [] := ⟨nofun, by simpa using distinct⟩
  refine @Checked.stopped _ _ _ [] _ _ _ free ?_
  rwa [List.append_nil]

theorem checkNames_cons (scope : Text) (reserved : List Text) (taken : List (Text × Text))
    (name : Text) (rest : List Text) :
    checkNames scope reserved taken (name :: rest) =
      if identifier name ∈ reserved then .error ⟨scope, identifier name, identifier name, name⟩
      else
        match Dictionary.find? (identifier name) taken with
        | some first => .error ⟨scope, identifier name, first, name⟩
        | none => checkNames scope reserved ((identifier name, name) :: taken) rest := rfl

theorem checked_checkNames (scope : Text) (reserved : List Text) {earlier : List Text}
    (distinct : (earlier.map identifier).Nodup) (names : List Text) :
    Checked scope reserved earlier names (checkNames scope reserved (taken earlier) names) := by
  induction names generalizing earlier with
  | nil =>
      have free : Free reserved earlier [] := ⟨nofun, by simpa using distinct⟩
      have done : Checked scope reserved earlier [] (.ok (taken (earlier ++ []))) := .passed free
      rwa [List.append_nil] at done
  | cons name rest ih =>
      rw [checkNames_cons]
      by_cases reservedName : identifier name ∈ reserved
      · rw [if_pos reservedName]
        exact .first distinct (.item reservedName)
      rw [if_neg reservedName]
      cases met : Dictionary.find? (identifier name) (taken earlier) with
      | some first =>
          obtain ⟨there, same⟩ := mem_taken.mp (Dictionary.mem_of_find? met)
          exact .first distinct (.earlier there same)
      | none =>
          have fresh : identifier name ∉ earlier.map identifier := by
            have absent := Dictionary.find?_eq_none_iff.mp met
            simpa only [keys_taken, List.mem_reverse] using absent
          have more : ((earlier ++ [name]).map identifier).Nodup := by
            rw [List.map_append, List.map_singleton, ← List.concat_eq_append]
            exact distinct.concat fresh
          dsimp only
          rw [← taken_concat]
          exact (ih more).cons reservedName

/-- In a group no two names have one identifier, and no entry of the class takes that of an item
that every class has. -/
structure Unambiguous (above : List Text) (g : KeyTree) : Prop where
  injective : ∀ a ∈ g.childNames, ∀ b ∈ g.childNames, identifier a = identifier b → a = b
  unreserved : above = [] → ∀ a ∈ g.entries.keys, identifier a ∉ reservedItems

/-- What a scope is called: at the top as the class, and below it by the dotted path of its group. -/
def scopeName (className : Text) (above : List Text) : Text :=
  if above = [] then className else KeyTree.dotted above

/-- What a collision tells of the group that it is in. The second name is the first child that meets
something: the item that is reserved for its identifier, or a child before it. -/
structure Reports (className : Text) (above : List Text) (g : KeyTree) (c : Collision) : Prop where
  scope : c.scope = scopeName className above
  identifier : Accessors.identifier c.second = c.identifier
  names : ∃ before after, g.childNames = before ++ c.second :: after ∧
    (before.map Accessors.identifier).Nodup ∧
    ((c.first ∈ before ∧ c.first ≠ c.second ∧ Accessors.identifier c.first = c.identifier) ∨
      (above = [] ∧ c.second ∈ g.entries.keys ∧ c.identifier ∈ reservedItems ∧
        c.first = c.identifier))

/-- How the check of a group ends. -/
inductive ScopeChecked (className : Text) (above : List Text) (g : KeyTree) :
    Except Collision Unit → Prop where
  | passed (clear : Unambiguous above g) : ScopeChecked className above g (.ok ())
  | stopped {c : Collision} (ambiguous : ¬ Unambiguous above g)
    (reports : Reports className above g c) : ScopeChecked className above g (.error c)

theorem Reports.not_unambiguous {className : Text} {above : List Text} {g : KeyTree} {c : Collision}
    (h : Reports className above g c) : ¬ Unambiguous above g := by
  intro clear
  obtain ⟨before, after, listed, -, ⟨there, other, same⟩ | ⟨top, entry, item, -⟩⟩ := h.names
  · have second : c.second ∈ g.childNames := by simp [listed]
    have first : c.first ∈ g.childNames := by simp [listed, there]
    exact other (clear.injective _ first _ second (same.trans h.identifier.symm))
  · rw [← h.identifier] at item
    exact clear.unreserved top _ entry item

/-- The check of one group of a walk. -/
def checkScope (className : Text) (s : List Text × KeyTree) : Except Collision Unit :=
  checkGroup (scopeName className s.1) s.1.isEmpty s.2

theorem checkScope_eq (className : Text) (above : List Text) (g : KeyTree) :
    checkScope className (above, g) =
      checkNames (scopeName className above) (if above = [] then reservedItems else []) (taken [])
        g.entries.keys >>= fun entries =>
      checkNames (scopeName className above) [] entries g.groups.keys >>= fun _ => .ok () := by
  simp only [checkScope, checkGroup, List.isEmpty_iff]
  rfl

/-- A child that meets something is reported when it is the first in its group. -/
theorem reports_of_meets {className : Text} {above : List Text} {g : KeyTree}
    (nodup : g.childNames.Nodup) {before after reserved : List Text} {name first : Text}
    (listed : g.childNames = before ++ name :: after)
    (distinct : (before.map identifier).Nodup) (meets : Meets reserved before name first)
    (item : identifier name ∈ reserved →
      above = [] ∧ name ∈ g.entries.keys ∧ identifier name ∈ reservedItems) :
    Reports className above g ⟨scopeName className above, identifier name, first, name⟩ := by
  refine ⟨rfl, rfl, before, after, listed, distinct, ?_⟩
  cases meets with
  | item there =>
      obtain ⟨top, entry, reservedItem⟩ := item there
      exact .inr ⟨top, entry, reservedItem, rfl⟩
  | earlier there same =>
      -- Every child is listed once, so an earlier one is another one.
      rw [listed] at nodup
      have other : first ≠ name := (List.nodup_append.mp nodup).2.2 _ there _ List.mem_cons_self
      exact .inl ⟨there, other, same⟩

theorem scopeChecked_checkScope (className : Text) {above : List Text} {g : KeyTree}
    (nodup : g.childNames.Nodup) :
    ScopeChecked className above g (checkScope className (above, g)) := by
  have start : (([] : List Text).map identifier).Nodup := List.nodup_nil
  have entries := checked_checkNames (scopeName className above)
    (if above = [] then reservedItems else []) start g.entries.keys
  rw [checkScope_eq]
  generalize hnames : g.entries.keys = names at entries ⊢
  generalize checkNames (scopeName className above) _ (taken []) names = r at entries ⊢
  cases entries with
  | @stopped before after name first free meets =>
      have listed : g.childNames = before ++ name :: (after ++ g.groups.keys) := by
        simp [KeyTree.childNames, hnames]
      have item : identifier name ∈ (if above = [] then reservedItems else []) →
          above = [] ∧ name ∈ g.entries.keys ∧ identifier name ∈ reservedItems := by
        intro there
        split at there
        · exact ⟨‹_›, by simp [hnames], there⟩
        · cases there
      have reports : Reports className above g _ :=
        reports_of_meets nodup listed free.distinct meets item
      exact .stopped reports.not_unambiguous reports
  | passed free =>
      have distinct : (names.map identifier).Nodup := free.distinct
      have groups := checked_checkNames (scopeName className above) [] distinct g.groups.keys
      generalize hgroups : g.groups.keys = names' at groups ⊢
      change ScopeChecked className above g
        (checkNames (scopeName className above) [] (taken names) names' >>= fun _ => .ok ())
      generalize checkNames (scopeName className above) [] (taken names) names' = r at groups ⊢
      cases groups with
      | passed all =>
          refine .passed ⟨?_, fun top a entry item => ?_⟩
          · refine (List.nodup_map_iff_inj_on nodup).mp ?_
            rw [KeyTree.childNames, hnames, hgroups]
            exact all.distinct
          · refine free.unreserved a (hnames ▸ entry) ?_
            rwa [if_pos top]
      | @stopped before after name first more meets =>
          have listed : g.childNames = (names ++ before) ++ name :: after := by
            simp [KeyTree.childNames, hnames, hgroups]
          have reports : Reports className above g _ :=
            reports_of_meets nodup listed more.distinct meets nofun
          exact .stopped reports.not_unambiguous reports

theorem subScope_scopeName (className : Text) (above : List Text) (name : Text) :
    subScope (scopeName className above) above.isEmpty name =
      scopeName className (above ++ [name]) := by
  cases above with
  | nil => simp [subScope, scopeName]
  | cons first rest =>
      have below : first :: rest ++ [name] ≠ [] := List.cons_ne_nil _ _
      rw [scopeName, if_neg (List.cons_ne_nil _ _), scopeName, if_neg below, List.cons_append,
        KeyTree.dotted_cons, KeyTree.dotted_cons]
      simp [subScope, KeyTree.through]

mutual

theorem checkTree_eq_forM (className : Text) : ∀ (t : KeyTree) (above : List Text),
    checkTree (scopeName className above) above.isEmpty t =
      (t.scopes above).forM (checkScope className)
  | .group n es gs, above => by
      rw [checkTree, KeyTree.scopes, Outcome.forM_cons, checkGroups_eq_forM className gs above]
      rfl

theorem checkGroups_eq_forM (className : Text) : ∀ (gs : List (Text × KeyTree)) (above : List Text),
    checkGroups (scopeName className above) above.isEmpty gs =
      (KeyTree.scopesOf above gs).forM (checkScope className)
  | [], above => by
      rw [checkGroups, KeyTree.scopesOf]
      rfl
  | (name, t) :: rest, above => by
      have inside := checkTree_eq_forM className t (above ++ [name])
      have below : (above ++ [name]).isEmpty = false := by simp
      rw [below] at inside
      rw [checkGroups, KeyTree.scopesOf, Outcome.forM_append, subScope_scopeName, inside,
        checkGroups_eq_forM className rest above]

end

/-- Source is emitted for a tree that insertions made exactly when nothing is ambiguous in any group
of it. Otherwise the first ambiguous group is reported, as the walk goes to a group before the
groups in it and to these in key order. -/
theorem collisions_told_exactly {d : Descriptor} {paths : List Text}
    (built : d.tree = KeyTree.root.insertEach paths) (o : Options) :
    ((∃ source, emit o d = .ok source) ↔ KeyTree.Everywhere Unambiguous [] d.tree) ∧
    ∀ c, emit o d = .error c → ∃ before above g after,
      d.tree.scopes [] = before ++ (above, g) :: after ∧
      (∀ s ∈ before, Unambiguous s.1 s.2) ∧ ¬ Unambiguous above g ∧
      Reports d.names.className above g c := by
  have valid : KeyTree.Valid [] d.tree := by
    rw [built]
    exact (KeyTree.represents_of_ofPaths (KeyTree.ofPaths_accepted paths)).shape
  have checked : ∀ s ∈ d.tree.scopes [],
      ScopeChecked d.names.className s.1 s.2 (checkScope d.names.className s) := by
    intro s there
    have kept := (KeyTree.everywhere_iff_scopes valid.sorted).mp valid s there
    exact scopeChecked_checkScope _ kept.nodup_childNames
  have emitted : emit o d = ((d.tree.scopes []).forM (checkScope d.names.className)).map
      fun _ => sourceText o d := by
    rw [← checkTree_eq_forM]
    exact emit_eq o d.relativePath d.names d.tree
  have clear_iff : ∀ s ∈ d.tree.scopes [],
      checkScope d.names.className s = .ok () ↔ Unambiguous s.1 s.2 := by
    intro s there
    have ending := checked s there
    generalize checkScope d.names.className s = r at ending
    cases ending with
    | passed clear => exact iff_of_true rfl clear
    | stopped ambiguous => exact iff_of_false nofun ambiguous
  refine ⟨?_, fun c failed => ?_⟩
  · rw [KeyTree.everywhere_iff_scopes valid.sorted, emitted]
    refine Iff.trans ?_ (Outcome.forM_eq_ok_iff.trans (forall₂_congr clear_iff))
    cases (d.tree.scopes []).forM (checkScope d.names.className) with
    | ok done => exact iff_of_true ⟨_, rfl⟩ rfl
    | error c => exact iff_of_false (fun ⟨_, h⟩ => nomatch h) nofun
  · rw [emitted] at failed
    have stopped : (d.tree.scopes []).forM (checkScope d.names.className) = .error c := by
      cases h : (d.tree.scopes []).forM (checkScope d.names.className) with
      | ok done =>
          rw [h] at failed
          cases failed
      | error c' =>
          rw [h] at failed
          cases failed
          rfl
    obtain ⟨before, ⟨above, g⟩, after, listed, passed, here⟩ :=
      Outcome.first_of_forM_eq_error stopped
    have there : (above, g) ∈ d.tree.scopes [] := by simp [listed]
    have ending := checked _ there
    rw [here] at ending
    cases ending with
    | stopped ambiguous reports =>
        refine ⟨before, above, g, after, listed, fun s hs => ?_, ambiguous, reports⟩
        exact (clear_iff s (by simp [listed, hs])).mp (passed s hs)

/-- A group may be called as an item of the class, and it may hold the same names as the class; in
the menu an entry and a group have one identifier. -/
def crowded : Descriptor where
  relativePath := "ui/menu.toml".toList
  names := ⟨"Strings".toList, "App".toList⟩
  tree := KeyTree.root.insertEach ["menu.save-as".toList, "menu.ok".toList, "ok".toList,
    "menu.save_as.title".toList, "lookup.lookup".toList, "menu.2x".toList]

theorem collisions_told_exactly_crowded :
    crowded.tree = KeyTree.root.insertEach ["menu.save-as".toList, "menu.ok".toList, "ok".toList,
      "menu.save_as.title".toList, "lookup.lookup".toList, "menu.2x".toList] ∧
    emit .default crowded =
      .error ⟨"menu".toList, "save_as".toList, "save-as".toList, "save_as".toList⟩ ∧
    ¬ KeyTree.Everywhere Unambiguous [] crowded.tree ∧
    ∃ above g, ¬ Unambiguous above g ∧ Reports "Strings".toList above g
      ⟨"menu".toList, "save_as".toList, "save-as".toList, "save_as".toList⟩ := by
  have failed : emit .default crowded =
      .error ⟨"menu".toList, "save_as".toList, "save-as".toList, "save_as".toList⟩ := by
    decide +kernel
  obtain ⟨succeeds, first⟩ := collisions_told_exactly (d := crowded) rfl .default
  refine ⟨rfl, failed, fun clear => ?_, ?_⟩
  · obtain ⟨source, emitted⟩ := succeeds.mpr clear
    rw [failed] at emitted
    cases emitted
  · obtain ⟨-, above, g, -, -, -, ambiguous, reports⟩ := first _ failed
    exact ⟨above, g, ambiguous, reports⟩

end Accessors

end Phrasebook
