import Phrasebook.Proofs.Session.Boards

/-! Who listens, and who has subscribed. Listeners of a localizer are told apart by their numbers,
and a subscription stands for exactly one listener. Both stay so whoever comes or goes, as long as
there is a number left for everyone who comes. -/
namespace Phrasebook

namespace Switchboard

variable {α : Type} {b : Switchboard α}

/-- No number is there twice, and the next one is new. -/
structure Numbered (b : Switchboard α) : Prop where
  distinct : (b.listeners.map (·.1)).Nodup
  below : ∀ e ∈ b.listeners, e.1 < b.nextNumber

theorem numbered_of_empty (h : b.listeners = []) : b.Numbered := by
  refine ⟨?_, ?_⟩
  · rw [h]
    exact List.nodup_nil
  · rw [h]
    exact fun e he => (List.not_mem_nil he).elim

/-- Whether the numbers do not start over with the next one. -/
def Room (b : Switchboard α) : Prop := b.nextNumber.toNat + 1 < UInt64.size

theorem Room.toNat_nextNumber_add (room : b.Room) (a : α) :
    (b.add a).nextNumber.toNat = b.nextNumber.toNat + 1 := by
  rw [add, UInt64.toNat_add, UInt64.toNat_one, Nat.mod_eq_of_lt room]

theorem Room.lt_nextNumber_add (room : b.Room) (a : α) : b.nextNumber < (b.add a).nextNumber := by
  rw [UInt64.lt_iff_toNat_lt, room.toNat_nextNumber_add]
  exact Nat.lt_succ_self _

theorem toNat_nextNumber_add_le (b : Switchboard α) (a : α) :
    (b.add a).nextNumber.toNat ≤ b.nextNumber.toNat + 1 := by
  rw [add, UInt64.toNat_add, UInt64.toNat_one]
  exact Nat.mod_le _ _

theorem mem_add {a : α} {e : UInt64 × α} :
    e ∈ (b.add a).listeners ↔ e ∈ b.listeners ∨ e = (b.nextNumber, a) :=
  List.mem_append.trans (or_congr_right List.mem_singleton)

theorem mem_drop {n : UInt64} {e : UInt64 × α} :
    e ∈ (b.drop n).listeners ↔ e ∈ b.listeners ∧ e.1 ≠ n := by
  rw [drop, List.mem_filter, bne_iff_ne]

namespace Numbered

theorem publish (h : b.Numbered) (l : Locale) : (b.publish l).Numbered := ⟨h.distinct, h.below⟩

theorem add (h : b.Numbered) (room : b.Room) (a : α) : (b.add a).Numbered := by
  refine ⟨?_, fun e he => ?_⟩
  · have fresh : b.nextNumber ∉ b.listeners.map (·.1) := by
      intro there
      obtain ⟨e, he, same⟩ := List.mem_map.mp there
      exact UInt64.ne_of_lt (h.below e he) same
    rw [Switchboard.add, List.map_append]
    exact List.nodup_append_comm.mp (List.nodup_cons.mpr ⟨fresh, h.distinct⟩)
  · rcases mem_add.mp he with old | rfl
    · exact UInt64.lt_trans (h.below e old) (room.lt_nextNumber_add a)
    · exact room.lt_nextNumber_add a

theorem drop (h : b.Numbered) (n : UInt64) : (b.drop n).Numbered :=
  ⟨h.distinct.sublist (List.filter_sublist.map _), fun e he => h.below e (mem_drop.mp he).1⟩

theorem unique (h : b.Numbered) {n : UInt64} {x y : α} (hx : (n, x) ∈ b.listeners)
    (hy : (n, y) ∈ b.listeners) : x = y :=
  (Prod.mk.inj (List.inj_on_of_nodup_map h.distinct hx hy rfl)).2

/-- A listener stands at one place, where its number is first met. -/
theorem cut (h : b.Numbered) {n : UInt64} {x : α} (there : (n, x) ∈ b.listeners) :
    ∃ before after, b.listeners = before ++ (n, x) :: after ∧
      (b.listeners.takeWhile fun (number, _) => number != n) = before ∧
      ∀ e ∈ before ++ after, e.1 ≠ n := by
  obtain ⟨before, after, cut⟩ := List.append_of_mem there
  have distinct := h.distinct
  rw [cut, List.map_append, List.map_cons, List.nodup_middle, List.nodup_cons] at distinct
  have others : ∀ e ∈ before ++ after, e.1 ≠ n := by
    intro e he same
    refine distinct.1 ?_
    rw [← List.map_append]
    exact List.mem_map.mpr ⟨e, he, same⟩
  have earlier : ∀ e ∈ before, (e.1 != n) = true :=
    fun e he => bne_iff_ne.mpr (others e (List.mem_append_left _ he))
  refine ⟨before, after, cut, ?_, others⟩
  rw [cut, List.takeWhile_append_of_pos earlier]
  simp

end Numbered

end Switchboard

namespace Session

/-- The switchboard of localizer `i` turns from one session to the other, and the others stay. -/
def Turns (s s' : Session) (i : Nat) (f : Switchboard Listener → Switchboard Listener) : Prop :=
  ∀ j, s'.board? j = if j = i then (s.board? j).map f else s.board? j

namespace Turns

variable {s s' : Session} {i j : Nat} {f : Switchboard Listener → Switchboard Listener}
  {b : Switchboard Listener}

theorem board (h : s.Turns s' i f) (hb : s.board? j = some b) :
    s'.board? j = some (if j = i then f b else b) := by
  rw [h j, hb]
  split <;> rfl

theorem before (h : s.Turns s' i f) (hb : s'.board? j = some b) :
    ∃ b', s.board? j = some b' ∧ b = if j = i then f b' else b' := by
  rw [h j] at hb
  by_cases here : j = i
  · rw [if_pos here] at hb
    obtain ⟨b', hb', rfl⟩ := Option.map_eq_some_iff.mp hb
    exact ⟨b', hb', (if_pos here).symm⟩
  · rw [if_neg here] at hb
    exact ⟨b, hb, (if_neg here).symm⟩

theorem numbered (h : s.Turns s' i f)
    (keeps : ∀ b, s.board? i = some b → b.Numbered → (f b).Numbered)
    (all : ∀ j b, s.board? j = some b → b.Numbered) (j : Nat) (b : Switchboard Listener)
    (hb : s'.board? j = some b) : b.Numbered := by
  obtain ⟨b', hb', rfl⟩ := h.before hb
  split
  · rename_i here
    subst here
    exact keeps b' hb' (all j b' hb')
  · exact all j b' hb'

theorem update (s : Session) (i : Nat) {turn : Localizer → Localizer}
    (turned : ∀ z, (turn z).switchboard = f z.switchboard) :
    s.Turns (match s.localizers[i]? with
      | some z => s.setLocalizer i (turn z)
      | none => s) i f := by
  intro j
  cases hz : s.localizers[i]? with
  | some z => exact board?_setLocalizer hz (turned z) j
  | none =>
      by_cases same : j = i
      · rw [if_pos same, same, board?, hz]
        rfl
      · rw [if_neg same]

theorem publish (s : Session) (i : Nat) (l : Locale) :
    s.Turns (s.publish i l) i (·.publish l) := update s i fun _ => rfl

theorem release (s : Session) (sub : Subscription) :
    s.Turns (s.release sub) sub.localizer (·.drop sub.number) := update s _ fun _ => rfl

theorem add {z : Localizer} (hz : s.localizers[i]? = some z) (new : Listener) :
    s.Turns (s.setLocalizer i { z with switchboard := z.switchboard.add new }) i (·.add new) :=
  board?_setLocalizer hz rfl

end Turns

/-- Who listens to localizer `i`, and under which number. -/
def Listens (s : Session) (i : Nat) (n : UInt64) (listener : Listener) : Prop :=
  ∃ b, s.board? i = some b ∧ (n, listener) ∈ b.listeners

variable {s s' : Session}

theorem listens_release (s : Session) (sub : Subscription) (i : Nat) (n : UInt64)
    (listener : Listener) :
    (s.release sub).Listens i n listener ↔ s.Listens i n listener ∧ sub ≠ ⟨i, n⟩ := by
  have turns := Turns.release s sub
  constructor
  · rintro ⟨b, hb, there⟩
    obtain ⟨b', hb', rfl⟩ := turns.before hb
    by_cases here : i = sub.localizer
    · rw [if_pos here] at there
      obtain ⟨there, other⟩ := Switchboard.mem_drop.mp there
      exact ⟨⟨b', hb', there⟩, fun same => other (same ▸ rfl)⟩
    · rw [if_neg here] at there
      exact ⟨⟨b', hb', there⟩, fun same => here (same ▸ rfl)⟩
  · rintro ⟨⟨b, hb, there⟩, other⟩
    refine ⟨_, turns.board hb, ?_⟩
    split
    · rename_i here
      refine Switchboard.mem_drop.mpr ⟨there, fun same => other ?_⟩
      obtain ⟨_, _⟩ := sub
      cases here
      cases same
      rfl
    · exact there

theorem listens_add {i : Nat} {new : Listener} {b : Switchboard Listener}
    (turns : s.Turns s' i (·.add new)) (hb : s.board? i = some b) (j : Nat) (n : UInt64)
    (listener : Listener) : s'.Listens j n listener ↔
      s.Listens j n listener ∨ (j = i ∧ n = b.nextNumber ∧ listener = new) := by
  constructor
  · rintro ⟨b', hb', there⟩
    obtain ⟨b'', before, rfl⟩ := turns.before hb'
    by_cases here : j = i
    · subst here
      cases hb.symm.trans before
      rw [if_pos rfl] at there
      rcases Switchboard.mem_add.mp there with old | last
      · exact .inl ⟨b, hb, old⟩
      · exact .inr ⟨rfl, Prod.mk.inj last⟩
    · rw [if_neg here] at there
      exact .inl ⟨b'', before, there⟩
  · rintro (⟨b', hb', there⟩ | ⟨rfl, rfl, rfl⟩)
    · refine ⟨_, turns.board hb', ?_⟩
      split
      · exact Switchboard.mem_add.mpr (.inl there)
      · exact there
    · refine ⟨_, turns.board hb, ?_⟩
      rw [if_pos rfl]
      exact Switchboard.mem_add.mpr (.inr rfl)

theorem Turns.listens {i : Nat} {f : Switchboard Listener → Switchboard Listener}
    (turns : s.Turns s' i f) (same : ∀ b, (f b).listeners = b.listeners) (j : Nat)
    (n : UInt64) (listener : Listener) : s'.Listens j n listener ↔ s.Listens j n listener := by
  constructor
  · rintro ⟨b, hb, there⟩
    obtain ⟨b', hb', rfl⟩ := turns.before hb
    refine ⟨b', hb', ?_⟩
    split at there
    · exact same b' ▸ there
    · exact there
  · rintro ⟨b, hb, there⟩
    refine ⟨_, turns.board hb, ?_⟩
    split
    · exact (same b).symm ▸ there
    · exact there

theorem unsubscribe_of_unknown {name : Text} (unknown : s.subscriptions.find? name = none) :
    s.unsubscribe name = s := by
  rw [unsubscribe, unknown]

theorem unsubscribe_of_known {name : Text} {sub : Subscription}
    (known : s.subscriptions.find? name = some sub) : s.unsubscribe name =
      { s.release sub with subscriptions := s.subscriptions.filter fun (n, _) => n != name } := by
  rw [unsubscribe, known]

theorem listens_unsubscribe (s : Session) (name : Text) (i : Nat) (n : UInt64)
    (listener : Listener) : (s.unsubscribe name).Listens i n listener ↔
      s.Listens i n listener ∧ s.subscriptions.find? name ≠ some ⟨i, n⟩ := by
  cases known : s.subscriptions.find? name with
  | none =>
      rw [unsubscribe_of_unknown known]
      exact ⟨fun h => ⟨h, nofun⟩, And.left⟩
  | some sub =>
      rw [unsubscribe_of_known known, ne_eq, Option.some.injEq]
      exact listens_release s sub i n listener

theorem find?_unsubscribe (s : Session) (name other : Text) :
    (s.unsubscribe name).subscriptions.find? other =
      if other = name then none else s.subscriptions.find? other := by
  cases known : s.subscriptions.find? name with
  | some sub =>
      rw [unsubscribe_of_known known]
      exact Dictionary.find?_filter_ne name other s.subscriptions
  | none =>
      rw [unsubscribe_of_unknown known]
      by_cases same : other = name
      · rw [if_pos same, same, known]
      · rw [if_neg same]

/-- Ending a subscription changes one switchboard at most, and nothing that is heard. -/
theorem unsubscribe_turns (s : Session) (name : Text) :
    (∃ i n, s.Turns (s.unsubscribe name) i (·.drop n)) ∨ s.unsubscribe name = s := by
  cases known : s.subscriptions.find? name with
  | none => exact .inr (unsubscribe_of_unknown known)
  | some sub =>
      rw [unsubscribe_of_known known]
      exact .inl ⟨sub.localizer, sub.number, Turns.release s sub⟩

theorem numbered_unsubscribe (all : ∀ j b, s.board? j = some b → b.Numbered) (name : Text) :
    ∀ j b, (s.unsubscribe name).board? j = some b → b.Numbered := by
  rcases unsubscribe_turns s name with ⟨i, n, turns⟩ | same
  · exact turns.numbered (fun b _ numbered => numbered.drop n) all
  · rw [same]
    exact all

/-- The rest of a session does not take part when a subscription ends. -/
theorem unsubscribe_frame (s : Session) (name : Text) : ∃ localizers subscriptions,
    s.unsubscribe name = { s with localizers, subscriptions } := by
  rw [unsubscribe]
  split
  · rw [release]
    split
    · exact ⟨_, _, rfl⟩
    · exact ⟨_, _, rfl⟩
  · exact ⟨s.localizers, s.subscriptions, rfl⟩

theorem scripts_unsubscribe (s : Session) (name : Text) :
    (s.unsubscribe name).scripts = s.scripts := by
  obtain ⟨localizers, subscriptions, same⟩ := unsubscribe_frame s name
  rw [same]

theorem journal_unsubscribe (s : Session) (name : Text) :
    (s.unsubscribe name).journal = s.journal := by
  obtain ⟨localizers, subscriptions, same⟩ := unsubscribe_frame s name
  rw [same]

theorem current_unsubscribe (s : Session) (name : Text) :
    (s.unsubscribe name).current = s.current := by
  obtain ⟨localizers, subscriptions, same⟩ := unsubscribe_frame s name
  rw [same]

theorem find?_subscribe {i : Nat} {z : Localizer} (hz : s.localizers[i]? = some z)
    (name other : Text) (listener : Listener) (script : Script) :
    (s.subscribe i name listener script).subscriptions.find? other =
      if other = name then some ⟨i, z.switchboard.nextNumber⟩
      else s.subscriptions.find? other := by
  rw [subscribe, hz]
  refine (Dictionary.find?_insert _ _ _ _).trans (ite_congr rfl (fun _ => rfl) fun different => ?_)
  exact (find?_unsubscribe _ _ _).trans (if_neg different)

theorem journal_subscribe (s : Session) (i : Nat) (name : Text) (listener : Listener)
    (script : Script) : (s.subscribe i name listener script).journal = s.journal := by
  rw [subscribe]
  split
  · rfl
  · exact journal_unsubscribe _ name

theorem current_subscribe (s : Session) (i : Nat) (name : Text) (listener : Listener)
    (script : Script) : (s.subscribe i name listener script).current = s.current := by
  rw [subscribe]
  split
  · rfl
  · exact current_unsubscribe _ name

/-- The locale and the count of switches of a localizer do not depend on who listens. -/
theorem board_unsubscribe {i : Nat} {b : Switchboard Listener} (hb : s.board? i = some b)
    (name : Text) : ∃ b', (s.unsubscribe name).board? i = some b' ∧ b'.current = b.current ∧
      b'.version = b.version := by
  rcases unsubscribe_turns s name with ⟨j, n, turns⟩ | same
  · refine ⟨_, turns.board hb, ?_, ?_⟩ <;> split <;> rfl
  · rw [same]
    exact ⟨b, hb, rfl, rfl⟩

theorem board_subscribe {i : Nat} {b : Switchboard Listener} (hb : s.board? i = some b) (j : Nat)
    (name : Text) (listener : Listener) (script : Script) :
    ∃ b', (s.subscribe j name listener script).board? i = some b' ∧ b'.current = b.current ∧
      b'.version = b.version := by
  cases hz : s.localizers[j]? with
  | none =>
      rw [subscribe, hz]
      exact ⟨b, hb, rfl, rfl⟩
  | some z =>
      have turns := Turns.add hz listener
      obtain ⟨b', hb', current, version⟩ := board_unsubscribe (turns.board hb) name
      rw [subscribe, hz]
      refine ⟨b', hb', current.trans ?_, version.trans ?_⟩ <;> split <;> rfl

theorem listeners_start {r : Resources} {overrides : OverrideSettings} {initial : Locale} {i : Nat}
    {b : Switchboard Listener} (hb : (start r overrides initial).board? i = some b) :
    b.listeners = [] := by
  obtain ⟨z, hz, rfl⟩ := Option.map_eq_some_iff.mp hb
  cases List.mem_singleton.mp (List.mem_of_getElem? hz)
  rfl

/-- No localizer has given more than `k` numbers. -/
structure Given (k : Nat) (s : Session) : Prop where
  most : ∀ i b, s.board? i = some b → b.nextNumber.toNat ≤ k

namespace Given

variable {k : Nat}

theorem start (r : Resources) (overrides : OverrideSettings) (initial : Locale) :
    (Session.start r overrides initial).Given 0 := by
  refine ⟨fun i b hb => ?_⟩
  obtain ⟨z, hz, rfl⟩ := Option.map_eq_some_iff.mp hb
  cases List.mem_singleton.mp (List.mem_of_getElem? hz)
  exact Nat.le_refl 0

theorem mono (h : s.Given k) {m : Nat} (le : k ≤ m) : s.Given m :=
  ⟨fun i b hb => Nat.le_trans (h.most i b hb) le⟩

theorem room (h : s.Given k) (few : k + 1 < UInt64.size) {i : Nat} (b : Switchboard Listener)
    (hb : s.board? i = some b) : b.Room :=
  Nat.lt_of_le_of_lt (Nat.succ_le_succ (h.most i b hb)) few

theorem turns (h : s.Given k) {i more : Nat} {f : Switchboard Listener → Switchboard Listener}
    (turns : s.Turns s' i f) (grows : ∀ b, (f b).nextNumber.toNat ≤ b.nextNumber.toNat + more) :
    s'.Given (k + more) := by
  refine ⟨fun j b hb => ?_⟩
  obtain ⟨b', hb', rfl⟩ := turns.before hb
  have before := h.most j b' hb'
  split
  · exact Nat.le_trans (grows b') (Nat.add_le_add_right before more)
  · exact Nat.le_add_right_of_le before

theorem unheard (h : s.Given k) (way : s.Unheard s') : s'.Given k := by
  refine ⟨fun i b hb => ?_⟩
  cases before : s.board? i with
  | none =>
      obtain ⟨l, rfl⟩ := way.added i b before hb
      exact Nat.zero_le k
  | some b' =>
      cases (way.boards i b' before).symm.trans hb
      exact h.most i _ before

theorem unsubscribe (h : s.Given k) (name : Text) : (s.unsubscribe name).Given k := by
  rcases unsubscribe_turns s name with ⟨i, n, turns⟩ | same
  · exact h.turns turns fun _ => Nat.le_add_right _ 0
  · rw [same]
    exact h

theorem subscribe (h : s.Given k) (i : Nat) (name : Text) (listener : Listener)
    (script : Script) : (s.subscribe i name listener script).Given (k + 1) := by
  cases hz : s.localizers[i]? with
  | none =>
      rw [Session.subscribe, hz]
      exact h.mono (Nat.le_succ k)
  | some z =>
      have added := h.turns (Turns.add hz listener) fun b => b.toNat_nextNumber_add_le listener
      rw [Session.subscribe, hz]
      exact ⟨(added.unsubscribe name).most⟩

end Given

/-- The numbers of listeners are distinct, and those who listen are those who have subscribed. -/
structure Orderly (s : Session) : Prop where
  numbered : ∀ i b, s.board? i = some b → b.Numbered
  registered : ∀ i n listener, s.Listens i n listener →
    s.subscriptions.find? listener.name = some ⟨i, n⟩
  held : ∀ name sub, s.subscriptions.find? name = some sub →
    ∃ listener, s.Listens sub.localizer sub.number listener ∧ listener.name = name

namespace Orderly

theorem start (r : Resources) (overrides : OverrideSettings) (initial : Locale) :
    (Session.start r overrides initial).Orderly := by
  refine ⟨fun i b hb => Switchboard.numbered_of_empty (listeners_start hb), ?_, nofun⟩
  rintro i n listener ⟨b, hb, there⟩
  rw [listeners_start hb] at there
  cases there

theorem unique (h : s.Orderly) {i : Nat} {n : UInt64} {x y : Listener} (hx : s.Listens i n x)
    (hy : s.Listens i n y) : x = y := by
  obtain ⟨b, hb, hx⟩ := hx
  obtain ⟨b', hb', hy⟩ := hy
  cases hb.symm.trans hb'
  exact (h.numbered i b hb).unique hx hy

/-- Of those who listen, the subscription of a name is the one who has the name. -/
theorem known_iff (h : s.Orderly) {i : Nat} {n : UInt64} {listener : Listener}
    (listens : s.Listens i n listener) (name : Text) :
    s.subscriptions.find? name = some ⟨i, n⟩ ↔ listener.name = name := by
  refine ⟨fun known => ?_, fun named => named ▸ h.registered i n listener listens⟩
  obtain ⟨listener', listens', named⟩ := h.held name ⟨i, n⟩ known
  exact h.unique listens' listens ▸ named

theorem place (h : s.Orderly) {i j : Nat} {n m : UInt64} {x y : Listener} (hx : s.Listens i n x)
    (hy : s.Listens j m y) (same : y.name = x.name) : j = i ∧ m = n := by
  have registered := h.registered j m y hy
  rw [same, h.registered i n x hx] at registered
  cases registered
  exact ⟨rfl, rfl⟩

/-- Order depends on the listeners, not on what else the switchboards hold. -/
theorem of_listens (h : s.Orderly)
    (numbered : ∀ i b, s'.board? i = some b → b.Numbered)
    (listens : ∀ i n listener, s'.Listens i n listener ↔ s.Listens i n listener)
    (subscriptions : s'.subscriptions = s.subscriptions) : s'.Orderly := by
  refine ⟨numbered, fun i n listener hears => ?_, fun name sub known => ?_⟩
  · rw [subscriptions]
    exact h.registered i n listener ((listens i n listener).mp hears)
  · rw [subscriptions] at known
    obtain ⟨listener, hears, named⟩ := h.held name sub known
    exact ⟨listener, (listens _ _ _).mpr hears, named⟩

theorem unheard (h : s.Orderly) (way : s.Unheard s') : s'.Orderly := by
  -- A switchboard is there already, or nobody listens to it.
  have boards : ∀ i b, s'.board? i = some b → s.board? i = some b ∨ b.listeners = [] := by
    intro i b hb
    cases before : s.board? i with
    | none =>
        obtain ⟨l, rfl⟩ := way.added i b before hb
        exact .inr rfl
    | some b' => exact .inl ((way.boards i b' before).symm.trans hb)
  refine h.of_listens (fun i b hb => ?_) (fun i n listener => ⟨?_, ?_⟩) way.subscriptions
  · rcases boards i b hb with old | alone
    · exact h.numbered i b old
    · exact Switchboard.numbered_of_empty alone
  · rintro ⟨b, hb, there⟩
    rcases boards i b hb with old | alone
    · exact ⟨b, old, there⟩
    · rw [alone] at there
      cases there
  · rintro ⟨b, hb, there⟩
    exact ⟨b, way.boards i b hb, there⟩

theorem listens_unsubscribe (h : s.Orderly) (name : Text) (i : Nat) (n : UInt64)
    (listener : Listener) :
    (s.unsubscribe name).Listens i n listener ↔ s.Listens i n listener ∧ listener.name ≠ name := by
  rw [Session.listens_unsubscribe]
  exact and_congr_right fun hears => not_congr (h.known_iff hears name)

theorem unsubscribe (h : s.Orderly) (name : Text) : (s.unsubscribe name).Orderly := by
  refine ⟨numbered_unsubscribe h.numbered name, fun i n listener hears => ?_,
    fun other sub known => ?_⟩
  · obtain ⟨hears, other⟩ := (h.listens_unsubscribe name i n listener).mp hears
    rw [find?_unsubscribe, if_neg other]
    exact h.registered i n listener hears
  · rw [find?_unsubscribe] at known
    split at known
    · cases known
    · rename_i different
      obtain ⟨listener, hears, rfl⟩ := h.held other sub known
      exact ⟨listener, (h.listens_unsubscribe name _ _ _).mpr ⟨hears, different⟩, rfl⟩

theorem unused (h : s.Orderly) {i : Nat} {b : Switchboard Listener} (hb : s.board? i = some b)
    (name : Text) : s.subscriptions.find? name ≠ some ⟨i, b.nextNumber⟩ := by
  intro known
  obtain ⟨listener, ⟨b', hb', there⟩, -⟩ := h.held name _ known
  cases hb.symm.trans hb'
  exact UInt64.lt_irrefl _ ((h.numbered i b hb).below _ there)

/-- A new subscription takes the place of the one that had its name. -/
theorem listens_subscribe (h : s.Orderly) {i : Nat} {z : Localizer}
    (hz : s.localizers[i]? = some z) (new : Listener) (script : Script) (j : Nat)
    (n : UInt64) (listener : Listener) :
    (s.subscribe i new.name new script).Listens j n listener ↔
      (s.Listens j n listener ∧ listener.name ≠ new.name) ∨
        (j = i ∧ n = z.switchboard.nextNumber ∧ listener = new) := by
  have hb := board?_of_localizer hz
  have turns := Turns.add hz new
  have dropped := Session.listens_unsubscribe
    (s.setLocalizer i { z with switchboard := z.switchboard.add new }) new.name j n listener
  -- The old listener of the name goes after the new one is there, so the new one must not be it.
  rw [listens_add turns hb, or_and_right] at dropped
  rw [Session.subscribe, hz]
  refine dropped.trans (or_congr ?_ ?_)
  · exact and_congr_right fun hears => not_congr (h.known_iff hears new.name)
  · refine and_iff_left_of_imp ?_
    rintro ⟨rfl, rfl, rfl⟩
    exact h.unused hb _

theorem subscribe (h : s.Orderly) {i : Nat} (room : ∀ b, s.board? i = some b → b.Room)
    (new : Listener) (script : Script) : (s.subscribe i new.name new script).Orderly := by
  cases hz : s.localizers[i]? with
  | none =>
      rw [Session.subscribe, hz]
      exact h
  | some z =>
      have hears := h.listens_subscribe hz new script
      refine ⟨?_, fun j n listener there => ?_, fun other sub known => ?_⟩
      · have added := (Turns.add hz new).numbered
          (fun b hb numbered => numbered.add (room b hb) new) h.numbered
        rw [Session.subscribe, hz]
        exact numbered_unsubscribe added new.name
      · rw [find?_subscribe hz]
        rcases (hears j n listener).mp there with ⟨old, different⟩ | ⟨rfl, rfl, rfl⟩
        · rw [if_neg different]
          exact h.registered j n listener old
        · exact if_pos rfl
      · rw [find?_subscribe hz] at known
        split at known
        · rename_i same
          cases known
          exact ⟨new, (hears _ _ _).mpr (.inr ⟨rfl, rfl, rfl⟩), same.symm⟩
        · rename_i different
          obtain ⟨listener, old, rfl⟩ := h.held other sub known
          exact ⟨listener, (hears _ _ _).mpr (.inl ⟨old, different⟩), rfl⟩

end Orderly

end Session

end Phrasebook
