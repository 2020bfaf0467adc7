import Phrasebook.Proofs.Session.Delivery

/-! The history of a session: who begins and who ends to listen, what is published, and every call
of a listener with its return. Listeners may switch while they are called, so calls lie within
calls. A switch is known by the place of its publication in the history. -/
namespace Phrasebook

/-- Something that happens to those who listen. A call belongs to the switch at place `since`, and
a listener for a text may hear nothing. -/
inductive Occurrence where
  | began (sub : Subscription)
  | ended (sub : Subscription)
  | published (localizer : Nat) (locale : Locale)
  | called (since : Nat) (sub : Subscription) (locale : Locale) (name : Text) (heard : Option Text)
  | returned (sub : Subscription)
deriving DecidableEq, Repr

namespace Session

/-- The subscription of a name ends, if there is one. -/
def ending (s : Session) (name : Text) : List Occurrence :=
  ((s.subscriptions.find? name).map .ended).toList

/-- A subscription begins under a name. One that had the name ends after that. -/
def beginning (s : Session) (i : Nat) (name : Text) : List Occurrence :=
  match s.localizers[i]? with
  | none => []
  | some z => .began ⟨i, z.switchboard.nextNumber⟩ :: s.ending name

/-- What happens while a listener of localizer `i` does its actions, after `k` occurrences. -/
def actHistory (switch : Session → Locale → Session)
    (history : Nat → Session → Locale → List Occurrence) (i : Nat) :
    Nat → Session → List Action → List Occurrence
  | _, _, [] => []
  | k, s, .subscribe name script :: rest =>
    let now := s.beginning i name
    now ++ actHistory switch history i (k + now.length)
      (s.subscribe i name (.locale name) script) rest
  | k, s, .unsubscribe name :: rest =>
    let now := s.ending name
    now ++ actHistory switch history i (k + now.length) (s.unsubscribe name) rest
  | k, s, .switch l :: rest =>
    let now := history k s l
    now ++ actHistory switch history i (k + now.length) (switch s l) rest

/-- What happens while listeners are called for the switch at place `since`. -/
def callHistory (switch : Session → Locale → Session)
    (history : Nat → Session → Locale → List Occurrence) (i since : Nat) (l : Locale) :
    Nat → Session → List (UInt64 × Listener) → List Occurrence
  | _, _, [] => []
  | k, s, (number, listener) :: rest =>
    let (turn, told) := (s.deliver i l listener).nextTurn ⟨i, number⟩
    let during := actHistory switch history i (k + 1) told turn
    .called since ⟨i, number⟩ l listener.name (s.heard i l listener) ::
      (during ++ .returned ⟨i, number⟩ :: callHistory switch history i since l
        (k + 1 + during.length + 1) (act switch i told turn) rest)

def switchHistory : (nested : Nat) → (i : Nat) → Nat → Session → Locale → List Occurrence
  | 0, i, _, _, l => [.published i l]
  | nested + 1, i, k, s, l =>
    .published i l :: callHistory (switchWithin nested i) (switchHistory nested i) i k l (k + 1)
      (s.publish i l) ((s.publish i l).listenersOf i)

/-- What a command lets happen, after `k` occurrences. -/
def occurrences (s : Session) (k : Nat) : Command → List Occurrence
  | .switch l => s.current.elim [] fun i =>
      if i < s.localizers.length then switchHistory (s.pendingSwitches + 1) i k s l else []
  | .subscribe name _ => s.current.elim [] fun i => s.beginning i name
  | .subscribeUnit name unit =>
      (s.units.find? unit).elim [] fun b => s.beginning b.localizer name
  | .unsubscribe name => s.ending name
  | _ => []

def history (s : Session) (k : Nat) : List Command → List Occurrence
  | [] => []
  | c :: rest =>
    let now := s.occurrences k c
    now ++ (s.perform c).2.history (k + now.length) rest

/-- What is done at one level of a notification: the actions of a listener, the calls of the
switch at place `since`, or a whole switch. -/
inductive Task where
  | act (actions : List Action)
  | callAll (since : Nat) (l : Locale) (listeners : List (UInt64 × Listener))
  | switch (l : Locale)

/-- How a task of localizer `i` goes, after `k` occurrences: what happens, and the session after
it. -/
inductive Goes (i : Nat) : Nat → Session → Task → List Occurrence → Session → Prop
  | rest {k : Nat} {s : Session} : Goes i k s (.act []) [] s
  | subscribe {k : Nat} {s s' : Session} {name : Text} {script : Script} {actions : List Action}
      {later : List Occurrence}
      (goes : Goes i (k + (s.beginning i name).length) (s.subscribe i name (.locale name) script)
        (.act actions) later s') :
      Goes i k s (.act (.subscribe name script :: actions)) (s.beginning i name ++ later) s'
  | unsubscribe {k : Nat} {s s' : Session} {name : Text} {actions : List Action}
      {later : List Occurrence}
      (goes : Goes i (k + (s.ending name).length) (s.unsubscribe name) (.act actions) later s') :
      Goes i k s (.act (.unsubscribe name :: actions)) (s.ending name ++ later) s'
  | switch {k : Nat} {s s' s'' : Session} {l : Locale} {actions : List Action}
      {now later : List Occurrence} (first : Goes i k s (.switch l) now s')
      (goes : Goes i (k + now.length) s' (.act actions) later s'') :
      Goes i k s (.act (.switch l :: actions)) (now ++ later) s''
  | done {k since : Nat} {s : Session} {l : Locale} : Goes i k s (.callAll since l []) [] s
  | call {k since : Nat} {n : UInt64} {s s' s'' : Session} {l : Locale} {listener : Listener}
      {listeners : List (UInt64 × Listener)} {during later : List Occurrence}
      (turn : Goes i (k + 1) ((s.deliver i l listener).nextTurn ⟨i, n⟩).2
        (.act ((s.deliver i l listener).nextTurn ⟨i, n⟩).1) during s')
      (goes : Goes i (k + 1 + during.length + 1) s' (.callAll since l listeners) later s'') :
      Goes i k s (.callAll since l ((n, listener) :: listeners))
        (.called since ⟨i, n⟩ l listener.name (s.heard i l listener) ::
          (during ++ .returned ⟨i, n⟩ :: later)) s''
  | publish {k : Nat} {s s' : Session} {l : Locale} {calls : List Occurrence}
      (goes : Goes i (k + 1) (s.publish i l) (.callAll k l ((s.publish i l).listenersOf i))
        calls s') : Goes i k s (.switch l) (.published i l :: calls) s'

/-! ## Every switch that listeners can make has its turn -/

variable {s s' : Session}

/-- How many switches may be made by scripts that are left. -/
def switchesLeft : List (Subscription × Script) → Nat
  | [] => 0
  | e :: rest => scriptSwitches e.2 + switchesLeft rest

theorem switchesLeft_append (before after : List (Subscription × Script)) :
    switchesLeft (before ++ after) = switchesLeft before + switchesLeft after := by
  induction before with
  | nil => exact (Nat.zero_add _).symm
  | cons e rest ih => rw [List.cons_append, switchesLeft, switchesLeft, ih, Nat.add_assoc]

theorem switchesLeft_filter_le (keep : Subscription × Script → Bool)
    (scripts : List (Subscription × Script)) :
    switchesLeft (scripts.filter keep) ≤ switchesLeft scripts := by
  induction scripts with
  | nil => exact Nat.le_refl 0
  | cons e rest ih =>
      rw [List.filter_cons, switchesLeft]
      split
      · exact Nat.add_le_add_left ih _
      · exact Nat.le_add_left_of_le ih

theorem pendingSwitches_eq (s : Session) : s.pendingSwitches = switchesLeft s.scripts := by
  rw [pendingSwitches]
  induction s.scripts with
  | nil => rfl
  | cons e rest ih => rw [List.foldr_cons, ih, switchesLeft]

theorem pendingSwitches_of_scripts (same : s'.scripts = s.scripts) :
    s'.pendingSwitches = s.pendingSwitches := by
  rw [pendingSwitches_eq, pendingSwitches_eq, same]

theorem pendingSwitches_subscribe (s : Session) (i : Nat) (name : Text) (listener : Listener)
    (script : Script) : (s.subscribe i name listener script).pendingSwitches ≤
      s.pendingSwitches + scriptSwitches script := by
  rw [subscribe]
  split
  · exact Nat.le_add_right _ _
  · rw [pendingSwitches_eq, pendingSwitches_eq, switchesLeft, scripts_unsubscribe]
    exact Nat.le_of_eq (Nat.add_comm _ _)

theorem pendingSwitches_nextTurn (s : Session) (sub : Subscription) :
    actionSwitches (s.nextTurn sub).1 + (s.nextTurn sub).2.pendingSwitches ≤
      s.pendingSwitches := by
  rw [pendingSwitches_eq, pendingSwitches_eq, nextTurn]
  split
  · rename_i turn rest found
    obtain ⟨before, after, cut, -⟩ := List.lookup_eq_some_iff.mp found
    have earlier := switchesLeft_filter_le (fun e => e.1 != sub) before
    have later := switchesLeft_filter_le (fun e => e.1 != sub) after
    have kept : ((before ++ (sub, turn :: rest) :: after).filter fun e => e.1 != sub) =
        (before.filter fun e => e.1 != sub) ++ after.filter fun e => e.1 != sub := by simp
    simp only [cut, kept, switchesLeft, switchesLeft_append, scriptSwitches]
    omega
  · exact Nat.le_of_eq (Nat.zero_add _)

theorem pendingSwitches_call (s : Session) (i : Nat) (n : UInt64) (l : Locale)
    (listener : Listener) :
    actionSwitches ((s.deliver i l listener).nextTurn ⟨i, n⟩).1 +
      ((s.deliver i l listener).nextTurn ⟨i, n⟩).2.pendingSwitches ≤ s.pendingSwitches := by
  rw [← pendingSwitches_of_scripts (scripts_deliver s i l listener)]
  exact pendingSwitches_nextTurn _ _

/-- Switches go as they should as long as no more of them than `nested` are pending. -/
def GoesWithin (i : Nat) (switch : Session → Locale → Session)
    (history : Nat → Session → Locale → List Occurrence) (nested : Nat) : Prop :=
  ∀ k s l, s.pendingSwitches < nested →
    Goes i k s (.switch l) (history k s l) (switch s l) ∧
      (switch s l).pendingSwitches ≤ s.pendingSwitches

section

variable {i nested : Nat} {switch : Session → Locale → Session}
  {history : Nat → Session → Locale → List Occurrence}

theorem goes_act (within : GoesWithin i switch history nested) (actions : List Action) (k : Nat)
    (s : Session) (few : actionSwitches actions + s.pendingSwitches ≤ nested) :
    Goes i k s (.act actions) (actHistory switch history i k s actions) (act switch i s actions) ∧
      (act switch i s actions).pendingSwitches ≤ actionSwitches actions + s.pendingSwitches := by
  induction actions generalizing k s with
  | nil => exact ⟨.rest, Nat.le_add_left _ _⟩
  | cons action rest ih =>
      rw [actionSwitches] at few ⊢
      cases action with
      | subscribe name script =>
          rw [Action.switches] at few ⊢
          have now := pendingSwitches_subscribe s i name (.locale name) script
          obtain ⟨goes, later⟩ := ih (k + (s.beginning i name).length)
            (s.subscribe i name (.locale name) script) (by omega)
          exact ⟨.subscribe goes, Nat.le_trans later (by omega)⟩
      | unsubscribe name =>
          rw [Action.switches] at few ⊢
          have now := pendingSwitches_of_scripts (scripts_unsubscribe s name)
          obtain ⟨goes, later⟩ := ih (k + (s.ending name).length) (s.unsubscribe name) (by omega)
          exact ⟨.unsubscribe goes, Nat.le_trans later (by omega)⟩
      | switch l =>
          rw [Action.switches] at few ⊢
          obtain ⟨first, now⟩ := within k s l (by omega)
          obtain ⟨goes, later⟩ := ih (k + (history k s l).length) (switch s l) (by omega)
          exact ⟨.switch first goes, Nat.le_trans later (by omega)⟩

theorem goes_callAll (within : GoesWithin i switch history nested) (since : Nat) (l : Locale)
    (listeners : List (UInt64 × Listener)) (k : Nat) (s : Session) (few : s.pendingSwitches ≤ nested) :
    Goes i k s (.callAll since l listeners) (callHistory switch history i since l k s listeners)
        (callAll switch i l s listeners) ∧
      (callAll switch i l s listeners).pendingSwitches ≤ s.pendingSwitches := by
  induction listeners generalizing k s with
  | nil => exact ⟨.done, Nat.le_refl _⟩
  | cons first rest ih =>
      obtain ⟨n, listener⟩ := first
      have call := pendingSwitches_call s i n l listener
      obtain ⟨turn, during⟩ := goes_act within _ (k + 1) _ (Nat.le_trans call few)
      obtain ⟨goes, later⟩ := ih (k + 1 + _ + 1) _ (Nat.le_trans (Nat.le_trans during call) few)
      exact ⟨.call turn goes, Nat.le_trans (Nat.le_trans later during) call⟩

end

/-- A nested switch uses up an action, so that the bound of the next level is lower by one. -/
theorem goesWithin_switchWithin (i nested : Nat) :
    GoesWithin i (switchWithin nested i) (switchHistory nested i) nested := by
  induction nested with
  | zero => exact fun k s l few => (Nat.not_lt_zero _ few).elim
  | succ nested ih =>
      intro k s l few
      have published := pendingSwitches_of_scripts (scripts_publish s i l)
      have within : (s.publish i l).pendingSwitches ≤ nested := published ▸ Nat.le_of_lt_succ few
      obtain ⟨goes, later⟩ := goes_callAll ih k l ((s.publish i l).listenersOf i) (k + 1) _ within
      exact ⟨.publish goes, Nat.le_trans later (Nat.le_of_eq published)⟩

theorem goes_switch (s : Session) (i k : Nat) (l : Locale) :
    Goes i k s (.switch l) (switchHistory (s.pendingSwitches + 1) i k s l) (s.switch i l) :=
  (goesWithin_switchWithin i _ k s l (Nat.lt_succ_self _)).1

/-! ## Commands -/

theorem unheard_perform {c : Command} (about : c.subject? = none) (still : c.locale? = none) :
    s.Unheard (s.perform c).2 := by
  have effect := effect_perform s c
  generalize (s.perform c).2 = s' at effect
  cases effect with
  | aside _ unheard => exact unheard
  | switched => cases still
  | began i listener script named => cases about.symm.trans named
  | ended => cases about

/-- What a command does to those who listen, together with what happens. -/
theorem perform_cases {P : List Occurrence → Session → Prop} (s : Session) (k : Nat) (c : Command)
    (aside : ∀ s', s.Unheard s' → P [] s')
    (switched : ∀ i l now s', Goes i k s (.switch l) now s' → P now s')
    (began : ∀ i (new : Listener) script,
      P (s.beginning i new.name) (s.subscribe i new.name new script))
    (ended : ∀ name, P (s.ending name) (s.unsubscribe name)) :
    P (s.occurrences k c) (s.perform c).2 := by
  cases c with
  | switch l =>
      rw [occurrences, Session.perform, withLocalizer]
      cases s.current with
      | none => exact aside s (.refl s)
      | some i =>
          simp only [Option.elim_some]
          cases hz : s.localizers[i]? with
          | none =>
              rw [if_neg (Nat.not_lt.mpr (List.getElem?_eq_none_iff.mp hz))]
              exact aside s (.refl s)
          | some z =>
              rw [if_pos (List.getElem?_eq_some_iff.mp hz).1]
              exact switched i l _ _ (goes_switch s i k l)
  | subscribe name script =>
      rw [occurrences, Session.perform, withLocalizer]
      cases s.current with
      | none => exact aside s (.refl s)
      | some i =>
          simp only [Option.elim_some]
          cases hz : s.localizers[i]? with
          | none =>
              rw [beginning, hz]
              exact aside s (.refl s)
          | some z => exact began i (.locale name) script
  | subscribeUnit name unit =>
      rw [occurrences, Session.perform, subscribeUnit]
      cases s.units.find? unit with
      | none => exact aside s (.refl s)
      | some b => exact began b.localizer (.text name b.unit.source b.unit.key) []
  | unsubscribe name => exact ended name
  | _ => exact aside _ (unheard_perform rfl rfl)

end Session

end Phrasebook
