import Phrasebook.Proofs.Lookup.LayerCache
import Phrasebook.Proofs.Session.Subscriptions

/-! Every listener hears of every switch once. What is received under a name is what its localizer
was switched to while the subscription lasted, in order, whoever else came or went. A listener for a
text hears what its localizer finds at the moment of the call. -/
namespace Phrasebook

namespace Session

variable {s s' s'' : Session}

/-- The text that localizer `i` finds for a locale, if it finds one. -/
def textFor (s : Session) (i : Nat) (source : Source) (key : Text) (l : Locale) : Option Text :=
  s.localizers[i]?.bind fun z => (z.resolve s.resources source key l).value.1.toOption

/-- What a listener of localizer `i` hears of a switch, if it hears of it. -/
def heard (s : Session) (i : Nat) (l : Locale) : Listener → Option Text
  | .locale _ => some l.name
  | .text _ source key => s.textFor i source key l

/-- The session when listener `n` of localizer `i` is called for a switch: the locale is current,
and the listeners before it have been called. -/
def atCall (s : Session) (i : Nat) (n : UInt64) (l : Locale) : Session :=
  callAll (switchWithin s.pendingSwitches i) i l (s.publish i l)
    (((s.publish i l).listenersOf i).takeWhile fun (number, _) => number != n)

/-- The switches of localizer `i` in a run: the session before each, and the locale. -/
def switchesOn (s : Session) (i : Nat) : List Command → List (Session × Locale)
  | [] => []
  | c :: rest =>
    ((s.switchOn i c).map fun l => (s, l)).toList ++ (s.perform c).2.switchesOn i rest

/-- Everybody who listens is the same in both sessions. -/
structure Alike (s s' : Session) : Prop where
  boards : ∀ i, s'.board? i = s.board? i
  subscriptions : s'.subscriptions = s.subscriptions
  current : s'.current = s.current

namespace Alike

theorem refl (s : Session) : s.Alike s := ⟨fun _ => rfl, rfl, rfl⟩

theorem trans (h : s.Alike s') (h' : s'.Alike s'') : s.Alike s'' :=
  ⟨fun i => (h'.boards i).trans (h.boards i), h'.subscriptions.trans h.subscriptions,
    h'.current.trans h.current⟩

theorem deliver (s : Session) (i : Nat) (l : Locale) (listener : Listener) :
    s.Alike (s.deliver i l listener) := by
  cases listener with
  | locale name => exact ⟨fun _ => rfl, rfl, rfl⟩
  | text name source key =>
      cases hz : s.localizers[i]? with
      | none =>
          rw [Session.deliver, hz]
          exact refl s
      | some z =>
          have asked : s.Alike (s.settle i (z.resolve s.resources source key l)).2 :=
            ⟨board?_setLocalizer_of_same hz rfl, rfl, rfl⟩
          rw [deliver_text hz]
          generalize s.settle i (z.resolve s.resources source key l) = t at asked ⊢
          obtain ⟨e | text, s'⟩ := t
          · exact asked
          · exact asked.trans ⟨fun _ => rfl, rfl, rfl⟩

theorem nextTurn (s : Session) (sub : Subscription) : s.Alike (s.nextTurn sub).2 := by
  rw [Session.nextTurn]
  split
  · exact ⟨fun _ => rfl, rfl, rfl⟩
  · exact refl s

end Alike

theorem scripts_deliver (s : Session) (i : Nat) (l : Locale) (listener : Listener) :
    (s.deliver i l listener).scripts = s.scripts := by
  cases listener with
  | locale name => rfl
  | text name source key =>
      rw [deliver]
      split
      · rfl
      · simp only
        split <;> rfl

theorem journal_nextTurn (s : Session) (sub : Subscription) :
    (s.nextTurn sub).2.journal = s.journal := by
  rw [nextTurn]
  split <;> rfl

/-- No listener does anything more when it is called. -/
def Idle (s : Session) : Prop := ∀ entry ∈ s.scripts, Script.Idle entry.2

theorem Idle.unheard (idle : s.Idle) (way : s.Unheard s') : s'.Idle := by
  rw [Idle, way.scripts]
  exact idle

theorem Idle.unsubscribe (idle : s.Idle) (name : Text) : (s.unsubscribe name).Idle := by
  rw [Idle, scripts_unsubscribe]
  exact idle

theorem Idle.subscribe (idle : s.Idle) (i : Nat) (name : Text) (listener : Listener)
    {script : Script} (more : script.Idle) : (s.subscribe i name listener script).Idle := by
  rw [Session.subscribe]
  split
  · exact idle
  · intro entry there
    rcases List.mem_cons.mp there with rfl | old
    · exact more
    · rw [scripts_unsubscribe] at old
      exact idle entry old

theorem Idle.nextTurn (idle : s.Idle) (sub : Subscription) :
    (s.nextTurn sub).1 = [] ∧ (s.nextTurn sub).2.Idle := by
  rw [Session.nextTurn]
  split
  · rename_i turn rest found
    obtain ⟨before, after, cut, -⟩ := List.lookup_eq_some_iff.mp found
    have there : (sub, turn :: rest) ∈ s.scripts := cut ▸ List.mem_append_right _ List.mem_cons_self
    have all := idle _ there
    refine ⟨all turn List.mem_cons_self, fun entry hentry => ?_⟩
    rcases List.mem_cons.mp hentry with rfl | old
    · exact fun later hlater => all later (List.mem_cons_of_mem _ hlater)
    · exact idle entry (List.mem_of_mem_filter old)
  · exact ⟨rfl, idle⟩

/-- One call of a listener adds what it hears to what is received under its name. -/
theorem deliveries_deliver (s : Session) (i : Nat) (l : Locale) (listener : Listener)
    (name : Text) : deliveries name (s.deliver i l listener).journal =
      deliveries name s.journal ++
        if listener.name = name then (s.heard i l listener).toList else [] := by
  cases listener with
  | locale receiver => exact deliveries_received name receiver l.name s.journal
  | text receiver source key =>
      rw [heard, textFor]
      cases hz : s.localizers[i]? with
      | none =>
          rw [deliver, hz, Option.bind_none, Option.toList_none, ite_self, List.append_nil]
      | some z =>
          have unheard := (Asked.resolved hz source key l).journal name
          have answer : (z.resolve s.resources source key l).value.1 =
            (s.settle i (z.resolve s.resources source key l)).1 := rfl
          rw [deliver_text hz, Option.bind_some, answer]
          generalize s.settle i (z.resolve s.resources source key l) = t at unheard ⊢
          obtain ⟨e | text, s'⟩ := t
          · rw [← unheard]
            exact ((congrArg _ (ite_self _)).trans (List.append_nil _)).symm
          · rw [← unheard]
            exact deliveries_received name receiver text s'.journal

/-- One call of a listener that does nothing more. -/
structure Called (s : Session) (i : Nat) (l : Locale) (listener : Listener) (s' : Session) :
    Prop where
  alike : s.Alike s'
  idle : s'.Idle
  journal : ∀ name, deliveries name s'.journal =
    deliveries name s.journal ++
      if listener.name = name then (s.heard i l listener).toList else []

theorem callAll_cons (idle : s.Idle) (switch : Session → Locale → Session) (i : Nat) (l : Locale)
    (n : UInt64) (listener : Listener) (rest : List (UInt64 × Listener)) :
    ∃ s', s.Called i l listener s' ∧
      callAll switch i l s ((n, listener) :: rest) = callAll switch i l s' rest := by
  have told : (s.deliver i l listener).Idle := by
    rw [Idle, scripts_deliver]
    exact idle
  obtain ⟨nothing, still⟩ := told.nextTurn ⟨i, n⟩
  refine ⟨((s.deliver i l listener).nextTurn ⟨i, n⟩).2, ⟨?_, still, fun name => ?_⟩, ?_⟩
  · exact (Alike.deliver s i l listener).trans (Alike.nextTurn _ _)
  · rw [journal_nextTurn]
    exact deliveries_deliver s i l listener name
  · rw [callAll]
    simp only [nothing, act]

theorem callAll_append (switch : Session → Locale → Session) (i : Nat) (l : Locale) (s : Session)
    (before after : List (UInt64 × Listener)) :
    callAll switch i l s (before ++ after) =
      callAll switch i l (callAll switch i l s before) after := by
  induction before generalizing s with
  | nil => rfl
  | cons first rest ih => exact ih _

theorem Idle.callAll (idle : s.Idle) (switch : Session → Locale → Session) (i : Nat) (l : Locale)
    (listeners : List (UInt64 × Listener)) :
    s.Alike (callAll switch i l s listeners) ∧ (callAll switch i l s listeners).Idle := by
  induction listeners generalizing s with
  | nil => exact ⟨.refl s, idle⟩
  | cons first rest ih =>
      obtain ⟨s', called, same⟩ := callAll_cons idle switch i l first.1 first.2 rest
      obtain ⟨alike, still⟩ := ih called.idle
      rw [same]
      exact ⟨called.alike.trans alike, still⟩

theorem deliveries_callAll_of_absent (idle : s.Idle) (switch : Session → Locale → Session) (i : Nat)
    (l : Locale) {listeners : List (UInt64 × Listener)} {name : Text}
    (absent : ∀ e ∈ listeners, e.2.name ≠ name) :
    deliveries name (callAll switch i l s listeners).journal = deliveries name s.journal := by
  induction listeners generalizing s with
  | nil => rfl
  | cons first rest ih =>
      obtain ⟨s', called, same⟩ := callAll_cons idle switch i l first.1 first.2 rest
      have later := ih called.idle fun e he => absent e (List.mem_cons_of_mem _ he)
      rw [same, later, called.journal, if_neg (absent first List.mem_cons_self), List.append_nil]

/-- Among others, a listener hears once, after those before it have been called. -/
theorem deliveries_callAll (idle : s.Idle) (switch : Session → Locale → Session) (i : Nat)
    (l : Locale) {n : UInt64} {listener : Listener} {before after : List (UInt64 × Listener)}
    (others : ∀ e ∈ before ++ after, e.2.name ≠ listener.name) :
    deliveries listener.name
        (callAll switch i l s (before ++ (n, listener) :: after)).journal =
      deliveries listener.name s.journal ++
        ((callAll switch i l s before).heard i l listener).toList := by
  have still := (idle.callAll switch i l before).2
  obtain ⟨s', called, same⟩ := callAll_cons still switch i l n listener after
  have first := deliveries_callAll_of_absent idle switch i l
    fun e he => others e (List.mem_append_left _ he)
  have last := deliveries_callAll_of_absent called.idle switch i l
    fun e he => others e (List.mem_append_right _ he)
  rw [callAll_append, same, last, called.journal, if_pos rfl, first]

theorem publish_frame (s : Session) (i : Nat) (l : Locale) :
    ∃ localizers, s.publish i l = { s with localizers } := by
  rw [publish]
  split
  · exact ⟨_, rfl⟩
  · exact ⟨s.localizers, rfl⟩

theorem journal_publish (s : Session) (i : Nat) (l : Locale) :
    (s.publish i l).journal = s.journal := by
  obtain ⟨localizers, same⟩ := publish_frame s i l
  rw [same]

theorem scripts_publish (s : Session) (i : Nat) (l : Locale) :
    (s.publish i l).scripts = s.scripts := by
  obtain ⟨localizers, same⟩ := publish_frame s i l
  rw [same]

theorem subscriptions_publish (s : Session) (i : Nat) (l : Locale) :
    (s.publish i l).subscriptions = s.subscriptions := by
  obtain ⟨localizers, same⟩ := publish_frame s i l
  rw [same]

theorem Idle.publish (idle : s.Idle) (i : Nat) (l : Locale) : (s.publish i l).Idle := by
  rw [Idle, scripts_publish]
  exact idle

theorem listens_of_mem {i : Nat} {e : UInt64 × Listener} (he : e ∈ s.listenersOf i) :
    s.Listens i e.1 e.2 := by
  rw [listenersOf] at he
  cases hz : s.localizers[i]? with
  | none =>
      rw [hz] at he
      cases he
  | some z =>
      rw [hz] at he
      exact ⟨z.switchboard, board?_of_localizer hz, he⟩

theorem listenersOf_publish {i : Nat} {b : Switchboard Listener} (hb : s.board? i = some b)
    (l : Locale) : (s.publish i l).listenersOf i = b.listeners := by
  have published := (Turns.publish s i l).board hb
  rw [if_pos rfl] at published
  obtain ⟨z, hz, same⟩ := Option.map_eq_some_iff.mp published
  rw [listenersOf, hz]
  change z.switchboard.listeners = b.listeners
  rw [same]
  rfl

/-- The calls of a switch change nothing that its publication has not. -/
theorem switch_alike (idle : s.Idle) (i : Nat) (l : Locale) :
    (s.publish i l).Alike (s.switch i l) ∧ (s.switch i l).Idle :=
  (idle.publish i l).callAll (switchWithin s.pendingSwitches i) i l _

theorem Turns.switch (idle : s.Idle) (i : Nat) (l : Locale) :
    s.Turns (s.switch i l) i (·.publish l) :=
  fun j => ((switch_alike idle i l).1.boards j).trans (Turns.publish s i l j)

theorem deliveries_switch_of_absent (idle : s.Idle) (i : Nat) (l : Locale) {name : Text}
    (absent : ∀ n listener, s.Listens i n listener → listener.name ≠ name) :
    deliveries name (s.switch i l).journal = deliveries name s.journal := by
  have others : ∀ e ∈ (s.publish i l).listenersOf i, e.2.name ≠ name := by
    intro e he
    have hears := listens_of_mem he
    exact absent e.1 e.2 (((Turns.publish s i l).listens (fun _ => rfl) i e.1 e.2).mp hears)
  exact (deliveries_callAll_of_absent (idle.publish i l) _ i l others).trans
    (congrArg _ (journal_publish s i l))

/-- Of a switch, a listener hears once, if nobody else has its name. -/
theorem deliveries_switch (idle : s.Idle) {i : Nat} {n : UInt64} {b : Switchboard Listener}
    (hb : s.board? i = some b) (numbered : b.Numbered) {listener : Listener}
    (there : (n, listener) ∈ b.listeners)
    (alone : ∀ e ∈ b.listeners, e.2.name = listener.name → e.1 = n) (l : Locale) :
    deliveries listener.name (s.switch i l).journal =
      deliveries listener.name s.journal ++ ((s.atCall i n l).heard i l listener).toList := by
  obtain ⟨before, after, cut, first, others⟩ := numbered.cut there
  have unnamed : ∀ e ∈ before ++ after, e.2.name ≠ listener.name := by
    intro e he named
    refine others e he (alone e ?_ named)
    rw [cut]
    exact (List.mem_append.mp he).elim (List.mem_append_left _)
      fun later => List.mem_append_right _ (List.mem_cons_of_mem _ later)
  have published := listenersOf_publish hb l
  have switched : s.switch i l = callAll (switchWithin s.pendingSwitches i) i l (s.publish i l)
    ((s.publish i l).listenersOf i) := rfl
  rw [switched, atCall, published, first, cut, deliveries_callAll (idle.publish i l) _ i l unnamed,
    journal_publish]

theorem current_switch (idle : s.Idle) (i : Nat) (l : Locale) :
    (s.switch i l).current = s.current := by
  obtain ⟨localizers, same⟩ := publish_frame s i l
  rw [(switch_alike idle i l).1.current, same]

theorem subscriptions_switch (idle : s.Idle) (i : Nat) (l : Locale) :
    (s.switch i l).subscriptions = s.subscriptions := by
  rw [(switch_alike idle i l).1.subscriptions, subscriptions_publish]

/-- Whoever switches or subscribes goes on to work with the same localizer. -/
theorem current_perform (idle : s.Idle) {c : Command}
    (plain : c.subject?.isSome ∨ c.locale?.isSome) : (s.perform c).2.current = s.current := by
  cases c with
  | switch l =>
      exact withLocalizer_cases (P := fun t => t.current = s.current) rfl
        fun i _ _ _ => current_switch idle i l
  | subscribe name script =>
      exact withLocalizer_cases (P := fun t => t.current = s.current) rfl
        fun i _ _ _ => current_subscribe s i name _ script
  | subscribeUnit name unit =>
      rw [perform, subscribeUnit]
      split
      · rfl
      · exact current_subscribe s _ name _ []
  | unsubscribe name => exact current_unsubscribe s name
  | _ => cases plain <;> contradiction

/-- Subscriptions are in order, listeners do nothing of their own, and no more than `k` numbers are
used up. -/
structure Calm (k : Nat) (s : Session) : Prop extends s.Orderly, s.Given k where
  idle : s.Idle

namespace Calm

variable {k : Nat}

theorem start (r : Resources) (overrides : OverrideSettings) (initial : Locale) :
    (Session.start r overrides initial).Calm 0 :=
  ⟨.start r overrides initial, .start r overrides initial, nofun⟩

theorem switch (h : s.Calm k) (i : Nat) (l : Locale) : (s.switch i l).Calm k := by
  have turns := Turns.switch h.idle i l
  refine ⟨?_, h.toGiven.turns turns fun _ => Nat.le_add_right _ 0, (switch_alike h.idle i l).2⟩
  exact h.of_listens (turns.numbered (fun _ _ numbered => numbered.publish l) h.numbered)
    (turns.listens fun _ => rfl) (subscriptions_switch h.idle i l)

theorem subscribe (h : s.Calm k) (few : k + 1 < UInt64.size) (i : Nat) (new : Listener)
    {script : Script} (idle : script.Idle) : (s.subscribe i new.name new script).Calm (k + 1) :=
  ⟨h.toOrderly.subscribe (h.room few) new script, h.toGiven.subscribe i new.name new script,
    h.idle.subscribe i new.name new idle⟩

theorem unsubscribe (h : s.Calm k) (name : Text) : (s.unsubscribe name).Calm k :=
  ⟨h.toOrderly.unsubscribe name, h.toGiven.unsubscribe name, h.idle.unsubscribe name⟩

theorem mono (h : s.Calm k) {m : Nat} (le : k ≤ m) : s.Calm m :=
  ⟨h.toOrderly, h.toGiven.mono le, h.idle⟩

theorem effect (h : s.Calm k) {c : Command} (quiet : c.Quiet) (effect : s.Effect c s')
    (few : k + (if c.begins then 1 else 0) < UInt64.size) :
    s'.Calm (k + if c.begins then 1 else 0) := by
  cases effect with
  | aside still unheard =>
      refine mono ⟨h.toOrderly.unheard unheard, h.toGiven.unheard unheard, ?_⟩ (Nat.le_add_right _ _)
      exact h.idle.unheard unheard
  | switched l current inside => exact h.switch _ l
  | began i listener script about begins idle =>
      rw [if_pos begins] at few ⊢
      exact h.subscribe few i listener (idle quiet)
  | ended name => exact h.unsubscribe name

/-- A listener stays until its name is given up, and hears of each switch of its localizer. -/
theorem hears (h : s.Calm k) {c : Command} (effect : s.Effect c s') {i : Nat} {n : UInt64}
    {listener : Listener} (listens : s.Listens i n listener)
    (other : c.subject? ≠ some listener.name) :
    s'.Listens i n listener ∧ deliveries listener.name s'.journal =
      deliveries listener.name s.journal ++
        ((s.switchOn i c).bind fun l => (s.atCall i n l).heard i l listener).toList := by
  cases effect with
  | aside still unheard =>
      obtain ⟨b, hb, there⟩ := listens
      refine ⟨⟨b, unheard.boards i b hb, there⟩, ?_⟩
      rw [unheard.journal, still i]
      exact (List.append_nil _).symm
  | @switched j l current inside =>
      refine ⟨((Turns.switch h.idle j l).listens (fun _ => rfl) i n listener).mpr listens, ?_⟩
      by_cases here : j = i
      · subst here
        obtain ⟨b, hb, there⟩ := listens
        have alone : ∀ e ∈ b.listeners, e.2.name = listener.name → e.1 = n :=
          fun e he named => (h.place ⟨b, hb, there⟩ ⟨b, hb, he⟩ named).2
        rw [switchOn, if_pos ⟨current, inside⟩]
        exact deliveries_switch h.idle hb (h.numbered j b hb) there alone l
      · -- Another localizer switches, to which nobody of this name listens.
        have absent : ∀ m other, s.Listens j m other → other.name ≠ listener.name :=
          fun m other hears named => here (h.place listens hears named).1
        rw [switchOn_of_other current here, deliveries_switch_of_absent h.idle j l absent]
        exact (List.append_nil _).symm
  | began j new script about =>
      rw [journal_subscribe, switchOn_of_subject about]
      refine ⟨?_, (List.append_nil _).symm⟩
      have different : listener.name ≠ new.name := fun same => other (same ▸ about)
      cases hz : s.localizers[j]? with
      | none =>
          rw [Session.subscribe, hz]
          exact listens
      | some z =>
          exact (h.listens_subscribe hz new script i n listener).mpr (.inl ⟨listens, different⟩)
  | ended name =>
      rw [journal_unsubscribe]
      refine ⟨?_, (List.append_nil _).symm⟩
      have different : listener.name ≠ name := fun same => other (congrArg some same.symm)
      exact (h.listens_unsubscribe name i n listener).mpr ⟨listens, different⟩

theorem silent (h : s.Calm k) {c : Command} (effect : s.Effect c s') {name : Text}
    (unknown : s.subscriptions.find? name = none) (other : c.subject? ≠ some name) :
    s'.subscriptions.find? name = none ∧
      deliveries name s'.journal = deliveries name s.journal := by
  cases effect with
  | aside still unheard => exact ⟨unheard.subscriptions ▸ unknown, unheard.journal name⟩
  | @switched j l current inside =>
      refine ⟨subscriptions_switch h.idle j l ▸ unknown, ?_⟩
      refine deliveries_switch_of_absent h.idle j l fun n listener hears named => ?_
      have registered := h.registered j n listener hears
      rw [named, unknown] at registered
      cases registered
  | began j new script about =>
      rw [journal_subscribe]
      refine ⟨?_, rfl⟩
      have different : name ≠ new.name := fun same => other (same ▸ about)
      cases hz : s.localizers[j]? with
      | none =>
          rw [Session.subscribe, hz]
          exact unknown
      | some z =>
          rw [find?_subscribe hz, if_neg different]
          exact unknown
  | ended gone =>
      rw [journal_unsubscribe, find?_unsubscribe]
      exact ⟨ite_eq_left_iff.mpr fun _ => unknown, rfl⟩

/-- A localizer counts its switches, and has the locale of the last. -/
theorem counts (h : s.Calm k) {c : Command} (effect : s.Effect c s') {i : Nat}
    {b : Switchboard Listener} (hb : s.board? i = some b) :
    ∃ b', s'.board? i = some b' ∧ b'.current = (s.switchOn i c).getD b.current ∧
      (b.version.toNat + (s.switchOn i c).toList.length < UInt64.size →
        b'.version.toNat = b.version.toNat + (s.switchOn i c).toList.length) := by
  cases effect with
  | aside still unheard =>
      rw [still i]
      exact ⟨b, unheard.boards i b hb, rfl, fun _ => rfl⟩
  | @switched j l current inside =>
      refine ⟨_, (Turns.switch h.idle j l).board hb, ?_⟩
      by_cases here : i = j
      · subst here
        rw [if_pos rfl, switchOn, if_pos ⟨current, inside⟩]
        exact ⟨rfl, fun few => Switchboard.toNat_version_publish few l⟩
      · rw [if_neg here, switchOn_of_other current (Ne.symm here)]
        exact ⟨rfl, fun _ => rfl⟩
  | began j new script about =>
      obtain ⟨b', hb', current, version⟩ := board_subscribe hb j new.name new script
      rw [switchOn_of_subject about]
      exact ⟨b', hb', current, fun _ => congrArg UInt64.toNat version⟩
  | ended name =>
      obtain ⟨b', hb', current, version⟩ := board_unsubscribe hb name
      exact ⟨b', hb', current, fun _ => congrArg UInt64.toNat version⟩

theorem inside (h : s.Calm k) {c : Command} (effect : s.Effect c s') {i : Nat}
    (before : i < s.localizers.length) : i < s'.localizers.length := by
  obtain ⟨b, hb, -⟩ := h.counts effect (board?_of_localizer (List.getElem?_eq_getElem before))
  obtain ⟨z, hz, -⟩ := Option.map_eq_some_iff.mp hb
  exact (List.getElem?_eq_some_iff.mp hz).1

variable {commands : List Command}

theorem perform (h : s.Calm k) {c : Command} (quiet : c.Quiet)
    (few : k + (if c.begins then 1 else 0) < UInt64.size) :
    (s.perform c).2.Calm (k + if c.begins then 1 else 0) :=
  h.effect quiet (effect_perform s c) few

theorem run (h : s.Calm k) (quiet : ∀ c ∈ commands, c.Quiet)
    (few : k + commands.countP Command.begins < UInt64.size) :
    (s.run commands).2.Calm (k + commands.countP Command.begins) := by
  induction commands generalizing s k with
  | nil => exact h
  | cons c rest ih =>
      obtain ⟨quietNow, quietLater⟩ := List.forall_mem_cons.mp quiet
      rw [List.countP_cons] at few ⊢
      exact (ih (h.perform quietNow (by omega)) quietLater (by omega)).mono (by omega)

theorem hears_run (h : s.Calm k) (quiet : ∀ c ∈ commands, c.Quiet)
    (few : k + commands.countP Command.begins < UInt64.size) {i : Nat} {n : UInt64}
    {listener : Listener} (listens : s.Listens i n listener)
    (others : ∀ c ∈ commands, c.subject? ≠ some listener.name) :
    deliveries listener.name (s.run commands).2.journal =
      deliveries listener.name s.journal ++
        (s.switchesOn i commands).filterMap fun (t, l) => (t.atCall i n l).heard i l listener := by
  induction commands generalizing s k with
  | nil => exact (List.append_nil _).symm
  | cons c rest ih =>
      obtain ⟨quietNow, quietLater⟩ := List.forall_mem_cons.mp quiet
      obtain ⟨otherNow, otherLater⟩ := List.forall_mem_cons.mp others
      obtain ⟨still, first⟩ := h.hears (effect_perform s c) listens otherNow
      rw [List.countP_cons] at few
      have later := ih (h.perform quietNow (by omega)) quietLater (by omega) still otherLater
      have here : (((s.switchOn i c).map fun l => (s, l)).toList.filterMap
          fun (t, l) => (t.atCall i n l).heard i l listener) =
          ((s.switchOn i c).bind fun l => (s.atCall i n l).heard i l listener).toList := by
        cases s.switchOn i c with
        | none => rfl
        | some l => cases told : (s.atCall i n l).heard i l listener <;> simp [told]
      rw [switchesOn, List.filterMap_append, here, ← List.append_assoc, ← first]
      exact later

theorem silent_run (h : s.Calm k) (quiet : ∀ c ∈ commands, c.Quiet)
    (few : k + commands.countP Command.begins < UInt64.size) {name : Text}
    (unknown : s.subscriptions.find? name = none)
    (others : ∀ c ∈ commands, c.subject? ≠ some name) :
    deliveries name (s.run commands).2.journal = deliveries name s.journal := by
  induction commands generalizing s k with
  | nil => rfl
  | cons c rest ih =>
      obtain ⟨quietNow, quietLater⟩ := List.forall_mem_cons.mp quiet
      obtain ⟨otherNow, otherLater⟩ := List.forall_mem_cons.mp others
      obtain ⟨still, first⟩ := h.silent (effect_perform s c) unknown otherNow
      rw [List.countP_cons] at few
      exact (ih (h.perform quietNow (by omega)) quietLater (by omega) still otherLater).trans first

theorem counts_run (h : s.Calm k) (quiet : ∀ c ∈ commands, c.Quiet)
    (few : k + commands.countP Command.begins < UInt64.size) {i : Nat} {b : Switchboard Listener} (hb : s.board? i = some b) :
    ∃ b', (s.run commands).2.board? i = some b' ∧
      b'.current = ((s.switchesOn i commands).getLast?.map (·.2)).getD b.current ∧
      (b.version.toNat + (s.switchesOn i commands).length < UInt64.size →
        b'.version.toNat = b.version.toNat + (s.switchesOn i commands).length) := by
  induction commands generalizing s k b with
  | nil => exact ⟨b, hb, rfl, fun _ => rfl⟩
  | cons c rest ih =>
      obtain ⟨quietNow, quietLater⟩ := List.forall_mem_cons.mp quiet
      obtain ⟨b', hb', current, version⟩ := h.counts (effect_perform s c) hb
      rw [List.countP_cons] at few
      obtain ⟨b'', hb'', last, counted⟩ :=
        ih (h.perform quietNow (by omega)) quietLater (by omega) hb'
      refine ⟨b'', hb'', ?_, fun few => ?_⟩
      · rw [last, current, switchesOn, List.getLast?_append]
        cases ((s.perform c).2.switchesOn i rest).getLast? with
        | some later => rfl
        | none => cases s.switchOn i c <;> rfl
      · have length : (s.switchesOn i (c :: rest)).length = (s.switchOn i c).toList.length +
            ((s.perform c).2.switchesOn i rest).length := by
          rw [switchesOn, List.length_append]
          cases s.switchOn i c <;> rfl
        rw [length] at few ⊢
        have first := version (by omega)
        have rest := counted (by omega)
        omega

/-- Where all commands are about listeners, every switch is one of the localizer that is worked
with. -/
theorem switchesOn_of_current (h : s.Calm k) (quiet : ∀ c ∈ commands, c.Quiet)
    (few : k + commands.countP Command.begins < UInt64.size)
    (plain : ∀ c ∈ commands, c.subject?.isSome ∨ c.locale?.isSome) {i : Nat}
    (current : s.current = some i) (inside : i < s.localizers.length) :
    (s.switchesOn i commands).map (·.2) = commands.filterMap Command.locale? := by
  induction commands generalizing s k with
  | nil => rfl
  | cons c rest ih =>
      have first : s.switchOn i c = c.locale? := by
        cases c with
        | switch l => exact if_pos ⟨current, inside⟩
        | _ => rfl
      obtain ⟨quietNow, quietLater⟩ := List.forall_mem_cons.mp quiet
      obtain ⟨plainNow, plainLater⟩ := List.forall_mem_cons.mp plain
      rw [List.countP_cons] at few
      have later := ih (h.perform quietNow (by omega)) quietLater (by omega) plainLater
        ((current_perform h.idle plainNow).trans current) (h.inside (effect_perform s c) inside)
      rw [switchesOn, List.map_append, later, first, List.filterMap_cons]
      cases c.locale? <;> rfl

theorem hears_since (h : s.Calm k) (quiet : ∀ c ∈ commands, c.Quiet)
    (few : k + commands.countP Command.begins + 1 < UInt64.size) {i : Nat} {z : Localizer}
    (hz : s.localizers[i]? = some z) (new : Listener) {script : Script} (idle : script.Idle)
    (others : ∀ c ∈ commands, c.subject? ≠ some new.name) :
    deliveries new.name ((s.subscribe i new.name new script).run commands).2.journal =
      deliveries new.name s.journal ++
        ((s.subscribe i new.name new script).switchesOn i commands).filterMap fun (t, l) =>
          (t.atCall i z.switchboard.nextNumber l).heard i l new := by
  have listens : (s.subscribe i new.name new script).Listens i z.switchboard.nextNumber new :=
    (h.listens_subscribe hz new script i _ new).mpr (.inr ⟨rfl, rfl, rfl⟩)
  rw [← journal_subscribe s i new.name new script]
  exact (h.subscribe (by omega) i new idle).hears_run quiet (by omega) listens others

end Calm

/-- Where listeners do nothing of their own and fewer than `2 ^ 64` subscriptions begin, after
whatever was done before: every localizer counts its switches and has the locale of the last one. Since its begin, a subscription to the locale hears
of each switch, and one to a text hears what is found at the time of its call. Since its end, it
hears nothing. Nothing is heard under a name that was never used. As long as there is nothing but
switches and subscriptions, the switches are those of the commands. -/
theorem subscriptions_hear_each_switch (r : Resources) (overrides : OverrideSettings)
    (initial : Locale) {before during : List Command} (quietBefore : ∀ c ∈ before, c.Quiet)
    (quiet : ∀ c ∈ during, c.Quiet)
    (few : (before ++ during).countP Command.begins + 1 < UInt64.size) {s : Session}
    (reached : ((start r overrides initial).run before).2 = s) :
    (∀ (i : Nat) (z : Localizer), s.localizers[i]? = some z →
      ∃ z', (s.run during).2.localizers[i]? = some z' ∧
        z'.current = ((s.switchesOn i during).getLast?.map (·.2)).getD z.current ∧
        (z.version.toNat + (s.switchesOn i during).length < UInt64.size →
          z'.version.toNat = z.version.toNat + (s.switchesOn i during).length)) ∧
    (∀ name script i, s.current = some i → i < s.localizers.length → Script.Idle script →
      (∀ c ∈ during, c.subject? ≠ some name) →
      deliveries name ((s.perform (.subscribe name script)).2.run during).2.journal =
        deliveries name s.journal ++
          ((s.perform (.subscribe name script)).2.switchesOn i during).map fun (_, l) => l.name) ∧
    (∀ name unit b (z : Localizer), s.units.find? unit = some b →
      s.localizers[b.localizer]? = some z → (∀ c ∈ during, c.subject? ≠ some name) →
      deliveries name ((s.perform (.subscribeUnit name unit)).2.run during).2.journal =
        deliveries name s.journal ++
          ((s.perform (.subscribeUnit name unit)).2.switchesOn b.localizer during).filterMap
            fun (t, l) => (t.atCall b.localizer z.switchboard.nextNumber l).textFor b.localizer
              b.unit.source b.unit.key l) ∧
    (∀ name, (∀ c ∈ during, c.subject? ≠ some name) →
      deliveries name ((s.perform (.unsubscribe name)).2.run during).2.journal =
        deliveries name s.journal) ∧
    (∀ name, (∀ c ∈ before, c.subject? ≠ some name) → deliveries name s.journal = []) ∧
    (∀ i, s.current = some i → i < s.localizers.length →
      (∀ c ∈ during, c.subject?.isSome ∨ c.locale?.isSome) →
      (s.switchesOn i during).map (·.2) = during.filterMap Command.locale?) := by
  rw [List.countP_append] at few
  have fewBefore : 0 + before.countP Command.begins < UInt64.size := by omega
  have h := (Calm.start r overrides initial).run quietBefore fewBefore
  rw [reached, Nat.zero_add] at h
  refine ⟨fun i z hz => ?_, fun name script i current inside idle others => ?_,
    fun name unit b z bound hz others => ?_, fun name others => ?_, fun name others => ?_,
    fun i current inside plain =>
      h.switchesOn_of_current quiet (by omega) plain current inside⟩
  · obtain ⟨b, hb, last, counted⟩ := h.counts_run quiet (by omega) (board?_of_localizer hz)
    obtain ⟨z', hz', rfl⟩ := Option.map_eq_some_iff.mp hb
    exact ⟨z', hz', last, counted⟩
  · have hz := List.getElem?_eq_getElem inside
    have subscribed : (s.perform (.subscribe name script)).2 =
        s.subscribe i name (.locale name) script := by
      rw [perform, withLocalizer, current]
      simp only [hz]
    have names : ((s.subscribe i name (.locale name) script).switchesOn i during).filterMap
        (fun (_, l) => some l.name) =
        ((s.subscribe i name (.locale name) script).switchesOn i during).map fun (_, l) => l.name :=
      congrFun List.filterMap_eq_map _
    rw [subscribed, ← names]
    exact h.hears_since quiet few hz (.locale name) idle others
  · have subscribed : (s.perform (.subscribeUnit name unit)).2 =
        s.subscribe b.localizer name (.text name b.unit.source b.unit.key) [] := by
      rw [perform, subscribeUnit, bound]
    rw [subscribed]
    exact h.hears_since quiet few hz (.text name b.unit.source b.unit.key)
      (fun turn none => (List.not_mem_nil none).elim) others
  · have unknown : (s.unsubscribe name).subscriptions.find? name = none := by
      rw [find?_unsubscribe, if_pos rfl]
    rw [← journal_unsubscribe s name]
    exact (h.unsubscribe name).silent_run quiet (by omega) unknown others
  · have nothing := (Calm.start r overrides initial).silent_run quietBefore fewBefore rfl others
    rw [reached] at nothing
    exact nothing

/-- A unit for a greeting, and somebody else who listens. -/
def preparations : List Command :=
  [.bindUnit "greeting".toList ⟨0, "hi.toml".toList⟩ "hi".toList, .subscribe "other".toList []]

def thereAndBack : List Command :=
  [.switch ⟨"de".toList, none, none, []⟩, .unsubscribe "other".toList,
    .switch ⟨"en".toList, none, none, []⟩]

def prepared : Session :=
  ((start (Family.greetings "hi = 'Hallo'".toList) OverrideSettings.default
    ⟨"en".toList, none, none, []⟩).run preparations).2

theorem subscriptions_hear_each_switch_german :
    (∀ c ∈ preparations, c.Quiet) ∧ (∀ c ∈ thereAndBack, c.Quiet) ∧
      (preparations ++ thereAndBack).countP Command.begins + 1 < UInt64.size ∧
      deliveries "locale".toList
        ((prepared.perform (.subscribe "locale".toList [])).2.run thereAndBack).2.journal =
          ["de".toList, "en".toList] ∧
      deliveries "text".toList
        ((prepared.perform (.subscribeUnit "text".toList "greeting".toList)).2.run
          thereAndBack).2.journal = ["Hallo".toList, "Hello".toList] := by
  have quietBefore : ∀ c ∈ preparations, c.Quiet := by
    simp [preparations, Command.Quiet, Script.Idle]
  have quiet : ∀ c ∈ thereAndBack, c.Quiet := by simp [thereAndBack, Command.Quiet]
  have few : (preparations ++ thereAndBack).countP Command.begins + 1 < UInt64.size := by decide
  have inside : 0 < prepared.localizers.length := by decide +kernel
  have current : prepared.current = some 0 := by decide +kernel
  have bound : prepared.units.find? "greeting".toList =
      some ⟨0, .ofKey ⟨0, "hi.toml".toList⟩ "hi".toList⟩ := by decide +kernel
  obtain ⟨-, locale, text, -⟩ := subscriptions_hear_each_switch
    (Family.greetings "hi = 'Hallo'".toList) OverrideSettings.default
    ⟨"en".toList, none, none, []⟩ quietBefore quiet few (s := prepared) rfl
  refine ⟨quietBefore, quiet, few, ?_, ?_⟩
  · have others : ∀ c ∈ thereAndBack, c.subject? ≠ some "locale".toList := by
      simp [thereAndBack, Command.subject?]
    rw [locale _ [] 0 current inside nofun others]
    decide +kernel
  · have others : ∀ c ∈ thereAndBack, c.subject? ≠ some "text".toList := by
      simp [thereAndBack, Command.subject?]
    have first := List.getElem?_eq_getElem (show 0 < prepared.localizers.length by decide +kernel)
    rw [text _ _ _ _ bound first others]
    decide +kernel

end Session

end Phrasebook
