import Phrasebook.Proofs.Session.Listening

/-! Whom a switch calls. It calls everyone who listens when it is published, each once and nobody
else, whatever they do in turn: who is dropped on the way is still called, and who is added is not.
A subscription that has ended is called by those switches only that were under way at its end. -/
namespace Phrasebook

namespace Occurrence

/-- The call of a listener that belongs to the switch at place `since`. -/
def callSince? (since : Nat) : Occurrence → Option (Subscription × Locale)
  | .called place sub l _ _ => if place = since then some (sub, l) else none
  | _ => none

/-- Neither a publication nor a call. -/
def IsAside : Occurrence → Prop
  | .published _ _ | .called .. => False
  | _ => True

end Occurrence

/-- The calls that belong to the switch at place `since`, in order. -/
def callsSince (since : Nat) (history : List Occurrence) : List (Subscription × Locale) :=
  history.filterMap (Occurrence.callSince? since)

theorem callsSince_append (since : Nat) (before after : List Occurrence) :
    callsSince since (before ++ after) = callsSince since before ++ callsSince since after :=
  List.filterMap_append

theorem callsSince_called (since : Nat) (sub : Subscription) (l : Locale) (name : Text)
    (heard : Option Text) (after : List Occurrence) :
    callsSince since (.called since sub l name heard :: after) =
      (sub, l) :: callsSince since after :=
  List.filterMap_cons_some (if_pos rfl)

theorem mem_callsSince {since : Nat} {history : List Occurrence} {sub : Subscription} {l : Locale} :
    (sub, l) ∈ callsSince since history ↔
      ∃ name heard, .called since sub l name heard ∈ history := by
  rw [callsSince, List.mem_filterMap]
  constructor
  · rintro ⟨o, there, same⟩
    cases o with
    | called place sub l name heard =>
        rw [Occurrence.callSince?] at same
        split at same
        · rename_i here
          cases same
          exact ⟨name, heard, here ▸ there⟩
        · cases same
    | _ => cases same
  · rintro ⟨name, heard, there⟩
    exact ⟨_, there, if_pos rfl⟩

/-- The calls that a switch of localizer `i` has to make: one of everybody who listens to it. -/
def due (past : List Occurrence) (i : Nat) (l : Locale) : List (Subscription × Locale) :=
  ((listening past).filter fun sub => sub.localizer = i).map fun sub => (sub, l)

theorem mem_due {past : List Occurrence} {i : Nat} {l l' : Locale} {sub : Subscription} :
    (sub, l') ∈ due past i l ↔ sub ∈ listening past ∧ sub.localizer = i ∧ l' = l := by
  rw [due, List.mem_map]
  constructor
  · rintro ⟨other, there, same⟩
    cases same
    obtain ⟨there, here⟩ := List.mem_filter.mp there
    exact ⟨there, of_decide_eq_true here, rfl⟩
  · rintro ⟨there, here, rfl⟩
    exact ⟨sub, List.mem_filter.mpr ⟨there, decide_eq_true here⟩, rfl⟩

theorem due_subscriptions (past : List Occurrence) (i : Nat) (l : Locale) :
    (due past i l).map (·.1) = (listening past).filter fun sub => sub.localizer = i := by
  rw [due, List.map_map]
  exact List.map_id _

/-- An occurrence in the middle of two histories is in the middle of one of them. -/
theorem split_append {first second before after : List Occurrence} {o : Occurrence}
    (cut : first ++ second = before ++ o :: after) :
    (∃ rest, first = before ++ o :: rest ∧ after = rest ++ second) ∨
      ∃ rest, before = first ++ rest ∧ second = rest ++ o :: after := by
  rcases List.append_eq_append_iff.mp cut with ⟨rest, rfl, same⟩ | ⟨rest, rfl, same⟩
  · exact .inr ⟨rest, rfl, same⟩
  · cases rest with
    | nil => exact .inr ⟨[], by simp, same.symm⟩
    | cons x rest =>
        cases same
        exact .inl ⟨rest, rfl, rfl⟩

/-- What happens `during` some time makes all calls that fall due in it. All calls in it belong to
its own switches, or to the switch of which the calls are `pending`. -/
structure Sound (past during : List Occurrence) (pending : Option Nat) : Prop where
  switches : ∀ before i l after, during = before ++ .published i l :: after →
    callsSince (past.length + before.length) after = due (past ++ before) i l
  calls : ∀ before since sub l name heard after,
    during = before ++ .called since sub l name heard :: after → pending = some since ∨
      ∃ earlier i l' later, before = earlier ++ .published i l' :: later ∧
        since = past.length + earlier.length

namespace Sound

variable {past during first second : List Occurrence} {pending : Option Nat}

theorem of_aside (aside : ∀ o ∈ during, o.IsAside) (past : List Occurrence)
    (pending : Option Nat) : Sound past during pending := by
  refine ⟨fun before i l after cut => ?_, fun before since sub l name heard after cut => ?_⟩
  · exact (aside (.published i l) (cut ▸ List.mem_append_right _ List.mem_cons_self)).elim
  · exact (aside (.called since sub l name heard)
      (cut ▸ List.mem_append_right _ List.mem_cons_self)).elim

theorem nil (past : List Occurrence) (pending : Option Nat) : Sound past [] pending :=
  of_aside (fun _ nothing => (List.not_mem_nil nothing).elim) past pending

theorem returned (sub : Subscription) (pending : Option Nat) (past : List Occurrence) :
    Sound past [.returned sub] pending := by
  refine of_aside (fun o there => ?_) past pending
  cases List.mem_singleton.mp there
  trivial

theorem weaken (h : Sound past during none) (pending : Option Nat) :
    Sound past during pending := by
  refine ⟨h.switches, fun before since sub l name heard after cut => ?_⟩
  rcases h.calls before since sub l name heard after cut with nobody | own
  · cases nobody
  · exact .inr own

/-- An earlier switch is not heard of again, unless its calls are pending. -/
theorem callsSince_eq_nil (h : Sound past during pending) {since : Nat}
    (earlier : since < past.length) (other : pending ≠ some since) :
    callsSince since during = [] := by
  refine List.eq_nil_iff_forall_not_mem.mpr fun (sub, l) there => ?_
  obtain ⟨name, heard, there⟩ := mem_callsSince.mp there
  obtain ⟨before, after, cut⟩ := List.append_of_mem there
  rcases h.calls before since sub l name heard after cut with same | ⟨_, _, _, _, -, later⟩
  · exact other same
  · omega

theorem append (h : Sound past first pending) (h' : Sound (past ++ first) second pending)
    (earlier : ∀ since, pending = some since → since < past.length) :
    Sound past (first ++ second) pending := by
  refine ⟨fun before i l after cut => ?_, fun before since sub l name heard after cut => ?_⟩
  · rcases split_append cut with ⟨rest, here, rfl⟩ | ⟨rest, rfl, there⟩
    · have silent : callsSince (past.length + before.length) second = [] := by
        refine h'.callsSince_eq_nil ?_ fun same => ?_
        · rw [here, List.length_append, List.length_append, List.length_cons]
          omega
        · have less := earlier _ same
          omega
      rw [callsSince_append, silent, List.append_nil]
      exact h.switches before i l rest here
    · have calls := h'.switches rest i l after there
      rw [List.length_append, List.append_assoc] at calls
      rw [List.length_append, ← Nat.add_assoc]
      exact calls
  · rcases split_append cut with ⟨rest, here, rfl⟩ | ⟨rest, rfl, there⟩
    · exact h.calls before since sub l name heard rest here
    · rcases h'.calls rest since sub l name heard after there with
        same | ⟨sooner, i, l', later, rfl, place⟩
      · exact .inl same
      · refine .inr ⟨first ++ sooner, i, l', later, (List.append_assoc _ _ _).symm, ?_⟩
        rw [place, List.length_append, List.length_append, Nat.add_assoc]

theorem call (since : Nat) (sub : Subscription) (l : Locale) (name : Text) (heard : Option Text)
    (past : List Occurrence) : Sound past [.called since sub l name heard] (some since) := by
  refine ⟨fun before i l' after cut => ?_, fun before since' sub' l' name' heard' after cut => ?_⟩
  · rcases List.singleton_eq_append_iff.mp cut with ⟨-, same⟩ | ⟨-, same⟩ <;> cases same
  · rcases List.singleton_eq_append_iff.mp cut with ⟨-, same⟩ | ⟨-, same⟩ <;> cases same
    exact .inl rfl

/-- A call is due since a switch was published to which its subscription listened. -/
theorem call_due (h : Sound past during none) {before after : List Occurrence} {since : Nat}
    {sub : Subscription} {l : Locale} {name : Text} {heard : Option Text}
    (cut : during = before ++ .called since sub l name heard :: after) :
    ∃ earlier later, before = earlier ++ .published sub.localizer l :: later ∧
      since = past.length + earlier.length ∧ sub ∈ listening (past ++ earlier) := by
  rcases h.calls before since sub l name heard after cut with
    nobody | ⟨earlier, i, l', later, rfl, place⟩
  · cases nobody
  · rw [List.append_assoc, List.cons_append] at cut
    have called : (sub, l) ∈ due (past ++ earlier) i l' := by
      rw [← h.switches earlier i l' _ cut, mem_callsSince, ← place]
      exact ⟨name, heard, List.mem_append_right _ List.mem_cons_self⟩
    obtain ⟨there, rfl, rfl⟩ := mem_due.mp called
    exact ⟨earlier, later, rfl, place, there⟩

theorem callsSince_before (h : Sound past during none) {before after : List Occurrence}
    (cut : during = before ++ after) : callsSince (past.length + before.length) before = [] := by
  refine List.eq_nil_iff_forall_not_mem.mpr fun (sub, l) there => ?_
  obtain ⟨name, heard, there⟩ := mem_callsSince.mp there
  obtain ⟨sooner, rest, inside⟩ := List.append_of_mem there
  rw [inside, List.append_assoc, List.cons_append] at cut
  obtain ⟨earlier, later, rfl, place, -⟩ := h.call_due cut
  have length := congrArg List.length inside
  simp only [List.length_append, List.length_cons] at length
  omega

theorem publish {i : Nat} {l : Locale} {calls : List Occurrence}
    (h : Sound (past ++ [.published i l]) calls (some past.length))
    (made : callsSince past.length calls = due past i l) :
    Sound past (.published i l :: calls) none := by
  refine ⟨fun before j l' after cut => ?_, fun before since sub l' name heard after cut => ?_⟩
  · cases before with
    | nil =>
        cases cut
        rw [List.append_nil]
        exact made
    | cons x before =>
        cases cut
        have calls := h.switches before j l' after rfl
        rw [List.length_append, List.append_assoc] at calls
        rw [List.length_cons, Nat.add_comm before.length, ← Nat.add_assoc]
        exact calls
  · cases before with
    | nil => cases cut
    | cons x before =>
        cases cut
        refine .inr ?_
        rcases h.calls before since sub l' name heard after rfl with
          same | ⟨earlier, j, l'', later, rfl, place⟩
        · cases same
          exact ⟨[], i, l, before, rfl, rfl⟩
        · refine ⟨.published i l :: earlier, j, l'', later, rfl, ?_⟩
          simp only [place, List.length_append, List.length_cons, List.length_nil]
          omega

end Sound

namespace Session

variable {s s' : Session} {past : List Occurrence}

/-- The place of the switch of which a task makes the calls. -/
def Task.since? : Task → Option Nat
  | .callAll since _ _ => some since
  | _ => none

/-- The calls that a task makes for a switch that came before. -/
def Task.calls (i : Nat) : Task → List (Subscription × Locale)
  | .callAll _ l listeners => listeners.map fun e => (⟨i, e.1⟩, l)
  | _ => []

theorem ending_aside (s : Session) (name : Text) : ∀ o ∈ s.ending name, o.IsAside := by
  rw [ending]
  cases s.subscriptions.find? name with
  | none => exact fun o there => (List.not_mem_nil there).elim
  | some sub =>
      intro o there
      cases List.mem_singleton.mp there
      trivial

theorem beginning_aside (s : Session) (i : Nat) (name : Text) :
    ∀ o ∈ s.beginning i name, o.IsAside := by
  rw [beginning]
  cases s.localizers[i]? with
  | none => exact fun o there => (List.not_mem_nil there).elim
  | some z =>
      intro o there
      rcases List.mem_cons.mp there with rfl | later
      · trivial
      · exact s.ending_aside name o later

/-- Those whom a session would call are those of whom the history says that they listen. -/
theorem Tracked.listenersOf (h : s.Tracked past) (i : Nat) :
    (s.listenersOf i).map (fun e => ⟨i, e.1⟩) =
      (listening past).filter fun sub => sub.localizer = i := by
  rw [Session.listenersOf]
  cases hz : s.localizers[i]? with
  | some z => exact h.listeners i _ (board?_of_localizer hz)
  | none =>
      refine (List.filter_eq_nil_iff.mpr fun sub there here => ?_).symm
      obtain ⟨b, hb, -⟩ := h.given sub (.inl (mem_listening.mp there).1)
      rw [of_decide_eq_true here, board?, hz] at hb
      cases hb

theorem Tracked.due (h : s.Tracked past) (i : Nat) (l : Locale) :
    ((s.publish i l).listenersOf i).map (fun e => (⟨i, e.1⟩, l)) = due past i l := by
  have published := (h.publish i l).listenersOf i
  rw [listening_keeps (o := .published i l) fun _ => ⟨nofun, nofun⟩] at published
  rw [Phrasebook.due, ← published, List.map_map]
  rfl

theorem sound_goes {i k : Nat} {task : Task} {during : List Occurrence}
    (goes : Goes i k s task during s') (h : s.Tracked past) (few : FewBegun (past ++ during))
    (length : past.length = k) (earlier : ∀ since, task.since? = some since → since < k) :
    Sound past during task.since? ∧
      ∀ since, task.since? = some since → callsSince since during = task.calls i := by
  induction goes generalizing past with
  | rest => exact ⟨.nil past _, nofun⟩
  | @subscribe k s _ name script _ _ _ ih =>
      rw [← List.append_assoc] at few
      obtain ⟨later, -⟩ := ih (h.beginning i (.locale name) script few.left) few
        (by rw [List.length_append, length]; rfl) nofun
      exact ⟨(Sound.of_aside (s.beginning_aside i name) past _).append later nofun, nofun⟩
  | @unsubscribe k s _ name _ _ _ ih =>
      rw [← List.append_assoc] at few
      obtain ⟨later, -⟩ := ih (h.ending name) few (by rw [List.length_append, length]) nofun
      exact ⟨(Sound.of_aside (s.ending_aside name) past _).append later nofun, nofun⟩
  | switch first _ now ih =>
      rw [← List.append_assoc] at few
      obtain ⟨now, -⟩ := now h few.left length nofun
      obtain ⟨later, -⟩ := ih (Tracked.goes first h few.left) few
        (by rw [List.length_append, length]) nofun
      exact ⟨now.append later nofun, nofun⟩
  | done => exact ⟨.nil past _, fun _ _ => rfl⟩
  | @call k since n s s' s'' l listener listeners during later turn _ now ih =>
      have earlier : ∀ place, some since = some place → place < past.length :=
        fun place same => length ▸ earlier place same
      rw [call_append] at few
      have called := h.call since i n l listener
      have returned := (Tracked.goes turn called few.left.left).returned ⟨i, n⟩
      obtain ⟨turned, -⟩ := now called few.left.left
        (by rw [List.length_append, length]; rfl) nofun
      obtain ⟨(rest : Sound _ later (some since)), made⟩ := ih returned few
        (by simp only [List.length_append, List.length_cons, List.length_nil, length])
        fun place same => by have := earlier place same; omega
      have first := Sound.call since ⟨i, n⟩ l listener.name (s.heard i l listener) past
      have back := Sound.returned ⟨i, n⟩ (some since)
      have whole := ((first.append (turned.weaken _) earlier).append (back _) earlier).append
        (by simpa only [List.append_assoc] using rest) earlier
      simp only [List.append_assoc, List.cons_append, List.nil_append] at whole
      have silent : callsSince since during = [] := by
        refine turned.callsSince_eq_nil ?_ nofun
        rw [List.length_append]
        exact Nat.lt_add_right _ (earlier since rfl)
      refine ⟨whole, fun place same => ?_⟩
      cases same
      rw [callsSince_called, callsSince_append, silent]
      exact congrArg _ (made since rfl)
  | @publish k s s' l calls _ ih =>
      rw [List.append_cons] at few
      obtain ⟨sound, made⟩ := ih (h.publish i l) few (by rw [List.length_append, length]; rfl)
        (fun since same => by cases same; exact Nat.lt_succ_self k)
      subst length
      exact ⟨sound.publish ((made _ rfl).trans (h.due i l)), nofun⟩

theorem sound_perform (h : s.Tracked past) (c : Command)
    (few : FewBegun (past ++ s.occurrences past.length c)) :
    Sound past (s.occurrences past.length c) none := by
  revert few
  refine perform_cases (P := fun now _ => FewBegun (past ++ now) → Sound past now none) s
    past.length c (fun _ _ _ => .nil past none) (fun i l now s' goes few => ?_)
    (fun i new script _ => .of_aside (s.beginning_aside i new.name) past none)
    (fun name _ => .of_aside (s.ending_aside name) past none)
  exact (sound_goes goes h few rfl nofun).1

theorem sound_run (h : s.Tracked past) (commands : List Command)
    (few : FewBegun (past ++ s.history past.length commands)) :
    Sound past (s.history past.length commands) none := by
  induction commands generalizing s past with
  | nil => exact .nil past none
  | cons c rest ih =>
      rw [history, ← List.append_assoc, ← List.length_append] at few
      have later := ih (h.perform past.length c few.left) few
      rw [List.length_append] at later
      refine (sound_perform h c few.left).append later ?_
      intro since pending
      cases pending

/-- Whatever listeners do when they are called, the switches among it, and as long as fewer than
`2 ^ 64` subscriptions have begun: the history tells who listens and what is received. A switch
calls those who listen when it is published, in order and each once, with its own locale, and nobody
who begins later. A call belongs to a switch that was published while the subscription lasted, so
that it may come after the end of the subscription only if the end came in between. Who has ended
before a command is not called by it or later. -/
theorem switch_calls_its_listeners (r : Resources) (overrides : OverrideSettings)
    (initial : Locale) (commands : List Command) {s : Session} {past : List Occurrence}
    (reached : ((start r overrides initial).run commands).2 = s)
    (told : (start r overrides initial).history 0 commands = past) (few : FewBegun past) :
    (∀ i, (s.listenersOf i).map (fun e => ⟨i, e.1⟩) =
      (listening past).filter fun sub => sub.localizer = i) ∧
    (∀ name, deliveries name s.journal = past.filterMap (Occurrence.heardBy name)) ∧
    (∀ before i l after, past = before ++ .published i l :: after →
      callsSince before.length past = due before i l ∧
        ((due before i l).map (·.1)).Nodup ∧
        ∀ sub, .began sub ∈ after → sub ∉ (due before i l).map (·.1)) ∧
    (∀ before since sub l name heard after,
      past = before ++ .called since sub l name heard :: after →
      ∃ earlier later, before = earlier ++ .published sub.localizer l :: later ∧
        earlier.length = since ∧ sub ∈ listening earlier) ∧
    (∀ more sub since l name heard, FewBegun (past ++ s.history past.length more) →
      .ended sub ∈ past → .called since sub l name heard ∉ s.history past.length more) := by
  have h : s.Tracked past := by
    rw [← told] at few
    rw [← reached, ← told]
    exact (Tracked.start r overrides initial).run 0 commands few
  have sound : Sound [] past none := by
    rw [← told] at few ⊢
    exact sound_run (Tracked.start r overrides initial) commands few
  have made : ∀ before i l after, past = before ++ .published i l :: after →
      callsSince before.length past = due before i l := by
    intro before i l after cut
    have none := sound.callsSince_before cut
    have all := sound.switches before i l after cut
    rw [List.length_nil, Nat.zero_add] at none all
    rw [cut, callsSince_append, none]
    exact all
  refine ⟨h.listenersOf, h.journal, fun before i l after cut => ?_,
    fun before since sub l name heard after cut => ?_,
    fun more sub since l name heard few gone there => ?_⟩
  · obtain ⟨distinct, others⟩ := listening_once (cut ▸ h.once)
    rw [due_subscriptions]
    refine ⟨made before i l after cut, distinct.filter _, fun sub later there => ?_⟩
    exact others sub (List.mem_cons_of_mem _ later) (List.mem_of_mem_filter there)
  · obtain ⟨earlier, later, same, place, there⟩ := sound.call_due cut
    rw [List.length_nil, Nat.zero_add] at place
    exact ⟨earlier, later, same, place.symm, there⟩
  · obtain ⟨before, after, cut⟩ := List.append_of_mem there
    obtain ⟨earlier, -, -, -, listens⟩ := (sound_run h more few).call_due cut
    exact (mem_listening.mp listens).2 (List.mem_append_left _ gone)

def german : Locale := ⟨"de".toList, none, none, []⟩

def slovak : Locale := ⟨"sk".toList, none, none, []⟩

/-- A session without documents. -/
def quiet : Session := start ⟨[], .empty⟩ OverrideSettings.default ⟨"en".toList, none, none, []⟩

/-- The first of two listeners does some actions when it is called, and the second does nothing. -/
def twoListeners (actions : List Action) : List Command :=
  [.subscribe "first".toList [actions], .subscribe "second".toList []]

/-- The first takes off the second, adds a third, and switches. -/
def shuffled : List Command :=
  twoListeners [.unsubscribe "second".toList, .subscribe "third".toList [], .switch slovak] ++
    [.switch german]

def takenOff : List Command := twoListeners [.unsubscribe "second".toList] ++ [.switch german]

/-- Who is taken off is called, and who is added is called by the nested switch only. -/
theorem switch_calls_its_listeners_shuffled :
    FewBegun (quiet.history 0 shuffled) ∧
      callsSince 2 (quiet.history 0 shuffled) = [(⟨0, 0⟩, german), (⟨0, 1⟩, german)] ∧
      callsSince 6 (quiet.history 0 shuffled) = [(⟨0, 0⟩, slovak), (⟨0, 2⟩, slovak)] := by
  have few : FewBegun (quiet.history 0 shuffled) := by
    unfold FewBegun
    decide +kernel
  obtain ⟨-, -, made, -⟩ := switch_calls_its_listeners ⟨[], .empty⟩ OverrideSettings.default
    ⟨"en".toList, none, none, []⟩ shuffled rfl rfl few
  have outer := (made ((quiet.history 0 shuffled).take 2) 0 german
    ((quiet.history 0 shuffled).drop 3) (by decide +kernel)).1
  have inner := (made ((quiet.history 0 shuffled).take 6) 0 slovak
    ((quiet.history 0 shuffled).drop 7) (by decide +kernel)).1
  have places : ((quiet.history 0 shuffled).take 2).length = 2 ∧
      ((quiet.history 0 shuffled).take 6).length = 6 := by decide +kernel
  rw [places.1] at outer
  rw [places.2] at inner
  exact ⟨few, outer.trans (by decide +kernel), inner.trans (by decide +kernel)⟩

/-- A listener that another one takes off is called after that, by the switch under way. -/
theorem called_after_its_end :
    ∃ before after, quiet.history 0 takenOff =
        before ++ .called 2 ⟨0, 1⟩ german "second".toList (some "de".toList) :: after ∧
      .ended ⟨0, 1⟩ ∈ before ∧
      deliveries "second".toList (quiet.run takenOff).2.journal = ["de".toList] :=
  ⟨(quiet.history 0 takenOff).take 6, [.returned ⟨0, 1⟩], by decide +kernel, by decide +kernel,
    by decide +kernel⟩

end Session

end Phrasebook
