import Phrasebook.Proofs.Session.Calls

/-! With which locale a listener is called last. Listeners may switch while they are called, and
each switch makes its calls before it returns. So a listener hears last of the locale that is
current in the end, unless somebody who began before it was called when that locale was published:
the switch of the outermost such call has yet to call it. -/
namespace Phrasebook

namespace Occurrence

def publishedOn? (i : Nat) : Occurrence → Option Locale
  | .published j l => if j = i then some l else none
  | _ => none

/-- The locale with which a subscription is called. -/
def calledWith? (sub : Subscription) : Occurrence → Option Locale
  | .called _ other l _ _ => if other = sub then some l else none
  | _ => none

end Occurrence

def lastPublished (i : Nat) (history : List Occurrence) : Option Locale :=
  (history.filterMap (Occurrence.publishedOn? i)).getLast?

def lastHeard (sub : Subscription) (history : List Occurrence) : Option Locale :=
  (history.filterMap (Occurrence.calledWith? sub)).getLast?

/-- The calls that have not returned, the outermost first, each with its locale. -/
def underWay (calls : List (Subscription × Locale)) :
    List Occurrence → List (Subscription × Locale)
  | [] => calls
  | .called _ sub l _ _ :: rest => underWay (calls ++ [(sub, l)]) rest
  | .returned _ :: rest => underWay calls.dropLast rest
  | _ :: rest => underWay calls rest

section

variable {first second history : List Occurrence}

theorem lastPublished_append (i : Nat) : lastPublished i (first ++ second) =
    (lastPublished i second).or (lastPublished i first) := by
  rw [lastPublished, List.filterMap_append, List.getLast?_append]
  rfl

theorem lastHeard_append (sub : Subscription) : lastHeard sub (first ++ second) =
    (lastHeard sub second).or (lastHeard sub first) := by
  rw [lastHeard, List.filterMap_append, List.getLast?_append]
  rfl

theorem lastPublished_published (i : Nat) (l : Locale) :
    lastPublished i [.published i l] = some l := by
  simp [lastPublished, Occurrence.publishedOn?]

theorem lastPublished_eq_none {i : Nat} (nothing : ∀ l, .published i l ∉ history) :
    lastPublished i history = none := by
  rw [lastPublished, List.getLast?_eq_none_iff, List.filterMap_eq_nil_iff]
  intro o there
  cases o with
  | published j l =>
      refine if_neg fun same => nothing l ?_
      exact same ▸ there
  | _ => rfl

theorem lastPublished_last {i : Nat} (l : Locale) (unpublished : ∀ l', .published i l' ∉ second) :
    lastPublished i (first ++ .published i l :: second) = some l := by
  rw [List.append_cons, lastPublished_append, lastPublished_append, lastPublished_published,
    lastPublished_eq_none unpublished]
  rfl

theorem lastHeard_of_aside {sub : Subscription} (aside : ∀ o ∈ history, o.IsAside) :
    lastHeard sub history = none := by
  rw [lastHeard, List.getLast?_eq_none_iff, List.filterMap_eq_nil_iff]
  intro o there
  cases o with
  | called since other l name heard => exact (aside _ there).elim
  | _ => rfl

theorem lastHeard_called (since i : Nat) (m n : UInt64) (l : Locale) (name : Text)
    (heard : Option Text) :
    lastHeard ⟨i, n⟩ [.called since ⟨i, m⟩ l name heard] = if m = n then some l else none := by
  by_cases same : m = n
  · simp [lastHeard, Occurrence.calledWith?, same]
  · simp [lastHeard, Occurrence.calledWith?, same]

theorem lastHeard_call (since i : Nat) (m n : UInt64) (l : Locale) (name : Text)
    (heard : Option Text) :
    lastHeard ⟨i, n⟩ (.called since ⟨i, m⟩ l name heard :: (first ++ .returned ⟨i, m⟩ :: second)) =
      (lastHeard ⟨i, n⟩ second).or
        ((lastHeard ⟨i, n⟩ first).or (if m = n then some l else none)) := by
  have returned : lastHeard ⟨i, n⟩ (.returned ⟨i, m⟩ :: second) = lastHeard ⟨i, n⟩ second := rfl
  rw [← List.singleton_append, lastHeard_append, lastHeard_append, lastHeard_called, returned,
    Option.or_assoc]

theorem underWay_append (calls : List (Subscription × Locale)) :
    underWay calls (first ++ second) = underWay (underWay calls first) second := by
  induction first generalizing calls with
  | nil => rfl
  | cons o rest ih => cases o <;> exact ih _

theorem listening_stays {sub : Subscription} (listens : sub ∈ listening first)
    (stays : .ended sub ∉ second) : sub ∈ listening (first ++ second) := by
  obtain ⟨begun, going⟩ := mem_listening.mp listens
  refine mem_listening.mpr ⟨List.mem_append_left _ begun, fun ended => ?_⟩
  exact (List.mem_append.mp ended).elim going stays

end

/-- The locale that a listener hears last when `l` is published within calls: that of the outermost
call of somebody who began before it, and `l` if there is none. -/
def lastFor (n : UInt64) (calls : List (Subscription × Locale)) (l : Locale) : Locale :=
  (calls.find? fun c => c.1.number < n).elim l (·.2)

theorem lastFor_cons (n m : UInt64) (i : Nat) (l l' : Locale) (calls : List (Subscription × Locale)) :
    lastFor n ((⟨i, m⟩, l') :: calls) l = if m < n then l' else lastFor n calls l := by
  rw [lastFor, List.find?_cons]
  by_cases less : m < n
  · simp [less]
  · simp [less, lastFor]

namespace Session

variable {s s' : Session} {past during first later : List Occurrence} {i : Nat}
  {n : UInt64}

/-- The locale with which a task itself calls a listener. -/
def Task.localeFor? : Task → UInt64 → Option Locale
  | .callAll _ l listeners, n => if n ∈ listeners.map (·.1) then some l else none
  | _, _ => none

/-- Those who began earlier are called earlier. -/
def Task.Rising : Task → Prop
  | .callAll _ _ listeners => (listeners.map (·.1)).Pairwise (· < ·)
  | _ => True

/-- A listener is called if somebody is who began before it. -/
def Task.Reaches : Task → UInt64 → Prop
  | .callAll _ _ listeners, n =>
      ∀ m ∈ listeners.map (·.1), m < n → n ∈ listeners.map (·.1)
  | _, _ => True

/-- A listener that is there all the time that a task takes. -/
structure Covered (i : Nat) (past : List Occurrence) (task : Task) (during : List Occurrence)
    (n : UInt64) : Prop where
  listens : ⟨i, n⟩ ∈ listening past
  stays : .ended ⟨i, n⟩ ∉ during
  reached : task.Reaches n

namespace Covered

variable {task task' : Task}

theorem left (h : Covered i past task (first ++ later) n) : Covered i past task first n :=
  ⟨h.listens, fun ended => h.stays (List.mem_append_left _ ended), h.reached⟩

theorem right (h : Covered i past task (first ++ later) n) :
    Covered i (past ++ first) task later n :=
  ⟨listening_stays h.listens fun ended => h.stays (List.mem_append_left _ ended),
    fun ended => h.stays (List.mem_append_right _ ended), h.reached⟩

theorem reach (h : Covered i past task during n) (reached : task'.Reaches n) :
    Covered i past task' during n :=
  ⟨h.listens, h.stays, reached⟩

end Covered

/-- Nothing is published, and listeners are called by the task itself only. -/
structure Switchless (i : Nat) (task : Task) (during : List Occurrence) : Prop where
  unpublished : ∀ j l, .published j l ∉ during
  last : ∀ n, lastHeard ⟨i, n⟩ during = task.localeFor? n

/-- There is a last switch, and what the `covered` listeners hear last is told by the calls that are
under way then. -/
def LastSwitch (i : Nat) (during : List Occurrence) (covered : UInt64 → Prop) : Prop :=
  ∃ before l after calls, during = before ++ .published i l :: after ∧
    (∀ j l', .published j l' ∉ after) ∧
    (∀ outer, underWay outer before = outer ++ calls) ∧
    ∀ n, covered n → lastHeard ⟨i, n⟩ during = some (lastFor n calls l)

namespace LastSwitch

variable {covered covered' : UInt64 → Prop}

theorem mono (h : LastSwitch i during covered) (less : ∀ n, covered' n → covered n) :
    LastSwitch i during covered' := by
  obtain ⟨before, l, after, calls, cut, unpublished, within, last⟩ := h
  exact ⟨before, l, after, calls, cut, unpublished, within, fun n there => last n (less n there)⟩

theorem prepend (h : LastSwitch i later covered)
    (returned : ∀ outer, underWay outer first = outer) :
    LastSwitch i (first ++ later) covered := by
  obtain ⟨before, l, after, calls, rfl, unpublished, within, last⟩ := h
  refine ⟨first ++ before, l, after, calls, (List.append_assoc _ _ _).symm, unpublished,
    fun outer => ?_, fun n there => ?_⟩
  · rw [underWay_append, returned, within]
  · rw [lastHeard_append, last n there]
    rfl

theorem append (h : LastSwitch i first covered) (unpublished : ∀ j l, .published j l ∉ later)
    (uncalled : ∀ n, lastHeard ⟨i, n⟩ later = none) : LastSwitch i (first ++ later) covered := by
  obtain ⟨before, l, after, calls, rfl, none, within, last⟩ := h
  refine ⟨before, l, after ++ later, calls, List.append_assoc _ _ _, fun j l' there => ?_, within,
    fun n there => ?_⟩
  · exact (List.mem_append.mp there).elim (none j l') (unpublished j l')
  · rw [lastHeard_append, uncalled, last n there]
    rfl

end LastSwitch

theorem underWay_ending (s : Session) (name : Text) (outer : List (Subscription × Locale)) :
    underWay outer (s.ending name) = outer := by
  rw [ending]
  cases s.subscriptions.find? name <;> rfl

theorem underWay_beginning (s : Session) (i : Nat) (name : Text)
    (outer : List (Subscription × Locale)) : underWay outer (s.beginning i name) = outer := by
  rw [beginning]
  cases s.localizers[i]? with
  | none => rfl
  | some z => exact s.underWay_ending name outer

theorem underWay_goes {k : Nat} {task : Task} (goes : Goes i k s task during s')
    (outer : List (Subscription × Locale)) : underWay outer during = outer := by
  induction goes generalizing outer with
  | rest => rfl
  | subscribe _ ih => rw [underWay_append, underWay_beginning, ih]
  | unsubscribe _ ih => rw [underWay_append, underWay_ending, ih]
  | switch _ _ now ih => rw [underWay_append, now, ih]
  | done => rfl
  | call _ _ turned ih =>
      rw [underWay, underWay_append, turned, underWay, List.dropLast_concat, ih]
  | publish _ ih => exact ih outer

theorem Switchless.prepend {actions more : List Action} (h : Switchless i (.act actions) later)
    (aside : ∀ o ∈ first, o.IsAside) : Switchless i (.act more) (first ++ later) := by
  refine ⟨fun j l there => ?_, fun n => ?_⟩
  · exact (List.mem_append.mp there).elim (aside _) (h.unpublished j l)
  · rw [lastHeard_append, h.last, lastHeard_of_aside aside]
    rfl

section

variable {since : Nat} {m : UInt64} {l : Locale} {listener : Listener} {heard : Option Text}
  {actions : List Action} {listeners : List (UInt64 × Listener)}

theorem Switchless.call (turned : Switchless i (.act actions) during)
    (rest : Switchless i (.callAll since l listeners) later) :
    Switchless i (.callAll since l ((m, listener) :: listeners))
      (.called since ⟨i, m⟩ l listener.name heard :: (during ++ .returned ⟨i, m⟩ :: later)) := by
  refine ⟨fun j l' there => ?_, fun n => ?_⟩
  · have there : .published j l' ∈ during ∨ .published j l' ∈ later := by simpa using there
    exact there.elim (turned.unpublished j l') (rest.unpublished j l')
  · rw [lastHeard_call, rest.last, turned.last]
    by_cases later : n ∈ listeners.map (·.1)
    · simp [Task.localeFor?, later]
    · simp [Task.localeFor?, later, eq_comm]

/-- The last switch is made in a call. Who began after the one called has yet to be called itself,
and all others have been called before. -/
theorem LastSwitch.in_call (above : ∀ n ∈ listeners.map (·.1), m < n)
    (turned : LastSwitch i during
      (Covered i (past ++ [.called since ⟨i, m⟩ l listener.name heard]) (.act actions) during))
    (rest : Switchless i (.callAll since l listeners) later) :
    LastSwitch i
      (.called since ⟨i, m⟩ l listener.name heard :: (during ++ .returned ⟨i, m⟩ :: later))
      (Covered i past (.callAll since l ((m, listener) :: listeners))
        (.called since ⟨i, m⟩ l listener.name heard ::
          (during ++ .returned ⟨i, m⟩ :: later))) := by
  obtain ⟨before, l', after, calls, rfl, unpublished, within, last⟩ := turned
  refine ⟨.called since ⟨i, m⟩ l listener.name heard :: before, l',
    after ++ .returned ⟨i, m⟩ :: later, (⟨i, m⟩, l) :: calls, ?_, fun j l'' there => ?_,
    fun outer => ?_, fun n there => ?_⟩
  · rw [List.append_assoc]
    rfl
  · have there : .published j l'' ∈ after ∨ .published j l'' ∈ later := by simpa using there
    exact there.elim (unpublished j l'') (rest.unpublished j l'')
  · rw [underWay, within, List.append_assoc]
    rfl
  · have whole : Covered i past _ ([.called since ⟨i, m⟩ l listener.name heard] ++
      (before ++ .published i l' :: after ++ .returned ⟨i, m⟩ :: later)) n := there
    have nested := last n (whole.right.left.reach trivial)
    rw [lastHeard_call, rest.last, nested, lastFor_cons, Task.localeFor?]
    by_cases less : m < n
    · have called := there.reached m List.mem_cons_self less
      have later := (List.mem_cons.mp called).resolve_left (UInt64.ne_of_lt less).symm
      rw [if_pos less, if_pos later]
      rfl
    · have gone : n ∉ listeners.map (·.1) := fun later => less (above n later)
      rw [if_neg less, if_neg gone]
      rfl

theorem LastSwitch.after_call (above : ∀ n ∈ listeners.map (·.1), m < n)
    (returns : ∀ outer, underWay outer during = outer)
    (rest : LastSwitch i later (Covered i (past ++ [.called since ⟨i, m⟩ l listener.name heard] ++
      during ++ [.returned ⟨i, m⟩]) (.callAll since l listeners) later)) :
    LastSwitch i
      (.called since ⟨i, m⟩ l listener.name heard :: (during ++ .returned ⟨i, m⟩ :: later))
      (Covered i past (.callAll since l ((m, listener) :: listeners))
        (.called since ⟨i, m⟩ l listener.name heard ::
          (during ++ .returned ⟨i, m⟩ :: later))) := by
  have shape : .called since ⟨i, m⟩ l listener.name heard ::
      (during ++ .returned ⟨i, m⟩ :: later) =
        (.called since ⟨i, m⟩ l listener.name heard :: (during ++ [.returned ⟨i, m⟩])) ++ later := by
    simp
  rw [shape]
  refine (rest.prepend fun outer => ?_).mono fun n there => ?_
  · rw [underWay, underWay_append, returns]
    exact List.dropLast_concat
  · have reached : (Task.callAll since l listeners).Reaches n := by
      intro k earlier less
      have called := there.reached k (List.mem_cons_of_mem _ earlier) less
      refine (List.mem_cons.mp called).resolve_left fun same => ?_
      exact UInt64.lt_asymm less (same ▸ above k earlier)
    simpa only [List.append_assoc, List.cons_append, List.nil_append] using
      there.right.reach reached

end

theorem Tracked.called (h : s.Tracked past) (i : Nat) (n : UInt64) (l : Locale)
    (listens : ⟨i, n⟩ ∈ listening past) : n ∈ ((s.publish i l).listenersOf i).map (·.1) := by
  have there : (⟨i, n⟩, l) ∈ Phrasebook.due past i l := mem_due.mpr ⟨listens, rfl, rfl⟩
  rw [← h.due i l] at there
  obtain ⟨e, he, same⟩ := List.mem_map.mp there
  cases same
  exact List.mem_map_of_mem he

theorem Tracked.rising_listenersOf (h : s.Tracked past) (i : Nat) (l : Locale) :
    (((s.publish i l).listenersOf i).map (·.1)).Pairwise (· < ·) := by
  rw [Session.listenersOf]
  cases hz : (s.publish i l).localizers[i]? with
  | none => exact List.Pairwise.nil
  | some z => exact (h.publish i l).rising i z.switchboard (board?_of_localizer hz)

theorem not_switchless {k : Nat} {l : Locale} (goes : Goes i k s (.switch l) during s') :
    ¬ Switchless i (.switch l) during := by
  intro still
  cases goes
  exact still.unpublished _ _ List.mem_cons_self

/-- Either a task makes no switch, or its last switch tells what everybody who is there hears
last. -/
theorem last_goes {k : Nat} {task : Task} (goes : Goes i k s task during s') (h : s.Tracked past)
    (few : FewBegun (past ++ during)) (rising : task.Rising) :
    Switchless i task during ∨ LastSwitch i during (Covered i past task during) := by
  induction goes generalizing past with
  | rest => exact .inl ⟨fun _ _ there => (List.not_mem_nil there).elim, fun _ => rfl⟩
  | @subscribe _ s _ name script _ _ _ ih =>
      rw [← List.append_assoc] at few
      rcases ih (h.beginning i (.locale name) script few.left) few trivial with still | last
      · exact .inl (still.prepend (s.beginning_aside i name))
      · exact .inr ((last.prepend (s.underWay_beginning i name)).mono fun _ there =>
          there.right.reach trivial)
  | @unsubscribe _ s _ name _ _ _ ih =>
      rw [← List.append_assoc] at few
      rcases ih (h.ending name) few trivial with still | last
      · exact .inl (still.prepend (s.ending_aside name))
      · exact .inr ((last.prepend (s.underWay_ending name)).mono fun _ there =>
          there.right.reach trivial)
  | switch first _ now ih =>
      rw [← List.append_assoc] at few
      have last := (now h few.left trivial).resolve_left (not_switchless first)
      rcases ih (Tracked.goes first h few.left) few trivial with still | later
      · exact .inr ((last.append still.unpublished still.last).mono fun _ there =>
          there.left.reach trivial)
      · exact .inr ((later.prepend (underWay_goes first)).mono fun _ there =>
          there.right.reach trivial)
  | done =>
      refine .inl ⟨fun _ _ there => (List.not_mem_nil there).elim, fun n => ?_⟩
      simp [Task.localeFor?, lastHeard]
  | @call _ since m s _ _ l listener listeners _ _ turn _ turned ih =>
      obtain ⟨above, rising⟩ := List.pairwise_cons.mp rising
      rw [call_append] at few
      have called := h.call since i m l listener
      have returned := (Tracked.goes turn called few.left.left).returned ⟨i, m⟩
      rcases ih returned few rising with quiet | last
      · rcases turned called few.left.left trivial with still | nested
        · exact .inl (still.call quiet)
        · exact .inr (nested.in_call above quiet)
      · exact .inr (last.after_call above (underWay_goes turn))
  | @publish k s _ l calls _ ih =>
      have called := fun n => h.called i n l
      rw [List.append_cons] at few
      rcases ih (h.publish i l) few (h.rising_listenersOf i l) with still | last
      · refine .inr ⟨[], l, calls, [], rfl, still.unpublished,
          fun outer => (List.append_nil _).symm, fun n there => ?_⟩
        exact (still.last n).trans (if_pos (called n there.listens))
      · have returned : ∀ outer, underWay outer [.published i l] = outer := fun _ => rfl
        refine .inr ((last.prepend returned).mono fun n there => ?_)
        exact there.right.reach fun _ _ _ => called n there.listens

/-- A localizer has the locale that was published on it last. -/
def Agrees (s : Session) (i : Nat) (past : List Occurrence) : Prop :=
  ∃ b, s.board? i = some b ∧ ∀ l, lastPublished i past = some l → b.current = l

namespace Agrees

theorem silent (h : s.Agrees i past)
    (boards : ∀ b, s.board? i = some b → ∃ b', s'.board? i = some b' ∧ b'.current = b.current)
    (unpublished : ∀ l, .published i l ∉ later) : s'.Agrees i (past ++ later) := by
  obtain ⟨b, hb, last⟩ := h
  obtain ⟨b', hb', same⟩ := boards b hb
  refine ⟨b', hb', fun l published => ?_⟩
  rw [lastPublished_append, lastPublished_eq_none unpublished] at published
  rw [same, last l published]

theorem beginning (h : s.Agrees i past) (j : Nat) (name : Text) (listener : Listener)
    (script : Script) :
    (s.subscribe j name listener script).Agrees i (past ++ s.beginning j name) := by
  refine h.silent (fun b hb => ?_) fun l there => s.beginning_aside j name _ there
  obtain ⟨b', hb', same, -⟩ := board_subscribe hb j name listener script
  exact ⟨b', hb', same⟩

theorem ending (h : s.Agrees i past) (name : Text) :
    (s.unsubscribe name).Agrees i (past ++ s.ending name) := by
  refine h.silent (fun b hb => ?_) fun l there => s.ending_aside name _ there
  obtain ⟨b', hb', same, -⟩ := board_unsubscribe hb name
  exact ⟨b', hb', same⟩

theorem publish (h : s.Agrees i past) (l : Locale) :
    (s.publish i l).Agrees i (past ++ [.published i l]) := by
  obtain ⟨b, hb, -⟩ := h
  have published := (Turns.publish s i l).board hb
  rw [if_pos rfl] at published
  refine ⟨_, published, fun l' last => ?_⟩
  rw [lastPublished_append, lastPublished_published] at last
  exact Option.some.inj last

theorem goes {k : Nat} {task : Task} (goes : Goes i k s task during s') (h : s.Agrees i past) :
    s'.Agrees i (past ++ during) := by
  induction goes generalizing past with
  | rest => exact (List.append_nil past).symm ▸ h
  | subscribe _ ih =>
      rw [← List.append_assoc]
      exact ih (h.beginning i _ _ _)
  | unsubscribe _ ih =>
      rw [← List.append_assoc]
      exact ih (h.ending _)
  | switch _ _ first ih =>
      rw [← List.append_assoc]
      exact ih (first h)
  | done => exact (List.append_nil past).symm ▸ h
  | @call _ since n s _ _ l listener _ _ _ _ _ turn ih =>
      have alike := (Alike.deliver s i l listener).trans (Alike.nextTurn _ ⟨i, n⟩)
      have called : Agrees _ i (past ++ [.called since ⟨i, n⟩ l listener.name
          (s.heard i l listener)]) :=
        h.silent (fun b hb => ⟨b, (alike.boards i).trans hb, rfl⟩) (by simp)
      have returned : Agrees _ i (_ ++ [.returned ⟨i, n⟩]) :=
        (turn called).silent (fun b hb => ⟨b, hb, rfl⟩) (by simp)
      have later := ih returned
      simpa only [List.append_assoc, List.cons_append, List.nil_append] using later
  | publish _ ih =>
      rw [List.append_cons]
      exact ih (h.publish _)

end Agrees

/-- Whatever was done before, and whatever listeners do when they are called, as long as fewer than
`2 ^ 64` subscriptions have begun: after a switch the localizer has the locale that was published last on the way. Of the listeners that are there before
and after the switch, each has heard last of this locale, unless somebody who began before it was
being called at that publication. Then it has heard last of the locale of the outermost such call,
which went on afterwards. -/
theorem last_heard_after_switch (r : Resources) (overrides : OverrideSettings) (initial : Locale)
    {commands : List Command} {s s' : Session}
    (reached : ((start r overrides initial).run commands).2 = s) {i : Nat}
    (current : s.current = some i) (inside : i < s.localizers.length) (l : Locale)
    (switched : (s.perform (.switch l)).2 = s') (k : Nat)
    (few : FewBegun
      ((start r overrides initial).history 0 commands ++ s.occurrences k (.switch l))) :
    (∀ name, deliveries name s'.journal = deliveries name s.journal ++
      (s.occurrences k (.switch l)).filterMap (Occurrence.heardBy name)) ∧
    ∃ before last after, s.occurrences k (.switch l) = before ++ .published i last :: after ∧
      (∀ j l', .published j l' ∉ after) ∧
      (∃ z, s'.localizers[i]? = some z ∧ z.current = last) ∧
      ∀ n x y, s.Listens i n x → s'.Listens i n y →
        lastHeard ⟨i, n⟩ (s.occurrences k (.switch l)) =
          some (lastFor n (underWay [] before) last) := by
  have h := (Tracked.start r overrides initial).run 0 commands few.left
  rw [reached] at h
  have hz := List.getElem?_eq_getElem inside
  have goes : Goes i k s (.switch l) (s.occurrences k (.switch l)) s' := by
    rw [← switched, occurrences, Session.perform, withLocalizer, current]
    simp only [hz, Option.elim_some, if_pos inside]
    exact goes_switch s i k l
  have h' := Tracked.goes goes h few
  refine ⟨fun name => ?_, ?_⟩
  · rw [h'.journal, h.journal, List.filterMap_append]
  · obtain ⟨before, last, after, calls, cut, unpublished, within, heard⟩ :=
      (last_goes goes h few trivial).resolve_left (not_switchless goes)
    have agrees : s.Agrees i [] :=
      ⟨_, board?_of_localizer hz, fun l' never => (Option.some_ne_none l' never.symm).elim⟩
    obtain ⟨b, hb, same⟩ := agrees.goes goes
    obtain ⟨z, hz', rfl⟩ := Option.map_eq_some_iff.mp hb
    refine ⟨before, last, after, cut, unpublished, ⟨z, hz', same last ?_⟩,
      fun n x y listens listens' => ?_⟩
    · rw [cut]
      exact lastPublished_last last (unpublished i)
    · have stays := (mem_listening.mp (h'.listening_of_listens listens')).2
      rw [show underWay [] before = calls from within []]
      exact heard n ⟨h.listening_of_listens listens,
        fun ended => stays (List.mem_append_right _ ended), trivial⟩

/-- The first of two listeners switches to Slovak when it is called. -/
def reentrant : Session := (quiet.run (twoListeners [.switch slovak])).2

theorem last_heard_after_switch_slovak :
    FewBegun (quiet.history 0 (twoListeners [.switch slovak]) ++
      reentrant.occurrences 2 (.switch german)) ∧
    ∃ before after, reentrant.occurrences 2 (.switch german) = before ++ .published 0 slovak :: after ∧
      lastHeard ⟨0, 0⟩ (reentrant.occurrences 2 (.switch german)) =
        some (lastFor 0 (underWay [] before) slovak) := by
  have few : FewBegun (quiet.history 0 (twoListeners [.switch slovak]) ++
      reentrant.occurrences 2 (.switch german)) := by
    unfold FewBegun
    decide +kernel
  obtain ⟨-, before, last, after, cut, -, ⟨z, hz, rfl⟩, heard⟩ :=
    last_heard_after_switch ⟨[], .empty⟩ OverrideSettings.default ⟨"en".toList, none, none, []⟩
      (s := reentrant) rfl (i := 0) (by decide +kernel) (by decide +kernel) german rfl 2 few
  have current : (reentrant.perform (.switch german)).2.localizers[0]?.map (·.current) =
      some slovak := by decide +kernel
  rw [hz] at current
  have same : z.current = slovak := Option.some.inj current
  have first : (0, .locale "first".toList) ∈ reentrant.listenersOf 0 := by decide +kernel
  have still : (0, .locale "first".toList) ∈
      (reentrant.perform (.switch german)).2.listenersOf 0 := by decide +kernel
  rw [same] at cut heard
  exact ⟨few, before, after, cut, heard 0 _ _ (listens_of_mem first) (listens_of_mem still)⟩

/-- When the first listener switches on, the second one hears of that before it hears of the switch
that it was about to be called for. -/
theorem last_heard_is_not_current :
    (reentrant.perform (.switch german)).2.localizers[0]?.map (·.current) = some slovak ∧
      (1, .locale "second".toList) ∈ reentrant.listenersOf 0 ∧
      (1, .locale "second".toList) ∈ (reentrant.perform (.switch german)).2.listenersOf 0 ∧
      lastHeard ⟨0, 1⟩ (reentrant.occurrences 2 (.switch german)) = some german ∧
      deliveries "second".toList (reentrant.perform (.switch german)).2.journal =
        ["sk".toList, "de".toList] := by
  decide +kernel

end Session

end Phrasebook
