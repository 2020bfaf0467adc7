import Phrasebook.Proofs.Session.History

/-! Who listens can be told from the history alone: whoever has begun and has not ended. So can what
is received under a name. Both hold at every moment of a session, also while listeners are called,
as long as there are numbers for those who begin. -/
namespace Phrasebook

namespace Occurrence

def begun? : Occurrence → Option Subscription
  | .began sub => some sub
  | _ => none

def heardBy (name : Text) : Occurrence → Option Text
  | .called _ _ _ receiver heard => if receiver = name then heard else none
  | _ => none

/-- Neither the begin of a subscription nor its end. -/
def Keeps (o : Occurrence) : Prop := ∀ sub, o ≠ .began sub ∧ o ≠ .ended sub

end Occurrence

/-- There are more numbers than subscriptions that have begun. -/
def FewBegun (history : List Occurrence) : Prop :=
  (history.filterMap Occurrence.begun?).length < UInt64.size

theorem FewBegun.left {before after : List Occurrence} (few : FewBegun (before ++ after)) :
    FewBegun before := by
  rw [FewBegun, List.filterMap_append, List.length_append] at few
  exact Nat.lt_of_le_of_lt (Nat.le_add_right _ _) few

/-- The subscriptions that have begun and not ended, in the order of their begin. -/
def listening (history : List Occurrence) : List Subscription :=
  (history.filterMap Occurrence.begun?).filter fun sub => .ended sub ∉ history

section

variable {history : List Occurrence} {sub : Subscription}

theorem mem_begun : sub ∈ history.filterMap Occurrence.begun? ↔ .began sub ∈ history := by
  rw [List.mem_filterMap]
  constructor
  · rintro ⟨o, there, same⟩
    cases o <;> cases same
    exact there
  · exact fun there => ⟨_, there, rfl⟩

theorem mem_listening : sub ∈ listening history ↔ .began sub ∈ history ∧ .ended sub ∉ history := by
  rw [listening, List.mem_filter, mem_begun, decide_eq_true_iff]

theorem begun_keeps {o : Occurrence} (keeps : o.Keeps) :
    (history ++ [o]).filterMap Occurrence.begun? = history.filterMap Occurrence.begun? := by
  have nobody : o.begun? = none := by
    cases o with
    | began sub => exact absurd rfl (keeps sub).1
    | _ => rfl
  rw [List.filterMap_append, List.filterMap_cons_none nobody, List.filterMap_nil, List.append_nil]

theorem begun_ended : (history ++ [Occurrence.ended sub]).filterMap Occurrence.begun? =
    history.filterMap Occurrence.begun? :=
  List.filterMap_append.trans (List.append_nil _)

theorem begun_began : (history ++ [Occurrence.began sub]).filterMap Occurrence.begun? =
    history.filterMap Occurrence.begun? ++ [sub] :=
  List.filterMap_append

theorem listening_keeps {o : Occurrence} (keeps : o.Keeps) :
    listening (history ++ [o]) = listening history := by
  have ended : ∀ sub, .ended sub ∈ history ++ [o] ↔ .ended sub ∈ history := by
    intro sub
    rw [List.mem_append, List.mem_singleton]
    exact or_iff_left fun same => (keeps sub).2 same.symm
  simp only [listening, begun_keeps keeps, ended]

theorem listening_ended :
    listening (history ++ [.ended sub]) = (listening history).filter fun other => other ≠ sub := by
  rw [listening, listening, List.filter_filter, begun_ended]
  refine List.filter_congr fun other _ => ?_
  by_cases same : other = sub <;> simp [same]

theorem listening_began (fresh : .ended sub ∉ history) :
    listening (history ++ [Occurrence.began sub]) = listening history ++ [sub] := by
  have ended : ∀ other, Occurrence.ended other ∈ history ++ [Occurrence.began sub] ↔
      Occurrence.ended other ∈ history := by simp
  rw [listening, begun_began, List.filter_append, listening]
  simp [ended, fresh]

/-- If everybody begins once, those who begin later have not listened before. -/
theorem listening_once {before after : List Occurrence}
    (once : ((before ++ after).filterMap Occurrence.begun?).Nodup) :
    (listening before).Nodup ∧ ∀ sub, .began sub ∈ after → sub ∉ listening before := by
  rw [List.filterMap_append, List.nodup_append] at once
  refine ⟨once.1.filter _, fun sub later there => ?_⟩
  exact once.2.2 sub (mem_begun.mpr (mem_listening.mp there).1) sub (mem_begun.mpr later) rfl

end

/-- A call, what happens in it and its return, one after the other. -/
theorem call_append (past during later : List Occurrence) (call back : Occurrence) :
    past ++ call :: (during ++ back :: later) =
      past ++ [call] ++ during ++ [back] ++ later := by
  simp

namespace Session

variable {s s' : Session} {past : List Occurrence}

/-- The history tells who listens. Numbers are given in order, and each once. -/
structure Recorded (s : Session) (past : List Occurrence) : Prop extends
    s.Given (past.filterMap Occurrence.begun?).length where
  listeners : ∀ i b, s.board? i = some b → b.listeners.map (fun e => ⟨i, e.1⟩) =
    (listening past).filter fun sub => sub.localizer = i
  given : ∀ sub, .began sub ∈ past ∨ .ended sub ∈ past →
    ∃ b, s.board? sub.localizer = some b ∧ sub.number < b.nextNumber
  once : (past.filterMap Occurrence.begun?).Nodup
  rising : ∀ i b, s.board? i = some b → (b.listeners.map (·.1)).Pairwise (· < ·)

namespace Recorded

variable {i : Nat} {f : Switchboard Listener → Switchboard Listener} {b : Switchboard Listener}

theorem listening_of_listens (h : s.Recorded past) {n : UInt64} {listener : Listener}
    (listens : s.Listens i n listener) : ⟨i, n⟩ ∈ listening past := by
  obtain ⟨b, hb, there⟩ := listens
  have listed : (⟨i, n⟩ : Subscription) ∈ b.listeners.map (fun e => ⟨i, e.1⟩) :=
    List.mem_map.mpr ⟨_, there, rfl⟩
  rw [h.listeners i b hb] at listed
  exact List.mem_of_mem_filter listed

theorem below (h : s.Recorded past) (hb : s.board? i = some b) {e : UInt64 × Listener}
    (he : e ∈ b.listeners) : e.1 < b.nextNumber := by
  have listens := h.listening_of_listens ⟨b, hb, he⟩
  obtain ⟨b', hb', less⟩ := h.given _ (.inl (mem_listening.mp listens).1)
  cases hb.symm.trans hb'
  exact less

theorem given_of_turns (h : s.Recorded past) (turns : s.Turns s' i f)
    (grows : ∀ b, s.board? i = some b → b.nextNumber ≤ (f b).nextNumber) {sub : Subscription}
    (given : .began sub ∈ past ∨ .ended sub ∈ past) :
    ∃ b, s'.board? sub.localizer = some b ∧ sub.number < b.nextNumber := by
  obtain ⟨b, hb, less⟩ := h.given sub given
  refine ⟨_, turns.board hb, ?_⟩
  split
  · rename_i here
    exact UInt64.lt_of_lt_of_le less (grows b (here ▸ hb))
  · exact less

theorem keeps (h : s.Recorded past) {o : Occurrence} (keeps : o.Keeps) :
    s.Recorded (past ++ [o]) := by
  have begun : ∀ sub, .began sub ∈ past ++ [o] ∨ .ended sub ∈ past ++ [o] →
      .began sub ∈ past ∨ .ended sub ∈ past := by
    simp only [List.mem_append, List.mem_singleton]
    rintro sub ((old | new) | (old | new))
    · exact .inl old
    · exact absurd new.symm (keeps sub).1
    · exact .inr old
    · exact absurd new.symm (keeps sub).2
  refine ⟨?_, fun i b hb => ?_, fun sub given => h.given sub (begun sub given), ?_, h.rising⟩
  · rw [begun_keeps keeps]
    exact h.toGiven
  · rw [listening_keeps keeps]
    exact h.listeners i b hb
  · rw [begun_keeps keeps]
    exact h.once

theorem congr (h : s.Recorded past)
    (boards : ∀ i b, s.board? i = some b →
      ∃ b', s'.board? i = some b' ∧ b'.listeners = b.listeners ∧ b'.nextNumber = b.nextNumber)
    (added : ∀ i b, s.board? i = none → s'.board? i = some b → ∃ l, b = .start l) :
    s'.Recorded past := by
  refine ⟨⟨fun i b hb => ?_⟩, fun i b hb => ?_, fun sub given => ?_, h.once, fun i b hb => ?_⟩
  · cases before : s.board? i with
    | none =>
        obtain ⟨l, rfl⟩ := added i b before hb
        exact Nat.zero_le _
    | some old =>
        obtain ⟨b', hb', -, same⟩ := boards i old before
        cases hb.symm.trans hb'
        rw [same]
        exact h.most i old before
  · cases before : s.board? i with
    | none =>
        obtain ⟨l, rfl⟩ := added i b before hb
        rw [Switchboard.start, List.map_nil, eq_comm, List.filter_eq_nil_iff]
        intro sub there here
        obtain ⟨b', hb', -⟩ := h.given sub (.inl (mem_listening.mp there).1)
        rw [of_decide_eq_true here, before] at hb'
        cases hb'
    | some old =>
        obtain ⟨b', hb', same, -⟩ := boards i old before
        cases hb.symm.trans hb'
        rw [same]
        exact h.listeners i old before
  · obtain ⟨b, hb, less⟩ := h.given sub given
    obtain ⟨b', hb', -, same⟩ := boards _ b hb
    exact ⟨b', hb', same ▸ less⟩
  · cases before : s.board? i with
    | none =>
        obtain ⟨l, rfl⟩ := added i b before hb
        exact List.Pairwise.nil
    | some old =>
        obtain ⟨b', hb', same, -⟩ := boards i old before
        cases hb.symm.trans hb'
        rw [same]
        exact h.rising i old before

theorem of_boards (h : s.Recorded past) (same : ∀ i, s'.board? i = s.board? i) :
    s'.Recorded past := by
  refine h.congr (fun i b hb => ⟨b, (same i).trans hb, rfl, rfl⟩) fun i b before hb => ?_
  rw [same i, before] at hb
  cases hb

theorem add (h : s.Recorded past) {new : Listener} (turns : s.Turns s' i (·.add new))
    (hb : s.board? i = some b) (few : FewBegun (past ++ [.began ⟨i, b.nextNumber⟩])) :
    s'.Recorded (past ++ [.began ⟨i, b.nextNumber⟩]) := by
  rw [FewBegun, begun_began, List.length_append] at few
  have room := h.room few (i := i)
  have fresh : ¬ (.began ⟨i, b.nextNumber⟩ ∈ past ∨ .ended ⟨i, b.nextNumber⟩ ∈ past) := by
    intro given
    obtain ⟨b', hb', less⟩ := h.given _ given
    cases hb.symm.trans hb'
    exact UInt64.lt_irrefl _ less
  rw [not_or] at fresh
  refine ⟨?_, fun j b' hb' => ?_, fun sub given => ?_, ?_, fun j b' hb' => ?_⟩
  · rw [begun_began, List.length_append]
    exact h.turns turns fun b => b.toNat_nextNumber_add_le new
  · obtain ⟨old, before, rfl⟩ := turns.before hb'
    rw [listening_began fresh.2, List.filter_append, ← h.listeners j old before]
    by_cases here : j = i
    · subst here
      cases hb.symm.trans before
      simp [Switchboard.add]
    · simp [here, Ne.symm here]
  · by_cases new : sub = ⟨i, b.nextNumber⟩
    · subst new
      refine ⟨_, turns.board hb, ?_⟩
      rw [if_pos rfl]
      exact (room b hb).lt_nextNumber_add _
    · refine h.given_of_turns turns (fun b hb => ?_) ?_
      · exact UInt64.le_of_lt ((room b hb).lt_nextNumber_add _)
      simpa [new] using given
  · rw [begun_began, List.nodup_append_comm]
    exact List.nodup_cons.mpr ⟨fun there => fresh.1 (mem_begun.mp there), h.once⟩
  · obtain ⟨old, before, rfl⟩ := turns.before hb'
    split
    · rw [Switchboard.add, List.map_append, List.pairwise_append]
      refine ⟨h.rising j old before, List.pairwise_singleton _ _, ?_⟩
      intro n there m last
      obtain ⟨e, he, rfl⟩ := List.mem_map.mp there
      cases List.mem_singleton.mp last
      exact h.below before he
    · exact h.rising j old before

theorem drop (h : s.Recorded past) {sub : Subscription}
    (turns : s.Turns s' sub.localizer (·.drop sub.number)) (begun : .began sub ∈ past) :
    s'.Recorded (past ++ [.ended sub]) := by
  refine ⟨?_, fun j b' hb' => ?_, fun other given => ?_, ?_, fun j b' hb' => ?_⟩
  · rw [begun_ended]
    exact h.turns turns fun _ => Nat.le_add_right _ 0
  · obtain ⟨old, before, rfl⟩ := turns.before hb'
    rw [listening_ended, List.filter_comm, ← h.listeners j old before, List.filter_map]
    obtain ⟨i, n⟩ := sub
    by_cases here : j = i
    · subst here
      rw [if_pos rfl, Switchboard.drop]
      refine congrArg _ (List.filter_congr fun e _ => ?_)
      by_cases same : e.1 = n <;> simp [same]
    · rw [if_neg here, List.filter_eq_self.mpr]
      simp [here]
  · refine h.given_of_turns turns (fun b _ => UInt64.le_refl _) ?_
    rcases given with began | ended
    · exact .inl (by simpa using began)
    · rcases List.mem_append.mp ended with old | last
      · exact .inr old
      · cases List.mem_singleton.mp last
        exact .inl begun
  · rw [begun_ended]
    exact h.once
  · obtain ⟨old, before, rfl⟩ := turns.before hb'
    have rising := h.rising j old before
    split
    · exact rising.sublist (List.filter_sublist.map _)
    · exact rising

theorem ending (h : s.Recorded past) {name : Text}
    (begun : ∀ sub, s.subscriptions.find? name = some sub → .began sub ∈ past) :
    (s.unsubscribe name).Recorded (past ++ s.ending name) := by
  rw [Session.ending]
  cases known : s.subscriptions.find? name with
  | none =>
      rw [unsubscribe_of_unknown known]
      exact (List.append_nil past).symm ▸ h
  | some sub =>
      have turns : s.Turns (s.unsubscribe name) sub.localizer (·.drop sub.number) := by
        rw [unsubscribe_of_known known]
        exact Turns.release s sub
      exact h.drop turns (begun sub known)

theorem beginning (h : s.Recorded past) (i : Nat) {name : Text}
    (begun : ∀ sub, s.subscriptions.find? name = some sub → .began sub ∈ past)
    (few : FewBegun (past ++ s.beginning i name)) (listener : Listener) (script : Script) :
    (s.subscribe i name listener script).Recorded (past ++ s.beginning i name) := by
  rw [Session.beginning] at few ⊢
  rw [Session.subscribe]
  cases hz : s.localizers[i]? with
  | none => exact (List.append_nil past).symm ▸ h
  | some z =>
      rw [hz] at few
      dsimp only at few
      rw [List.append_cons] at few
      have added := h.add (Turns.add hz listener) (board?_of_localizer hz) few.left
      have dropped := added.ending fun sub (known : s.subscriptions.find? name = some sub) =>
        List.mem_append_left _ (begun sub known)
      rw [List.append_assoc] at dropped
      exact dropped.of_boards fun _ => rfl

end Recorded

theorem Orderly.alike (h : s.Orderly) (same : s.Alike s') : s'.Orderly := by
  refine h.of_listens (fun i b hb => h.numbered i b (same.boards i ▸ hb)) (fun i n listener => ?_)
    same.subscriptions
  rw [Listens, Listens, same.boards i]

theorem Orderly.publish (h : s.Orderly) (i : Nat) (l : Locale) : (s.publish i l).Orderly := by
  have turns := Turns.publish s i l
  exact h.of_listens (turns.numbered (fun _ _ numbered => numbered.publish l) h.numbered)
    (turns.listens fun _ => rfl) (subscriptions_publish s i l)

/-- The history tells who listens and what is received. -/
structure Tracked (s : Session) (past : List Occurrence) : Prop extends
    s.Orderly, s.Recorded past where
  journal : ∀ name, deliveries name s.journal = past.filterMap (Occurrence.heardBy name)

namespace Tracked

theorem start (r : Resources) (overrides : OverrideSettings) (initial : Locale) :
    (Session.start r overrides initial).Tracked [] := by
  refine ⟨.start r overrides initial, ⟨.start r overrides initial, fun i b hb => ?_, nofun,
    List.nodup_nil, fun i b hb => ?_⟩, fun _ => rfl⟩
  · rw [listeners_start hb]
    rfl
  · rw [listeners_start hb]
    exact List.Pairwise.nil

theorem begun (h : s.Tracked past) {name : Text} (sub : Subscription)
    (known : s.subscriptions.find? name = some sub) : .began sub ∈ past := by
  obtain ⟨listener, listens, -⟩ := h.held name sub known
  exact (mem_listening.mp (h.listening_of_listens listens)).1

/-- What happens adds nothing to the journal, unless it is a call. -/
theorem silent (h : s.Tracked past) {now : List Occurrence} (orderly : s'.Orderly)
    (recorded : s'.Recorded (past ++ now))
    (nothing : ∀ name, now.filterMap (Occurrence.heardBy name) = [])
    (journal : ∀ name, deliveries name s'.journal = deliveries name s.journal) :
    s'.Tracked (past ++ now) := by
  refine ⟨orderly, recorded, fun name => ?_⟩
  rw [List.filterMap_append, nothing, List.append_nil, journal, h.journal]

theorem unheard (h : s.Tracked past) (way : s.Unheard s') : s'.Tracked past := by
  refine ⟨h.toOrderly.unheard way, ?_, fun name => (way.journal name).trans (h.journal name)⟩
  exact h.toRecorded.congr (fun i b hb => ⟨b, way.boards i b hb, rfl, rfl⟩) way.added

theorem ending (h : s.Tracked past) (name : Text) :
    (s.unsubscribe name).Tracked (past ++ s.ending name) := by
  refine h.silent (h.toOrderly.unsubscribe name) (h.toRecorded.ending h.begun) (fun other => ?_)
    fun other => by rw [journal_unsubscribe]
  rw [Session.ending]
  cases s.subscriptions.find? name <;> rfl

theorem room (h : s.Tracked past) {i : Nat} {name : Text}
    (few : FewBegun (past ++ s.beginning i name)) (b : Switchboard Listener)
    (hb : s.board? i = some b) : b.Room := by
  obtain ⟨z, hz, rfl⟩ := Option.map_eq_some_iff.mp hb
  rw [Session.beginning, hz] at few
  dsimp only at few
  rw [List.append_cons] at few
  have begun := few.left
  rw [FewBegun, begun_began, List.length_append] at begun
  exact h.toGiven.room begun _ hb

theorem beginning (h : s.Tracked past) (i : Nat) (new : Listener) (script : Script)
    (few : FewBegun (past ++ s.beginning i new.name)) :
    (s.subscribe i new.name new script).Tracked (past ++ s.beginning i new.name) := by
  refine h.silent (h.toOrderly.subscribe (h.room few) new script)
    (h.toRecorded.beginning i h.begun few new script) (fun other => ?_)
    fun other => by rw [journal_subscribe]
  rw [Session.beginning, Session.ending]
  cases s.localizers[i]? <;> cases s.subscriptions.find? new.name <;> rfl

theorem publish (h : s.Tracked past) (i : Nat) (l : Locale) :
    (s.publish i l).Tracked (past ++ [.published i l]) := by
  have recorded : (s.publish i l).Recorded past := by
    refine h.toRecorded.congr (fun j b hb => ⟨_, (Turns.publish s i l).board hb, ?_⟩)
      fun j b absent hb => ?_
    · split <;> exact ⟨rfl, rfl⟩
    · obtain ⟨b', there, -⟩ := (Turns.publish s i l).before hb
      rw [absent] at there
      cases there
  exact h.silent (h.toOrderly.publish i l) (recorded.keeps fun _ => ⟨nofun, nofun⟩)
    (fun _ => rfl) fun name => by rw [journal_publish]

theorem returned (h : s.Tracked past) (sub : Subscription) :
    s.Tracked (past ++ [.returned sub]) :=
  h.silent h.toOrderly (h.toRecorded.keeps fun _ => ⟨nofun, nofun⟩) (fun _ => rfl) fun _ => rfl

theorem call (h : s.Tracked past) (since i : Nat) (n : UInt64) (l : Locale)
    (listener : Listener) :
    ((s.deliver i l listener).nextTurn ⟨i, n⟩).2.Tracked
      (past ++ [.called since ⟨i, n⟩ l listener.name (s.heard i l listener)]) := by
  have alike := (Alike.deliver s i l listener).trans (Alike.nextTurn _ ⟨i, n⟩)
  refine ⟨h.toOrderly.alike alike,
    (h.toRecorded.of_boards alike.boards).keeps fun _ => ⟨nofun, nofun⟩, fun name => ?_⟩
  rw [journal_nextTurn, deliveries_deliver, h.journal, List.filterMap_append]
  by_cases named : listener.name = name
  · cases s.heard i l listener <;> simp [Occurrence.heardBy, named]
  · simp [Occurrence.heardBy, named]

theorem goes {i k : Nat} {task : Task} {during : List Occurrence}
    (goes : Goes i k s task during s') (h : s.Tracked past) (few : FewBegun (past ++ during)) :
    s'.Tracked (past ++ during) := by
  induction goes generalizing past with
  | rest => exact (List.append_nil past).symm ▸ h
  | subscribe _ ih =>
      rw [← List.append_assoc] at few ⊢
      exact ih (h.beginning i (.locale _) _ few.left) few
  | unsubscribe _ ih =>
      rw [← List.append_assoc] at few ⊢
      exact ih (h.ending _) few
  | switch _ _ first ih =>
      rw [← List.append_assoc] at few ⊢
      exact ih (first h few.left) few
  | done => exact (List.append_nil past).symm ▸ h
  | @call _ since n _ _ _ l listener _ _ _ _ _ turn ih =>
      rw [call_append] at few ⊢
      have called := turn (h.call since i n l listener) few.left.left
      exact ih (called.returned ⟨i, n⟩) few
  | publish _ ih =>
      rw [List.append_cons] at few ⊢
      exact ih (h.publish i _) few

theorem perform (h : s.Tracked past) (k : Nat) (c : Command)
    (few : FewBegun (past ++ s.occurrences k c)) :
    (s.perform c).2.Tracked (past ++ s.occurrences k c) := by
  revert few
  refine perform_cases (P := fun now s' => FewBegun (past ++ now) → s'.Tracked (past ++ now)) s k c
    (fun s' way _ => ?_) (fun i l now s' goes few => ?_) (fun i new script few => ?_)
    (fun name _ => ?_)
  · exact (List.append_nil past).symm ▸ h.unheard way
  · exact Tracked.goes goes h few
  · exact h.beginning i new script few
  · exact h.ending name

theorem run (h : s.Tracked past) (k : Nat) (commands : List Command)
    (few : FewBegun (past ++ s.history k commands)) :
    (s.run commands).2.Tracked (past ++ s.history k commands) := by
  induction commands generalizing s k past with
  | nil => exact (List.append_nil past).symm ▸ h
  | cons c rest ih =>
      rw [history, ← List.append_assoc] at few ⊢
      exact ih (h.perform k c few.left) _ few

end Tracked

end Session

end Phrasebook
