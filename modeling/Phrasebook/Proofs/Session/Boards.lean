import Phrasebook.Proofs.Session.Asking

/-! The switchboards of a session. Four kinds of commands concern those who listen: a switch, the
begin of a subscription under either form, and its end. All others leave every switchboard as it is,
add at most one that nobody listens to, and let nobody hear anything. -/
namespace Phrasebook

def Listener.name : Listener → Text
  | .locale name => name
  | .text name _ _ => name

def Command.subject? : Command → Option Text
  | .subscribe name _ | .subscribeUnit name _ | .unsubscribe name => some name
  | _ => none

/-- Whether a command begins a subscription, if it does anything. -/
def Command.begins : Command → Bool
  | .subscribe .. | .subscribeUnit .. => true
  | _ => false

/-- The locale to which a command switches. -/
def Command.locale? : Command → Option Locale
  | .switch l => some l
  | _ => none

/-- Listeners do nothing when they are called. -/
def Script.Idle (script : Script) : Prop := ∀ turn ∈ script, turn = []

/-- A command that adds no listener that does anything. -/
def Command.Quiet : Command → Prop
  | .subscribe _ script => script.Idle
  | _ => True

namespace Session

def board? (s : Session) (i : Nat) : Option (Switchboard Listener) :=
  s.localizers[i]?.map fun z => z.switchboard

theorem board?_of_localizer {s : Session} {i : Nat} {z : Localizer}
    (hz : s.localizers[i]? = some z) : s.board? i = some z.switchboard := by
  rw [board?, hz]
  rfl

theorem board?_setLocalizer {s : Session} {i : Nat} {z z' : Localizer}
    (hz : s.localizers[i]? = some z) {f : Switchboard Listener → Switchboard Listener}
    (turned : z'.switchboard = f z.switchboard) (j : Nat) :
    (s.setLocalizer i z').board? j = if j = i then (s.board? j).map f else s.board? j := by
  rw [board?, getElem?_setLocalizer hz]
  by_cases same : i = j
  · subst same
    rw [if_pos rfl, if_pos rfl, board?_of_localizer hz]
    exact congrArg some turned
  · rw [if_neg same, if_neg (Ne.symm same)]
    rfl

theorem board?_setLocalizer_of_same {s : Session} {i : Nat} {z z' : Localizer}
    (hz : s.localizers[i]? = some z) (same : z'.switchboard = z.switchboard) (j : Nat) :
    (s.setLocalizer i z').board? j = s.board? j := by
  have turned : z'.switchboard = id z.switchboard := same
  rw [board?_setLocalizer hz turned, Option.map_id, id, ite_self]

/-- The locale to which a command switches localizer `i`, if it does. -/
def switchOn (s : Session) (i : Nat) : Command → Option Locale
  | .switch l => if s.current = some i ∧ i < s.localizers.length then some l else none
  | _ => none

theorem switchOn_of_other {s : Session} {i j : Nat} (current : s.current = some j) (other : j ≠ i)
    (l : Locale) : s.switchOn i (.switch l) = none := by
  refine if_neg fun accepted => other ?_
  cases current.symm.trans accepted.1
  rfl

theorem switchOn_of_subject {c : Command} {name : Text} (about : c.subject? = some name)
    (s : Session) (i : Nat) : s.switchOn i c = none := by
  cases c <;> first | rfl | cases about

/-- Nobody hears of the way from one session to the other, and those who listen are the same. -/
structure Unheard (s s' : Session) : Prop where
  boards : ∀ i b, s.board? i = some b → s'.board? i = some b
  added : ∀ i b, s.board? i = none → s'.board? i = some b → ∃ l, b = .start l
  subscriptions : s'.subscriptions = s.subscriptions
  scripts : s'.scripts = s.scripts
  journal : ∀ name, deliveries name s'.journal = deliveries name s.journal

namespace Unheard

variable {s s' s'' : Session}

/-- Where somebody works and what units keep does not matter here. -/
theorem congr (localizers : s'.localizers = s.localizers)
    (subscriptions : s'.subscriptions = s.subscriptions) (scripts : s'.scripts = s.scripts)
    (journal : s'.journal = s.journal) : s.Unheard s' := by
  have boards : ∀ i, s'.board? i = s.board? i := fun i => by rw [board?, board?, localizers]
  refine ⟨fun i b hb => (boards i).trans hb, fun i b absent hb => ?_, subscriptions, scripts,
    fun name => by rw [journal]⟩
  rw [boards, absent] at hb
  cases hb

theorem refl (s : Session) : s.Unheard s := congr rfl rfl rfl rfl

theorem trans (h : s.Unheard s') (h' : s'.Unheard s'') : s.Unheard s'' := by
  refine ⟨fun i b hb => h'.boards i b (h.boards i b hb), fun i b absent hb => ?_,
    h'.subscriptions.trans h.subscriptions, h'.scripts.trans h.scripts,
    fun name => (h'.journal name).trans (h.journal name)⟩
  cases middle : s'.board? i with
  | none => exact h'.added i b middle hb
  | some b' =>
      rw [h'.boards i b' middle] at hb
      cases hb
      exact h.added i _ absent middle

theorem of_asked (h : s.Asked s') : s.Unheard s' := by
  refine ⟨fun i b hb => ?_, fun i b absent hb => ?_, h.subscriptions, h.scripts, h.journal⟩
  · obtain ⟨z, hz, rfl⟩ := Option.map_eq_some_iff.mp hb
    obtain ⟨z', hz', asked⟩ := h.kept i z hz
    rw [board?_of_localizer hz', asked.switchboard]
  · obtain ⟨z', hz', rfl⟩ := Option.map_eq_some_iff.mp hb
    obtain ⟨⟨l, new⟩, -⟩ := h.added i z' (Option.map_eq_none_iff.mp absent) hz'
    exact ⟨l, new⟩

theorem value (s : Session) (name : Text) : s.Unheard (s.value name).2 := by
  cases found : s.units.find? name with
  | none =>
      rw [Session.value, found]
      exact refl s
  | some b =>
      cases hz : s.localizers[b.localizer]? with
      | none =>
          rw [Session.value, found]
          simp only [hz]
          exact refl s
      | some z =>
          have asked := (Asked.absorb s (b.unit.value z s.resources)).trans
            (.setLocalizer hz (.value b.unit z s.resources))
          rw [value_of_bound found hz]
          exact (of_asked asked).trans (congr rfl rfl rfl rfl)

theorem sharedLocalizer (s : Session) (env : Locale.Environment) :
    s.Unheard (s.sharedLocalizer env).2 := by
  rw [Session.sharedLocalizer]
  cases s.shared with
  | some i => exact refl s
  | none =>
      have added := Asked.addLocalizer s (Locale.ofEnvironment env) OverrideSettings.default
      exact (of_asked added).trans (congr rfl rfl rfl rfl)

theorem reportShared (s : Session) (env : Locale.Environment) (adopt : Bool) :
    s.Unheard (s.reportShared env adopt).2 := by
  have twice := (sharedLocalizer s env).trans (sharedLocalizer (s.sharedLocalizer env).2 env)
  rw [Session.reportShared]
  simp only
  split
  · exact twice
  · split
    · exact twice.trans (congr rfl rfl rfl rfl)
    · exact twice

end Unheard

/-- What a command does to those who listen. -/
inductive Effect (s : Session) : Command → Session → Prop
  | aside {c : Command} {s' : Session} (still : ∀ i, s.switchOn i c = none)
      (unheard : s.Unheard s') : Effect s c s'
  | switched {i : Nat} (l : Locale) (current : s.current = some i)
      (inside : i < s.localizers.length) : Effect s (.switch l) (s.switch i l)
  | began {c : Command} (i : Nat) (listener : Listener) (script : Script)
      (about : c.subject? = some listener.name) (begins : c.begins = true)
      (idle : c.Quiet → script.Idle) :
      Effect s c (s.subscribe i listener.name listener script)
  | ended (name : Text) : Effect s (.unsubscribe name) (s.unsubscribe name)

theorem effect_perform (s : Session) (c : Command) : s.Effect c (s.perform c).2 := by
  cases c with
  | resolve source key locale =>
      exact .aside (fun _ => rfl) <| withLocalizer_cases (P := s.Unheard) (.refl s)
        fun i z _ hz => .of_asked (.resolved hz source key _)
  | switch l =>
      rw [perform, withLocalizer]
      cases current : s.current with
      | none =>
          refine .aside (fun i => ?_) (.refl s)
          rw [switchOn, current, if_neg (fun accepted => by cases accepted.1)]
      | some i =>
          cases hz : s.localizers[i]? with
          | none =>
              simp only [hz]
              refine .aside (fun j => if_neg fun accepted => ?_) (.refl s)
              cases current.symm.trans accepted.1
              exact Nat.not_lt.mpr (List.getElem?_eq_none_iff.mp hz) accepted.2
          | some z =>
              simp only [hz]
              exact .switched l current (List.getElem?_eq_some_iff.mp hz).1
  | family source => exact .aside (fun _ => rfl) (.of_asked (.family s source))
  | readFamily loader file => exact .aside (fun _ => rfl) (.of_asked (.readFamily s loader file))
  | resolveIn number key l => exact .aside (fun _ => rfl) (.of_asked (.resolveIn s number key l))
  | load loader name => exact .aside (fun _ => rfl) (.of_asked (.load s loader name))
  | catalog =>
      exact .aside (fun _ => rfl) <| withLocalizer_cases (P := s.Unheard) (.refl s)
        fun _ _ _ _ => .refl s
  | subscribe name script =>
      exact withLocalizer_cases (P := s.Effect _) (.aside (fun _ => rfl) (.refl s))
        fun i _ _ _ => .began i (.locale name) script rfl rfl id
  | subscribeUnit name unit =>
      rw [perform, subscribeUnit]
      cases s.units.find? unit with
      | none => exact .aside (fun _ => rfl) (.refl s)
      | some b =>
          exact .began b.localizer (.text name b.unit.source b.unit.key) [] rfl rfl
            fun _ turn hturn => by cases hturn
  | unsubscribe name => exact .ended name
  | bindUnit name source key =>
      exact .aside (fun _ => rfl) <| withLocalizer_cases (P := s.Unheard) (.refl s)
        fun _ _ _ _ => .congr rfl rfl rfl rfl
  | bindSharedUnit name source key =>
      exact .aside (fun _ => rfl) <| (Unheard.sharedLocalizer s ⟨none, none, none, none⟩).trans
        (.congr rfl rfl rfl rfl)
  | value unit => exact .aside (fun _ => rfl) (.value s unit)
  | dropUnit unit =>
      exact .aside (fun _ => rfl) (.congr rfl rfl rfl rfl)
  | start l overrides => exact .aside (fun _ => rfl) (.of_asked (.workWith s l overrides))
  | startInHost env => exact .aside (fun _ => rfl) (.of_asked (.workWith s _ _))
  | leave => exact .aside (fun _ => rfl) (.congr rfl rfl rfl rfl)
  | share =>
      exact .aside (fun _ => rfl) <| withLocalizer_cases (P := s.Unheard) (.refl s)
        fun _ _ _ _ => .congr rfl rfl rfl rfl
  | unshare => exact .aside (fun _ => rfl) (.congr rfl rfl rfl rfl)
  | shared env adopt => exact .aside (fun _ => rfl) (.reportShared s env adopt)
  | write entries => exact .aside (fun _ => rfl) (.congr rfl rfl rfl rfl)
  | remove path => exact .aside (fun _ => rfl) (.congr rfl rfl rfl rfl)

end Session

end Phrasebook
