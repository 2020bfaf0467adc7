import Phrasebook.Proofs.Session.Asking

/-! Units are never out of date. Over a session whose documents stay the same, with any number of
localizers, units and listeners, a unit gives what its localizer would find at that moment. This
holds as long as the counts of switches do not start over, and listeners may switch too. -/
namespace Phrasebook

def Command.KeepsDocuments : Command → Prop
  | .write _ | .remove _ => False
  | _ => True

namespace Session

/-- The locales that a listener makes current by its actions, in order. -/
def actTrace (switch : Session → Locale → Session) (trace : Session → Locale → List Locale)
    (i : Nat) (s : Session) : List Action → List Locale
  | [] => []
  | .subscribe name script :: rest =>
    actTrace switch trace i (s.subscribe i name (.locale name) script) rest
  | .unsubscribe name :: rest => actTrace switch trace i (s.unsubscribe name) rest
  | .switch l :: rest => trace s l ++ actTrace switch trace i (switch s l) rest

/-- The locales that listeners make current when they are called. -/
def callTrace (switch : Session → Locale → Session) (trace : Session → Locale → List Locale)
    (i : Nat) (l : Locale) (s : Session) : List (UInt64 × Listener) → List Locale
  | [] => []
  | (number, listener) :: rest =>
    let (turn, s) := (s.deliver i l listener).nextTurn ⟨i, number⟩
    actTrace switch trace i s turn ++
      callTrace switch trace i l (act switch i s turn) rest

/-- The locales that are made current within a switch, that of the switch itself first. -/
def switchTrace : (nested : Nat) → (i : Nat) → Session → Locale → List Locale
  | 0, _, _, l => [l]
  | nested + 1, i, s, l =>
    l :: callTrace (switchWithin nested i) (switchTrace nested i) i l (s.publish i l)
      ((s.publish i l).listenersOf i)

/-- The locales that a command makes current on some localizer. -/
def switched (s : Session) : Command → List Locale
  | .switch l =>
    match s.current with
    | some i => if i < s.localizers.length then switchTrace (s.pendingSwitches + 1) i s l else []
    | none => []
  | _ => []

/-- The locales that a run makes current, those of listeners included. -/
def switchedIn (s : Session) : List Command → List Locale
  | [] => []
  | c :: rest => s.switched c ++ (s.perform c).2.switchedIn rest

/-- Every localizer is settled and has counted no more than `n` switches, and every unit is backed
by its localizer. -/
structure Fresh (r : Resources) (n : Nat) (s : Session) : Prop where
  resources : s.resources = r
  settled : ∀ (i : Nat) (z : Localizer), s.localizers[i]? = some z → z.catalog.Settled r
  counted : ∀ (i : Nat) (z : Localizer), s.localizers[i]? = some z → z.version.toNat ≤ n
  units : ∀ name b, s.units.find? name = some b →
    ∃ z, s.localizers[b.localizer]? = some z ∧ z.Backs r b.unit
  shared : ∀ i, s.shared = some i → i < s.localizers.length

variable {r : Resources} {n : Nat} {s : Session}

namespace Fresh

theorem mono (h : Fresh r n s) {m : Nat} (le : n ≤ m) : Fresh r m s :=
  { h with counted := fun i z hz => Nat.le_trans (h.counted i z hz) le }

theorem congr (h : Fresh r n s) {s' : Session} (resources : s'.resources = s.resources)
    (localizers : s'.localizers = s.localizers) (units : s'.units = s.units)
    (shared : s'.shared = s.shared) : Fresh r n s' := by
  refine ⟨resources.trans h.resources, ?_, ?_, ?_, ?_⟩
  · rw [localizers]
    exact h.settled
  · rw [localizers]
    exact h.counted
  · rw [localizers, units]
    exact h.units
  · rw [localizers, shared]
    exact h.shared

theorem setLocalizer (h : Fresh r n s) {i m : Nat} {z z' : Localizer}
    (hz : s.localizers[i]? = some z) (later : z.Follows r z') (le : n ≤ m)
    (few : z'.version.toNat ≤ m) : Fresh r m (s.setLocalizer i z') := by
  refine ⟨h.resources, fun j y hy => ?_, fun j y hy => ?_, fun name b found => ?_,
    fun j hj => ?_⟩
  · rw [getElem?_setLocalizer hz] at hy
    split at hy
    · cases hy
      exact later.catalog.settled
    · exact h.settled j y hy
  · rw [getElem?_setLocalizer hz] at hy
    split at hy
    · cases hy
      exact few
    · exact Nat.le_trans (h.counted j y hy) le
  · obtain ⟨y, hy, backs⟩ := h.units name b found
    rw [getElem?_setLocalizer hz]
    split
    · rename_i same
      rw [same, hy] at hz
      cases hz
      exact ⟨z', rfl, backs.follows later⟩
    · exact ⟨y, hy, backs⟩
  · rw [length_setLocalizer]
    exact h.shared j hj

theorem setLocalizer_still (h : Fresh r n s) {i : Nat} {z z' : Localizer}
    (hz : s.localizers[i]? = some z) (catalog : z'.catalog = z.catalog)
    (version : z'.version = z.version) (current : z'.current = z.current) :
    Fresh r n (s.setLocalizer i z') := by
  have grows : Catalog.Grows r z.catalog z'.catalog := catalog ▸ (h.settled i z hz).grows
  have later := Localizer.follows_of_grows grows version current
  exact h.setLocalizer hz later (Nat.le_refl n) (version ▸ h.counted i z hz)

theorem asked (h : Fresh r n s) {s' : Session} (way : s.Asked s') : Fresh r n s' := by
  have resources := h.resources
  subst resources
  have localizers : ∀ (i : Nat) (z' : Localizer), s'.localizers[i]? = some z' →
      z'.catalog.Settled s.resources ∧ z'.version.toNat ≤ n := by
    intro i z' hz'
    cases hz : s.localizers[i]? with
    | none =>
        obtain ⟨⟨l, new⟩, settled⟩ := way.added i z' hz hz'
        refine ⟨settled, ?_⟩
        rw [Localizer.version, new]
        exact Nat.zero_le n
    | some z =>
        obtain ⟨z'', hz'', asked⟩ := way.kept i z hz
        cases hz'.symm.trans hz''
        refine ⟨(asked.catalog (h.settled i z hz)).settled, ?_⟩
        rw [Localizer.version, asked.switchboard]
        exact h.counted i z hz
  refine ⟨way.resources, fun i z hz => (localizers i z hz).1, fun i z hz => (localizers i z hz).2,
    fun name b found => ?_, fun i shared => ?_⟩
  · rw [way.units] at found
    obtain ⟨z, hz, backs⟩ := h.units name b found
    obtain ⟨z', hz', asked⟩ := way.kept _ z hz
    exact ⟨z', hz', backs.follows (asked.follows (h.settled _ z hz))⟩
  · rw [way.shared] at shared
    obtain ⟨z', hz', -⟩ := way.kept i _ (List.getElem?_eq_getElem (h.shared i shared))
    exact (List.getElem?_eq_some_iff.mp hz').1

theorem publish (h : Fresh r n s) (i : Nat) (l : Locale) (few : n + 1 < UInt64.size) :
    Fresh r (n + 1) (s.publish i l) := by
  rw [Session.publish]
  cases hz : s.localizers[i]? with
  | none => exact h.mono (Nat.le_succ n)
  | some z =>
      have counted := h.counted i z hz
      have room : z.version.toNat + 1 < UInt64.size := by omega
      refine h.setLocalizer hz (Localizer.follows_publish (h.settled i z hz) room l)
        (Nat.le_succ n) ?_
      rw [Localizer.toNat_version_publish room]
      omega

theorem release (h : Fresh r n s) (sub : Subscription) : Fresh r n (s.release sub) := by
  rw [Session.release]
  cases hz : s.localizers[sub.localizer]? with
  | none => exact h
  | some z => exact h.setLocalizer_still hz rfl rfl rfl

theorem unsubscribe (h : Fresh r n s) (name : Text) : Fresh r n (s.unsubscribe name) := by
  rw [Session.unsubscribe]
  cases s.subscriptions.find? name with
  | none => exact h
  | some sub => exact (h.release sub).congr rfl rfl rfl rfl

theorem subscribe (h : Fresh r n s) (i : Nat) (name : Text) (listener : Listener)
    (script : Script) : Fresh r n (s.subscribe i name listener script) := by
  rw [Session.subscribe]
  cases hz : s.localizers[i]? with
  | none => exact h
  | some z =>
      have added : Fresh r n
          (s.setLocalizer i { z with switchboard := z.switchboard.add listener }) :=
        h.setLocalizer_still hz rfl rfl rfl
      exact (added.unsubscribe name).congr rfl rfl rfl rfl

theorem deliver (h : Fresh r n s) (i : Nat) (l : Locale) (listener : Listener) :
    Fresh r n (s.deliver i l listener) := by
  cases listener with
  | locale name => exact h.congr rfl rfl rfl rfl
  | text name source key =>
      cases hz : s.localizers[i]? with
      | none =>
          rw [Session.deliver, hz]
          exact h
      | some z =>
          have asked := h.asked (.resolved hz source key l)
          rw [deliver_text hz]
          split
          · rename_i text s' settled
            rw [settled] at asked
            exact asked.congr rfl rfl rfl rfl
          · rename_i e s' settled
            rw [settled] at asked
            exact asked

theorem nextTurn (h : Fresh r n s) (sub : Subscription) : Fresh r n (s.nextTurn sub).2 := by
  rw [Session.nextTurn]
  split
  · exact h.congr rfl rfl rfl rfl
  · exact h

/-- Switches of one kind keep sessions fresh, each for as many locales as it makes current. -/
def KeptBy (r : Resources) (switch : Session → Locale → Session)
    (trace : Session → Locale → List Locale) : Prop :=
  ∀ (n : Nat) (s : Session) (l : Locale), Fresh r n s → n + (trace s l).length < UInt64.size →
    Fresh r (n + (trace s l).length) (switch s l)

variable {switch : Session → Locale → Session} {trace : Session → Locale → List Locale}

theorem act (kept : KeptBy r switch trace) (i : Nat) (actions : List Action) (h : Fresh r n s)
    (few : n + (actTrace switch trace i s actions).length < UInt64.size) :
    Fresh r (n + (actTrace switch trace i s actions).length) (act switch i s actions) := by
  induction actions generalizing n s with
  | nil => exact h
  | cons action rest ih =>
      cases action with
      | subscribe name script => exact ih (h.subscribe i name (.locale name) script) few
      | unsubscribe name => exact ih (h.unsubscribe name) few
      | switch l =>
          rw [actTrace, List.length_append, ← Nat.add_assoc] at few ⊢
          exact ih (kept n s l h (by omega)) few

theorem callAll (kept : KeptBy r switch trace) (i : Nat) (l : Locale)
    (listeners : List (UInt64 × Listener)) (h : Fresh r n s)
    (few : n + (callTrace switch trace i l s listeners).length < UInt64.size) :
    Fresh r (n + (callTrace switch trace i l s listeners).length)
      (callAll switch i l s listeners) := by
  induction listeners generalizing n s with
  | nil => exact h
  | cons first rest ih =>
      obtain ⟨number, listener⟩ := first
      have called := (h.deliver i l listener).nextTurn ⟨i, number⟩
      rw [callTrace, List.length_append, ← Nat.add_assoc] at few ⊢
      exact ih (called.act kept i _ (by omega)) few

theorem switchWithin (nested i : Nat) :
    KeptBy r (switchWithin nested i) (switchTrace nested i) := by
  induction nested with
  | zero =>
      intro n s l h few
      exact h.publish i l few
  | succ nested ih =>
      intro n s l h few
      rw [switchTrace, List.length_cons, Nat.add_comm _ 1, ← Nat.add_assoc] at few ⊢
      exact (h.publish i l (by omega)).callAll ih i l _ few

theorem insertUnit (h : Fresh r n s) (name : Text) {b : BoundUnit} {z : Localizer}
    (hz : s.localizers[b.localizer]? = some z) (backs : z.Backs r b.unit) :
    Fresh r n { s with units := s.units.insert name b } := by
  refine { h with units := fun other c found => ?_ }
  rcases Dictionary.eq_or_find?_of_insert found with ⟨-, rfl⟩ | there
  · exact ⟨z, hz, backs⟩
  · exact h.units other c there

theorem bindUnit (h : Fresh r n s) {i : Nat} (inside : i < s.localizers.length) (name : Text)
    (source : Source) (key : Text) : Fresh r n (s.bindUnit i name source key).2 := by
  refine h.insertUnit name (List.getElem?_eq_getElem inside) ?_
  intro since text kept
  cases kept

theorem dropUnit (h : Fresh r n s) (name : Text) :
    Fresh r n { s with units := s.units.filter fun (k, _) => k != name } := by
  refine { h with units := fun other b found => ?_ }
  rw [Dictionary.find?_filter_ne] at found
  split at found
  · cases found
  · exact h.units other b found

theorem answers (h : Fresh r n s) {name : Text} {b : BoundUnit}
    (found : s.units.find? name = some b) : ∃ z, s.localizers[b.localizer]? = some z ∧
      Localizer.Answers r z b.unit (b.unit.value z r).value := by
  obtain ⟨z, hz, backs⟩ := h.units name b found
  exact ⟨z, hz, Localizer.value_answers (h.settled _ z hz) backs⟩

theorem value (h : Fresh r n s) (name : Text) : Fresh r n (s.value name).2 := by
  cases found : s.units.find? name with
  | none =>
      rw [Session.value, found]
      exact h
  | some b =>
      have resources := h.resources
      subst resources
      obtain ⟨z, hz, answers⟩ := h.answers found
      have asked := h.asked ((Asked.absorb s (b.unit.value z s.resources)).trans
        (.setLocalizer hz (.value b.unit z s.resources)))
      rw [value_of_bound found hz]
      exact asked.insertUnit name ((getElem?_setLocalizer hz _).trans (if_pos rfl)) answers.backed

theorem sharedLocalizer (h : Fresh r n s) (env : Locale.Environment) :
    Fresh r n (s.sharedLocalizer env).2 ∧
      (s.sharedLocalizer env).1 < (s.sharedLocalizer env).2.localizers.length := by
  rw [Session.sharedLocalizer]
  cases shared : s.shared with
  | some i => exact ⟨h, h.shared i shared⟩
  | none =>
      have added := h.asked (.addLocalizer s (Locale.ofEnvironment env) OverrideSettings.default)
      have inside : s.localizers.length < (s.localizers ++ [Localizer.start
          (Locale.ofEnvironment env) OverrideSettings.default]).length := by
        rw [List.length_append]
        exact Nat.lt_succ_self _
      refine ⟨{ added with shared := fun i same => ?_ }, inside⟩
      cases same
      exact inside

theorem reportShared (h : Fresh r n s) (env : Locale.Environment) (adopt : Bool) :
    Fresh r n (s.reportShared env adopt).2 := by
  have twice := ((h.sharedLocalizer env).1.sharedLocalizer env).1
  rw [Session.reportShared]
  simp only
  split
  · exact twice
  · split
    · exact twice.congr rfl rfl rfl rfl
    · exact twice

/-- A command leaves a session fresh, for as many more switches as it made. -/
theorem perform (h : Fresh r n s) {c : Command} (keeps : c.KeepsDocuments)
    (few : n + (s.switched c).length < UInt64.size) :
    Fresh r (n + (s.switched c).length) (s.perform c).2 := by
  cases c with
  | resolve source key locale =>
      exact withLocalizer_cases (P := Fresh r n) h fun i z _ hz =>
        h.asked (.resolved hz source key _)
  | switch l =>
      refine withLocalizer_cases (P := Fresh r _) (h.mono (Nat.le_add_right _ _))
        fun i z current hz => ?_
      have inside : i < s.localizers.length := (List.getElem?_eq_some_iff.mp hz).1
      have trace : s.switched (.switch l) = switchTrace (s.pendingSwitches + 1) i s l := by
        simp only [switched, current, if_pos inside]
      rw [trace] at few ⊢
      exact switchWithin _ i n s l h few
  | family source => exact h.asked (.family s source)
  | readFamily loader file => exact h.asked (.readFamily s loader file)
  | resolveIn number key l => exact h.asked (.resolveIn s number key l)
  | load loader name => exact h.asked (.load s loader name)
  | catalog => exact withLocalizer_cases (P := Fresh r n) h fun _ _ _ _ => h
  | subscribe name script =>
      exact withLocalizer_cases (P := Fresh r n) h fun i _ _ _ => h.subscribe i name _ script
  | subscribeUnit name unit =>
      rw [Session.perform, Session.subscribeUnit]
      split
      · exact h
      · exact h.subscribe _ name _ []
  | unsubscribe name => exact h.unsubscribe name
  | bindUnit name source key =>
      exact withLocalizer_cases (P := Fresh r n) h fun i _ _ hz =>
        h.bindUnit (List.getElem?_eq_some_iff.mp hz).1 name source key
  | bindSharedUnit name source key =>
      obtain ⟨shared, inside⟩ := h.sharedLocalizer ⟨none, none, none, none⟩
      exact shared.bindUnit inside name source key
  | value unit => exact h.value unit
  | dropUnit unit => exact h.dropUnit unit
  | start l overrides => exact h.asked (.workWith s l overrides)
  | startInHost env => exact h.asked (.workWith s _ _)
  | leave => exact h.congr rfl rfl rfl rfl
  | share =>
      refine withLocalizer_cases (P := Fresh r n) h fun i z _ hz => ?_
      refine { h with shared := fun j same => ?_ }
      cases same
      exact (List.getElem?_eq_some_iff.mp hz).1
  | unshare => exact { h with shared := fun j same => by cases same }
  | shared env adopt => exact h.reportShared env adopt
  | write entries => exact keeps.elim
  | remove path => exact keeps.elim

theorem run (h : Fresh r n s) {commands : List Command} (keep : ∀ c ∈ commands, c.KeepsDocuments)
    (few : n + (s.switchedIn commands).length < UInt64.size) :
    Fresh r (n + (s.switchedIn commands).length) (s.run commands).2 := by
  induction commands generalizing n s with
  | nil => exact h
  | cons c rest ih =>
      rw [switchedIn, List.length_append, ← Nat.add_assoc] at few ⊢
      have first := h.perform (keep c List.mem_cons_self) (by omega)
      exact ih first (fun d hd => keep d (List.mem_cons_of_mem c hd)) few

theorem start (r : Resources) (overrides : OverrideSettings) (initial : Locale) :
    Fresh r 0 (.start r overrides initial) := by
  have first : ∀ (i : Nat) (z : Localizer),
      (Session.start r overrides initial).localizers[i]? = some z →
        z = .start initial overrides :=
    fun i z hz => List.mem_singleton.mp (List.mem_of_getElem? hz)
  refine ⟨rfl, fun i z hz => ?_, fun i z hz => ?_, fun name b found => ?_, fun i same => ?_⟩
  · cases first i z hz
    intro file f found
    cases found
  · cases first i z hz
    exact Nat.le_refl 0
  · cases found
  · cases same

end Fresh

/-- Whatever was done before, a unit gives what its localizer finds for the current locale, be it a
text or an error. After an error the unit is what it was, and keeps nothing that it could give now
or at a later count of switches. -/
theorem value_follows_locale (r : Resources) (overrides : OverrideSettings) (initial : Locale)
    (commands : List Command) (keep : ∀ c ∈ commands, c.KeepsDocuments)
    (few : ((start r overrides initial).switchedIn commands).length < UInt64.size)
    {s : Session} (reached : ((start r overrides initial).run commands).2 = s)
    {name : Text} {b : BoundUnit} (bound : s.units.find? name = some b) :
    ∃ z, s.localizers[b.localizer]? = some z ∧
      (s.perform (.value name)).1 =
        textAnswer (z.resolveCurrent r b.unit.source b.unit.key).value.1 ∧
      ∀ e, (s.perform (.value name)).1 = .error e →
        (s.perform (.value name)).2.units.find? name = some b ∧
          ∀ version : UInt64, z.version.toNat ≤ version.toNat → b.unit.kept? version = none := by
  have fresh : Fresh r _ s := reached ▸ (Fresh.start r overrides initial).run keep (by omega)
  obtain ⟨z, hz, backs⟩ := fresh.units name b bound
  have answers := Localizer.value_answers (fresh.settled _ z hz) backs
  have performed : s.perform (.value name) = _ := value_of_bound bound hz
  rw [performed, fresh.resources]
  refine ⟨z, hz, congrArg textAnswer answers.current, fun e failed => ?_⟩
  obtain ⟨cause, failed⟩ : ∃ cause, (b.unit.value z r).value.1 = .error cause := by
    cases result : (b.unit.value z r).value.1 with
    | error cause => exact ⟨cause, rfl⟩
    | ok text =>
        rw [result] at failed
        cases failed
  obtain ⟨same, outdated⟩ := answers.failed cause failed
  refine ⟨?_, fun version later => backs.outdated outdated later⟩
  rw [same]
  exact Dictionary.find?_insert_self name b s.units

/-- The greeting is asked for once, and then its locale is switched. -/
def greetedInGerman : List Command :=
  [.bindUnit "hi".toList ⟨0, "hi.toml".toList⟩ "hi".toList, .value "hi".toList,
    .switch ⟨"de".toList, none, none, []⟩]

/-- A session with the greeting in two languages. -/
def greeting : Session :=
  start (Family.greetings "hi = 'Hallo'".toList) OverrideSettings.default
    ⟨"en".toList, none, none, []⟩

/-- The unit of the greeting, which still keeps the text before the switch. -/
def greetingUnit : BoundUnit :=
  ⟨0, ⟨⟨0, "hi.toml".toList⟩, "hi".toList, some (0, "Hello".toList)⟩⟩

theorem value_follows_locale_german :
    (∀ c ∈ greetedInGerman, c.KeepsDocuments) ∧
      (greeting.switchedIn greetedInGerman).length < UInt64.size ∧
      (greeting.run greetedInGerman).2.units.find? "hi".toList = some greetingUnit ∧
      ∃ z, (greeting.run greetedInGerman).2.localizers[0]? = some z ∧
        ((greeting.run greetedInGerman).2.perform (.value "hi".toList)).1 =
          textAnswer (z.resolveCurrent (Family.greetings "hi = 'Hallo'".toList)
            ⟨0, "hi.toml".toList⟩ "hi".toList).value.1 := by
  have keep : ∀ c ∈ greetedInGerman, c.KeepsDocuments := by
    simp [greetedInGerman, Command.KeepsDocuments]
  have few : (greeting.switchedIn greetedInGerman).length < UInt64.size := by decide +kernel
  have bound : (greeting.run greetedInGerman).2.units.find? "hi".toList = some greetingUnit := by
    decide +kernel
  -- The session is named, since Lean would run the commands to find it.
  obtain ⟨z, hz, answer, -⟩ := value_follows_locale (Family.greetings "hi = 'Hallo'".toList)
    OverrideSettings.default ⟨"en".toList, none, none, []⟩ greetedInGerman keep few
    (s := (greeting.run greetedInGerman).2) rfl bound
  exact ⟨keep, few, bound, z, hz, answer⟩

end Session

end Phrasebook
