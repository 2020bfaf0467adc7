import Phrasebook.Lookup.Family
import Phrasebook.Proofs.Outcome

/-! A family keeps the layers of the last locale. Over a whole run of look-ups, with documents that
may change between them, the layers in use are those that were read when the present block of calls
for one locale began, and only such first calls ask the loader for anything. -/
namespace Phrasebook.Family

/-- One look-up of a run, with what can be read at its moment. -/
structure Call where
  resources : Resources
  key : Text
  locale : Locale

def after (f : Family) : List Call → Family
  | [] => f
  | c :: rest => after (f.resolve c.resources c.key c.locale).value.2 rest

/-- The text of every look-up of a run, each with the requests that it took. -/
def answers (f : Family) : List Call → List (Traced Text)
  | [] => []
  | c :: rest =>
    let answer := f.resolve c.resources c.key c.locale
    ⟨answer.value.1, answer.requests⟩ :: answers answer.value.2 rest

/-- The family with the layers of a locale as they are read at one moment. -/
def keeping (f : Family) (r : Resources) (l : Locale) : Family :=
  { f with layers := some (f.readLayers r l).value }

def localeAt (calls : List Call) (k : Nat) : Option Locale := calls[k]?.map (·.locale)

/-- The calls from `j` to `i` ask for one locale, and no call just before them does. -/
structure BlockStart (calls : List Call) (i j : Nat) : Prop where
  le : j ≤ i
  same : ∀ k, j ≤ k → k ≤ i → localeAt calls k = localeAt calls i
  first : ∀ k, k + 1 = j → localeAt calls k ≠ localeAt calls i

theorem readLayers_locale (f : Family) (r : Resources) (l : Locale) :
    (f.readLayers r l).value.locale = l := by
  unfold readLayers
  split
  · rfl
  · rw [Traced.value_bind]
    split <;> rfl

theorem readLayers_congr {f : Family} {r r' : Resources} (same : f.loader.load r = f.loader.load r')
    (l : Locale) : f.readLayers r l = f.readLayers r' l := by
  have sibling : f.readSibling r = f.readSibling r' := by
    unfold readSibling
    rw [same]
  unfold readLayers
  rw [sibling]

theorem resolve_eq (f : Family) (r : Resources) (key : Text) (l : Locale) :
    f.resolve r key l =
      ⟨((f.prepare r l).value.lookup key, (f.prepare r l).value), (f.prepare r l).requests⟩ :=
  congrArg (Traced.mk _) (List.append_nil _)

theorem resolve_of_switch {f : Family} {l : Locale}
    (switch : ∀ kept, f.layers = some kept → kept.locale ≠ l) (r : Resources) (key : Text) :
    f.resolve r key l =
      ⟨((f.keeping r l).lookup key, f.keeping r l), (f.readLayers r l).requests⟩ := by
  have absent : (f.layers.any fun kept => kept.locale = l) = false := by
    cases h : f.layers with
    | none => rfl
    | some kept => exact decide_eq_false (switch kept h)
  have prepared : f.prepare r l = ⟨f.keeping r l, (f.readLayers r l).requests⟩ := by
    rw [prepare, absent]
    exact congrArg (Traced.mk (f.keeping r l)) (List.append_nil _)
  rw [resolve_eq, prepared]

/-- A locale whose layers are kept is answered from them, whatever can be read by now. -/
theorem resolve_keeping_self (f : Family) (r r' : Resources) (l : Locale) (key : Text) :
    (f.keeping r l).resolve r' key l = ⟨((f.keeping r l).lookup key, f.keeping r l), []⟩ := by
  have present : ((f.keeping r l).layers.any fun kept => kept.locale = l) = true :=
    decide_eq_true (readLayers_locale f r l)
  have prepared : (f.keeping r l).prepare r' l = ⟨f.keeping r l, []⟩ := by
    rw [prepare, present]
    rfl
  rw [resolve_eq, prepared]

theorem resolve_keeping_of_ne (f : Family) (r r' : Resources) {l l' : Locale} (other : l ≠ l')
    (key : Text) :
    (f.keeping r l).resolve r' key l' =
      ⟨((f.keeping r' l').lookup key, f.keeping r' l'), (f.readLayers r' l').requests⟩ := by
  refine resolve_of_switch (fun kept same => ?_) r' key
  cases same
  rw [readLayers_locale]
  exact other

theorem after_append (f : Family) (calls more : List Call) :
    f.after (calls ++ more) = (f.after calls).after more := by
  induction calls generalizing f with
  | nil => rfl
  | cons c rest ih => exact ih _

theorem after_take_succ (f : Family) {calls : List Call} {i : Nat} {c : Call}
    (h : calls[i]? = some c) :
    f.after (calls.take (i + 1)) =
      ((f.after (calls.take i)).resolve c.resources c.key c.locale).value.2 := by
  rw [List.take_add_one, h, after_append]
  rfl

theorem answers_getElem? (f : Family) {calls : List Call} {i : Nat} {c : Call}
    (h : calls[i]? = some c) :
    (f.answers calls)[i]? =
      some ⟨((f.after (calls.take i)).resolve c.resources c.key c.locale).value.1,
        ((f.after (calls.take i)).resolve c.resources c.key c.locale).requests⟩ := by
  induction calls generalizing f i with
  | nil => cases h
  | cons first rest ih =>
      cases i with
      | zero =>
          cases h
          rfl
      | succ i => exact ih _ h

theorem BlockStart.self {calls : List Call} {i : Nat}
    (first : ∀ k, k + 1 = i → localeAt calls k ≠ localeAt calls i) : BlockStart calls i i := by
  refine ⟨Nat.le_refl i, fun k low high => ?_, first⟩
  rw [Nat.le_antisymm high low]

theorem BlockStart.succ {calls : List Call} {i j : Nat} (h : BlockStart calls i j)
    (same : localeAt calls i = localeAt calls (i + 1)) : BlockStart calls (i + 1) j := by
  refine ⟨Nat.le_succ_of_le h.le, fun k low high => ?_, fun k hk => ?_⟩
  · rcases Nat.le_succ_iff.mp high with within | rfl
    · exact (h.same k low within).trans same
    · rfl
  · exact same ▸ h.first k hk

theorem BlockStart.unique {calls : List Call} {i j j' : Nat} (h : BlockStart calls i j)
    (h' : BlockStart calls i j') : j = j' := by
  -- An earlier start would lie in the other block, against what stands before that one.
  have notBefore : ∀ {a b}, BlockStart calls i a → BlockStart calls i b → ¬ a < b := by
    intro a b ha hb less
    obtain ⟨k, rfl⟩ := Nat.exists_eq_succ_of_ne_zero (Nat.ne_zero_of_lt less)
    exact hb.first k rfl (ha.same k (Nat.le_of_lt_succ less) (Nat.le_of_succ_le hb.le))
  exact Nat.le_antisymm (Nat.le_of_not_lt (notBefore h' h)) (Nat.le_of_not_lt (notBefore h h'))

/-- Every call of a run is answered from the layers that its block began with, and takes no request
unless it is the first of its block. -/
theorem resolve_in_block {f : Family} (fresh : f.layers = none) {calls : List Call} {i : Nat}
    {c : Call} (h : calls[i]? = some c) :
    ∃ j first, BlockStart calls i j ∧ calls[j]? = some first ∧
      (f.after (calls.take i)).resolve c.resources c.key c.locale =
        ⟨((f.keeping first.resources c.locale).lookup c.key, f.keeping first.resources c.locale),
          if j = i then (f.readLayers first.resources c.locale).requests else []⟩ := by
  induction i generalizing c with
  | zero =>
      refine ⟨0, c, .self fun k hk => (Nat.succ_ne_zero k hk).elim, h, ?_⟩
      rw [if_pos rfl]
      refine resolve_of_switch (fun kept same => ?_) _ _
      rw [List.take_zero, after, fresh] at same
      cases same
  | succ i ih =>
      have inside : i < calls.length :=
        Nat.lt_of_succ_lt (List.getElem?_eq_some_iff.mp h).1
      have hp : calls[i]? = some calls[i] := List.getElem?_eq_getElem inside
      obtain ⟨j, first, block, hfirst, resolved⟩ := ih hp
      have state : f.after (calls.take (i + 1)) = f.keeping first.resources calls[i].locale := by
        rw [after_take_succ f hp, resolved]
      have hi : localeAt calls i = some calls[i].locale := by rw [localeAt, hp, Option.map_some]
      have hnext : localeAt calls (i + 1) = some c.locale := by rw [localeAt, h, Option.map_some]
      rw [state]
      by_cases same : calls[i].locale = c.locale
      · refine ⟨j, first, block.succ (by rw [hi, hnext, same]), hfirst, ?_⟩
        rw [if_neg (Nat.ne_of_lt (Nat.lt_succ_of_le block.le)), same, resolve_keeping_self]
      · refine ⟨i + 1, c, .self fun k hk => ?_, h, ?_⟩
        · cases hk
          rw [hi, hnext]
          exact fun equal => same (Option.some.inj equal)
        · rw [if_pos rfl, resolve_keeping_of_ne _ _ _ same]

/-- Where the layers of a locale do not change, the history of a family does not count. -/
theorem resolve_of_unchanged {f : Family} (fresh : f.layers = none) {r : Resources}
    {calls : List Call} {l : Locale}
    (unchanged : ∀ c ∈ calls, (f.readLayers c.resources l).value = (f.readLayers r l).value)
    (key : Text) :
    ((f.after calls).resolve r key l).value = ((f.keeping r l).lookup key, f.keeping r l) := by
  -- The look-up itself is the last call of a run that it ends.
  have last : (calls ++ [⟨r, key, l⟩])[calls.length]? = some ⟨r, key, l⟩ :=
    List.getElem?_concat_length
  obtain ⟨j, first, -, hfirst, resolved⟩ := resolve_in_block fresh last
  rw [List.take_left] at resolved
  have there : f.keeping first.resources l = f.keeping r l := by
    rcases List.mem_append.mp (List.mem_of_getElem? hfirst) with earlier | now
    · rw [keeping, unchanged first earlier, keeping]
    · rw [List.mem_singleton.mp now]
  rw [resolved, there]

theorem lookup_of_constant {f : Family} (fresh : f.layers = none) {r : Resources}
    {calls : List Call} (constant : ∀ c ∈ calls, c.resources = r) (key : Text) (l : Locale) :
    ((f.after calls).resolve r key l).value.1 = (f.keeping r l).lookup key := by
  rw [resolve_of_unchanged fresh fun c hc => by rw [constant c hc]]

theorem fresh_of_read {loader : Loader} {r : Resources} {file : Text} {f : Family}
    (made : (read loader r file).value = .ok f) :
    (loader.load r file).value = .ok (some f.invariant) ∧
      f = ⟨file, loader, f.invariant, none⟩ := by
  rw [read, Traced.value_bind] at made
  split at made <;> cases made
  exact ⟨‹_›, rfl⟩

/-- A document and its German sibling, embedded. -/
def greetings (german : Text) : Resources :=
  ⟨[⟨[("hi.toml".toList, "hi = 'Hello'".toList), ("hi_de.toml".toList, german)]⟩], .empty⟩

def greeter : Family :=
  ⟨"hi.toml".toList, .embeddedOnly 0, [("hi".toList, "Hello".toList)], none⟩

/-- A look-up of the greeting in German. -/
def inGerman (sibling : Text) : Call :=
  ⟨greetings sibling, "hi".toList, ⟨"de".toList, none, none, []⟩⟩

end Phrasebook.Family
