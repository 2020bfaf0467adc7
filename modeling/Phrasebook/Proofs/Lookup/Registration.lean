import Phrasebook.Proofs.Dictionary
import Phrasebook.Proofs.Lookup.Settlement

/-! A catalog over a whole run of requests, with documents that may change between them. The first
request for a file whose document can be read decides: its family answers every later one, whatever
becomes of the document and from whichever set it is asked for. A request that fails leaves nothing
behind, so that the next one for the file tries again. -/
namespace Phrasebook.Catalog

/-- A request for the family of a source, with what can be read at its moment. -/
structure Inquiry where
  resources : Resources
  source : Source

/-- What reading the document of a source gives at the moment of a request. -/
def Inquiry.attempt (q : Inquiry) (overrides : OverrideSettings) :
    Traced (Except Family.Error Family) :=
  Family.read (.ofOverrides q.source.set overrides) q.resources q.source.file

def after (c : Catalog) : List Inquiry → Catalog
  | [] => c
  | q :: rest => after (c.family q.resources q.source).value.2 rest

/-- The answer to every request of a run, with what was asked of the embedded sets for it. -/
def answers (c : Catalog) : List Inquiry → List (Traced (Except Family.Error Family))
  | [] => []
  | q :: rest =>
    let answer := c.family q.resources q.source
    ⟨answer.value.1, answer.requests⟩ :: answers answer.value.2 rest

/-- The family that the first request for a file gives whose document can be read. -/
def firstRead (overrides : OverrideSettings) (file : Text) (calls : List Inquiry) : Option Family :=
  calls.findSome? fun q =>
    if q.source.file = file then (q.attempt overrides).value.toOption else none

/-- What a request comes to: a family that is there, one that is read now, or an error. -/
inductive Settles (c : Catalog) (q : Inquiry) :
    Traced (Except Family.Error Family × Catalog) → Prop
  | known {f : Family} (found : c.families.find? q.source.file = some f) :
      Settles c q ⟨(.ok f, c), []⟩
  | read {f : Family} (absent : c.families.find? q.source.file = none)
      (made : (q.attempt c.overrides).value = .ok f) :
      Settles c q ⟨(.ok f, c.put q.source.file f), (q.attempt c.overrides).requests⟩
  | failed {e : Family.Error} (absent : c.families.find? q.source.file = none)
      (refused : (q.attempt c.overrides).value = .error e) :
      Settles c q ⟨(.error e, c), (q.attempt c.overrides).requests⟩

theorem requests_of_absent {c : Catalog} {q : Inquiry}
    (absent : c.families.find? q.source.file = none) :
    (c.family q.resources q.source).requests = (q.attempt c.overrides).requests := by
  rw [family, absent, Inquiry.attempt]
  simp only [Traced.requests_bind]
  cases (Family.read (.ofOverrides q.source.set c.overrides) q.resources q.source.file).value <;>
    simp only [Traced.requests_pure, List.append_nil]

theorem settles_family (c : Catalog) (q : Inquiry) :
    Settles c q (c.family q.resources q.source) := by
  cases found : c.families.find? q.source.file with
  | some f =>
      rw [family, found]
      exact .known found
  | none =>
      have value := family_of_absent (r := q.resources) found
      have requests := requests_of_absent found
      generalize c.family q.resources q.source = answer at value requests ⊢
      obtain ⟨value', requests'⟩ := answer
      subst value requests
      cases made : (q.attempt c.overrides).value with
      | error e =>
          rw [Inquiry.attempt] at made
          rw [made]
          exact .failed found made
      | ok f =>
          rw [Inquiry.attempt] at made
          rw [made]
          exact .read found made

theorem overrides_family (c : Catalog) (q : Inquiry) :
    (c.family q.resources q.source).value.2.overrides = c.overrides := by
  have settles := settles_family c q
  generalize c.family q.resources q.source = answer at settles ⊢
  cases settles <;> rfl

/-- What is known after a request: the file of its source, if it was known before or can be read
now, and every other file as before. -/
theorem find?_family (c : Catalog) (q : Inquiry) (file : Text) :
    (c.family q.resources q.source).value.2.families.find? file =
      (c.families.find? file).or
        (if q.source.file = file then (q.attempt c.overrides).value.toOption else none) := by
  have settles := settles_family c q
  generalize c.family q.resources q.source = answer at settles ⊢
  cases settles with
  | known found =>
      by_cases same : q.source.file = file
      · subst same
        rw [found, Option.some_or]
      · rw [if_neg same, Option.or_none]
  | read absent made =>
      rw [find?_put]
      by_cases same : q.source.file = file
      · subst same
        rw [if_pos rfl, if_pos rfl, absent, Option.none_or, made]
        rfl
      · rw [if_neg same, if_neg fun equal => same equal.symm, Option.or_none]
  | failed absent refused =>
      by_cases same : q.source.file = file
      · subst same
        rw [if_pos rfl, absent, Option.none_or, refused]
        rfl
      · rw [if_neg same, Option.or_none]

/-- What is known after a run was known before, or is what the first request gave that could. -/
theorem find?_after (c : Catalog) (calls : List Inquiry) (file : Text) :
    (c.after calls).families.find? file =
      (c.families.find? file).or (firstRead c.overrides file calls) := by
  induction calls generalizing c with
  | nil => rw [after, firstRead, List.findSome?_nil, Option.or_none]
  | cons q rest ih =>
      rw [after, ih, find?_family, overrides_family, firstRead, firstRead, List.findSome?_cons,
        Option.or_assoc]
      cases if q.source.file = file then (q.attempt c.overrides).value.toOption else none <;> rfl

theorem overrides_after (c : Catalog) (calls : List Inquiry) :
    (c.after calls).overrides = c.overrides := by
  induction calls generalizing c with
  | nil => rfl
  | cons q rest ih => exact (ih _).trans (overrides_family c q)

theorem ordered_after {c : Catalog} (ordered : c.families.Ordered) (calls : List Inquiry) :
    (c.after calls).families.Ordered := by
  induction calls generalizing c with
  | nil => exact ordered
  | cons q rest ih =>
      apply ih
      have settles := settles_family c q
      generalize c.family q.resources q.source = answer at settles ⊢
      cases settles with
      | known | failed => exact ordered
      | read => exact ordered.insert _ _

theorem after_append (c : Catalog) (calls more : List Inquiry) :
    c.after (calls ++ more) = (c.after calls).after more := by
  induction calls generalizing c with
  | nil => rfl
  | cons q rest ih => exact ih _

theorem after_take_succ (c : Catalog) {calls : List Inquiry} {i : Nat} {q : Inquiry}
    (h : calls[i]? = some q) :
    c.after (calls.take (i + 1)) =
      ((c.after (calls.take i)).family q.resources q.source).value.2 := by
  rw [List.take_add_one, h, after_append]
  rfl

theorem answers_getElem? (c : Catalog) {calls : List Inquiry} {i : Nat} {q : Inquiry}
    (h : calls[i]? = some q) :
    (c.answers calls)[i]? =
      some ⟨((c.after (calls.take i)).family q.resources q.source).value.1,
        ((c.after (calls.take i)).family q.resources q.source).requests⟩ := by
  induction calls generalizing c i with
  | nil => cases h
  | cons first rest ih =>
      cases i with
      | zero =>
          cases h
          rfl
      | succ i => exact ih _ h

theorem firstRead_mono {overrides : OverrideSettings} {file : Text} {calls : List Inquiry}
    {n m : Nat} {f : Family} (le : n ≤ m) (h : firstRead overrides file (calls.take n) = some f) :
    firstRead overrides file (calls.take m) = some f :=
  (List.take_prefix_take_left le).findSome?_eq_some h

theorem firstRead_take_succ (overrides : OverrideSettings) (file : Text) {calls : List Inquiry}
    {i : Nat} {q : Inquiry} (h : calls[i]? = some q) :
    firstRead overrides file (calls.take (i + 1)) =
      (firstRead overrides file (calls.take i)).or
        (if q.source.file = file then (q.attempt overrides).value.toOption else none) := by
  rw [List.take_add_one, h, firstRead, List.findSome?_append]
  simp only [Option.toList_some, List.findSome?_singleton]
  rfl

section Run

variable (overrides : OverrideSettings) (calls : List Inquiry)

/-- The catalog before the request at a place in a run that begins with an empty one. -/
def before (i : Nat) : Catalog := (empty overrides).after (calls.take i)

/-- The request at a place in a run is for a file and is answered with a family. -/
def Succeeds (i : Nat) (file : Text) (f : Family) : Prop :=
  ∃ q requests, calls[i]? = some q ∧ q.source.file = file ∧
    ((empty overrides).answers calls)[i]? = some ⟨.ok f, requests⟩

variable {overrides calls}

theorem find?_before (i : Nat) (file : Text) :
    (before overrides calls i).families.find? file =
      firstRead overrides file (calls.take i) := find?_after (empty overrides) _ file

theorem before_succ {i : Nat} {q : Inquiry} (h : calls[i]? = some q) :
    before overrides calls (i + 1) =
      ((before overrides calls i).family q.resources q.source).value.2 :=
  after_take_succ (empty overrides) h

theorem answers_before {i : Nat} {q : Inquiry} (h : calls[i]? = some q) :
    ((empty overrides).answers calls)[i]? =
      some ⟨((before overrides calls i).family q.resources q.source).value.1,
        ((before overrides calls i).family q.resources q.source).requests⟩ :=
  answers_getElem? (empty overrides) h

theorem answer_of_known {i : Nat} {q : Inquiry} {f : Family} (h : calls[i]? = some q)
    (known : firstRead overrides q.source.file (calls.take i) = some f) :
    ((empty overrides).answers calls)[i]? = some ⟨.ok f, []⟩ ∧
      before overrides calls (i + 1) = before overrides calls i := by
  rw [← find?_before] at known
  have settles := settles_family (before overrides calls i) q
  rw [answers_before h, before_succ h]
  generalize (before overrides calls i).family q.resources q.source = answer at settles ⊢
  cases settles with
  | known found =>
      cases known.symm.trans found
      exact ⟨rfl, rfl⟩
  | read absent | failed absent => cases known.symm.trans absent

theorem answer_of_unknown {i : Nat} {q : Inquiry} (h : calls[i]? = some q)
    (unknown : firstRead overrides q.source.file (calls.take i) = none) :
    ((empty overrides).answers calls)[i]? = some (q.attempt overrides) ∧
      ∀ e, (q.attempt overrides).value = .error e →
        before overrides calls (i + 1) = before overrides calls i := by
  have same : (before overrides calls i).overrides = overrides := overrides_after _ _
  rw [← find?_before] at unknown
  have settles := settles_family (before overrides calls i) q
  rw [answers_before h, before_succ h]
  generalize (before overrides calls i).family q.resources q.source = answer at settles ⊢
  cases settles with
  | known found => cases unknown.symm.trans found
  | read absent made =>
      rw [same] at made ⊢
      refine ⟨congrArg some (congrArg (Traced.mk · _) made.symm), fun e refused => ?_⟩
      cases made.symm.trans refused
  | failed absent refused =>
      rw [same] at refused ⊢
      exact ⟨congrArg some (congrArg (Traced.mk · _) refused.symm), fun _ _ => rfl⟩

/-- A request that succeeds is for a file that is known after it, and any such request does. -/
theorem succeeds_iff {i : Nat} {file : Text} {f : Family} :
    Succeeds overrides calls i file f ↔
      firstRead overrides file (calls.take (i + 1)) = some f ∧
        ∃ q, calls[i]? = some q ∧ q.source.file = file := by
  constructor
  · rintro ⟨q, requests, h, rfl, answered⟩
    refine ⟨?_, q, h, rfl⟩
    rw [firstRead_take_succ overrides _ h, if_pos rfl]
    cases known : firstRead overrides q.source.file (calls.take i) with
    | some g =>
        cases answered.symm.trans (answer_of_known h known).1
        rfl
    | none =>
        have own := answered.symm.trans (answer_of_unknown h known).1
        rw [← Option.some.inj own]
        rfl
  · rintro ⟨found, q, h, rfl⟩
    rw [firstRead_take_succ overrides _ h, if_pos rfl] at found
    cases known : firstRead overrides q.source.file (calls.take i) with
    | some g =>
        rw [known, Option.some_or] at found
        cases found
        exact ⟨q, [], h, rfl, (answer_of_known h known).1⟩
    | none =>
        rw [known, Option.none_or] at found
        refine ⟨q, (q.attempt overrides).requests, h, rfl, ?_⟩
        rw [(answer_of_unknown h known).1, ← Outcome.eq_ok_of_toOption found]

/-- A family that is known was read at the first request for its file that could. -/
theorem exists_first {n : Nat} {file : Text} {f : Family}
    (found : firstRead overrides file (calls.take n) = some f) :
    ∃ k < n, ∃ q, calls[k]? = some q ∧ q.source.file = file ∧
      (q.attempt overrides).value = .ok f ∧ firstRead overrides file (calls.take k) = none := by
  obtain ⟨earlier, q, later, cut, made, nothing⟩ := List.findSome?_eq_some_iff.mp found
  have at? : (calls.take n)[earlier.length]? = some q := by
    rw [cut, List.getElem?_append_right (Nat.le_refl _), Nat.sub_self, List.getElem?_cons_zero]
  have less : earlier.length < n := by
    have inside := (List.getElem?_eq_some_iff.mp at?).1
    exact Nat.lt_of_lt_of_le inside (List.length_take_le n calls)
  have upTo : calls.take earlier.length = earlier := by
    rw [← Nat.min_eq_left (Nat.le_of_lt less), ← List.take_take, cut, List.take_left]
  rw [List.getElem?_take_of_lt less] at at?
  split at made
  · rename_i same
    refine ⟨earlier.length, less, q, at?, same, Outcome.eq_ok_of_toOption made, ?_⟩
    rw [upTo]
    exact List.findSome?_eq_none_iff.mpr nothing
  · cases made

theorem known_iff {n : Nat} {file : Text} :
    (∃ f, firstRead overrides file (calls.take n) = some f) ↔
      ∃ i < n, ∃ f, Succeeds overrides calls i file f := by
  constructor
  · rintro ⟨f, found⟩
    obtain ⟨k, less, q, h, same, made, nothing⟩ := exists_first found
    refine ⟨k, less, f, succeeds_iff.mpr ⟨?_, q, h, same⟩⟩
    rw [firstRead_take_succ overrides file h, nothing, if_pos same, made]
    rfl
  · rintro ⟨i, less, f, succeeds⟩
    exact ⟨f, firstRead_mono less (succeeds_iff.mp succeeds).1⟩

theorem unknown_of_none_succeeds {n : Nat} {file : Text}
    (none : ∀ i < n, ∀ f, ¬ Succeeds overrides calls i file f) :
    firstRead overrides file (calls.take n) = .none := by
  refine Option.eq_none_iff_forall_ne_some.mpr fun f found => ?_
  obtain ⟨i, less, g, succeeds⟩ := known_iff.mp ⟨f, found⟩
  exact none i less g succeeds

end Run

/-- A catalog keeps the first family that it could read for a file. From then on every request for
the file is answered with it, from whichever set, and nothing is read. It holds the document as it
was when it was read. Until then every request is answered by its own attempt, an error leaves the
catalog as it was, and no request counts for another file. As many families are known as there are
files for which a request has succeeded. -/
theorem first_family_is_kept (overrides : OverrideSettings) (calls : List Inquiry) :
    (∀ i j q file f, Succeeds overrides calls i file f → i < j → calls[j]? = some q →
      q.source.file = file →
      ((empty overrides).answers calls)[j]? = some ⟨.ok f, []⟩ ∧
        before overrides calls (j + 1) = before overrides calls j) ∧
    (∀ i file f, Succeeds overrides calls i file f →
      ∃ k ≤ i, ∃ q, calls[k]? = some q ∧ q.source.file = file ∧
        ((empty overrides).answers calls)[k]? = some (q.attempt overrides) ∧
        (∀ m < k, ∀ g, ¬ Succeeds overrides calls m file g) ∧
        ((Loader.ofOverrides q.source.set overrides).load q.resources file).value =
          .ok (some f.invariant) ∧
        f = ⟨file, .ofOverrides q.source.set overrides, f.invariant, none⟩) ∧
    (∀ i q, calls[i]? = some q →
      (∀ m < i, ∀ g, ¬ Succeeds overrides calls m q.source.file g) →
      ((empty overrides).answers calls)[i]? = some (q.attempt overrides)) ∧
    (∀ i q e requests, calls[i]? = some q →
      ((empty overrides).answers calls)[i]? = some ⟨.error e, requests⟩ →
      q.attempt overrides = ⟨.error e, requests⟩ ∧
        before overrides calls (i + 1) = before overrides calls i) ∧
    (∀ i q file, calls[i]? = some q → file ≠ q.source.file →
      (before overrides calls (i + 1)).families.find? file =
        (before overrides calls i).families.find? file) ∧
    (∀ n, ∃ names : List Text, names.Nodup ∧ (before overrides calls n).size = names.length ∧
      ∀ file, file ∈ names ↔ ∃ i < n, ∃ f, Succeeds overrides calls i file f) := by
  refine ⟨?again, ?origin, ?alone, ?failed, ?others, ?counted⟩
  case again =>
    rintro i j q file f succeeds less h rfl
    exact answer_of_known h (firstRead_mono less (succeeds_iff.mp succeeds).1)
  case origin =>
    intro i file f succeeds
    obtain ⟨found, -⟩ := succeeds_iff.mp succeeds
    obtain ⟨k, less, q, h, rfl, made, nothing⟩ := exists_first found
    obtain ⟨loaded, shape⟩ := Family.fresh_of_read made
    refine ⟨k, Nat.le_of_lt_succ less, q, h, rfl, (answer_of_unknown h nothing).1, ?_, loaded,
      shape⟩
    intro m earlier g other
    have known := firstRead_mono earlier (succeeds_iff.mp other).1
    cases known.symm.trans nothing
  case alone =>
    intro i q h never
    exact (answer_of_unknown h (unknown_of_none_succeeds never)).1
  case failed =>
    intro i q e requests h answered
    cases known : firstRead overrides q.source.file (calls.take i) with
    | some f => cases answered.symm.trans (answer_of_known h known).1
    | none =>
        obtain ⟨own, kept⟩ := answer_of_unknown h known
        have same := Option.some.inj (own.symm.trans answered)
        exact ⟨same, kept e (congrArg Traced.value same)⟩
  case others =>
    intro i q file h other
    rw [find?_before, find?_before, firstRead_take_succ overrides file h, if_neg other.symm,
      Option.or_none]
  case counted =>
    intro n
    have ordered : (before overrides calls n).families.Ordered :=
      ordered_after Dictionary.ordered_nil _
    refine ⟨(before overrides calls n).families.keys, ordered.nodup,
      (List.length_map Prod.fst).symm, fun file => ?_⟩
    rw [Dictionary.mem_keys_iff, ← known_iff]
    exact exists_congr fun f => by rw [find?_before]

/-- A request for the greetings in a set, when the two sets hold these documents. -/
def askForGreetings (set : Nat) (first second : List (Text × Text)) : Inquiry :=
  ⟨⟨[⟨first⟩, ⟨second⟩], .empty⟩, ⟨set, "hi.toml".toList⟩⟩

/-- The greetings are missing at first, are found then, and are gone at last. -/
def changingGreetings : List Inquiry :=
  [askForGreetings 0 [] [], askForGreetings 0 [("hi.toml".toList, "hi = 'Hello'".toList)] [],
    askForGreetings 1 [] [("hi.toml".toList, "hi = 'Hallo'".toList)], askForGreetings 0 [] []]

def foundGreetings : Family :=
  ⟨"hi.toml".toList, .embeddedOnly 0, [("hi".toList, "Hello".toList)], none⟩

/-- What the second request finds answers those after it, while the first fails by itself. -/
theorem first_family_is_kept_changing :
    Succeeds .default changingGreetings 1 "hi.toml".toList foundGreetings ∧
      ((empty .default).answers changingGreetings)[2]? = some ⟨.ok foundGreetings, []⟩ ∧
      ((empty .default).answers changingGreetings)[3]? = some ⟨.ok foundGreetings, []⟩ ∧
      ((empty .default).answers changingGreetings)[0]? =
        some ⟨.error (.missing "hi.toml".toList), [⟨0, "hi.toml".toList⟩]⟩ ∧
      before .default changingGreetings 1 = before .default changingGreetings 0 := by
  obtain ⟨again, -, alone, failed, -, -⟩ := first_family_is_kept .default changingGreetings
  have succeeds : Succeeds .default changingGreetings 1 "hi.toml".toList foundGreetings :=
    succeeds_iff.mpr ⟨by decide +kernel, _, rfl, rfl⟩
  have first := alone 0 _ rfl fun m less => (Nat.not_lt_zero m less).elim
  exact ⟨succeeds, (again 1 2 _ _ _ succeeds (by decide) rfl rfl).1,
    (again 1 3 _ _ _ succeeds (by decide) rfl rfl).1, first, (failed 0 _ _ _ rfl first).2⟩

end Phrasebook.Catalog
