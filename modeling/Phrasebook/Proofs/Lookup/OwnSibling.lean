import Phrasebook.Proofs.Lookup.Fallback

/-! Which locales have a document of their own. One that names a language, a script or a region is
answered from the sibling of its whole name, where that has the key. The invariant locale is
answered from the document alone, and so is one that adds nothing but variants to it. -/
namespace Phrasebook

namespace Locale

/-- The undetermined language with variants, and no script or region. -/
def ofVariants (variants : List Text) : Locale := { invariant with variants }

theorem isInvariant_iff (l : Locale) :
    l.isInvariant = true ↔ ∃ variants, l = ofVariants variants := by
  obtain ⟨language, script, region, variants⟩ := l
  simp only [isInvariant, Bool.and_eq_true, decide_eq_true_eq, Option.isNone_iff_eq_none,
    ofVariants, invariant, mk.injEq]
  constructor
  · rintro ⟨⟨rfl, rfl⟩, rfl⟩
    exact ⟨variants, rfl, rfl, rfl, rfl⟩
  · rintro ⟨_, rfl, rfl, rfl, -⟩
    exact ⟨⟨rfl, rfl⟩, rfl⟩

end Locale

namespace Family

variable {loader : Loader} {r : Resources} {file : Text} {f : Family}

/-- As long as the documents stay the same, a look-up takes the first tier that has the key. -/
theorem resolve_first_tier (made : (read loader r file).value = .ok f) {calls : List Call}
    (constant : ∀ c ∈ calls, c.resources = r) (key : Text) (l : Locale) :
    ((f.after calls).resolve r key l).value.1 =
      ((tierNames file l).findSome? fun name => (loader.tier r name).bind (· key)).getD
        (missingText key) := by
  have fresh : f.layers = none := by rw [(fresh_of_read made).2]
  rw [lookup_of_constant fresh constant, lookup, findSome?_tiers made]

/-- For the invariant locale no sibling is asked for, be its layers kept or not. -/
theorem requests_of_isInvariant (f : Family) (r : Resources) (key : Text) {l : Locale}
    (inv : l.isInvariant = true) : (f.resolve r key l).requests = [] := by
  rw [resolve_eq]
  change (f.prepare r l).requests = []
  rw [prepare]
  split
  · rfl
  · rw [Traced.requests_bind, readLayers, if_pos inv]
    rfl

/-- As long as the documents stay the same: a locale that names a language, a script or a region is
answered from its own sibling, if that is valid and has the key, whatever was looked up before. A
locale that names none of them, with whatever variants, has no sibling asked for and is answered
from the document alone. -/
theorem own_sibling_answers (made : (read loader r file).value = .ok f) {calls : List Call}
    (constant : ∀ c ∈ calls, c.resources = r) (key : Text) :
    (∀ l : Locale, (∀ variants, l ≠ .ofVariants variants) → ∀ text,
      (loader.tier r (Resource.siblingName file l.name)).bind (· key) = some text →
        ((f.after calls).resolve r key l).value.1 = text) ∧
    (∀ variants : List Text,
      ((f.after calls).resolve r key (.ofVariants variants)).requests = [] ∧
        ((f.after calls).resolve r key (.ofVariants variants)).value.1 =
          ((loader.tier r file).bind (· key)).getD (missingText key)) := by
  refine ⟨fun l named text has => ?_, fun variants => ?_⟩
  · have asked : ¬ l.isInvariant = true := fun inv =>
      (Locale.isInvariant_iff l).mp inv |>.elim named
    rw [resolve_first_tier made constant, tierNames, siblingNames, if_neg asked, List.cons_append,
      List.findSome?_cons, has]
    rfl
  · have inv : (Locale.ofVariants variants).isInvariant = true :=
      (Locale.isInvariant_iff _).mpr ⟨variants, rfl⟩
    refine ⟨requests_of_isInvariant _ r key inv, ?_⟩
    rw [resolve_first_tier made constant, tierNames, siblingNames, if_pos inv, List.nil_append,
      List.findSome?_singleton]

/-- A greeting with siblings for two locales of no particular language. -/
def undetermined : Resources :=
  ⟨[⟨[("hi.toml".toList, "hi = 'Hello'".toList), ("hi_und-Latn.toml".toList, "hi = 'Hi'".toList),
    ("hi_und-1996.toml".toList, "hi = 'Moin'".toList)]⟩], .empty⟩

theorem own_sibling_answers_latin :
    (read (.embeddedOnly 0) undetermined "hi.toml".toList).value = .ok greeter ∧
      (∀ c ∈ [⟨undetermined, "hi".toList, Locale.invariant⟩], Call.resources c = undetermined) ∧
      (∀ variants, (⟨"und".toList, some "Latn".toList, none, []⟩ : Locale) ≠ .ofVariants variants) ∧
      ((Loader.embeddedOnly 0).tier undetermined "hi_und-Latn.toml".toList).bind (· "hi".toList) =
        some "Hi".toList ∧
      ((greeter.after [⟨undetermined, "hi".toList, Locale.invariant⟩]).resolve undetermined
        "hi".toList ⟨"und".toList, some "Latn".toList, none, []⟩).value.1 = "Hi".toList := by
  have made : (read (.embeddedOnly 0) undetermined "hi.toml".toList).value = .ok greeter :=
    Outcome.eq_ok_of_toOption (by decide +kernel)
  have constant : ∀ c ∈ [⟨undetermined, "hi".toList, Locale.invariant⟩],
      Call.resources c = undetermined := by simp
  have named : ∀ variants,
      (⟨"und".toList, some "Latn".toList, none, []⟩ : Locale) ≠ .ofVariants variants :=
    fun variants same => by cases same
  have has : ((Loader.embeddedOnly 0).tier undetermined "hi_und-Latn.toml".toList).bind
      (· "hi".toList) = some "Hi".toList := by decide +kernel
  exact ⟨made, constant, named, has,
    (own_sibling_answers made constant "hi".toList).1 _ named _ has⟩

/-- A locale other than the invariant one, with a valid document of its own, that is answered from
another. -/
theorem sibling_of_variant_passed_over :
    ∃ l : Locale, Locale.parse "und-1996".toList = .ok l ∧ l ≠ .invariant ∧
      (read (.embeddedOnly 0) undetermined "hi.toml".toList).value = .ok greeter ∧
      ((Loader.embeddedOnly 0).tier undetermined
        (Resource.siblingName "hi.toml".toList l.name)).bind (· "hi".toList) =
          some "Moin".toList ∧
      (greeter.resolve undetermined "hi".toList l).value.1 = "Hello".toList := by
  refine ⟨.ofVariants ["1996".toList], Outcome.eq_ok_of_toOption (by decide +kernel),
    by decide +kernel, Outcome.eq_ok_of_toOption (by decide +kernel), by decide +kernel,
    by decide +kernel⟩

end Family

end Phrasebook
