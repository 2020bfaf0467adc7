import Phrasebook.Proofs.Lookup.Registration

/-! Which set answers a source. A catalog knows families by the file of a source alone, so the first
source of a file whose document can be read answers for all of them. Sources of other files, of the
same set, or without a document that can be read make no difference to each other. -/
namespace Phrasebook

theorem Source.eq_of_same {a b : Source} (set : a.set = b.set) (file : a.file = b.file) :
    a = b := by
  cases a
  cases b
  cases set
  cases file
  rfl

/-- What a localizer is used for: families, look-ups, switches, and who listens. -/
inductive Localizer.Use where
  | family (source : Source)
  | resolve (source : Source) (key : Text) (locale : Locale)
  | resolveCurrent (source : Source) (key : Text)
  | switch (locale : Locale)
  | listen (listener : Listener)
  | leave (number : UInt64)

def Localizer.Use.source? : Localizer.Use → Option Source
  | family source | resolve source .. | resolveCurrent source _ => some source
  | switch _ | listen _ | leave _ => none

/-- The family as it was when it was read. -/
def Family.bare (f : Family) : Family := { f with layers := none }

namespace Family

theorem bare_of_read {loader : Loader} {r : Resources} {file : Text} {f : Family}
    (made : (read loader r file).value = .ok f) : f.bare = f := by
  rw [bare, (fresh_of_read made).2]

theorem bare_resolve (f : Family) (r : Resources) (key : Text) (l : Locale) :
    (f.resolve r key l).value.2.bare = f.bare := by
  rw [resolve_eq, prepare]
  split <;> rfl

end Family

namespace Catalog

/-- What a catalog knows for a file, without the layers that come and go. -/
def held (c : Catalog) (file : Text) : Option Family := (c.families.find? file).map Family.bare

/-- What reading the document of a source gives. -/
def attempt (overrides : OverrideSettings) (r : Resources) (source : Source) :
    Except Family.Error Family := (Inquiry.attempt ⟨r, source⟩ overrides).value

/-- The answer of a catalog of its own, which has nothing to do with other sources. -/
def alone (overrides : OverrideSettings) (r : Resources) (source : Source) (key : Text)
    (l : Locale) : Except Family.Error Text := ((empty overrides).resolve r source key l).value.1

/-- Of the sources that were asked for before, the first of the same file whose document can be
read; if there is none, the source itself. -/
def spokenFor (overrides : OverrideSettings) (r : Resources) (asked : List Source)
    (source : Source) : Source :=
  (asked.find? fun other =>
    other.file = source.file && (attempt overrides r other).toOption.isSome).getD source

theorem held_family (c : Catalog) (r : Resources) (source : Source) (file : Text) :
    (c.family r source).value.2.held file =
      (c.held file).or
        (if source.file = file then (attempt c.overrides r source).toOption else none) := by
  have found := find?_family c ⟨r, source⟩ file
  rw [held, found, Option.map_or, held]
  congr 1
  split
  · cases made : attempt c.overrides r source with
    | error e =>
        rw [attempt] at made
        rw [made]
        rfl
    | ok f =>
        have fresh := Family.bare_of_read made
        rw [attempt] at made
        rw [made]
        exact congrArg some fresh
  · rfl

theorem registered_of_family {c c' : Catalog} {r : Resources} {source : Source} {f : Family}
    (answered : (c.family r source).value = (.ok f, c')) :
    c'.families.find? source.file = some f := by
  have settles := settles_family c ⟨r, source⟩
  generalize c.family r source = answer at settles answered
  cases settles with
  | known found =>
      cases answered
      exact found
  | read absent made =>
      cases answered
      rw [find?_put, if_pos rfl]
  | failed => cases answered

/-- A look-up adds to a catalog what asking for the family does; the layers do not count. -/
theorem held_resolve (c : Catalog) (r : Resources) (source : Source) (key : Text) (l : Locale)
    (file : Text) :
    (c.resolve r source key l).value.2.held file = (c.family r source).value.2.held file := by
  rw [resolve, Traced.value_bind]
  rcases answered : (c.family r source).value with ⟨e | f, c'⟩
  · rfl
  · have there := registered_of_family answered
    change (c'.put source.file (f.resolve r key l).value.2).held file = c'.held file
    rw [held, find?_put, held]
    split
    · rename_i same
      rw [same, there, Option.map_some, Option.map_some, Family.bare_resolve]
    · rfl

/-- In a settled catalog the family that it knows for a file answers, and else the document of the
source itself. -/
theorem answer_eq {c : Catalog} {r : Resources} (settled : c.Settled r) (source : Source)
    (key : Text) (l : Locale) :
    (c.resolve r source key l).value.1 =
      match c.held source.file with
      | some f => .ok ((f.keeping r l).lookup key)
      | none => (attempt c.overrides r source).map fun f => (f.keeping r l).lookup key := by
  have settles := settles_family c ⟨r, source⟩
  have known := (family_grows settled source).1.settled
  rw [held]
  generalize answered : c.family r source = answer at settles known
  cases settles with
  | known found =>
      have value := congrArg Traced.value answered
      rw [resolve_of_family value (known _ _ found), found]
      rfl
  | read absent made =>
      have value := congrArg Traced.value answered
      have fresh := Family.settled_of_read made
      rw [resolve_of_family value fresh, absent, attempt, made]
      rfl
  | failed absent refused =>
      have value := congrArg Traced.value answered
      rw [resolve_of_error value, absent, attempt, refused]
      rfl

theorem settled_empty (overrides : OverrideSettings) (r : Resources) :
    (empty overrides).Settled r := by
  intro file f found
  cases found

theorem alone_eq (overrides : OverrideSettings) (r : Resources) (source : Source) (key : Text)
    (l : Locale) :
    alone overrides r source key l =
      (attempt overrides r source).map fun f => (f.keeping r l).lookup key :=
  answer_eq (settled_empty overrides r) source key l

/-- The family that is read first is that of the source that is spoken for. -/
theorem firstRead_eq (overrides : OverrideSettings) (r : Resources) (file : Text)
    (asked : List Source) :
    firstRead overrides file (asked.map fun source => ⟨r, source⟩) =
      (asked.find? fun other =>
        other.file = file && (attempt overrides r other).toOption.isSome).bind
          fun other => (attempt overrides r other).toOption := by
  rw [firstRead, List.findSome?_map]
  induction asked with
  | nil => rfl
  | cons source rest ih =>
      rw [List.findSome?_cons, List.find?_cons, ih]
      rw [Function.comp_apply]
      by_cases same : source.file = file
      · cases made : attempt overrides r source with
        | error e =>
            have own : (Inquiry.attempt ⟨r, source⟩ overrides).value = .error e := made
            simp [same, own, Except.toOption]
        | ok f =>
            have own : (Inquiry.attempt ⟨r, source⟩ overrides).value = .ok f := made
            simp [same, made, own, Except.toOption]
      · simp [same]

end Catalog

namespace Localizer

/-- A localizer after it was used. -/
def use (z : Localizer) (r : Resources) : Use → Localizer
  | .family source => (z.family r source).value.2
  | .resolve source key l => (z.resolve r source key l).value.2
  | .resolveCurrent source key => (z.resolveCurrent r source key).value.2
  | .switch l => { z with switchboard := z.switchboard.publish l }
  | .listen listener => { z with switchboard := z.switchboard.add listener }
  | .leave number => { z with switchboard := z.switchboard.drop number }

def afterUses (z : Localizer) (r : Resources) (uses : List Use) : Localizer :=
  uses.foldl (fun z u => z.use r u) z

end Localizer

/-- A catalog before and after families of some sources were asked for, in order. -/
structure Catalog.Used (r : Resources) (asked : List Source) (c c' : Catalog) : Prop where
  settled : c'.Settled r
  overrides : c'.overrides = c.overrides
  held : ∀ file, c'.held file =
    (c.held file).or (firstRead c.overrides file (asked.map fun source => ⟨r, source⟩))

namespace Catalog.Used

variable {r : Resources} {c c' c'' : Catalog}

theorem refl (settled : c.Settled r) : Used r [] c c := by
  refine ⟨settled, rfl, fun file => ?_⟩
  rw [List.map_nil, firstRead, List.findSome?_nil, Option.or_none]

theorem trans {asked more : List Source} (h : Used r asked c c') (h' : Used r more c' c'') :
    Used r (asked ++ more) c c'' := by
  refine ⟨h'.settled, h'.overrides.trans h.overrides, fun file => ?_⟩
  rw [h'.held, h.held, h.overrides, Option.or_assoc, List.map_append, firstRead, firstRead,
    firstRead, List.findSome?_append]

theorem family (settled : c.Settled r) (source : Source) :
    Used r [source] c (c.family r source).value.2 := by
  refine ⟨(family_grows settled source).1.settled, overrides_family c ⟨r, source⟩, fun file => ?_⟩
  rw [held_family, firstRead, List.map_singleton, List.findSome?_singleton]
  rfl

theorem resolve (settled : c.Settled r) (source : Source) (key : Text) (l : Locale) :
    Used r [source] c (c.resolve r source key l).value.2 := by
  have asked := family settled source
  refine ⟨(resolve_grows settled source key l).1.settled, ?_, fun file => ?_⟩
  · rw [← asked.overrides, Catalog.resolve, Traced.value_bind]
    rcases (c.family r source).value with ⟨e | f, c'⟩ <;> rfl
  · rw [held_resolve, asked.held]

end Catalog.Used

namespace Localizer

theorem used_use {z : Localizer} {r : Resources} (settled : z.catalog.Settled r) (u : Use) :
    Catalog.Used r u.source?.toList z.catalog (z.use r u).catalog := by
  cases u with
  | family source => exact .family settled source
  | resolve source key l => exact .resolve settled source key l
  | resolveCurrent source key => exact .resolve settled source key z.current
  | switch | listen | leave => exact .refl settled

theorem used_afterUses {z : Localizer} {r : Resources} (settled : z.catalog.Settled r)
    (uses : List Use) :
    Catalog.Used r (uses.filterMap Use.source?) z.catalog (z.afterUses r uses).catalog := by
  induction uses generalizing z with
  | nil => exact .refl settled
  | cons u rest ih =>
      have first := used_use settled u
      have both := first.trans (ih first.settled)
      rw [List.filterMap_cons]
      cases h : u.source? with
      | none =>
          rw [h] at both
          exact both
      | some source =>
          rw [h] at both
          exact both

/-- After any use, a source is answered as the source that is spoken for would be alone. -/
theorem resolve_afterUses (start : Locale) (overrides : OverrideSettings) (r : Resources)
    (uses : List Use) (source : Source) (key : Text) (l : Locale) :
    (((Localizer.start start overrides).afterUses r uses).resolve r source key l).value.1 =
      Catalog.alone overrides r
        (Catalog.spokenFor overrides r (uses.filterMap Use.source?) source) key l := by
  have used : Catalog.Used r (uses.filterMap Use.source?) (.empty overrides)
      ((Localizer.start start overrides).afterUses r uses).catalog :=
    used_afterUses (z := .start start overrides) (Catalog.settled_empty overrides r) uses
  have same : ((Localizer.start start overrides).afterUses r uses).catalog.overrides = overrides :=
    used.overrides
  have held := (used.held source.file).trans (Option.none_or ..)
  change _ = Catalog.firstRead overrides _ _ at held
  rw [Catalog.firstRead_eq] at held
  rw [resolve_value, Catalog.answer_eq used.settled, held, same, Catalog.alone_eq,
    Catalog.spokenFor]
  cases found : (uses.filterMap Use.source?).find? fun other =>
      other.file = source.file && (Catalog.attempt overrides r other).toOption.isSome with
  | none => rfl
  | some other =>
      have readable := List.find?_some found
      rw [Bool.and_eq_true] at readable
      obtain ⟨f, made⟩ := Option.isSome_iff_exists.mp readable.2
      rw [Option.bind_some, made, Option.getD_some, Outcome.eq_ok_of_toOption made]
      rfl

end Localizer

namespace Catalog

theorem file_spokenFor (overrides : OverrideSettings) (r : Resources) (asked : List Source)
    (source : Source) : (spokenFor overrides r asked source).file = source.file := by
  rw [spokenFor]
  cases found : asked.find? fun other =>
      other.file = source.file && (attempt overrides r other).toOption.isSome with
  | none => rfl
  | some other =>
      have fits := List.find?_some found
      rw [Bool.and_eq_true] at fits
      exact of_decide_eq_true fits.1

/-- One more source makes a difference only if it has the same file, can be read, and is of another
set than the source that is spoken for without it. -/
theorem spokenFor_insert {overrides : OverrideSettings} {r : Resources} {asked more : List Source}
    {first source : Source}
    (harmless : first.file ≠ source.file ∨ (∃ e, attempt overrides r first = .error e) ∨
      first.set = (spokenFor overrides r (asked ++ more) source).set) :
    spokenFor overrides r (asked ++ first :: more) source =
      spokenFor overrides r (asked ++ more) source := by
  have file := file_spokenFor overrides r (asked ++ more) source
  rw [spokenFor, List.find?_append] at harmless file ⊢
  rw [spokenFor, List.find?_append, List.find?_cons]
  cases found : asked.find? fun other =>
      other.file = source.file && (attempt overrides r other).toOption.isSome with
  | some other => rfl
  | none =>
      rw [found] at harmless file
      cases fits : (decide (first.file = source.file) &&
          (attempt overrides r first).toOption.isSome) with
      | false => rfl
      | true =>
          rw [Bool.and_eq_true] at fits
          obtain ⟨same, readable⟩ := fits
          have same := of_decide_eq_true same
          rcases harmless with other | ⟨e, refused⟩ | set
          · exact (other same).elim
          · rw [refused] at readable
            cases readable
          · rw [Option.none_or] at set file ⊢
            rw [Option.none_or]
            exact Source.eq_of_same set (same.trans file.symm)

theorem load_congr {loader : Loader} {r r' : Resources} (set : r'.set loader.set = r.set loader.set)
    (files : r'.files = r.files) : loader.load r' = loader.load r := by
  have copies : loader.copies r' = loader.copies r := by
    funext name
    simp only [Loader.copies, Loader.readDisk, set, files]
  unfold Loader.load
  rw [copies]

theorem alone_congr {r r' : Resources} {source : Source}
    (set : r'.set source.set = r.set source.set) (files : r'.files = r.files)
    (overrides : OverrideSettings) (key : Text) (l : Locale) :
    alone overrides r' source key l = alone overrides r source key l := by
  have load : (Loader.ofOverrides source.set overrides).load r' =
      (Loader.ofOverrides source.set overrides).load r := load_congr set files
  have read : attempt overrides r' source = attempt overrides r source := by
    rw [attempt, attempt, Inquiry.attempt, Inquiry.attempt, Family.read, Family.read, load]
  rw [alone_eq, alone_eq, read]
  cases made : attempt overrides r source with
  | error e => simp only [Except.map]
  | ok f =>
      have shape := (Family.fresh_of_read made).2
      have layers : f.readLayers r' l = f.readLayers r l := by
        apply Family.readLayers_congr
        rw [shape]
        exact load
      simp only [Except.map, Family.keeping, layers]

end Catalog

namespace Localizer

/-- Sources do not get in each other's way, however a localizer is used, unless they have one file
in different sets. A source is answered as the first source of its file would be alone whose
document could be read, and so from its own set if no other set had the file; and alone it is
answered from its own set and from disk. -/
theorem sources_apart (start : Locale) (overrides : OverrideSettings) (r : Resources)
    (uses later : List Use) (source : Source) :
    (∀ first key' l' key l,
      (first.file ≠ source.file ∨ (∃ e, Catalog.attempt overrides r first = .error e) ∨
        first.set = (Catalog.spokenFor overrides r
          ((uses ++ later).filterMap Use.source?) source).set) →
      ((((Localizer.start start overrides).afterUses r
          (uses ++ .resolve first key' l' :: later)).resolve r source key l).value.1 =
        (((Localizer.start start overrides).afterUses r
          (uses ++ later)).resolve r source key l).value.1)) ∧
    (∀ key l,
      (((Localizer.start start overrides).afterUses r uses).resolve r source key l).value.1 =
        Catalog.alone overrides r
          (Catalog.spokenFor overrides r (uses.filterMap Use.source?) source) key l) ∧
    ((∀ other ∈ uses.filterMap Use.source?, other.file = source.file →
        other.set = source.set ∨ ∃ e, Catalog.attempt overrides r other = .error e) →
      ∀ key l,
        (((Localizer.start start overrides).afterUses r uses).resolve r source key l).value.1 =
          Catalog.alone overrides r source key l) ∧
    (∀ r', r'.set source.set = r.set source.set → r'.files = r.files → ∀ key l,
      Catalog.alone overrides r' source key l = Catalog.alone overrides r source key l) := by
  refine ⟨fun first key' l' key l harmless => ?_,
    fun key l => resolve_afterUses start overrides r uses source key l, fun own key l => ?_,
    fun r' set files key l => Catalog.alone_congr set files overrides key l⟩
  · rw [List.filterMap_append] at harmless
    rw [resolve_afterUses, resolve_afterUses, List.filterMap_append, List.filterMap_append,
      List.filterMap_cons]
    change Catalog.alone _ _ (Catalog.spokenFor _ _ (_ ++ first :: _) _) _ _ = _
    rw [Catalog.spokenFor_insert harmless]
  · have same : Catalog.spokenFor overrides r (uses.filterMap Use.source?) source = source := by
      rw [Catalog.spokenFor]
      cases found : (uses.filterMap Use.source?).find? fun other =>
          other.file = source.file && (Catalog.attempt overrides r other).toOption.isSome with
      | none => rfl
      | some other =>
          have fits := List.find?_some found
          rw [Bool.and_eq_true] at fits
          have file := of_decide_eq_true fits.1
          rcases own other (List.mem_of_find?_eq_some found) file with set | ⟨e, refused⟩
          · exact Source.eq_of_same set file
          · rw [refused] at fits
            cases fits.2
    rw [resolve_afterUses, same]

/-- Two sets that have a document of one name, and another document in the second. -/
def twoSets : Resources :=
  ⟨[⟨[("hi.toml".toList, "hi = 'Hello'".toList)]⟩,
    ⟨[("hi.toml".toList, "hi = 'Hallo'".toList), ("bye.toml".toList, "bye = 'Servus'".toList)]⟩],
    .empty⟩

/-- A look-up in the first set does not show in one of another file in the second. -/
theorem sources_apart_bye :
    ("hi.toml".toList ≠ "bye.toml".toList) ∧
      ((((Localizer.start .invariant .default).afterUses twoSets
          [.resolve ⟨0, "hi.toml".toList⟩ "hi".toList .invariant]).resolve twoSets
            ⟨1, "bye.toml".toList⟩ "bye".toList .invariant).value.1 =
        (((Localizer.start .invariant .default).afterUses twoSets []).resolve twoSets
            ⟨1, "bye.toml".toList⟩ "bye".toList .invariant).value.1) ∧
      ((((Localizer.start .invariant .default).afterUses twoSets
          [.resolve ⟨0, "hi.toml".toList⟩ "hi".toList .invariant]).resolve twoSets
            ⟨1, "bye.toml".toList⟩ "bye".toList .invariant).value.1 =
        Catalog.alone .default ⟨[⟨[]⟩, twoSets.set 1], .empty⟩
          ⟨1, "bye.toml".toList⟩ "bye".toList .invariant) := by
  have other : "hi.toml".toList ≠ "bye.toml".toList := by decide
  obtain ⟨unseen, -, -, -⟩ := sources_apart .invariant .default twoSets [] []
    ⟨1, "bye.toml".toList⟩
  obtain ⟨-, -, own, same⟩ := sources_apart .invariant .default twoSets
    [.resolve ⟨0, "hi.toml".toList⟩ "hi".toList .invariant] [] ⟨1, "bye.toml".toList⟩
  have apart := unseen ⟨0, "hi.toml".toList⟩ "hi".toList .invariant "bye".toList .invariant
    (.inl other)
  rw [List.nil_append, List.nil_append] at apart
  refine ⟨other, apart, ?_⟩
  rw [same ⟨[⟨[]⟩, twoSets.set 1], .empty⟩ rfl rfl]
  apply own
  intro asked there file
  rw [List.mem_singleton.mp there] at file
  exact (other file).elim

/-- A source is answered from another set once that has answered for its file. -/
theorem answered_from_other_set :
    (((Localizer.start .invariant .default).afterUses twoSets
        [.resolve ⟨0, "hi.toml".toList⟩ "hi".toList .invariant]).resolve twoSets
          ⟨1, "hi.toml".toList⟩ "hi".toList .invariant).value.1 = .ok "Hello".toList ∧
      ((Localizer.start .invariant .default).resolve twoSets
        ⟨1, "hi.toml".toList⟩ "hi".toList .invariant).value.1 = .ok "Hallo".toList := by
  constructor
  · exact Outcome.eq_ok_of_toOption (by decide +kernel)
  · exact Outcome.eq_ok_of_toOption (by decide +kernel)

end Localizer

end Phrasebook
