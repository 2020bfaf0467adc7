import Mathlib.Data.List.Forall2
import Phrasebook.Text.Lower

/-! Lower case across a concatenation. Slashes and underscores end words, so the lower case of a
name is that of its parts; where a lower case text is ASCII, it tells the characters that it came
from up to their case. -/
namespace Phrasebook.Text

theorem ascii_forall {P : Char → Prop} (each : ∀ n < 0x80, P (Char.ofNat n)) {c : Char}
    (ascii : c.toNat < 0x80) : P c := by
  have here := each c.toNat ascii
  rwa [Char.ofNat_toNat] at here

/-- The character stands between words, and has no case. -/
structure Boundary (c : Char) : Prop where
  uncased : isCased c = false
  counts : isCaseIgnorable c = false
  lowered : lowerChar c = [c]
  notSigma : c ≠ 'Σ'

theorem boundary_slash : Boundary '/' := by constructor <;> decide +kernel

theorem boundary_underscore : Boundary '_' := by constructor <;> decide +kernel

theorem startsCased_cons (c : Char) (s : Text) :
    startsCased (c :: s) = if isCaseIgnorable c then startsCased s else isCased c := by
  by_cases ignored : isCaseIgnorable c = true
  · rw [startsCased, List.dropWhile_cons_of_pos ignored, if_pos ignored, startsCased]
  · rw [startsCased, List.dropWhile_cons_of_neg ignored, if_neg ignored]

theorem startsCased_append {y : Text} (uncased : startsCased y = false) (x : Text) :
    startsCased (x ++ y) = startsCased x := by
  induction x with
  | nil => exact uncased
  | cons c x ih => rw [List.cons_append, startsCased_cons, startsCased_cons, ih]

namespace Boundary

variable {c : Char} (boundary : Boundary c)
include boundary

theorem startsCased (s : Text) : startsCased (c :: s) = false := by
  rw [startsCased_cons, boundary.counts, if_neg Bool.false_ne_true, boundary.uncased]

end Boundary

/-- The lower case of a character between the given ones. -/
def loweredBetween (before : Text) (c : Char) (rest : Text) : Text :=
  if c = 'Σ' then (if startsCased before && !startsCased rest then ['ς'] else ['σ'])
  else lowerChar c

theorem lowerAfter_cons (before : Text) (c : Char) (rest : Text) :
    lowerAfter before (c :: rest) =
      loweredBetween before c rest ++ lowerAfter (c :: before) rest := rfl

theorem loweredBetween_of_ne {c : Char} (h : c ≠ 'Σ') (before rest : Text) :
    loweredBetween before c rest = lowerChar c := if_neg h

theorem loweredBetween_congr {before before' rest rest' : Text}
    (left : startsCased before = startsCased before')
    (right : startsCased rest = startsCased rest') (c : Char) :
    loweredBetween before c rest = loweredBetween before' c rest' := by
  rw [loweredBetween, loweredBetween, left, right]

/-- Of what stands before, only counts whether it ends in a letter with case. -/
theorem lowerAfter_congr {before before' : Text}
    (same : startsCased before = startsCased before') (s : Text) :
    lowerAfter before s = lowerAfter before' s := by
  induction s generalizing before before' with
  | nil => rfl
  | cons c s ih =>
      have next : startsCased (c :: before) = startsCased (c :: before') := by
        rw [startsCased_cons, startsCased_cons, same]
      rw [lowerAfter_cons, lowerAfter_cons, loweredBetween_congr same rfl, ih next]

theorem lowerAfter_append {y : Text} (uncased : startsCased y = false) (before x : Text) :
    lowerAfter before (x ++ y) = lowerAfter before x ++ lowerAfter (x.reverse ++ before) y := by
  induction x generalizing before with
  | nil => rfl
  | cons c x ih =>
      have follows := startsCased_append uncased x
      rw [List.cons_append, lowerAfter_cons, lowerAfter_cons, loweredBetween_congr rfl follows, ih,
        List.append_assoc, List.reverse_cons, List.append_assoc]
      rfl

/-- A boundary parts the lower case of a text as it parts the text. -/
theorem lowerAfter_boundary {c : Char} (boundary : Boundary c) (before x y : Text) :
    lowerAfter before (x ++ c :: y) = lowerAfter before x ++ c :: toLower y := by
  have fresh : startsCased (c :: (x.reverse ++ before)) = startsCased [] := boundary.startsCased _
  rw [lowerAfter_append (boundary.startsCased y), lowerAfter_cons,
    loweredBetween_of_ne boundary.notSigma, boundary.lowered, lowerAfter_congr fresh]
  rfl

theorem toLower_boundary {c : Char} (boundary : Boundary c) (x y : Text) :
    toLower (x ++ c :: y) = toLower x ++ c :: toLower y := lowerAfter_boundary boundary [] x y

theorem lowerAfter_of_ascii {s : Text} (ascii : ∀ c ∈ s, c.toNat < 0x80) (before : Text) :
    lowerAfter before s = s.map Char.toLower := by
  induction s generalizing before with
  | nil => rfl
  | cons c s ih =>
      obtain ⟨here, later⟩ := List.forall_mem_cons.mp ascii
      have notSigma : c ≠ 'Σ' := by
        rintro rfl
        exact absurd here (by decide)
      rw [lowerAfter_cons, loweredBetween_of_ne notSigma, lowerChar, if_pos here, ih later]
      rfl

/-- A run of letters that are their own lower case lies beyond ASCII, the Kelvin sign apart. -/
theorem lowerRuns_beyond_ascii : ∀ r ∈ lowerRuns, (r.first = 0x212a ∧ r.last = 0x212a) ∨
    (0x80 ≤ r.first + r.shift ∧
      (r.last + r.shift < 0xd800 ∨ 0xdfff < r.first + r.shift ∧ r.last + r.shift < 0x110000)) := by
  decide +kernel

/-- What the lower case of a character can be; two characters beyond ASCII have ASCII in theirs. -/
inductive Lowered : Char → Text → Prop
  | ascii {c : Char} (low : c.toNat < 0x80) : Lowered c [c.toLower]
  | dotted : Lowered 'İ' ['i', '\u0307']
  | kelvin : Lowered '\u212a' ['k']
  | beyond {c d : Char} (high : 0x80 ≤ d.toNat) : Lowered c [d]

theorem lowered_lowerChar (c : Char) : Lowered c (lowerChar c) := by
  by_cases low : c.toNat < 0x80
  · rw [lowerChar, if_pos low]
    exact .ascii low
  by_cases dotted : c = 'İ'
  · rw [dotted, (by decide +kernel : lowerChar 'İ' = ['i', '\u0307'])]
    exact .dotted
  by_cases kelvin : c = '\u212a'
  · rw [kelvin, (by decide +kernel : lowerChar '\u212a' = ['k'])]
    exact .kelvin
  have notDotted : c.toNat ≠ 0x130 := fun h => dotted (Char.toNat_inj.mp h)
  rw [lowerChar, if_neg low, if_neg notDotted]
  cases found : lowerRuns.find? (·.holds c.toNat) with
  | none => exact .beyond (Nat.le_of_not_lt low)
  | some r =>
      have holds := List.find?_some found
      simp only [LowerRun.holds, Bool.and_eq_true, decide_eq_true_eq] at holds
      obtain ⟨⟨above, below⟩, -⟩ := holds
      -- A run that leads back into ASCII holds the Kelvin sign alone.
      rcases lowerRuns_beyond_ascii r (List.mem_of_find?_eq_some found) with one | ⟨high, valid⟩
      · have same : c.toNat = 0x212a := by omega
        exact (kelvin (Char.toNat_inj.mp same)).elim
      · have valid : (c.toNat + r.shift).toNat.isValidChar := by
          rw [Nat.isValidChar]
          omega
        have same : (Char.ofNat (c.toNat + r.shift).toNat).toNat = (c.toNat + r.shift).toNat := by
          rw [Char.ofNat, dif_pos valid]
          rfl
        exact .beyond (by omega)

theorem lowered_loweredBetween (before : Text) (c : Char) (rest : Text) :
    Lowered c (loweredBetween before c rest) := by
  by_cases sigma : c = 'Σ'
  · rw [loweredBetween, if_pos sigma]
    split
    · exact .beyond (by decide)
    · exact .beyond (by decide)
  · rw [loweredBetween_of_ne sigma]
    exact lowered_lowerChar c

theorem ascii_of_isAlpha {c : Char} (h : c.isAlpha = true) :
    (0x41 ≤ c.toNat ∧ c.toNat ≤ 0x5a) ∨ (0x61 ≤ c.toNat ∧ c.toNat ≤ 0x7a) := by
  rcases Bool.or_eq_true_iff.mp h with upper | lower
  · obtain ⟨above, below⟩ : 'A'.val ≤ c.val ∧ c.val ≤ 'Z'.val := of_decide_eq_true upper
    exact .inl ⟨UInt32.le_iff_toNat_le.mp above, UInt32.le_iff_toNat_le.mp below⟩
  · obtain ⟨above, below⟩ := Bool.and_eq_true_iff.mp lower
    exact .inr ⟨UInt32.le_iff_toNat_le.mp (of_decide_eq_true above),
      UInt32.le_iff_toNat_le.mp (of_decide_eq_true below)⟩

theorem isCased_of_isAlpha {c : Char} (h : c.isAlpha = true) : isCased c = true := by
  rw [isCased, List.any_eq_true]
  rcases ascii_of_isAlpha h with upper | lower
  · exact ⟨(0x41, 0x5a), by decide +kernel, by simpa using upper⟩
  · exact ⟨(0x61, 0x7a), by decide +kernel, by simpa using lower⟩

theorem isCaseIgnorable_of_isAlpha {c : Char} (h : c.isAlpha = true) :
    isCaseIgnorable c = false := by
  have apart : ∀ range ∈ caseIgnorableRanges,
      range.2 < 0x41 ∨ (0x5a < range.1 ∧ range.2 < 0x61) ∨ 0x7a < range.1 := by decide +kernel
  rw [isCaseIgnorable, List.any_eq_false]
  intro range hr inside
  have letter := ascii_of_isAlpha h
  have outside := apart range hr
  rw [Bool.and_eq_true, decide_eq_true_eq, decide_eq_true_eq] at inside
  omega

/-- Two characters that stand for each other in any text that is made lower case. -/
structure SameLetter (c d : Char) : Prop where
  lowered : lowerChar c = lowerChar d
  cased : isCased c = isCased d
  ignorable : isCaseIgnorable c = isCaseIgnorable d
  notSigma : c ≠ 'Σ'
  notSigma' : d ≠ 'Σ'

theorem lowerAfter_sameLetters {v w : Text} (same : List.Forall₂ SameLetter v w)
    {before before' : Text} (left : startsCased before = startsCased before') (rest : Text) :
    lowerAfter before (v ++ rest) = lowerAfter before' (w ++ rest) := by
  induction same generalizing before before' with
  | nil => exact lowerAfter_congr left rest
  | @cons c d v w letter _ ih =>
      have next : startsCased (c :: before) = startsCased (d :: before') := by
        rw [startsCased_cons, startsCased_cons, letter.cased, letter.ignorable, left]
      rw [List.cons_append, List.cons_append, lowerAfter_cons, lowerAfter_cons,
        loweredBetween_of_ne letter.notSigma, loweredBetween_of_ne letter.notSigma',
        letter.lowered, ih next]

namespace SameLetter

variable {c d e : Char}

instance : Decidable (SameLetter c d) :=
  decidable_of_iff (lowerChar c = lowerChar d ∧ isCased c = isCased d ∧
      isCaseIgnorable c = isCaseIgnorable d ∧ c ≠ 'Σ' ∧ d ≠ 'Σ')
    ⟨fun ⟨lowered, cased, ignorable, left, right⟩ => ⟨lowered, cased, ignorable, left, right⟩,
      fun h => ⟨h.lowered, h.cased, h.ignorable, h.notSigma, h.notSigma'⟩⟩

theorem symm (h : SameLetter c d) : SameLetter d c :=
  ⟨h.lowered.symm, h.cased.symm, h.ignorable.symm, h.notSigma', h.notSigma⟩

theorem trans (h : SameLetter c d) (h' : SameLetter d e) : SameLetter c e :=
  ⟨h.lowered.trans h'.lowered, h.cased.trans h'.cased, h.ignorable.trans h'.ignorable,
    h.notSigma, h'.notSigma'⟩

theorem refl (h : c ≠ 'Σ') : SameLetter c c := ⟨rfl, rfl, rfl, h, h⟩

theorem toLower (ascii : c.toNat < 0x80) : SameLetter c c.toLower := by
  have letters : c.toLower ≠ c → c.isAlpha = true ∧ c.toLower.isAlpha = true ∧
      lowerChar c = lowerChar c.toLower ∧ c ≠ 'Σ' ∧ c.toLower ≠ 'Σ' :=
    ascii_forall (P := fun c => c.toLower ≠ c → c.isAlpha = true ∧ c.toLower.isAlpha = true ∧
      lowerChar c = lowerChar c.toLower ∧ c ≠ 'Σ' ∧ c.toLower ≠ 'Σ') (by decide +kernel) ascii
  by_cases same : c.toLower = c
  · rw [same]
    exact .refl fun sigma => absurd ascii (by rw [sigma]; decide)
  · obtain ⟨upper, lower, lowered, left, right⟩ := letters same
    refine ⟨lowered, ?_, ?_, left, right⟩
    · rw [isCased_of_isAlpha upper, isCased_of_isAlpha lower]
    · rw [isCaseIgnorable_of_isAlpha upper, isCaseIgnorable_of_isAlpha lower]

end SameLetter

/-- A character whose lower case is ASCII is one letter with it, up to case. -/
theorem Lowered.sameLetter {c : Char} {lower : Text} (h : Lowered c lower)
    (ascii : ∀ d ∈ lower, d.toNat < 0x80) : ∃ d, lower = [d] ∧ SameLetter c d := by
  cases h with
  | ascii low => exact ⟨c.toLower, rfl, .toLower low⟩
  | dotted => exact absurd (ascii '\u0307' (by decide)) (by decide)
  | kelvin => exact ⟨'k', rfl, by decide +kernel⟩
  | @beyond c d high => exact (Nat.not_lt.mpr high (ascii d List.mem_cons_self)).elim

theorem Lowered.eq_underscore {c : Char} {lower : Text} (h : Lowered c lower)
    (there : '_' ∈ lower) : c = '_' := by
  cases h with
  | ascii low =>
      have same : '_' = c.toLower := List.mem_singleton.mp there
      exact ascii_forall (P := fun c => '_' = c.toLower → c = '_') (by decide +kernel) low same
  | dotted => exact absurd there (by decide)
  | kelvin => exact absurd there (by decide)
  | @beyond c d high =>
      rw [← List.mem_singleton.mp there] at high
      exact absurd high (by decide)

theorem underscore_mem_of_lowerAfter {before v : Text} (h : '_' ∈ lowerAfter before v) :
    '_' ∈ v := by
  induction v generalizing before with
  | nil => cases h
  | cons c v ih =>
      rcases List.mem_append.mp h with here | later
      · rw [(lowered_loweredBetween before c v).eq_underscore here]
        exact List.mem_cons_self
      · exact List.mem_cons_of_mem c (ih later)

theorem cut_of_toLower {v lower suffix : Text} (h : toLower v = lower ++ '_' :: suffix)
    (last : '_' ∉ suffix) :
    ∃ x y, v = x ++ '_' :: y ∧ toLower x = lower ∧ toLower y = suffix := by
  have there : '_' ∈ toLower v := by
    rw [h]
    exact List.mem_append_right _ List.mem_cons_self
  cases cut : Cut.last '_' v with
  | none => exact (Cut.last_eq_none_iff.mp cut (underscore_mem_of_lowerAfter there)).elim
  | some parts =>
      -- Cut at its last underscore, the text has a lower case that is cut there too.
      obtain ⟨x, y⟩ := parts
      obtain ⟨rfl, noMore⟩ := Cut.eq_of_last cut
      have noMore : '_' ∉ toLower y := fun there => noMore (underscore_mem_of_lowerAfter there)
      rw [toLower_boundary boundary_underscore] at h
      have same := (Cut.last_eq_some_iff.mpr ⟨rfl, noMore⟩).symm.trans
        (Cut.last_eq_some_iff.mpr ⟨h, last⟩)
      rw [Option.some.injEq, Prod.mk.injEq] at same
      exact ⟨x, y, rfl, same.1, same.2⟩

/-- A text whose lower case is that of an ASCII text is the same up to case. -/
theorem sameLetters_of_lowered {before v w : Text} (ascii : ∀ c ∈ w, c.toNat < 0x80)
    (h : lowerAfter before v = w.map Char.toLower) : List.Forall₂ SameLetter v w := by
  induction v generalizing before w with
  | nil =>
      rw [List.map_eq_nil_iff.mp h.symm]
      exact .nil
  | cons c v ih =>
      have lowAscii : ∀ d ∈ w.map Char.toLower, d.toNat < 0x80 := by
        intro d hd
        obtain ⟨c, hc, rfl⟩ := List.mem_map.mp hd
        exact ascii_forall (P := fun c => c.toLower.toNat < 0x80) (by decide +kernel) (ascii c hc)
      rw [lowerAfter_cons] at h
      obtain ⟨d, lowered, letter⟩ := (lowered_loweredBetween before c v).sameLetter
        fun d hd => lowAscii d (h ▸ List.mem_append_left _ hd)
      rw [lowered] at h
      cases w with
      | nil => cases h
      | cons a w =>
          rw [List.map_cons, List.singleton_append, List.cons.injEq] at h
          obtain ⟨rfl, rest⟩ := h
          have toA := letter.trans (SameLetter.toLower (ascii a List.mem_cons_self)).symm
          exact .cons toA (ih (fun c hc => ascii c (List.mem_cons_of_mem a hc)) rest)

end Phrasebook.Text
