import Mathlib.Tactic.SplitIfs
import Phrasebook.Proofs.Text.Utf8
import Phrasebook.Text.Sorting

/-! The byte form of text keeps its order. Texts compare by code points as their encodings compare
byte by byte, and sorted texts are in the order of their bytes. -/
namespace Phrasebook.Utf8

theorem ofNat_lt_ofNat_iff {a b : Nat} (ha : a < 256) (hb : b < 256) :
    UInt8.ofNat a < UInt8.ofNat b ↔ a < b := by
  rw [UInt8.lt_iff_toNat_lt, toNat_ofNat ha, toNat_ofNat hb]

theorem ofNat_eq_ofNat_iff {a b : Nat} (ha : a < 256) (hb : b < 256) :
    UInt8.ofNat a = UInt8.ofNat b ↔ a = b := by
  rw [← UInt8.toNat_inj, toNat_ofNat ha, toNat_ofNat hb]

/-- Encodings of different characters differ before either of them ends. -/
theorem encodeChar_append_lt {c d : Char} (less : c < d) (u v : Bytes) :
    encodeChar c ++ u < encodeChar d ++ v := by
  have below : c.toNat < d.toNat := less
  have most : d.toNat < 0x110000 := by
    have bounds : d.toNat < 0xd800 ∨ 0xdfff < d.toNat ∧ d.toNat < 0x110000 := d.valid
    omega
  unfold encodeChar
  dsimp only
  generalize c.toNat = n at below
  generalize d.toNat = m at below most
  -- A longer encoding has a greater first byte; of two with one length the first bytes that differ
  -- decide.
  split_ifs
  all_goals
    first
    | omega
    | simp (disch := omega) only [List.cons_append, List.nil_append, List.cons_lt_cons_iff,
        ofNat_lt_ofNat_iff, ofNat_eq_ofNat_iff]
      omega

theorem append_lt_append_left (p : Bytes) {u v : Bytes} (less : u < v) : p ++ u < p ++ v := by
  induction p with
  | nil => exact less
  | cons b p ih => exact List.cons_lt_cons_iff.mpr (.inr ⟨rfl, ih⟩)

theorem encode_cons (c : Char) (s : Text) : encode (c :: s) = encodeChar c ++ encode s :=
  List.flatMap_cons

theorem encode_lt_encode {s s' : Text} (less : s < s') : encode s < encode s' := by
  induction s generalizing s' with
  | nil =>
      cases s' with
      | nil => exact (List.lt_irrefl _ less).elim
      | cons d s' =>
          rw [encode_cons]
          obtain ⟨b, rest, spelled⟩ := List.exists_cons_of_ne_nil (encodeChar_ne_nil d)
          rw [spelled, List.cons_append]
          exact List.nil_lt_cons _ _
  | cons c s ih =>
      cases s' with
      | nil => exact (List.not_lt_nil _ less).elim
      | cons d s' =>
          rw [encode_cons, encode_cons]
          rcases List.cons_lt_cons_iff.mp less with first | ⟨rfl, rest⟩
          · exact encodeChar_append_lt first _ _
          · exact append_lt_append_left _ (ih rest)

theorem encode_lt_encode_iff {s s' : Text} : encode s < encode s' ↔ s < s' := by
  refine ⟨fun less => ?_, encode_lt_encode⟩
  rcases Std.lt_trichotomy s s' with before | same | after
  · exact before
  · rw [same] at less
    exact (List.lt_irrefl _ less).elim
  · exact (List.lt_asymm less (encode_lt_encode after)).elim

end Phrasebook.Utf8

namespace Phrasebook.Text

theorem le_iff {a b : Text} : le a b = true ↔ ¬ b < a := by simp [le]

theorem le_total (a b : Text) : le a b = true ∨ le b a = true := by
  rw [le_iff, le_iff, ← not_and_or]
  rintro ⟨less, greater⟩
  exact List.lt_asymm less greater

theorem le_trans (a b c : Text) (ab : le a b = true) (bc : le b c = true) : le a c = true := by
  rw [le_iff] at ab bc ⊢
  intro greater
  rcases Std.lt_trichotomy a b with before | rfl | after
  · exact bc (List.lt_trans greater before)
  · exact bc greater
  · exact ab after

/-- Texts without repetition are listed by increasing bytes when they are sorted. -/
theorem pairwise_sorted {texts : List Text} (distinct : texts.Nodup) :
    (sorted texts).Pairwise fun a b => Utf8.encode a < Utf8.encode b := by
  have ordered := Sorting.pairwise_sort le_total le_trans texts
  have apart : (sorted texts).Nodup := (Sorting.sort_perm le texts).nodup_iff.mpr distinct
  refine List.Pairwise.imp₂ ?_ ordered apart
  intro a b notAfter other
  refine Utf8.encode_lt_encode_iff.mpr ?_
  rcases Std.lt_trichotomy a b with before | same | after
  · exact before
  · exact (other same).elim
  · exact (le_iff.mp notAfter after).elim

end Phrasebook.Text
