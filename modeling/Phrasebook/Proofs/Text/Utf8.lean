import Mathlib.Data.List.Basic
import Mathlib.Tactic.SplitIfs
import Phrasebook.Text.Utf8

/-! The byte form of text is read back as it was written, so no two texts share one, and nothing else
is read as text. A byte below 128 is a character of its own, in the form of a text and in any other
bytes as they are shown. -/
namespace Phrasebook.Utf8

variable {value low high : Nat} {ranges : List (Nat × Nat)} {b : UInt8}

theorem pieces_cons (state : State) (b : UInt8) (rest : Bytes) :
    pieces state (b :: rest) = (feed state b.toNat).1 ++ pieces (feed state b.toNat).2 rest := rfl

theorem pieces_start (b : UInt8) (rest : Bytes) :
    pieces none (b :: rest) = (start b.toNat).1 ++ pieces (start b.toNat).2 rest := rfl

theorem feed_tail (least : low ≤ b.toNat) (most : b.toNat ≤ high) :
    feed (some ⟨value, (low, high) :: ranges⟩) b.toNat =
      if ranges.isEmpty then ([some (Char.ofNat (value * 64 + (b.toNat - 0x80)))], none)
      else ([], some ⟨value * 64 + (b.toNat - 0x80), ranges⟩) := by
  rw [feed, if_pos ⟨least, most⟩]

theorem pieces_last (least : low ≤ b.toNat) (most : b.toNat ≤ high) (rest : Bytes) :
    pieces (some ⟨value, [(low, high)]⟩) (b :: rest) =
      some (Char.ofNat (value * 64 + (b.toNat - 0x80))) :: pieces none rest := by
  rw [pieces, feed_tail least most]
  rfl

theorem pieces_next {range : Nat × Nat} (least : low ≤ b.toNat) (most : b.toNat ≤ high)
    (rest : Bytes) :
    pieces (some ⟨value, (low, high) :: range :: ranges⟩) (b :: rest) =
      pieces (some ⟨value * 64 + (b.toNat - 0x80), range :: ranges⟩) rest := by
  rw [pieces, feed_tail least most]
  rfl

theorem toNat_ofNat {n : Nat} (h : n < 256) : (UInt8.ofNat n).toNat = n :=
  UInt8.toNat_ofNat_of_lt h

/-- Only after four first bytes is the range of the second one narrower than that of the others. -/
theorem secondRange_fits {first b : Nat} (tail : 0x80 ≤ b ∧ b ≤ 0xbf)
    (e0 : first = 0xe0 → 0xa0 ≤ b) (ed : first = 0xed → b ≤ 0x9f) (f0 : first = 0xf0 → 0x90 ≤ b)
    (f4 : first = 0xf4 → b ≤ 0x8f) : (secondRange first).1 ≤ b ∧ b ≤ (secondRange first).2 := by
  unfold secondRange anyTail
  grind

theorem pieces_encodeChar (c : Char) (rest : Bytes) :
    pieces none (encodeChar c ++ rest) = some c :: pieces none rest := by
  have bounds : c.toNat < 0xd800 ∨ 0xdfff < c.toNat ∧ c.toNat < 0x110000 := c.valid
  have whole : Char.ofNat c.toNat = c := Char.ofNat_toNat c
  unfold encodeChar
  dsimp only
  generalize c.toNat = n at bounds whole
  split
  · rw [List.singleton_append, pieces_start, toNat_ofNat (by omega), start, if_pos ‹_›, whole]
    rfl
  split
  · have value : (0xc0 + n / 0x40 - 0xc0) * 64 + (0x80 + n / 1 % 0x40 - 0x80) = n := by omega
    rw [List.cons_append, List.singleton_append, pieces_start, toNat_ofNat (by omega), start,
      if_neg (by omega), if_pos (by omega), List.nil_append, anyTail,
      pieces_last (by rw [toNat_ofNat] <;> omega) (by rw [toNat_ofNat] <;> omega),
      toNat_ofNat (by omega), value, whole]
  split
  · have value : ((0xe0 + n / 0x1000 - 0xe0) * 64 + (0x80 + n / 0x40 % 0x40 - 0x80)) * 64 +
        (0x80 + n / 1 % 0x40 - 0x80) = n := by omega
    obtain ⟨least, most⟩ : (secondRange (0xe0 + n / 0x1000)).1 ≤ 0x80 + n / 0x40 % 0x40 ∧
        0x80 + n / 0x40 % 0x40 ≤ (secondRange (0xe0 + n / 0x1000)).2 := by
      apply secondRange_fits <;> omega
    rw [List.cons_append, List.cons_append, List.singleton_append, pieces_start,
      toNat_ofNat (by omega), start, if_neg (by omega), if_neg (by omega), if_pos (by omega),
      List.nil_append, pieces_next (by rwa [toNat_ofNat (by omega)])
        (by rwa [toNat_ofNat (by omega)]), anyTail,
      pieces_last (by rw [toNat_ofNat] <;> omega) (by rw [toNat_ofNat] <;> omega),
      toNat_ofNat (by omega), toNat_ofNat (by omega), value, whole]
  · have value : (((0xf0 + n / 0x40000 - 0xf0) * 64 + (0x80 + n / 0x1000 % 0x40 - 0x80)) * 64 +
        (0x80 + n / 0x40 % 0x40 - 0x80)) * 64 + (0x80 + n / 1 % 0x40 - 0x80) = n := by omega
    obtain ⟨least, most⟩ : (secondRange (0xf0 + n / 0x40000)).1 ≤ 0x80 + n / 0x1000 % 0x40 ∧
        0x80 + n / 0x1000 % 0x40 ≤ (secondRange (0xf0 + n / 0x40000)).2 := by
      apply secondRange_fits <;> omega
    rw [List.cons_append, List.cons_append, List.cons_append, List.singleton_append, pieces_start,
      toNat_ofNat (by omega), start, if_neg (by omega), if_neg (by omega), if_neg (by omega),
      if_pos (by omega), List.nil_append, pieces_next (by rwa [toNat_ofNat (by omega)])
        (by rwa [toNat_ofNat (by omega)]), anyTail,
      pieces_next (by rw [toNat_ofNat] <;> omega) (by rw [toNat_ofNat] <;> omega),
      pieces_last (by rw [toNat_ofNat] <;> omega) (by rw [toNat_ofNat] <;> omega),
      toNat_ofNat (by omega), toNat_ofNat (by omega), toNat_ofNat (by omega), value, whole]

theorem pieces_encode (s : Text) : pieces none (encode s) = s.map some := by
  induction s with
  | nil => rfl
  | cons c rest ih =>
      have spelled : encode (c :: rest) = encodeChar c ++ encode rest := List.flatMap_cons
      rw [spelled, pieces_encodeChar, ih, List.map_cons]

theorem decode?_encode (s : Text) : decode? (encode s) = some s := by
  rw [decode?, pieces_encode]
  induction s with
  | nil => rfl
  | cons c rest ih =>
      rw [List.map_cons, List.mapM_cons, ih]
      rfl

theorem decodeLossy_encode (s : Text) : decodeLossy (encode s) = s := by
  rw [decodeLossy, pieces_encode, List.map_map]
  exact List.map_id s

theorem encode_injective : Function.Injective encode := by
  intro s s' same
  have read := decode?_encode s
  rw [same, decode?_encode] at read
  exact (Option.some.inj read).symm

/-- A begun sequence that is read without fault goes on with a byte of its range. -/
theorem exists_of_pieces_some {bytes : Bytes} {s : Text}
    (read : pieces (some ⟨value, (low, high) :: ranges⟩) bytes = s.map some) :
    ∃ b rest, bytes = b :: rest ∧ low ≤ b.toNat ∧ b.toNat ≤ high ∧
      pieces (some ⟨value, (low, high) :: ranges⟩) (b :: rest) = s.map some := by
  cases bytes with
  | nil =>
      cases s with
      | nil => cases read
      | cons c s => cases read
  | cons b rest =>
      by_cases inside : low ≤ b.toNat ∧ b.toNat ≤ high
      · exact ⟨b, rest, rfl, inside.1, inside.2, read⟩
      · -- the byte that breaks the sequence off tells a fault
        rw [pieces, feed, if_neg inside] at read
        cases s with
        | nil => cases read
        | cons c s => cases read

theorem toNat_charOfNat {n : Nat} (valid : n < 0xd800 ∨ 0xdfff < n ∧ n < 0x110000) :
    (Char.ofNat n).toNat = n := by
  have isChar : n.isValidChar := valid
  rw [Char.ofNat, dif_pos isChar]
  rfl

theorem encode_of_cons {c : Char} {rest : Bytes} {s : Text}
    (read : some c :: pieces none rest = s.map some)
    (further : ∀ s', pieces none rest = s'.map some → encode s' = rest) :
    encode s = encodeChar c ++ rest := by
  cases s with
  | nil => cases read
  | cons d s =>
      obtain ⟨same, others⟩ := List.cons.inj read
      cases same
      rw [← further s others]
      rfl

theorem ofNat_eq {n : Nat} (h : n = b.toNat) : UInt8.ofNat n = b := by
  rw [h, UInt8.ofNat_toNat]

theorem secondRange_bounds {first b : Nat} (least : (secondRange first).1 ≤ b)
    (most : b ≤ (secondRange first).2) :
    0x80 ≤ b ∧ b ≤ 0xbf ∧ (first = 0xe0 → 0xa0 ≤ b) ∧ (first = 0xed → b ≤ 0x9f) ∧
      (first = 0xf0 → 0x90 ≤ b) ∧ (first = 0xf4 → b ≤ 0x8f) := by
  unfold secondRange anyTail at least most
  grind

theorem encode_of_pieces {bytes : Bytes} {s : Text} (read : pieces none bytes = s.map some) :
    encode s = bytes := by
  induction hn : bytes.length using Nat.strongRecOn generalizing bytes s with
  | ind n ih =>
      subst hn
      cases bytes with
      | nil =>
          rw [List.map_eq_nil_iff.mp (read.symm : s.map some = [])]
          rfl
      | cons b rest =>
          rw [pieces_start, start] at read
          split_ifs at read with one two three four
          · refine (encode_of_cons read fun s' h => ih _ (Nat.lt_succ_self _) h rfl).trans ?_
            have value := @toNat_charOfNat b.toNat (by omega)
            rw [encodeChar]
            dsimp only
            rw [value, if_pos one, UInt8.ofNat_toNat]
            rfl
          · obtain ⟨x, rest, rfl, leastX, mostX, read⟩ := exists_of_pieces_some read
            rw [pieces_last leastX mostX] at read
            refine (encode_of_cons read fun s' h => ih _ (by simp only [List.length_cons]; omega) h rfl).trans ?_
            rw [encodeChar, toNat_charOfNat (by omega)]
            dsimp only
            rw [if_neg (by omega), if_pos (by omega), ofNat_eq (b := b) (by omega),
              ofNat_eq (b := x) (by omega)]
            rfl
          · obtain ⟨x, rest, rfl, leastX, mostX, read⟩ := exists_of_pieces_some read
            rw [pieces_next leastX mostX] at read
            obtain ⟨y, rest, rfl, leastY, mostY, read⟩ := exists_of_pieces_some read
            rw [pieces_last leastY mostY] at read
            refine (encode_of_cons read fun s' h => ih _ (by simp only [List.length_cons]; omega) h rfl).trans ?_
            have bounds := secondRange_bounds leastX mostX
            rw [encodeChar, toNat_charOfNat (by omega)]
            dsimp only
            rw [if_neg (by omega), if_neg (by omega), if_pos (by omega),
              ofNat_eq (b := b) (by omega), ofNat_eq (b := x) (by omega),
              ofNat_eq (b := y) (by omega)]
            rfl
          · obtain ⟨x, rest, rfl, leastX, mostX, read⟩ := exists_of_pieces_some read
            rw [pieces_next leastX mostX] at read
            obtain ⟨y, rest, rfl, leastY, mostY, read⟩ := exists_of_pieces_some read
            rw [pieces_next leastY mostY] at read
            obtain ⟨z, rest, rfl, leastZ, mostZ, read⟩ := exists_of_pieces_some read
            rw [pieces_last leastZ mostZ] at read
            refine (encode_of_cons read fun s' h => ih _ (by simp only [List.length_cons]; omega) h rfl).trans ?_
            have bounds := secondRange_bounds leastX mostX
            rw [encodeChar, toNat_charOfNat (by omega)]
            dsimp only
            rw [if_neg (by omega), if_neg (by omega), if_neg (by omega),
              ofNat_eq (b := b) (by omega), ofNat_eq (b := x) (by omega),
              ofNat_eq (b := y) (by omega), ofNat_eq (b := z) (by omega)]
            rfl
          · cases s <;> cases read

theorem eq_map_some_of_mapM {α : Type} {found : List (Option α)} {s : List α}
    (h : found.mapM id = some s) : found = s.map some := by
  induction found generalizing s with
  | nil =>
      cases h
      rfl
  | cons first rest ih =>
      rw [List.mapM_cons] at h
      obtain ⟨c, here, h⟩ := Option.bind_eq_some_iff.mp h
      obtain ⟨s', others, h⟩ := Option.bind_eq_some_iff.mp h
      cases h
      rw [List.map_cons, ← ih others]
      exact congrArg (· :: rest) here

theorem decode?_eq_some_iff {bytes : Bytes} {s : Text} :
    decode? bytes = some s ↔ encode s = bytes := by
  constructor
  · intro read
    exact encode_of_pieces (eq_map_some_of_mapM read)
  · rintro rfl
    exact decode?_encode s

/-- Where nothing is replaced, bytes are shown as the text whose form they are. -/
theorem decodeLossy_eq_iff {bytes : Bytes} {s : Text} (clear : '\uFFFD' ∉ s) :
    decodeLossy bytes = s ↔ bytes = encode s := by
  constructor
  · intro shown
    refine (encode_of_pieces ?_).symm
    rw [← shown, decodeLossy, List.map_map]
    refine ((List.map_id _).symm.trans (List.map_congr_left fun piece there => ?_))
    cases piece with
    | some c => rfl
    | none =>
        -- a fault would be shown
        rw [← shown] at clear
        exact (clear (List.mem_map.mpr ⟨none, there, rfl⟩)).elim
  · rintro rfl
    exact decodeLossy_encode s

theorem decodeLossy_eq_nil_iff {bytes : Bytes} : decodeLossy bytes = [] ↔ bytes = [] :=
  decodeLossy_eq_iff List.not_mem_nil

/-- All bytes of a longer sequence have the high bit. -/
theorem ascii_mem_encodeChar (c : Char) :
    ∀ b ∈ encodeChar c, b.toNat < 0x80 → b.toNat = c.toNat := by
  have bounds : c.toNat < 0xd800 ∨ 0xdfff < c.toNat ∧ c.toNat < 0x110000 := c.valid
  unfold encodeChar
  dsimp only
  generalize c.toNat = n at bounds
  split
  · intro b h _
    rw [List.mem_singleton.mp h, toNat_ofNat (by omega)]
  repeat' split
  all_goals
    simp only [List.mem_cons, List.not_mem_nil, or_false, forall_eq_or_imp, forall_eq]
    and_intros
    all_goals
      rw [toNat_ofNat (by omega)]
      omega

theorem mem_of_mem_encode {s : Text} {c : Char} (ascii : c.toNat < 0x80)
    (h : UInt8.ofNat c.toNat ∈ encode s) : c ∈ s := by
  obtain ⟨d, there, inside⟩ := List.mem_flatMap.mp h
  have same := ascii_mem_encodeChar d _ inside (by rw [toNat_ofNat] <;> omega)
  rw [toNat_ofNat (by omega)] at same
  rwa [← Char.toNat_inj.mp same] at there

theorem encodeChar_ne_nil (c : Char) : encodeChar c ≠ [] := by
  unfold encodeChar
  dsimp only
  repeat' split
  all_goals exact List.cons_ne_nil _ _

/-- What starts with the byte of an ASCII character starts with the character. -/
theorem head_of_encode {s : Text} {c : Char} (ascii : c.toNat < 0x80)
    (h : (encode s).head? = some (UInt8.ofNat c.toNat)) : ∃ rest, s = c :: rest := by
  cases s with
  | nil => cases h
  | cons d rest =>
      obtain ⟨b, others, spelled⟩ := List.exists_cons_of_ne_nil (encodeChar_ne_nil d)
      have first : encode (d :: rest) = encodeChar d ++ encode rest := List.flatMap_cons
      rw [first, spelled, List.cons_append, List.head?_cons, Option.some.injEq] at h
      have there : c ∈ [d] := by
        apply mem_of_mem_encode ascii
        rw [encode, List.flatMap_singleton, spelled, h]
        exact List.mem_cons_self
      exact ⟨rest, by rw [List.mem_singleton.mp there]⟩

/-- The least code point that a begun sequence can come to. -/
def least (value : Nat) (ranges : List (Nat × Nat)) : Nat :=
  ranges.foldl (fun value range => value * 64 + (range.1 - 0x80)) value

theorem least_mono {value value' : Nat} (more : value ≤ value') (ranges : List (Nat × Nat)) :
    least value ranges ≤ least value' ranges := by
  induction ranges generalizing value value' with
  | nil => exact more
  | cons range ranges ih =>
      simp only [least, List.foldl_cons]
      refine ih ?_
      omega

/-- A begun sequence that goes on with bytes above the ASCII characters and will be none itself. -/
structure Pending.Long (p : Pending) : Prop where
  unfinished : p.ranges ≠ []
  tails : ∀ range ∈ p.ranges, 0x80 ≤ range.1
  value : 0x80 ≤ least p.value p.ranges

theorem long_start {b : Nat} {p : Pending} (begun : (start b).2 = some p) : p.Long := by
  have narrowed : 0x80 ≤ (secondRange b).1 ∧ (b = 0xe0 → 0xa0 ≤ (secondRange b).1) ∧
      (b = 0xf0 → 0x90 ≤ (secondRange b).1) := by
    unfold secondRange anyTail
    grind
  rw [start] at begun
  split_ifs at begun with one two three four
  all_goals
    simp only [Option.some.injEq] at begun
    subst begun
    refine ⟨List.cons_ne_nil _ _, by simp [anyTail, narrowed.1], ?_⟩
    simp only [least, List.foldl_cons, List.foldl_nil, anyTail]
    omega

theorem long_feed {state : State} (long : ∀ p ∈ state, p.Long) {b : Nat} {p : Pending}
    (begun : (feed state b).2 = some p) : p.Long := by
  unfold feed at begun
  split at begun
  · rename_i value low high ranges
    obtain ⟨-, tails, large⟩ := long _ rfl
    split at begun
    · rename_i inside
      dsimp only at begun
      split at begun
      · cases begun
      · rename_i more
        obtain rfl := Option.some.inj begun
        refine ⟨by simpa using more, fun range there => tails range (List.mem_cons_of_mem _ there), ?_⟩
        simp only [least, List.foldl_cons] at large
        refine Nat.le_trans large (least_mono ?_ ranges)
        dsimp only
        omega
    · exact long_start begun
  · exact long_start begun

/-- An ASCII character stands for itself, after what a sequence may have left open. -/
theorem feed_ascii {state : State} (long : ∀ p ∈ state, p.Long) {b : Nat} (ascii : b < 0x80) :
    feed state b = (pieces state [] ++ [some (Char.ofNat b)], none) := by
  have single : start b = ([some (Char.ofNat b)], none) := if_pos ascii
  cases state with
  | none => exact single
  | some p =>
      obtain ⟨unfinished, tails, -⟩ := long p rfl
      obtain ⟨value, ranges⟩ := p
      obtain ⟨range, ranges, rfl⟩ := List.exists_cons_of_ne_nil unfinished
      have above := tails range List.mem_cons_self
      rw [feed, if_neg (by omega), single]
      rfl

theorem pieces_append_ascii {state : State} (long : ∀ p ∈ state, p.Long) (bytes : Bytes) {b : UInt8}
    (ascii : b.toNat < 0x80) (rest : Bytes) : pieces state (bytes ++ b :: rest) =
      pieces state bytes ++ some (Char.ofNat b.toNat) :: pieces none rest := by
  induction bytes generalizing state with
  | nil =>
      rw [List.nil_append, pieces_cons, feed_ascii long ascii, List.append_assoc]
      rfl
  | cons first bytes ih =>
      rw [List.cons_append, pieces_cons, pieces_cons, ih fun p begun => long_feed long begun,
        List.append_assoc]

theorem toNat_charOfNat_or (n : Nat) : (Char.ofNat n).toNat = n ∨ Char.ofNat n = '\x00' := by
  by_cases valid : n.isValidChar
  · exact .inl (toNat_charOfNat valid)
  · exact .inr (dif_neg valid)

/-- What an ASCII character other than the null character comes from is its byte. -/
theorem mem_feed_ascii {state : State} (long : ∀ p ∈ state, p.Long) {b : Nat} {c : Char}
    (ascii : c.toNat < 0x80) (visible : c ≠ '\x00') (there : some c ∈ (feed state b).1) :
    c.toNat = b := by
  have starts : some c ∈ (start b).1 → c.toNat = b := by
    intro there
    rw [start] at there
    split_ifs at there
    all_goals simp only [List.mem_singleton, List.not_mem_nil, Option.some.injEq, reduceCtorEq] at there
    subst there
    exact (toNat_charOfNat_or b).resolve_right visible
  have long_ne : ∀ n, 0x80 ≤ n → c ≠ Char.ofNat n := by
    rintro n large rfl
    have value := (toNat_charOfNat_or n).resolve_right visible
    omega
  unfold feed at there
  split at there
  · rename_i value low high ranges
    obtain ⟨-, tails, large⟩ := long _ rfl
    split at there
    · rename_i inside
      dsimp only at there
      split at there
      · rename_i last
        obtain rfl := List.isEmpty_iff.mp last
        simp only [List.mem_singleton, Option.some.injEq] at there
        simp only [least, List.foldl_cons, List.foldl_nil] at large
        refine (long_ne _ ?_ there).elim
        omega
      · cases there
    · rcases List.mem_cons.mp there with fault | found
      · cases fault
      · exact starts found
  · exact starts there

theorem mem_pieces_ascii {state : State} (long : ∀ p ∈ state, p.Long) {bytes : Bytes} {c : Char}
    (ascii : c.toNat < 0x80) (visible : c ≠ '\x00') (there : some c ∈ pieces state bytes) :
    UInt8.ofNat c.toNat ∈ bytes := by
  induction bytes generalizing state with
  | nil =>
      rw [pieces] at there
      split at there <;> simp at there
  | cons b rest ih =>
      rw [pieces_cons, List.mem_append] at there
      rcases there with here | later
      · rw [mem_feed_ascii long ascii visible here, UInt8.ofNat_toNat]
        exact List.mem_cons_self
      · exact List.mem_cons_of_mem _ (ih (fun p begun => long_feed long begun) later)

theorem mem_of_mem_decodeLossy {bytes : Bytes} {c : Char} (ascii : c.toNat < 0x80)
    (visible : c ≠ '\x00') (there : c ∈ decodeLossy bytes) : UInt8.ofNat c.toNat ∈ bytes := by
  obtain ⟨piece, found, shown⟩ := List.mem_map.mp there
  cases piece with
  | none =>
      subst shown
      simp at ascii
  | some d =>
      subst shown
      exact mem_pieces_ascii (by simp) ascii visible found

/-- What is shown of bytes is shown on both sides of an ASCII character. -/
theorem decodeLossy_append_ascii (bytes rest : Bytes) {b : UInt8} (ascii : b.toNat < 0x80) :
    decodeLossy (bytes ++ b :: rest) =
      decodeLossy bytes ++ Char.ofNat b.toNat :: decodeLossy rest := by
  rw [decodeLossy, pieces_append_ascii (by simp) bytes ascii, List.map_append, List.map_cons]
  rfl

end Phrasebook.Utf8
