import Mathlib.Data.List.Infix
import Phrasebook.Toml.Document

/-! What a reader leaves is an end of the text that it was given. The statement goes through the
steps of a reading, so that each reader follows from its parts. -/
namespace Phrasebook.Toml

/-- Whatever a reading of `s` gives, what `left` picks out of it is an end of `s`. -/
def Leaves {α : Type} (s : Text) (left : α → Text) (reading : Option α) : Prop :=
  ∀ a, reading = some a → left a <:+ s

/-- A reader that leaves an end of every text. -/
abbrev Forward {α : Type} (read : Reader α) : Prop := ∀ s, Leaves s Prod.snd (read s)

namespace Leaves

variable {α β : Type} {s t : Text} {left : α → Text} {left' : β → Text}

theorem nothing : Leaves s left none := fun _ h => nomatch h

theorem found {a : α} (h : left a <:+ s) : Leaves s left (some a) := by
  rintro _ ⟨⟩
  exact h

theorem mono {reading : Option α} (h : Leaves t left reading) (le : t <:+ s) :
    Leaves s left reading := fun a there => (h a there).trans le

theorem bind {x : Option α} {f : α → Option β} (hx : Leaves s left x)
    (hf : ∀ a, left a <:+ s → Leaves s left' (f a)) : Leaves s left' (x >>= f) := by
  intro b h
  obtain ⟨a, there, more⟩ := Option.bind_eq_some_iff.mp h
  exact hf a (hx a there) b more

theorem compute {x : Option α} {f : α → Option β} (hf : ∀ a, Leaves s left' (f a)) :
    Leaves s left' (x >>= f) := by
  intro b h
  obtain ⟨a, -, more⟩ := Option.bind_eq_some_iff.mp h
  exact hf a b more

theorem map {x : Option α} {f : α → β} (hx : Leaves s left x)
    (hf : ∀ a, left' (f a) = left a) : Leaves s left' (x.map f) := by
  intro b h
  obtain ⟨a, there, same⟩ := Option.map_eq_some_iff.mp h
  rw [← same, hf]
  exact hx a there

end Leaves

theorem skipBlanks_suffix (s : Text) : skipBlanks s <:+ s := List.dropWhile_suffix _

theorem leaves_lineEnd? (s : Text) : Leaves s id (lineEnd? s) := by
  unfold lineEnd?
  split
  · exact .found (List.suffix_cons _ _)
  · exact .found ⟨['\r', '\n'], rfl⟩
  · exact .nothing

/-! ### Strings and keys -/

theorem forward_codePoint (count : Nat) : Forward (escape.codePoint count) := by
  intro s
  unfold escape.codePoint
  simp only
  split
  · exact .nothing
  · exact .compute fun _ => .found (List.drop_suffix _ _)

theorem forward_escape : Forward escape := by
  intro s
  unfold escape
  split
  case h_8 rest => exact (forward_codePoint 4 rest).mono (List.suffix_cons _ _)
  case h_9 rest => exact (forward_codePoint 8 rest).mono (List.suffix_cons _ _)
  case h_10 => exact .nothing
  all_goals exact .found (List.suffix_cons _ _)

theorem forward_basicBody (fuel : Nat) : Forward (basicBody fuel) := by
  intro s
  induction fuel generalizing s with
  | zero => exact .nothing
  | succ fuel ih =>
      cases s with
      | nil => exact .nothing
      | cons c s =>
          have tail : s <:+ c :: s := List.suffix_cons c s
          have body : ∀ {t : Text}, t <:+ c :: s → Leaves (c :: s) Prod.snd (basicBody fuel t) :=
            fun le => (ih _).mono le
          rw [basicBody]
          split
          · exact .found tail
          split
          · exact ((forward_escape s).mono tail).bind fun _ escaped =>
              (body escaped).bind fun _ last => .found last
          split
          · exact .nothing
          · exact (body tail).bind fun _ last => .found last

theorem forward_literalBody : Forward literalBody := by
  intro s
  induction s with
  | nil => exact .nothing
  | cons c s ih =>
      rw [literalBody]
      split
      · exact .found (List.suffix_cons _ _)
      split
      · exact .nothing
      · exact (ih.mono (List.suffix_cons _ _)).map fun _ => rfl

theorem forward_closing (quote : Char) : Forward (closing quote) := by
  intro s
  unfold closing
  simp only
  split
  · exact .nothing
  · exact .found (List.drop_suffix _ _)

theorem skipLines_suffix (s : Text) : joinLines.skipLines s <:+ s := by
  induction s using joinLines.skipLines.induct with
  | case1 rest ih =>
      rw [joinLines.skipLines]
      exact ih.trans ⟨['\r', '\n'], rfl⟩
  | case2 c rest _ blank ih =>
      rw [joinLines.skipLines, if_pos blank]
      · exact ih.trans (List.suffix_cons _ _)
      · assumption
  | case3 c rest _ solid =>
      rw [joinLines.skipLines, if_neg solid]
      assumption
  | case4 => exact List.suffix_rfl

theorem leaves_joinLines (s : Text) : Leaves s id (joinLines s) := by
  intro rest h
  obtain ⟨after, ended, rfl⟩ := Option.map_eq_some_iff.mp h
  have line := leaves_lineEnd? _ after ended
  exact ((skipLines_suffix after).trans line).trans (skipBlanks_suffix s)

theorem forward_linesBody (quote : Char) (fuel : Nat) : Forward (linesBody quote fuel) := by
  intro s
  induction fuel generalizing s with
  | zero => exact .nothing
  | succ fuel ih =>
      have body : ∀ {t : Text}, t <:+ s → Leaves s Prod.snd (linesBody quote fuel t) :=
        fun le => (ih _).mono le
      rw [linesBody.eq_def]
      simp only
      split
      · rename_i closed h
        exact .found (forward_closing quote s closed h)
      split
      · exact .nothing
      · exact (body (List.suffix_cons _ _)).map fun _ => rfl
      · exact (body ⟨['\r', '\n'], rfl⟩).map fun _ => rfl
      · rename_i c rest _ _ _
        have tail : rest <:+ c :: rest := List.suffix_cons c rest
        split
        · split
          · rename_i joined h
            exact body ((leaves_joinLines rest joined h).trans tail)
          · exact ((forward_escape rest).mono tail).bind fun _ escaped =>
              (body escaped).bind fun _ last => .found last
        split
        · exact .nothing
        · exact (body tail).map fun _ => rfl

theorem forward_lines (quote : Char) : Forward (lines quote) := by
  intro s
  refine (forward_linesBody quote _ _).mono ?_
  cases h : lineEnd? s with
  | none => exact List.suffix_rfl
  | some rest => exact leaves_lineEnd? s rest h

theorem forward_string : Forward string := by
  intro s
  unfold string
  split
  · exact (forward_lines _ _).mono ⟨['"', '"', '"'], rfl⟩
  · exact (forward_lines _ _).mono ⟨['\'', '\'', '\''], rfl⟩
  · exact (forward_basicBody _ _).mono (List.suffix_cons _ _)
  · exact (forward_literalBody _).mono (List.suffix_cons _ _)
  · exact .nothing

theorem forward_keySegment : Forward keySegment := by
  intro s
  unfold keySegment
  split
  · exact (forward_basicBody _ _).mono (List.suffix_cons _ _)
  · exact (forward_literalBody _).mono (List.suffix_cons _ _)
  · simp only
    split
    · exact .nothing
    · exact .found (List.dropWhile_suffix _)

theorem forward_keySegments (fuel : Nat) : Forward (key.go fuel) := by
  intro s
  induction fuel generalizing s with
  | zero => exact .nothing
  | succ fuel ih =>
      rw [key.go]
      refine ((forward_keySegment _).mono (skipBlanks_suffix s)).bind fun (segment, rest) inside => ?_
      have blanks := (skipBlanks_suffix rest).trans inside
      simp only
      split
      · rename_i after h
        have tail : after <:+ s := (List.suffix_cons '.' after).trans (h ▸ blanks)
        exact ((ih after).mono tail).bind fun _ last => .found last
      · exact .found blanks

theorem forward_key : Forward key := by
  intro s
  refine (forward_keySegments _ s).bind fun (segments, rest) inside => ?_
  simp only
  split
  · exact .found inside
  · exact .nothing

/-! ### Values -/

theorem forward_field (width : Nat) : Forward (field width) := by
  intro s
  unfold field
  simp only
  split
  · exact .compute fun _ => .found (List.drop_suffix _ _)
  · exact .nothing

theorem leaves_after (c : Char) (s : Text) : Leaves s id (after c s) := by
  unfold after
  split
  · split
    · exact .found (List.suffix_cons _ _)
    · exact .nothing
  · exact .nothing

theorem leaves_fieldAfter (c : Char) (width : Nat) (s : Text) :
    Leaves s Prod.snd ((after c s).bind (field width)) :=
  (leaves_after c s).bind fun _ inside => (forward_field width _).mono inside

theorem leaves_date (s : Text) : Leaves s id (date s) := by
  unfold date
  refine (forward_field 4 s).bind fun _ year => ?_
  refine ((leaves_fieldAfter '-' 2 _).mono year).bind fun _ month => ?_
  refine ((leaves_fieldAfter '-' 2 _).mono month).bind fun _ day => ?_
  simp only
  split
  · exact .found day
  · exact .nothing

theorem leaves_time (r : ClockRule) (s : Text) : Leaves s id (time r s) := by
  unfold time
  refine (forward_field 2 s).bind fun _ hour => ?_
  refine ((leaves_fieldAfter ':' 2 _).mono hour).bind fun _ minute => ?_
  refine ((leaves_fieldAfter ':' 2 _).mono minute).bind fun (_, rest) second => ?_
  simp only
  split
  · split
    · rename_i fraction
      split
      · exact .nothing
      · exact .found ((List.dropWhile_suffix _).trans ((List.suffix_cons _ _).trans second))
    · exact .found second
  · exact .nothing

theorem leaves_offset (r : ClockRule) (s : Text) : Leaves s id (offset r s) := by
  unfold offset
  split
  case h_1 => exact .found (List.suffix_cons _ _)
  case h_2 => exact .found (List.suffix_cons _ _)
  case h_5 => exact .found List.suffix_rfl
  -- An hour and a minute follow either sign.
  all_goals
    refine ((forward_field 2 _).mono (List.suffix_cons _ _)).bind fun _ hour => ?_
    refine ((leaves_fieldAfter ':' 2 _).mono hour).bind fun _ minute => ?_
    simp only
    split
    · exact .found minute
    · exact .nothing

theorem leaves_moment (r : ClockRule) (s : Text) : Leaves s id (moment r s) := by
  have clock : ∀ {t : Text}, t <:+ s → Leaves s id ((time r t).bind (offset r)) := fun le =>
    ((leaves_time r _).mono le).bind fun _ inside => (leaves_offset r _).mono inside
  unfold moment
  split
  · rename_i rest h
    have day : rest <:+ s := leaves_date s rest h
    split
    · exact clock ((List.suffix_cons _ _).trans day)
    · exact clock ((List.suffix_cons _ _).trans day)
    · split
      · exact clock ((List.suffix_cons _ _).trans day)
      · exact .found day
    · exact .found day
  · exact leaves_time r s

theorem forward_number : Forward number := by
  intro s
  unfold number
  split
  · exact (leaves_moment .plain s).map fun _ => rfl
  simp only
  split
  · exact .found (List.dropWhile_suffix _)
  split
  · exact .found (List.dropWhile_suffix _)
  · exact .nothing

theorem leaves_skipFiller (inComment : Bool) (s : Text) : Leaves s id (skipFiller inComment s) := by
  fun_induction skipFiller inComment s with
  | case1 => exact .found List.suffix_rfl
  | case2 inComment rest ih => exact ih.mono ⟨['\r', '\n'], rfl⟩
  | case3 inComment rest _ ih => exact ih.mono (List.suffix_cons _ _)
  | case4 => exact .nothing
  | case5 c rest _ _ _ ih => exact ih.mono (List.suffix_cons _ _)
  | case6 inComment c rest _ _ _ _ ih => exact ih.mono (List.suffix_cons _ _)
  | case7 inComment rest _ _ _ _ ih => exact ih.mono (List.suffix_cons _ _)
  | case8 => exact .found List.suffix_rfl

section Nested

variable {item : Reader Value} (hitem : Forward item)

include hitem

theorem forward_arrayItems (fuel : Nat) : Forward (arrayItems item fuel) := by
  intro s
  induction fuel generalizing s with
  | zero => exact .nothing
  | succ fuel ih =>
      rw [arrayItems]
      refine (leaves_skipFiller false s).bind fun first inside => ?_
      split
      · exact .found ((List.suffix_cons _ _).trans inside)
      refine ((hitem first).mono inside).bind fun (v, rest) past => ?_
      refine ((leaves_skipFiller false rest).mono past).bind fun next there => ?_
      simp only
      split
      · rename_i after
        have tail : after <:+ s := (List.suffix_cons ',' after).trans there
        exact ((ih after).mono tail).bind fun _ last => .found last
      · exact .found ((List.suffix_cons _ _).trans there)
      · exact .nothing

theorem forward_pair : Forward (pair item) := by
  intro s
  refine (forward_key s).bind fun found inside => ?_
  split
  · rename_i path rest
    have tail : skipBlanks rest <:+ s :=
      (skipBlanks_suffix rest).trans ((List.suffix_cons '=' rest).trans inside)
    exact ((hitem _).mono tail).bind fun _ last => .found last
  · exact .nothing

theorem forward_inlinePairs (fuel : Nat) : Forward (inlinePairs item fuel) := by
  intro s
  induction fuel generalizing s with
  | zero => exact .nothing
  | succ fuel ih =>
      rw [inlinePairs]
      refine (forward_pair hitem s).bind fun (p, rest) inside => ?_
      have blanks := (skipBlanks_suffix rest).trans inside
      simp only
      split
      · rename_i after h
        have tail : after <:+ s := (List.suffix_cons ',' after).trans (h ▸ blanks)
        exact ((ih after).mono tail).bind fun _ last => .found last
      · rename_i after h
        exact .found ((List.suffix_cons '}' after).trans (h ▸ blanks))
      · exact .nothing

theorem forward_inlineTable : Forward (inlineTable item) := by
  intro s
  have blanks := skipBlanks_suffix s
  have finish : ∀ found : List Members.Pair × Text, found.2 <:+ s →
      Leaves s Prod.snd (do
        let members ← Members.putPairs found.1 []
        some (Value.table (memberValues members), found.2)) :=
    fun _ inside => .compute fun _ => .found inside
  unfold inlineTable
  simp only
  split
  · rename_i rest h
    exact finish ([], rest) ((List.suffix_cons '}' rest).trans (h ▸ blanks))
  · exact ((forward_inlinePairs hitem _ _).mono blanks).bind finish

end Nested

theorem forward_value (depth : Nat) : Forward (value depth) := by
  induction depth using Nat.strong_induction_on with
  | _ depth ih =>
      intro s
      unfold value
      split
      · exact (forward_string _).map fun _ => rfl
      · exact (forward_string _).map fun _ => rfl
      · split
        · exact .nothing
        · have items := forward_arrayItems (ih _ (Nat.lt_succ_self _))
          exact ((items _ _).mono (List.suffix_cons _ _)).map fun _ => rfl
      · split
        · exact .nothing
        · exact (forward_inlineTable (ih _ (Nat.lt_succ_self _)) _).mono (List.suffix_cons _ _)
      · exact .found ⟨['t', 'r', 'u', 'e'], rfl⟩
      · exact .found ⟨['f', 'a', 'l', 's', 'e'], rfl⟩
      · exact forward_number _

/-! ### Lines -/

theorem leaves_endOfLine (s : Text) : Leaves s id (endOfLine s) := by
  have blanks := skipBlanks_suffix s
  unfold endOfLine
  split
  · exact .found (List.nil_suffix)
  · rename_i rest h
    have comment : (rest.dropWhile fun c => !isControl c) <:+ s :=
      (List.dropWhile_suffix _).trans ((List.suffix_cons '#' rest).trans (h ▸ blanks))
    simp only
    split
    · exact .found (List.nil_suffix)
    · exact (leaves_lineEnd? _).mono comment
  · exact (leaves_lineEnd? _).mono blanks

theorem forward_header : Forward header := by
  intro s
  unfold header
  split
  · rename_i rest
    have tail : rest <:+ '[' :: '[' :: rest := ⟨['[', '['], rfl⟩
    refine ((forward_key rest).mono tail).bind fun found inside => ?_
    split
    · exact .found (List.IsSuffix.trans ⟨[']', ']'], rfl⟩ inside)
    · exact .nothing
  · rename_i rest _
    refine ((forward_key rest).mono (List.suffix_cons _ _)).bind fun found inside => ?_
    split
    · exact .found ((List.suffix_cons _ _).trans inside)
    · exact .nothing
  · exact .nothing

end Phrasebook.Toml
