import Mathlib.Data.List.DropRight
import Mathlib.Data.List.Infix
import Phrasebook.Text.Basic

/-! The segments of a list between occurrences of a separator, which none of them holds, the list
that segments make when they are joined again, and what is left of a list that is trimmed. A list
ends with another behind a separator where its segments end with those of the other. -/
namespace Phrasebook

theorem Cut.not_mem_segment {α : Type} [BEq α] [LawfulBEq α] {sep : α} {s part : List α}
    (h : part ∈ s.splitOn sep) : sep ∉ part := by
  induction s generalizing part with
  | nil =>
      have empty : part = [] := by simpa using h
      simp [empty]
  | cons c rest ih =>
      rw [List.splitOn_cons_eq_if_modifyHead] at h
      by_cases same : c = sep
      · rw [if_pos (beq_iff_eq.mpr same)] at h
        rcases List.mem_cons.mp h with rfl | later
        · exact List.not_mem_nil
        · exact ih later
      · rw [if_neg (by simpa using same)] at h
        obtain ⟨first, others, parts⟩ := List.exists_cons_of_ne_nil (List.splitOn_ne_nil sep rest)
        rw [parts, List.modifyHead_cons] at h
        rcases List.mem_cons.mp h with rfl | later
        · have hfirst : sep ∉ first := ih (by rw [parts]; exact List.mem_cons_self)
          simp [Ne.symm same, hfirst]
        · exact ih (by rw [parts]; exact List.mem_cons_of_mem _ later)

/-- Characters can be replaced before or after a cut when the separator stays apart from others. -/
theorem Cut.splitOn_map {α : Type} [BEq α] [LawfulBEq α] {f : α → α} {sep : α}
    (apart : ∀ c, f c = sep ↔ c = sep) (s : List α) :
    (s.map f).splitOn sep = (s.splitOn sep).map (·.map f) := by
  induction s with
  | nil => simp
  | cons c rest ih =>
      rw [List.map_cons, List.splitOn_cons_eq_if_modifyHead, List.splitOn_cons_eq_if_modifyHead, ih]
      by_cases same : c = sep
      · rw [if_pos (beq_iff_eq.mpr same), if_pos (beq_iff_eq.mpr ((apart c).mpr same)),
          List.map_cons, List.map_nil]
      · have other : f c ≠ sep := fun h => same ((apart c).mp h)
        rw [if_neg (by simpa using other), if_neg (by simpa using same)]
        cases rest.splitOn sep <;> rfl

theorem Cut.splitOn_injective {α : Type} [BEq α] [LawfulBEq α] (sep : α) {s t : List α}
    (same : s.splitOn sep = t.splitOn sep) : s = t := by
  have joined : [sep].intercalate (s.splitOn sep) = s := List.intercalate_splitOn sep
  rw [← joined, same, List.intercalate_splitOn]

theorem Cut.intercalate_append {α : Type} (sep : List α) {before after : List (List α)}
    (some : before ≠ []) (more : after ≠ []) :
    sep.intercalate (before ++ after) =
      sep.intercalate before ++ (sep ++ sep.intercalate after) := by
  induction before with
  | nil => exact (some rfl).elim
  | cons part rest ih =>
      by_cases last : rest = []
      · rw [last, List.singleton_append, List.intercalate_cons_of_ne_nil more,
          List.intercalate_singleton, List.append_assoc]
      · have between : rest ++ after ≠ [] := List.append_ne_nil_of_left_ne_nil last after
        rw [List.cons_append, List.intercalate_cons_of_ne_nil between,
          List.intercalate_cons_of_ne_nil last, ih last]
        simp only [List.append_assoc]

theorem Cut.splitOn_suffix_iff {α : Type} [BEq α] [LawfulBEq α] {sep : α} {ending s : List α} :
    ending.splitOn sep <:+ s.splitOn sep ↔ s = ending ∨ ∃ above, s = above ++ sep :: ending := by
  constructor
  · rintro ⟨before, parts⟩
    by_cases whole : before = []
    · rw [whole, List.nil_append] at parts
      exact .inl (Cut.splitOn_injective sep parts.symm)
    · refine .inr ⟨[sep].intercalate before, ?_⟩
      have joined := Cut.intercalate_append [sep] whole (List.splitOn_ne_nil sep ending)
      rwa [parts, List.intercalate_splitOn, List.intercalate_splitOn, List.singleton_append]
        at joined
  · rintro (rfl | ⟨above, rfl⟩)
    · exact List.suffix_rfl
    · rw [List.splitOn_append_cons_self]
      exact List.suffix_append _ _

/-- What is in joined lists is in what stands between them or in one of them. -/
theorem Cut.mem_intercalate {α : Type} {sep : List α} {c : α} {parts : List (List α)}
    (h : c ∈ sep.intercalate parts) : c ∈ sep ∨ ∃ part ∈ parts, c ∈ part := by
  induction parts with
  | nil => cases h
  | cons part rest ih =>
      by_cases more : rest = []
      · rw [more, List.intercalate_singleton] at h
        exact .inr ⟨part, List.mem_cons_self, h⟩
      · rw [List.intercalate_cons_of_ne_nil more, List.append_assoc, List.mem_append,
          List.mem_append] at h
        rcases h with here | between | later
        · exact .inr ⟨part, List.mem_cons_self, here⟩
        · exact .inl between
        · exact (ih later).imp_right fun ⟨other, there, inside⟩ =>
            ⟨other, List.mem_cons_of_mem part there, inside⟩

theorem Text.mem_joinWith {sep c : Char} {parts : List Text} (h : c ∈ Text.joinWith sep parts) :
    c = sep ∨ ∃ part ∈ parts, c ∈ part := (Cut.mem_intercalate h).imp_left List.mem_singleton.mp

theorem Text.mem_joinWith_of_mem {sep c : Char} {parts : List Text} {part : Text}
    (there : part ∈ parts) (inside : c ∈ part) : c ∈ Text.joinWith sep parts := by
  induction parts with
  | nil => cases there
  | cons first rest ih =>
      by_cases more : rest = []
      · subst more
        rw [List.mem_singleton.mp there] at inside
        rwa [Text.joinWith, List.intercalate_singleton]
      · rw [Text.joinWith, List.intercalate_cons_of_ne_nil more, List.append_assoc, List.mem_append]
        rcases List.mem_cons.mp there with rfl | later
        · exact .inl inside
        · exact .inr (List.mem_append_right _ (ih later))

theorem Text.mem_of_mem_segment {sep c : Char} {s part : Text} (there : part ∈ s.splitOn sep)
    (inside : c ∈ part) : c ∈ s := by
  have joined : c ∈ Text.joinWith sep (s.splitOn sep) := Text.mem_joinWith_of_mem there inside
  rwa [Text.joinWith, List.intercalate_splitOn] at joined

theorem Cut.trim_eq {α : Type} (p : α → Bool) (s : List α) :
    trim p s = (s.dropWhile p).rdropWhile p := rfl

theorem Cut.exists_trim {α : Type} (p : α → Bool) (s : List α) : ∃ before after,
    s = before ++ trim p s ++ after ∧ (∀ c ∈ before, p c = true) ∧ ∀ c ∈ after, p c = true := by
  refine ⟨s.takeWhile p, (s.dropWhile p).rtakeWhile p, ?_, fun c hc => List.mem_takeWhile_imp hc,
    fun c hc => List.mem_rtakeWhile_imp hc⟩
  rw [trim_eq, List.append_assoc, List.rdropWhile_append_rtakeWhile,
    List.takeWhile_append_dropWhile]

theorem Cut.trim_eq_self {α : Type} {p : α → Bool} {s : List α}
    (front : ∀ c rest, s = c :: rest → ¬ p c = true)
    (back : ∀ c rest, s = rest ++ [c] → ¬ p c = true) : trim p s = s := by
  have kept : s.dropWhile p = s := by
    cases s with
    | nil => rfl
    | cons c rest => exact List.dropWhile_cons_of_neg (front c rest rfl)
  rw [trim_eq, kept, List.rdropWhile_eq_self_iff]
  exact fun some => back _ _ (List.dropLast_append_getLast some).symm

theorem Cut.trim_padded {α : Type} {p : α → Bool} {before after : List α}
    (front : ∀ c ∈ before, p c = true) (back : ∀ c ∈ after, p c = true) (s : List α) :
    trim p (before ++ s ++ after) = trim p s := by
  rw [trim_eq, trim_eq, List.append_assoc, List.dropWhile_append_of_pos front]
  by_cases blank : s.dropWhile p = []
  · have all : ∀ c ∈ s ++ after, p c = true := by
      intro c hc
      rcases List.mem_append.mp hc with inside | behind
      · exact List.dropWhile_eq_nil_iff.mp blank c inside
      · exact back c behind
    rw [blank, List.dropWhile_eq_nil_iff.mpr all]
  · have kept : (s ++ after).dropWhile p = s.dropWhile p ++ after := by
      rw [List.dropWhile_append, if_neg (by simpa using blank)]
    have backwards : ∀ c ∈ after.reverse, p c = true := fun c hc => back c (List.mem_reverse.mp hc)
    rw [kept, List.rdropWhile, List.reverse_append, List.dropWhile_append_of_pos backwards]
    rfl

theorem Cut.trim_map {α β : Type} {f : α → β} {p : α → Bool} {q : β → Bool}
    (same : ∀ c, q (f c) = p c) (s : List α) : trim q (s.map f) = (trim p s).map f := by
  have through : q ∘ f = p := funext same
  simp only [trim, List.dropWhile_map, ← List.map_reverse, through]

end Phrasebook
