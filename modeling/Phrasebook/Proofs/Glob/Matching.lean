import Mathlib.Computability.Language
import Phrasebook.Glob.Match
import Phrasebook.Proofs.Glob.Escape
import Phrasebook.Proofs.Text.Utf8

/-! What a pattern takes. A token takes the stretches of a language, tokens in a row take those of
the product, and the marks of a path are the places that such stretches lead to. So a pattern
matches the paths of its language. An escaped text takes itself, and where case counts nothing
else. -/
namespace Phrasebook.Glob

open Phrasebook.Path (slash)

def oneByte (p : UInt8 → Bool) : Language UInt8 := {part | ∃ b, p b = true ∧ part = [b]}

/-- A run of bytes that satisfy `p`. -/
def runOf (p : UInt8 → Bool) : Language UInt8 := {part | ∀ b ∈ part, p b = true}

/-- Bytes that compare as these ones, each to its own. -/
def sameBytes (o : Options) : Bytes → Language UInt8
  | [] => 1
  | b :: rest => oneByte (sameByte o b) * sameBytes o rest

/-- Nothing, or anything that ends in a slash. -/
def directories : Language UInt8 := 1 + runOf (fun _ => true) * oneByte (· == slash)

mutual

/-- The stretches that a token takes. -/
def taken (o : Options) : Token → Language UInt8
  | .literal c => sameBytes o (Utf8.encodeChar c)
  | .one => oneByte fun b => !(o.keepSlashes && b == slash)
  | .run => runOf fun b => !(o.keepSlashes && b == slash)
  | .leadingDirectories => directories
  | .everythingBelow => oneByte (· == slash) * runOf fun _ => true
  | .innerDirectories => oneByte (· == slash) * directories
  | .class negated ranges => oneByte fun b => classHolds o (ranges.flatMap byteRanges) b != negated
  | .alternatives branches => if allVoid branches then 1 else takenByAny o branches

/-- The stretches that one of the branches takes; empty branches do not count. -/
def takenByAny (o : Options) : List (List Token) → Language UInt8
  | [] => 0
  | branch :: rest => (if branchVoid branch then 0 else takenByAll o branch) + takenByAny o rest

/-- The stretches that tokens take, one after the other. -/
def takenByAll (o : Options) : List Token → Language UInt8
  | [] => 1
  | t :: rest => taken o t * takenByAll o rest

end

/-! ### Marks -/

namespace Marks

def Marked (marks : Marks) (n : Nat) : Prop := marks[n]? = some true

/-- No place behind the end of the path is marked. -/
def Within (path : Bytes) (marks : Marks) : Prop := ∀ n, marks.Marked n → n ≤ path.length

/-- A stretch of the language leads from a marked place to this one. -/
def Reaches (path : Bytes) (marks : Marks) (l : Language UInt8) (n : Nat) : Prop :=
  ∃ m part, marks.Marked m ∧ part ∈ l ∧ part <+: path.drop m ∧ n = m + part.length

/-- The marks of all places that stretches of the language lead to. -/
def Leads (path : Bytes) (marks : Marks) (l : Language UInt8) (marks' : Marks) : Prop :=
  ∀ n, marks'.Marked n ↔ Reaches path marks l n

variable {path : Bytes} {marks marks' marks'' : Marks} {l l' : Language UInt8} {n : Nat}

theorem not_marked_nil : ¬ Marked [] n := fun marked => by cases marked

theorem marked_cons_zero {here : Bool} : Marked (here :: marks) 0 ↔ here = true := by
  simp only [Marked, List.getElem?_cons_zero, Option.some.injEq]

theorem marked_cons_succ {here : Bool} : Marked (here :: marks) (n + 1) ↔ Marked marks n := by
  simp only [Marked, List.getElem?_cons_succ]

theorem marked_tail : Marked marks.tail n ↔ Marked marks (n + 1) := by
  cases marks with
  | nil => exact iff_of_false not_marked_nil not_marked_nil
  | cons here rest => exact marked_cons_succ.symm

theorem headD_eq_true_iff : marks.headD false = true ↔ Marked marks 0 := by
  cases marks with
  | nil => exact iff_of_false Bool.false_ne_true not_marked_nil
  | cons here rest => exact marked_cons_zero.symm

theorem marked_either {other : Marks} :
    Marked (either marks other) n ↔ Marked marks n ∨ Marked other n := by
  fun_induction either marks other generalizing n with
  | case1 other => simp only [not_marked_nil, false_or]
  | case2 marks _ => simp only [not_marked_nil, or_false]
  | case3 a marks b other ih =>
      cases n with
      | zero => simp only [marked_cons_zero, Bool.or_eq_true]
      | succ n => simp only [marked_cons_succ, ih]

theorem Within.tail {b : UInt8} (within : Within (b :: path) marks) : Within path marks.tail :=
  fun n marked => Nat.le_of_succ_le_succ (within (n + 1) (marked_tail.mp marked))

theorem Leads.within (leads : Leads path marks l marks') (within : Within path marks) :
    Within path marks' := by
  intro n marked
  obtain ⟨m, part, start, -, ahead, rfl⟩ := (leads n).mp marked
  have start := within m start
  have length := ahead.length_le
  rw [List.length_drop] at length
  omega

theorem leads_nothing : Leads path marks 1 marks := by
  intro n
  constructor
  · intro marked
    exact ⟨n, [], marked, Language.nil_mem_one, List.nil_prefix, rfl⟩
  · rintro ⟨m, part, marked, empty, -, rfl⟩
    rw [Language.mem_one] at empty
    subst empty
    exact marked

theorem leads_nowhere : Leads path marks 0 [] := by
  intro n
  refine iff_of_false not_marked_nil ?_
  rintro ⟨_, part, -, impossible, -⟩
  exact Language.notMem_zero part impossible

theorem leads_of_unmarked (unmarked : ∀ n, ¬ marks.Marked n) : Leads path marks l [] := by
  intro n
  refine iff_of_false not_marked_nil ?_
  rintro ⟨m, -, marked, -⟩
  exact unmarked m marked

theorem Leads.either (first : Leads path marks l marks') (second : Leads path marks l' marks'') :
    Leads path marks (l + l') (marks'.either marks'') := by
  intro n
  rw [marked_either, first n, second n]
  simp only [Reaches, Language.mem_add, or_and_right, and_or_left, exists_or]

theorem Leads.trans (first : Leads path marks l marks') (second : Leads path marks' l' marks'') :
    Leads path marks (l * l') marks'' := by
  intro n
  rw [second n]
  constructor
  · rintro ⟨k, part', marked, inside', ahead', rfl⟩
    obtain ⟨m, part, start, inside, ⟨rest, ahead⟩, rfl⟩ := (first k).mp marked
    have left : path.drop (m + part.length) = rest := by
      rw [← List.drop_drop, ← ahead, List.drop_left]
    rw [left] at ahead'
    refine ⟨m, part ++ part', start, Language.append_mem_mul inside inside', ?_, ?_⟩
    · rw [← ahead]
      exact (List.prefix_append_right_inj part).mpr ahead'
    · rw [List.length_append, Nat.add_assoc]
  · rintro ⟨m, whole, start, inside, ahead, rfl⟩
    obtain ⟨part, first', part', second', rfl⟩ := Language.mem_mul.mp inside
    obtain ⟨rest, ahead⟩ := ahead
    have left : path.drop (m + part.length) = part' ++ rest := by
      rw [← List.drop_drop, ← ahead, List.append_assoc, List.drop_left]
    have between := (first (m + part.length)).mpr
      ⟨m, part, start, first', ⟨part' ++ rest, by rw [← ahead, List.append_assoc]⟩, rfl⟩
    refine ⟨m + part.length, part', between, second', ?_, ?_⟩
    · rw [left]
      exact List.prefix_append part' rest
    · rw [List.length_append, Nat.add_assoc]

theorem leads_afterByte (p : UInt8 → Bool) : Leads path marks (oneByte p) (marks.afterByte p path) := by
  have next : ∀ m b, [b] <+: path.drop m ↔ path[m]? = some b := by
    intro m b
    rw [← List.head?_drop]
    cases path.drop m with
    | nil => simp
    | cons c rest => simp [eq_comm]
  intro n
  rw [afterByte]
  cases n with
  | zero =>
      rw [marked_cons_zero]
      refine iff_of_false Bool.false_ne_true ?_
      rintro ⟨m, part, -, ⟨b, -, rfl⟩, -, impossible⟩
      rw [List.length_singleton] at impossible
      omega
  | succ n =>
      rw [marked_cons_succ, Marked, List.getElem?_zipWith]
      constructor
      · intro marked
        cases here : path[n]? with
        | none =>
            rw [here] at marked
            cases marked
        | some b =>
            cases mark : marks[n]? with
            | none =>
                rw [here, mark] at marked
                cases marked
            | some m =>
                rw [here, mark] at marked
                obtain ⟨rfl, holds⟩ := Bool.and_eq_true_iff.mp (Option.some.inj marked)
                exact ⟨n, [b], mark, ⟨b, holds, rfl⟩, (next n b).mpr here, rfl⟩
      · rintro ⟨m, part, marked, ⟨b, holds, rfl⟩, ahead, same⟩
        obtain rfl : n = m := Nat.succ.inj same
        rw [Marked] at marked
        rw [(next n b).mp ahead, marked]
        exact congrArg some holds

/-- A stretch starts at the front of a path, if that is marked, or further on. -/
theorem reaches_cons {b : UInt8} : Reaches (b :: path) marks l n ↔
    (Marked marks 0 ∧ ∃ part ∈ l, part <+: b :: path ∧ n = part.length) ∨
      ∃ n', n = n' + 1 ∧ Reaches path marks.tail l n' := by
  constructor
  · rintro ⟨m, part, marked, inside, ahead, rfl⟩
    cases m with
    | zero => exact .inl ⟨marked, part, inside, ahead, Nat.zero_add _⟩
    | succ m =>
        refine .inr ⟨m + part.length, Nat.succ_add .., ?_⟩
        exact ⟨m, part, marked_tail.mpr marked, inside, ahead, rfl⟩
  · rintro (⟨marked, part, inside, ahead, rfl⟩ | ⟨_, rfl, m, part, marked, inside, ahead, rfl⟩)
    · exact ⟨0, part, marked, inside, ahead, (Nat.zero_add _).symm⟩
    · exact ⟨m + 1, part, marked_tail.mp marked, inside, ahead, (Nat.succ_add ..).symm⟩

theorem run_ahead_cons {p : UInt8 → Bool} {b : UInt8} :
    (∃ part ∈ runOf p, part <+: b :: path ∧ n = part.length) ↔
      n = 0 ∨ ∃ n', n = n' + 1 ∧ p b = true ∧ ∃ part ∈ runOf p, part <+: path ∧ n' = part.length := by
  constructor
  · rintro ⟨part, holds, ahead, rfl⟩
    cases part with
    | nil => exact .inl rfl
    | cons c part =>
        obtain ⟨rfl, further⟩ := List.cons_prefix_cons.mp ahead
        obtain ⟨here, later⟩ := List.forall_mem_cons.mp holds
        exact .inr ⟨part.length, rfl, here, part, later, further, rfl⟩
  · rintro (rfl | ⟨_, rfl, here, part, later, ahead, rfl⟩)
    · exact ⟨[], List.forall_mem_nil _, List.nil_prefix, rfl⟩
    · exact ⟨b :: part, List.forall_mem_cons.mpr ⟨here, later⟩,
        List.cons_prefix_cons.mpr ⟨rfl, ahead⟩, rfl⟩

theorem run_ahead_nil {p : UInt8 → Bool} :
    (∃ part ∈ runOf p, part <+: [] ∧ n = part.length) ↔ n = 0 := by
  constructor
  · rintro ⟨part, -, ahead, rfl⟩
    rw [List.prefix_nil.mp ahead, List.length_nil]
  · rintro rfl
    exact ⟨[], List.forall_mem_nil _, List.nil_prefix, rfl⟩

theorem marked_afterRun (p : UInt8 → Bool) (reached : Bool) (within : Within path marks) :
    Marked (afterRun p reached path marks) n ↔
      (reached = true ∧ ∃ part ∈ runOf p, part <+: path ∧ n = part.length) ∨
        Reaches path marks (runOf p) n := by
  induction path generalizing marks reached n with
  | nil =>
      have atFront : Reaches [] marks (runOf p) n ↔ Marked marks 0 ∧ n = 0 := by
        rw [← run_ahead_nil (p := p)]
        constructor
        · rintro ⟨m, part, marked, holds, ahead, rfl⟩
          obtain rfl : m = 0 := Nat.le_zero.mp (within m marked)
          exact ⟨marked, part, holds, ahead, Nat.zero_add _⟩
        · rintro ⟨marked, part, holds, ahead, rfl⟩
          exact ⟨0, part, marked, holds, ahead, (Nat.zero_add _).symm⟩
      rw [afterRun, atFront, run_ahead_nil, ← or_and_right, ← headD_eq_true_iff, ← Bool.or_eq_true]
      cases n with
      | zero => simp only [marked_cons_zero, and_true]
      | succ n => simp only [marked_cons_succ, not_marked_nil, Nat.succ_ne_zero, and_false]
  | cons b path ih =>
      rw [afterRun, reaches_cons, ← or_assoc, ← or_and_right, ← headD_eq_true_iff,
        ← Bool.or_eq_true, run_ahead_cons]
      cases n with
      | zero => simp [marked_cons_zero]
      | succ n =>
          simp only [marked_cons_succ, ih _ within.tail, Bool.and_eq_true, and_assoc,
            Nat.succ_ne_zero, false_or, Nat.succ_inj, exists_eq_left']

theorem leads_afterRun (p : UInt8 → Bool) (within : Within path marks) :
    Leads path marks (runOf p) (marks.afterRun p false path) := by
  intro n
  rw [marked_afterRun p false within]
  simp only [Bool.false_eq_true, false_and, false_or]

theorem leads_afterDirectories (within : Within path marks) :
    Leads path marks directories (marks.afterDirectories path) :=
  leads_nothing.either ((leads_afterRun _ within).trans (leads_afterByte _))

theorem leads_sameBytes (o : Options) (bytes : Bytes) : Leads path marks (sameBytes o bytes)
    (bytes.foldl (fun marks b => marks.afterByte (sameByte o b) path) marks) := by
  induction bytes generalizing marks with
  | nil => exact leads_nothing
  | cons b rest ih => exact (leads_afterByte _).trans ih

theorem not_marked_of_any {marks : Marks} (unmarked : ¬ marks.any id = true) (n : Nat) :
    ¬ Marked marks n := by
  intro marked
  exact unmarked (List.any_eq_true.mpr ⟨true, List.mem_of_getElem? marked, rfl⟩)

end Marks

open Marks

variable (o : Options) {path : Bytes}

mutual

theorem leads_after {marks : Marks} (within : Within path marks) (t : Token) :
    Leads path marks (taken o t) (after o path marks t) := by
  match t with
  | .literal c => exact leads_sameBytes o _
  | .one => exact leads_afterByte _
  | .run => exact leads_afterRun _ within
  | .leadingDirectories => exact leads_afterDirectories within
  | .everythingBelow =>
      have slashes : Leads path marks (oneByte (· == slash)) (marks.afterSlash path) :=
        leads_afterByte _
      exact slashes.trans (leads_afterRun _ (slashes.within within))
  | .innerDirectories =>
      have slashes : Leads path marks (oneByte (· == slash)) (marks.afterSlash path) :=
        leads_afterByte _
      exact slashes.trans (leads_afterDirectories (slashes.within within))
  | .class negated ranges => exact leads_afterByte _
  | .alternatives branches =>
      rw [taken, after]
      split
      · exact leads_nothing
      · exact leads_afterAny within branches

theorem leads_afterAny {marks : Marks} (within : Within path marks) (branches : List (List Token)) :
    Leads path marks (takenByAny o branches) (afterAny o path marks branches) := by
  match branches with
  | [] => exact leads_nowhere
  | branch :: rest =>
      rw [takenByAny, afterAny]
      apply Leads.either
      · split
        · exact leads_nowhere
        · exact leads_afterAll within branch
      · exact leads_afterAny within rest

theorem leads_afterAll {marks : Marks} (within : Within path marks) (tokens : List Token) :
    Leads path marks (takenByAll o tokens) (afterAll o path marks tokens) := by
  match tokens with
  | [] => exact leads_nothing
  | t :: rest =>
      rw [takenByAll, afterAll]
      split
      · have first := leads_after within t
        exact first.trans (leads_afterAll (first.within within) rest)
      · exact leads_of_unmarked (not_marked_of_any ‹_›)

end

/-- A pattern matches the paths of its language, and two stars alone match every path. -/
theorem isMatch_iff {p : Pattern} :
    isMatch o p path = true ↔ p = [.leadingDirectories] ∨ path ∈ takenByAll o p := by
  have front : ∀ {n}, Marked [true] n ↔ n = 0 := by
    intro n
    cases n with
    | zero => exact iff_of_true rfl rfl
    | succ n => exact iff_of_false (by simp [Marked]) (Nat.succ_ne_zero n)
  have within : Within path [true] := fun n marked => front.mp marked ▸ Nat.zero_le _
  have whole : ∀ l, Reaches path [true] l path.length ↔ path ∈ l := by
    intro l
    constructor
    · rintro ⟨m, part, marked, inside, ahead, length⟩
      obtain rfl := front.mp marked
      rw [List.drop_zero] at ahead
      rw [Nat.zero_add] at length
      exact ahead.eq_of_length length.symm ▸ inside
    · intro inside
      exact ⟨0, path, rfl, inside, List.prefix_rfl, (Nat.zero_add _).symm⟩
  unfold isMatch
  split
  · exact iff_of_true rfl (.inl rfl)
  · rename_i other
    rw [← whole, ← leads_afterAll o within p, Marked, List.getD_eq_getElem?_getD,
      or_iff_right (other ·)]
    cases (afterAll o path [true] p)[path.length]? <;> simp

theorem takenByAll_append (tokens rest : List Token) :
    takenByAll o (tokens ++ rest) = takenByAll o tokens * takenByAll o rest := by
  induction tokens with
  | nil => rw [List.nil_append, takenByAll, one_mul]
  | cons t tokens ih => rw [List.cons_append, takenByAll, takenByAll, ih, mul_assoc]

/-! ### Escaped text -/

theorem mem_sameBytes (bytes : Bytes) : bytes ∈ sameBytes o bytes := by
  induction bytes with
  | nil => exact Language.nil_mem_one
  | cons b rest ih =>
      have same : sameByte o b b = true := by simp [sameByte]
      exact Language.append_mem_mul (a := [b]) ⟨b, same, rfl⟩ ih

/-- A special character is one byte, and its class the range of that byte alone. -/
theorem byteRanges_special {c : Char} (special : isSpecial c = true) :
    ∃ b, Utf8.encodeChar c = [b] ∧ byteRanges (c, c) = [(b, b)] := by
  rcases isSpecial_iff.mp special with rfl | rfl | rfl | rfl | rfl | rfl <;> exact ⟨_, rfl, rfl⟩

theorem classHolds_self (b : UInt8) : classHolds o [(b, b)] b = true := by
  simp [classHolds]

theorem mem_taken_escaped (c : Char) : Utf8.encodeChar c ∈ taken o (escapedToken c) := by
  rw [escapedToken]
  split
  · obtain ⟨b, single, ranges⟩ := byteRanges_special ‹_›
    rw [taken, single, List.flatMap_singleton, ranges]
    exact ⟨b, by simp only [classHolds_self]; rfl, rfl⟩
  · rw [taken]
    exact mem_sameBytes o _

theorem mem_takenByAll_escaped (s : Text) :
    Utf8.encode s ∈ takenByAll o (s.map escapedToken) := by
  induction s with
  | nil => exact Language.nil_mem_one
  | cons c rest ih =>
      rw [List.map_cons, takenByAll]
      exact Language.append_mem_mul (mem_taken_escaped o c) ih

section CaseCounts

variable {o} (caseCounts : o.ignoreCase = false)

include caseCounts

theorem eq_of_mem_sameBytes {bytes part : Bytes} (inside : part ∈ sameBytes o bytes) :
    part = bytes := by
  induction bytes generalizing part with
  | nil => exact (Language.mem_one _).mp inside
  | cons b rest ih =>
      obtain ⟨_, ⟨b', same, rfl⟩, part', inside', rfl⟩ := Language.mem_mul.mp inside
      obtain rfl : b = b' := by simpa [sameByte, caseCounts] using same
      rw [ih inside', List.singleton_append]

theorem eq_of_mem_taken_escaped {c : Char} {part : Bytes}
    (inside : part ∈ taken o (escapedToken c)) : part = Utf8.encodeChar c := by
  rw [escapedToken] at inside
  split at inside
  · obtain ⟨b, single, ranges⟩ := byteRanges_special ‹_›
    rw [taken, List.flatMap_singleton, ranges] at inside
    obtain ⟨b', holds, rfl⟩ := inside
    obtain ⟨least, most⟩ : b ≤ b' ∧ b' ≤ b := by simpa [classHolds, caseCounts] using holds
    rw [single, UInt8.le_antisymm least most]
  · rw [taken] at inside
    exact eq_of_mem_sameBytes caseCounts inside

theorem eq_of_mem_takenByAll_escaped {s : Text} {part : Bytes}
    (inside : part ∈ takenByAll o (s.map escapedToken)) : part = Utf8.encode s := by
  induction s generalizing part with
  | nil => exact (Language.mem_one _).mp inside
  | cons c rest ih =>
      rw [List.map_cons, takenByAll] at inside
      obtain ⟨first, here, others, later, rfl⟩ := Language.mem_mul.mp inside
      rw [eq_of_mem_taken_escaped caseCounts here, ih later]
      rfl

/-- The pattern for everything below a directory matches the paths that go on behind its name and a
slash. -/
theorem isMatch_below (dir : Text) :
    isMatch o (dir.map escapedToken ++ [.everythingBelow]) path = true ↔
      Utf8.encode dir ++ [slash] <+: path := by
  have notStars : dir.map escapedToken ++ [.everythingBelow] ≠ [.leadingDirectories] := by
    cases dir <;> simp
  have below : ∀ rest, rest ∈ takenByAll o [.everythingBelow] ↔ [slash] <+: rest := by
    intro rest
    rw [takenByAll, takenByAll, taken, mul_one, Language.mem_mul]
    constructor
    · rintro ⟨_, ⟨b, same, rfl⟩, others, -, rfl⟩
      rw [beq_iff_eq] at same
      rw [same]
      exact List.prefix_append _ _
    · rintro ⟨others, rfl⟩
      exact ⟨[slash], ⟨slash, rfl, rfl⟩, others, fun _ _ => rfl, rfl⟩
  rw [isMatch_iff, or_iff_right notStars, takenByAll_append, Language.mem_mul]
  constructor
  · rintro ⟨first, inside, rest, behind, rfl⟩
    rw [eq_of_mem_takenByAll_escaped caseCounts inside]
    exact (List.prefix_append_right_inj _).mpr ((below rest).mp behind)
  · rintro ⟨others, rfl⟩
    refine ⟨Utf8.encode dir, mem_takenByAll_escaped o dir, slash :: others, ?_, ?_⟩
    · exact (below _).mpr (List.prefix_append [slash] others)
    · rw [List.append_assoc, List.singleton_append]

/-- Such a pattern is tried by the whole path, also in a set. -/
theorem isMatchInSet_below (dir : Text) :
    isMatchInSet o (dir.map escapedToken ++ [.everythingBelow]) path = true ↔
      Utf8.encode dir ++ [slash] <+: path := by
  have last : (dir.map escapedToken ++ [Token.everythingBelow]).getLast?.bind literal? = none := by
    rw [List.getLast?_concat]
    rfl
  rw [isMatchInSet, last, ← isMatch_below caseCounts]
  simp

end CaseCounts

/-- The pattern for what goes on behind a base name and an underscore takes every such name. -/
theorem isMatch_behind (base : Text) {rest : Text} (oneName : '/' ∉ rest) :
    isMatch o (base.map escapedToken ++ [.literal '_', .run]) (Utf8.encode (base ++ '_' :: rest)) =
      true := by
  have whole : ∀ b ∈ Utf8.encode rest, (!(o.keepSlashes && b == slash)) = true := by
    intro b inside
    have apart : b ≠ slash := by
      rintro rfl
      exact oneName (Utf8.mem_of_mem_encode (c := '/') (by decide) inside)
    simp [apart]
  have spelled : Utf8.encode (base ++ '_' :: rest) =
      Utf8.encode base ++ (Utf8.encodeChar '_' ++ (Utf8.encode rest ++ [])) := by
    rw [List.append_nil]
    exact List.flatMap_append
  rw [isMatch_iff, spelled, takenByAll_append]
  refine .inr (Language.append_mem_mul (mem_takenByAll_escaped o base) ?_)
  rw [takenByAll, takenByAll, takenByAll]
  refine Language.append_mem_mul ?_ (Language.append_mem_mul ?_ Language.nil_mem_one)
  · rw [taken]
    exact mem_sameBytes o _
  · rw [taken]
    exact whole

end Phrasebook.Glob
