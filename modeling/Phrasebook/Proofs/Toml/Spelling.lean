import Phrasebook.Proofs.Dictionary
import Phrasebook.Proofs.Toml.Rest

/-! Where the keys of a table come from. Every key at the top is a segment that is read somewhere in
the text, so it is written out there, unless a quoted string spells it with escapes. -/
namespace Phrasebook.Toml

/-- A key segment that is read at some place of a text. -/
def SegmentIn (text segment : Text) : Prop :=
  ∃ s rest, s <:+ text ∧ keySegment s = some (segment, rest)

/-- Some quoted string of a text is read as `word` without spelling it out. -/
def Escapes (text word : Text) : Prop :=
  ∃ s rest, '"' :: s <:+ text ∧ basicBody (s.length + 1) s = some (word, rest) ∧ ¬ word <+: s

/-- A text with a backslash before a `u` or a `U`, as escapes by code point have it. -/
def HasCodePoint (text : Text) : Prop := ['\\', 'u'] <:+: text ∨ ['\\', 'U'] <:+: text

theorem SegmentIn.mono {s text segment : Text} (h : SegmentIn s segment) (le : s <:+ text) :
    SegmentIn text segment := by
  obtain ⟨t, rest, inside, read⟩ := h
  exact ⟨t, rest, inside.trans le, read⟩

/-- The segments of a key that is read in a text; there is at least one. -/
def KeyIn (text : Text) (path : List Text) : Prop :=
  path ≠ [] ∧ ∀ segment ∈ path, SegmentIn text segment

theorem KeyIn.mono {s text : Text} {path : List Text} (h : KeyIn s path) (le : s <:+ text) :
    KeyIn text path := ⟨h.1, fun segment there => (h.2 segment there).mono le⟩

theorem keySegments_in {fuel : Nat} {s rest : Text} {path : List Text}
    (h : key.go fuel s = some (path, rest)) : KeyIn s path := by
  induction fuel generalizing s path rest with
  | zero => cases h
  | succ fuel ih =>
      rw [key.go] at h
      obtain ⟨⟨segment, after⟩, read, more⟩ := Option.bind_eq_some_iff.mp h
      have first : SegmentIn s segment := ⟨_, after, skipBlanks_suffix s, read⟩
      have blanks := (skipBlanks_suffix after).trans (forward_keySegment _ _ read)
      simp only at more
      split at more
      · rename_i tail dotted
        obtain ⟨⟨segments, last⟩, following, same⟩ := Option.bind_eq_some_iff.mp more
        cases same
        have inside : tail <:+ s :=
          ((List.suffix_cons '.' tail).trans (dotted ▸ blanks)).trans (skipBlanks_suffix s)
        refine ⟨List.cons_ne_nil _ _, fun other there => ?_⟩
        rcases List.mem_cons.mp there with rfl | later
        · exact first
        · exact ((ih following).2 other later).mono inside
      · cases more
        exact ⟨List.cons_ne_nil _ _, by simpa using first⟩

theorem key_in {s rest : Text} {path : List Text} (h : key s = some (path, rest)) :
    KeyIn s path := by
  obtain ⟨⟨segments, after⟩, read, more⟩ := Option.bind_eq_some_iff.mp h
  simp only at more
  split at more
  · cases more
    exact keySegments_in read
  · cases more

theorem pair_in {item : Reader Value} {s rest : Text} {p : Members.Pair}
    (h : pair item s = some (p, rest)) : KeyIn s p.1 := by
  obtain ⟨found, read, more⟩ := Option.bind_eq_some_iff.mp h
  split at more
  · obtain ⟨_, -, same⟩ := Option.bind_eq_some_iff.mp more
    cases same
    exact key_in read
  · cases more

theorem header_in {s rest : Text} {h : Header} (read : header s = some (h, rest)) :
    KeyIn s h.path := by
  unfold header at read
  split at read
  · obtain ⟨found, first, more⟩ := Option.bind_eq_some_iff.mp read
    split at more
    · cases more
      exact (key_in first).mono ⟨['[', '['], rfl⟩
    · cases more
  · obtain ⟨found, first, more⟩ := Option.bind_eq_some_iff.mp read
    split at more
    · cases more
      exact (key_in first).mono (List.suffix_cons _ _)
    · cases more
  · cases read

/-- The keys of a section are read in a text; only the first section has no header. -/
structure Part.ReadIn (text : Text) (part : Part) : Prop where
  header : part.header.path = [] ∨ KeyIn text part.header.path
  pairs : ∀ p ∈ part.pairs, KeyIn text p.1

theorem parts_readIn {text : Text} {fuel : Nat} {s : Text} (inside : s <:+ text) {current : Part}
    (now : current.ReadIn text) {found : List Part} (h : parts current fuel s = some found) :
    ∀ part ∈ found, part.ReadIn text := by
  induction fuel generalizing s current found with
  | zero => cases h
  | succ fuel ih =>
      have blanks := (skipBlanks_suffix s).trans inside
      have line : ∀ {t : Text} {current : Part} {found : List Part}, t <:+ text →
          current.ReadIn text → (endOfLine t).bind (parts current fuel) = some found →
          ∀ part ∈ found, part.ReadIn text := by
        intro t current found le now h
        obtain ⟨next, ended, more⟩ := Option.bind_eq_some_iff.mp h
        exact ih ((leaves_endOfLine t next ended).trans le) now more
      -- At the end, at a comment, at a header, and at a line that is blank or holds a pair.
      rw [parts] at h
      split at h
      · cases h
        simpa using now
      · rename_i rest comment
        exact line (comment ▸ blanks) now h
      · rename_i rest bracket
        obtain ⟨⟨head, after⟩, read, more⟩ := Option.bind_eq_some_iff.mp h
        obtain ⟨following, others, same⟩ := Option.bind_eq_some_iff.mp more
        cases same
        have le : '[' :: rest <:+ text := bracket ▸ blanks
        have fresh : Part.ReadIn text ⟨head, []⟩ :=
          ⟨.inr ((header_in read).mono le), fun _ there => nomatch there⟩
        intro part there
        rcases List.mem_cons.mp there with rfl | later
        · exact now
        · exact line ((forward_header _ _ read).trans le) fresh others part later
      · split at h
        · rename_i rest ended
          exact ih ((leaves_lineEnd? _ rest ended).trans blanks) now h
        · obtain ⟨⟨p, after⟩, read, more⟩ := Option.bind_eq_some_iff.mp h
          have longer : Part.ReadIn text ⟨current.header, current.pairs ++ [p]⟩ := by
            refine ⟨now.header, fun q there => ?_⟩
            rcases List.mem_append.mp there with old | new
            · exact now.pairs q old
            · rw [List.mem_singleton.mp new]
              exact (pair_in read).mono blanks
          have rest := (forward_pair (forward_value _) _ _ read).trans blanks
          exact line rest longer more

/-! ### Members

Putting values and tables into place adds no key at the top but the first segment of a path. -/

namespace Members

def keys (ms : Members) : List Text := ms.map (·.1)

theorem mem_keys_append {ms : Members} {key k : Text} {node : Node}
    (h : k ∈ keys (ms ++ [(key, node)])) : k ∈ ms.keys ∨ k = key := by
  rw [keys, List.map_append] at h
  exact (List.mem_append.mp h).imp_right List.mem_singleton.mp

theorem keys_replace (key : Text) (node : Node) (ms : Members) :
    (ms.replace key node).keys = ms.keys := by
  rw [keys, replace, List.map_map]
  refine List.map_congr_left fun m _ => ?_
  by_cases same : m.1 = key <;> simp [same]

theorem keys_remove {key k : Text} {ms : Members} (h : k ∈ (ms.remove key).keys) : k ∈ ms.keys :=
  List.Sublist.subset (List.filter_sublist.map _) h

theorem keys_put {key : Text} {v : Value} {path : List Text} {ms ms' : Members}
    (h : ms.put key v path = some ms') {k : Text} (there : k ∈ ms'.keys) :
    k ∈ ms.keys ∨ k ∈ path ++ [key] := by
  cases path with
  | nil =>
      rw [put] at h
      split at h <;> cases h
      exact (mem_keys_append there).imp_right List.mem_singleton.mpr
  | cons segment path =>
      have added : ∀ node : Node, k ∈ keys (ms ++ [(segment, node)]) →
          k ∈ ms.keys ∨ k ∈ segment :: path ++ [key] := by
        intro node there
        refine (mem_keys_append there).imp_right fun here => ?_
        rw [here]
        exact List.mem_cons_self
      rw [put] at h
      split at h
      · obtain ⟨below, -, rfl⟩ := Option.map_eq_some_iff.mp h
        exact added _ there
      · split at h
        · cases h
        · obtain ⟨below, -, rfl⟩ := Option.map_eq_some_iff.mp h
          exact .inl (keys_replace segment _ ms ▸ there)
      · split at h
        · cases h
        · obtain ⟨last, -, rfl⟩ := Option.map_eq_some_iff.mp h
          exact .inl (keys_replace segment _ ms ▸ there)
      · cases h

theorem dropLast_concat_last {path : List Text} (named : path ≠ []) :
    path.dropLast ++ [path.getLastD []] = path := by
  rw [List.getLastD_eq_getLast?, List.getLast?_eq_some_getLast named, Option.getD_some,
    List.dropLast_concat_getLast named]

theorem keys_putPair {p : Pair} (path : p.1 ≠ []) {ms ms' : Members}
    (h : ms.putPair p = some ms') {k : Text} (there : k ∈ ms'.keys) : k ∈ ms.keys ∨ k ∈ p.1 := by
  have placed := keys_put h there
  rwa [dropLast_concat_last path] at placed

theorem keys_putPairs {text : Text} {ps : List Pair} (read : ∀ p ∈ ps, KeyIn text p.1)
    {ms ms' : Members} (h : putPairs ps ms = some ms') {k : Text} (there : k ∈ ms'.keys) :
    k ∈ ms.keys ∨ SegmentIn text k := by
  induction ps generalizing ms with
  | nil =>
      cases h
      exact .inl there
  | cons p ps ih =>
      obtain ⟨next, first, more⟩ := Option.bind_eq_some_iff.mp h
      have here := read p List.mem_cons_self
      rcases ih (fun q later => read q (List.mem_cons_of_mem _ later)) more with old | new
      · exact (keys_putPair here.1 first old).imp_right (here.2 k)
      · exact .inr new

end Members

theorem keys_place {isElement : Bool} {ps : List Members.Pair} {last : Text} {path : List Text}
    {ms ms' : Members} (h : place isElement ps last path ms = some ms') {k : Text}
    (there : k ∈ ms'.keys) : k ∈ ms.keys ∨ k ∈ path ++ [last] := by
  have added : ∀ (segment : Text) (node : Node), segment ∈ path ++ [last] →
      k ∈ Members.keys (ms ++ [(segment, node)]) → k ∈ ms.keys ∨ k ∈ path ++ [last] := by
    intro segment node own there
    refine (Members.mem_keys_append there).imp_right fun here => ?_
    rw [here]
    exact own
  cases path with
  | nil =>
      rw [place.eq_def] at h
      simp only at h
      split at h
      · obtain ⟨t, -, rfl⟩ := Option.map_eq_some_iff.mp h
        exact added last _ List.mem_cons_self there
      · obtain ⟨t, -, rfl⟩ := Option.map_eq_some_iff.mp h
        exact added last _ List.mem_cons_self there
      · obtain ⟨t, -, rfl⟩ := Option.map_eq_some_iff.mp h
        exact (Members.mem_keys_append there).imp Members.keys_remove List.mem_singleton.mpr
      · obtain ⟨t, -, rfl⟩ := Option.map_eq_some_iff.mp h
        exact .inl (Members.keys_replace last _ ms ▸ there)
      · cases h
  | cons segment path =>
      rw [place] at h
      split at h
      · obtain ⟨below, -, rfl⟩ := Option.map_eq_some_iff.mp h
        exact added segment _ List.mem_cons_self there
      · obtain ⟨below, -, rfl⟩ := Option.map_eq_some_iff.mp h
        exact .inl (Members.keys_replace segment _ ms ▸ there)
      · obtain ⟨element, -, rfl⟩ := Option.map_eq_some_iff.mp h
        exact .inl (Members.keys_replace segment _ ms ▸ there)
      · cases h

theorem keys_placePart {text : Text} {part : Part} (read : part.ReadIn text) {ms ms' : Members}
    (h : placePart ms part = some ms') {k : Text} (there : k ∈ ms'.keys) :
    k ∈ ms.keys ∨ SegmentIn text k := by
  unfold placePart at h
  split at h
  · exact Members.keys_putPairs read.pairs h there
  · rename_i headed
    have path := read.header.resolve_left headed
    refine (keys_place h there).imp_right fun here => path.2 k ?_
    rwa [Members.dropLast_concat_last headed] at here

theorem keys_placeParts {text : Text} {found : List Part} (read : ∀ p ∈ found, p.ReadIn text)
    {ms ms' : Members} (h : placeParts found ms = some ms') {k : Text} (there : k ∈ ms'.keys) :
    k ∈ ms.keys ∨ SegmentIn text k := by
  induction found generalizing ms with
  | nil =>
      cases h
      exact .inl there
  | cons part found ih =>
      obtain ⟨next, first, more⟩ := Option.bind_eq_some_iff.mp h
      rcases ih (fun p later => read p (List.mem_cons_of_mem _ later)) more with old | new
      · exact keys_placePart (read part List.mem_cons_self) first old
      · exact .inr new

theorem keys_memberValues (ms : Members) : (memberValues ms).map (·.1) = ms.keys := by
  induction ms with
  | nil => rfl
  | cons m ms ih =>
      obtain ⟨key, node⟩ := m
      rw [memberValues, List.map_cons, ih]
      rfl

theorem keys_memberMeanings? {members meant : List (Text × Value)}
    (h : memberMeanings? members = some meant) : meant.map (·.1) = members.map (·.1) := by
  induction members generalizing meant with
  | nil =>
      cases h
      rfl
  | cons m members ih =>
      obtain ⟨key, v⟩ := m
      rw [memberMeanings?] at h
      obtain ⟨v', -, more⟩ := Option.bind_eq_some_iff.mp h
      obtain ⟨rest, others, same⟩ := Option.bind_eq_some_iff.mp more
      cases same
      rw [List.map_cons, List.map_cons, ih others]

/-- Every key at the top of a table is a segment that is read in its text. -/
theorem segmentIn_of_read {text : Text} {table : Table} (h : read text = some table) {k : Text}
    (there : k ∈ Dictionary.keys table) : SegmentIn text k := by
  have body : ∀ {s : Text}, s <:+ text → (do
      let sections ← parts ⟨⟨[], false⟩, []⟩ (s.length + 1) s
      let members ← placeParts sections []
      let values ← memberMeanings? (memberValues members)
      some (Dictionary.ofList values)) = some table → SegmentIn text k := by
    intro s inside h
    obtain ⟨sections, cut, more⟩ := Option.bind_eq_some_iff.mp h
    obtain ⟨members, placed, more⟩ := Option.bind_eq_some_iff.mp more
    obtain ⟨values, meant, same⟩ := Option.bind_eq_some_iff.mp more
    cases same
    have start : Part.ReadIn text ⟨⟨[], false⟩, []⟩ := ⟨.inl rfl, fun _ there => nomatch there⟩
    have listed : k ∈ values.map (·.1) := Dictionary.mem_keys_ofList there
    rw [keys_memberMeanings? meant, keys_memberValues] at listed
    exact (keys_placeParts (parts_readIn inside start cut) placed listed).resolve_left (nomatch ·)
  unfold read at h
  simp only at h
  split at h
  · exact body (List.suffix_cons _ _) h
  · exact body List.suffix_rfl h

/-! ### Spelling -/

theorem literalBody_spells {s rest word : Text} (h : literalBody s = some (word, rest)) :
    word <+: s := by
  induction s generalizing word with
  | nil => cases h
  | cons c s ih =>
      rw [literalBody] at h
      split at h
      · cases h
        exact List.nil_prefix
      split at h
      · cases h
      · obtain ⟨⟨tail, last⟩, body, same⟩ := Option.map_eq_some_iff.mp h
        cases same
        exact List.cons_prefix_cons.mpr ⟨rfl, ih body⟩

theorem SegmentIn.spelled {text segment : Text} (h : SegmentIn text segment) :
    segment <:+: text ∨ Escapes text segment := by
  obtain ⟨s, rest, inside, read⟩ := h
  have spelled : ∀ {t : Text}, segment <+: t → t <:+ text → segment <:+: text :=
    fun front back => front.isInfix.trans back.isInfix
  unfold keySegment at read
  split at read
  · rename_i s
    by_cases plain : segment <+: s
    · exact .inl (spelled plain ((List.suffix_cons _ _).trans inside))
    · exact .inr ⟨s, rest, inside, read, plain⟩
  · exact .inl (spelled (literalBody_spells read) ((List.suffix_cons _ _).trans inside))
  · simp only at read
    split at read <;> cases read
    exact .inl (spelled (List.takeWhile_prefix _) inside)

/-- The characters that escapes other than those by code point stand for. -/
def escapedChars : Text := ['\x08', '\t', '\n', '\x0c', '\r', '"', '\\']

theorem escape_plain {s rest : Text} {c : Char} (h : escape s = some (c, rest)) :
    c ∈ escapedChars ∨ ['u'] <+: s ∨ ['U'] <+: s := by
  unfold escape at h
  split at h
  case h_8 rest => exact .inr (.inl ⟨rest, rfl⟩)
  case h_9 rest => exact .inr (.inr ⟨rest, rfl⟩)
  case h_10 => cases h
  all_goals
    cases h
    exact .inl (by decide)

/-- Without escapes by code point, a quoted string spells its text out, as far as the text has none
of the characters of the other escapes. -/
theorem basicBody_spells {fuel : Nat} {s rest word : Text}
    (h : basicBody fuel s = some (word, rest)) (plain : ∀ c ∈ word, c ∉ escapedChars)
    (none : ¬ HasCodePoint s) : word <+: s := by
  induction fuel generalizing s word with
  | zero => cases h
  | succ fuel ih =>
      cases s with
      | nil => cases h
      | cons c s =>
          have fewer : ¬ HasCodePoint s := fun has =>
            none (has.imp (·.trans (List.suffix_cons c s).isInfix)
              (·.trans (List.suffix_cons c s).isInfix))
          rw [basicBody] at h
          split at h
          · cases h
            exact List.nil_prefix
          split at h
          · rename_i backslash
            obtain ⟨⟨d, after⟩, escaped, more⟩ := Option.bind_eq_some_iff.mp h
            obtain ⟨⟨tail, last⟩, body, same⟩ := Option.bind_eq_some_iff.mp more
            cases same
            rcases escape_plain escaped with special | point | point
            · exact (plain d List.mem_cons_self special).elim
            · exact (none (.inl (backslash ▸ (List.cons_prefix_cons.mpr ⟨rfl, point⟩).isInfix))).elim
            · exact (none (.inr (backslash ▸ (List.cons_prefix_cons.mpr ⟨rfl, point⟩).isInfix))).elim
          split at h
          · cases h
          · obtain ⟨⟨tail, last⟩, body, same⟩ := Option.bind_eq_some_iff.mp h
            cases same
            have below := ih body (fun d there => plain d (List.mem_cons_of_mem _ there)) fewer
            exact List.cons_prefix_cons.mpr ⟨rfl, below⟩

theorem hasCodePoint_of_escapes {text word : Text} (h : Escapes text word)
    (plain : ∀ c ∈ word, c ∉ escapedChars) : HasCodePoint text := by
  obtain ⟨s, rest, inside, read, unspelled⟩ := h
  refine Classical.byContradiction fun none => unspelled (basicBody_spells read plain fun has => ?_)
  have tail := ((List.suffix_cons _ _).trans inside).isInfix
  exact none (has.imp (·.trans tail) (·.trans tail))

end Phrasebook.Toml
