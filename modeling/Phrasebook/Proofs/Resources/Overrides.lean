import Phrasebook.Proofs.FileTree.Regular
import Phrasebook.Proofs.Resources.Name
import Phrasebook.Resources.Directory

/-! The names that a directory of documents lists, asked for again. A name without backslashes reads
the file whose path it is and nothing else; a path with a backslash is listed as another name, which
does not lead back to its file. -/
namespace Phrasebook

open FileTree (Entries Regular filesIn foundAt Place)
open Ignore (pathAt)

namespace Utf8

theorem encode_append (s s' : Text) : encode (s ++ s') = encode s ++ encode s' :=
  List.flatMap_append

theorem encode_joinWith (parts : List Text) :
    encode (Text.joinWith '/' parts) = pathAt (parts.map encode) := by
  induction parts with
  | nil => rfl
  | cons part rest ih =>
      by_cases more : rest = []
      · subst more
        rw [Text.joinWith, List.intercalate_singleton]
        exact (Path.pathAt_singleton _).symm
      · have moreBytes : rest.map encode ≠ [] := fun none => more (List.map_eq_nil_iff.mp none)
        rw [Text.joinWith, List.intercalate_cons_of_ne_nil more, encode_append, encode_append, ih,
          List.map_cons, Path.pathAt_cons moreBytes, List.append_assoc]
        rfl

theorem encode_eq_pathAt (s : Text) : encode s = pathAt ((s.splitOn '/').map encode) := by
  have spelled := encode_joinWith (s.splitOn '/')
  rwa [Text.joinWith, List.intercalate_splitOn] at spelled

theorem slash_not_mem_encode_segment {s : Text} :
    ∀ part ∈ (s.splitOn '/').map encode, Path.slash ∉ part := by
  intro part there inside
  obtain ⟨segment, hsegment, rfl⟩ := List.mem_map.mp there
  exact Cut.not_mem_segment hsegment (mem_of_mem_encode (c := '/') (by decide) inside)

theorem encode_segments_ne_nil (s : Text) : (s.splitOn '/').map encode ≠ [] := fun none =>
  List.splitOn_ne_nil '/' s (List.map_eq_nil_iff.mp none)

theorem splitOn_encode (s : Text) :
    (encode s).splitOn Path.slash = (s.splitOn '/').map encode := by
  rw [encode_eq_pathAt s]
  exact List.splitOn_intercalate Path.slash slash_not_mem_encode_segment (encode_segments_ne_nil s)

end Utf8

namespace Directory

open Resource (normalize_of_not_mem)

variable {d : Directory} {files : FileSystem} {es : Entries}

/-- The file stands in a listing under this name. -/
def ListedAs (f : Place × Bytes) (n : Text) : Prop :=
  ∃ s, Utf8.encode s = pathAt f.1 ∧ Resource.normalize s = n

theorem pathOf_of_spelled {n : Text} {names : List Bytes} (place : Path.PlainPlace names)
    (spelled : Utf8.encode n = pathAt names) (absent : '\\' ∉ n) :
    d.pathOf n = names.foldl Path.join d.root := by
  have segments : (n.splitOn '/').map Utf8.encode = names := by
    rw [← Utf8.splitOn_encode, spelled, place.splitOn_pathAt]
  have counts : (n.splitOn '/').filter (!·.isEmpty) = n.splitOn '/' := by
    refine List.filter_eq_self.mpr fun s there => ?_
    have present := (place.plain _ (segments ▸ List.mem_map_of_mem there)).present
    cases s with
    | nil => exact (present rfl).elim
    | cons c rest => rfl
  rw [pathOf, normalize_of_not_mem absent, counts, ← segments, List.foldl_map]
  rfl

section Listed

variable (there : files.get d.root = .ok (.directory es)) (regular : Regular (.directory es))
  (short : ∀ f ∈ filesIn (.directory es), (foundAt d.root f).path.length ≤ FileTree.pathLimit)

section

include regular

theorem plainPlace_of_mem {f : Place × Bytes} (listed : f ∈ filesIn (.directory es)) :
    Path.PlainPlace f.1 := by
  refine ⟨?_, fun n hn => (regular.named listed n hn).plain⟩
  rw [filesIn, FileTree.mem_filesAmong] at listed
  obtain ⟨e, -, g, -, rfl⟩ := listed
  exact List.cons_ne_nil _ _

theorem eq_of_listedAs
    (clear : ∀ f ∈ filesIn (.directory es), ∀ s, Utf8.encode s = pathAt f.1 → '\\' ∉ s)
    {f g : Place × Bytes} (hf : f ∈ filesIn (.directory es)) (hg : g ∈ filesIn (.directory es))
    {n : Text} (listedF : ListedAs f n) (listedG : ListedAs g n) : f = g := by
  obtain ⟨s, spelled, named⟩ := listedF
  obtain ⟨s', spelled', named'⟩ := listedG
  rw [normalize_of_not_mem (clear f hf s spelled)] at named
  rw [normalize_of_not_mem (clear g hg s' spelled')] at named'
  have samePath : pathAt f.1 = pathAt g.1 := by rw [← spelled, ← spelled', named, named']
  refine regular.eq_of_place hf hg ?_
  rw [← (plainPlace_of_mem regular hf).splitOn_pathAt, samePath,
    (plainPlace_of_mem regular hg).splitOn_pathAt]

end

include there regular short

/-- A name without backslashes reads the file whose path it is, and nothing else. -/
theorem read_eq_some_iff {n : Text} {names : List Bytes} (place : Path.PlainPlace names)
    (spelled : Utf8.encode n = pathAt names) (absent : '\\' ∉ n) {text : Text} :
    d.read files n = some text ↔ (names, Utf8.encode text) ∈ filesIn (.directory es) := by
  rw [← FileSystem.readText_foldl_join_iff there regular place short, read,
    pathOf_of_spelled place spelled absent]
  cases files.readText (names.foldl Path.join d.root) <;> simp [Except.toOption]

theorem names_eq (walked : FileTree.isStandardInput d.root = false) :
    d.names files = Text.sorted ((filesIn (.directory es)).filterMap fun f =>
      (Utf8.decode? (pathAt f.1)).map Resource.normalize) := by
  have named : d.root ≠ [] := by
    rintro empty
    rw [empty] at there
    cases there
  rw [names, FileSystem.files_walkFrom there regular walked short, List.filterMap_map]
  refine congrArg Text.sorted (List.filterMap_congr fun f listed => ?_)
  have place := plainPlace_of_mem regular listed
  have below := place.relativeTo_join named (List.append_nil d.root.components).symm
  rw [List.isPrefixOf_nil_left, if_pos rfl, List.length_nil, List.drop_zero] at below
  rw [Function.comp_apply, foundAt, Path.foldl_join place, below, Option.bind_some]

theorem mem_names_iff (walked : FileTree.isStandardInput d.root = false) {n : Text} :
    n ∈ d.names files ↔ ∃ f ∈ filesIn (.directory es), ListedAs f n := by
  rw [names_eq there regular short walked, Text.sorted, (Sorting.sort_perm _ _).mem_iff,
    List.mem_filterMap]
  simp only [Option.map_eq_some_iff, Utf8.decode?_eq_some_iff, ListedAs]

/-- Files whose paths have no backslashes are listed under different names. -/
theorem nodup_names (walked : FileTree.isStandardInput d.root = false)
    (clear : ∀ f ∈ filesIn (.directory es), ∀ s, Utf8.encode s = pathAt f.1 → '\\' ∉ s) :
    (d.names files).Nodup := by
  rw [names_eq there regular short walked, Text.sorted, (Sorting.sort_perm _ _).nodup_iff]
  refine List.pairwise_filterMap.mpr (List.Pairwise.imp_of_mem ?_
    (List.pairwise_map.mp regular.nodup_places))
  intro f g hf hg apart n listedF n' listedG same
  subst same
  simp only [Option.map_eq_some_iff, Utf8.decode?_eq_some_iff] at listedF listedG
  exact apart (congrArg Prod.fst (eq_of_listedAs regular clear hf hg listedF listedG))

end Listed

/-- The names of a directory of text files are those of the paths that are text, backslashes made
slashes. A name without backslashes reads the file whose path it is and no other. So, if no path has
a backslash, nothing is listed twice and each listed name reads the one file that is listed by it. -/
theorem listed_overrides_read (there : files.get d.root = .ok (.directory es))
    (regular : Regular (.directory es))
    (short : ∀ f ∈ filesIn (.directory es), (foundAt d.root f).path.length ≤ FileTree.pathLimit)
    (walked : FileTree.isStandardInput d.root = false) :
    (∀ n, n ∈ d.names files ↔ ∃ f ∈ filesIn (.directory es), ListedAs f n) ∧
    (∀ n names, Path.PlainPlace names → Utf8.encode n = pathAt names → '\\' ∉ n → ∀ text,
      d.read files n = some text ↔ (names, Utf8.encode text) ∈ filesIn (.directory es)) ∧
    ((∀ f ∈ filesIn (.directory es), ∀ s, Utf8.encode s = pathAt f.1 → '\\' ∉ s) →
      (d.names files).Nodup ∧ ∀ n ∈ d.names files, ∃ f ∈ filesIn (.directory es), ListedAs f n ∧
        (∀ g ∈ filesIn (.directory es), ListedAs g n → g = f) ∧
        ∃ text, f.2 = Utf8.encode text ∧ d.read files n = some text) := by
  refine ⟨fun n => mem_names_iff there regular short walked,
    fun n names place spelled absent text => read_eq_some_iff there regular short place spelled absent,
    fun clear => ⟨nodup_names there regular short walked clear, fun n listed => ?_⟩⟩
  obtain ⟨f, hf, s, spelled, named⟩ := (mem_names_iff there regular short walked).mp listed
  have absent := clear f hf s spelled
  have listedAs : ListedAs f n := ⟨s, spelled, named⟩
  rw [normalize_of_not_mem absent] at named
  subst named
  obtain ⟨text, content⟩ := regular.text hf
  have place := plainPlace_of_mem regular hf
  refine ⟨f, hf, listedAs, fun g hg other => ?_, text, content, ?_⟩
  · exact eq_of_listedAs regular clear hg hf other listedAs
  · rw [read_eq_some_iff there regular short place spelled absent, ← content]
    exact hf

def entryOf (name : String) (t : FileTree) : Bytes × FileTree := (Utf8.encode name.toList, t)

def textFile (text : String) : FileTree := .file (Utf8.encode text.toList)

/-- A file with a backslash in its name, and one in a directory. -/
def shippedEntries : Entries :=
  [entryOf "a\\b.toml" (textFile "B"), entryOf "de" (.directory [entryOf "x.toml" (textFile "X")])]

def shipped : FileSystem := .ofTree (.directory [entryOf "over" (.directory shippedEntries)])

def overrides : Directory := ⟨Utf8.encode "over".toList⟩

theorem shipped_regular : Regular (.directory shippedEntries) := by
  have deep : Regular (.directory [entryOf "x.toml" (textFile "X")]) := by
    refine .directory (by decide) (by decide) fun e there => ?_
    rw [List.mem_singleton.mp there]
    exact .file _
  refine .directory (by decide) (by decide) fun e there => ?_
  rcases List.mem_pair.mp there with rfl | rfl
  · exact .file _
  · exact deep

theorem listed_overrides_read_shipped :
    shipped.get overrides.root = .ok (.directory shippedEntries) ∧
      Regular (.directory shippedEntries) ∧
      (∀ f ∈ filesIn (.directory shippedEntries),
        (foundAt overrides.root f).path.length ≤ FileTree.pathLimit) ∧
      FileTree.isStandardInput overrides.root = false ∧
      overrides.names shipped = ["a/b.toml".toList, "de/x.toml".toList] ∧
      overrides.read shipped "de/x.toml".toList = some "X".toList := by
  have there : shipped.get overrides.root = .ok (.directory shippedEntries) := rfl
  have short : ∀ f ∈ filesIn (.directory shippedEntries),
      (foundAt overrides.root f).path.length ≤ FileTree.pathLimit := by decide
  have walked : FileTree.isStandardInput overrides.root = false := by decide
  obtain ⟨-, reads, -⟩ := listed_overrides_read there shipped_regular short walked
  have place : Path.PlainPlace [Utf8.encode "de".toList, Utf8.encode "x.toml".toList] :=
    plainPlace_of_mem (f := ([_, _], Utf8.encode "X".toList)) shipped_regular (by decide)
  refine ⟨there, shipped_regular, short, walked, by decide +kernel, ?_⟩
  exact (reads _ _ place (by decide) (by decide) _).mpr (by decide)

/-- A listed name need not read what is listed by it. -/
theorem backslash_listed_unread :
    ¬ ∀ (d : Directory) (files : FileSystem) (es : Entries),
      files.get d.root = .ok (.directory es) → Regular (.directory es) →
      (∀ f ∈ filesIn (.directory es), (foundAt d.root f).path.length ≤ FileTree.pathLimit) →
      FileTree.isStandardInput d.root = false →
      ∀ n ∈ d.names files, ∃ f ∈ filesIn (.directory es), ListedAs f n ∧
        ∃ text, f.2 = Utf8.encode text ∧ d.read files n = some text := by
  intro all
  obtain ⟨-, -, -, text, -, found⟩ := all overrides shipped shippedEntries rfl shipped_regular
    (by decide) (by decide) "a/b.toml".toList (by decide +kernel)
  have missed : overrides.read shipped "a/b.toml".toList = none := by decide +kernel
  rw [missed] at found
  cases found

end Directory

end Phrasebook
