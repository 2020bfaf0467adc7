import Mathlib.Data.List.Nodup
import Mathlib.Tactic.SplitIfs
import Phrasebook.FileTree.Walk
import Phrasebook.Proofs.FileTree.Place
import Phrasebook.Proofs.Outcome
import Phrasebook.Proofs.Path
import Phrasebook.Proofs.Text.Utf8

/-! Trees of directories and text files, without links. The walk from a directory meets each of its
files by the names that lead there, and by these names the file is read, and no other. -/
namespace Phrasebook

namespace FileTree

/-- A name that a directory may hold. -/
structure EntryName (name : Bytes) : Prop extends IsName name where
  whole : Path.slash ∉ name
  noZero : 0 ∉ name

instance (name : Bytes) : Decidable (EntryName name) :=
  decidable_of_iff ((¬ (name = [] ∨ name = [Path.dot]) ∧ name ≠ [Path.dot, Path.dot] ∧
      ¬ nameLimit < name.length) ∧ Path.slash ∉ name ∧ 0 ∉ name) <| by
    constructor
    · rintro ⟨⟨counts, notParent, short⟩, whole, noZero⟩
      exact ⟨⟨counts, notParent, short⟩, whole, noZero⟩
    · rintro ⟨⟨counts, notParent, short⟩, whole, noZero⟩
      exact ⟨⟨counts, notParent, short⟩, whole, noZero⟩

theorem EntryName.plain {name : Bytes} (named : EntryName name) : Path.Plain name where
  present := fun same => named.counts (.inl same)
  notCurrent := fun same => named.counts (.inr same)
  notParent := named.notParent
  whole := named.whole

theorem EntryName.relative {name : Bytes} (named : EntryName name) :
    Path.isAbsolute name = false := Path.isAbsolute_of_not_mem named.whole

/-- Directories, whose entries have different names, and files of text. -/
inductive Regular : FileTree → Prop where
  | file (text : Text) : Regular (.file (Utf8.encode text))
  | directory {es : Entries} (distinct : (es.map (·.1)).Nodup) (named : ∀ e ∈ es, EntryName e.1)
    (inside : ∀ e ∈ es, Regular e.2) : Regular (.directory es)

mutual

/-- The files of a tree, by the names that lead to them and their content. -/
def filesIn : FileTree → List (Place × Bytes)
  | file content => [([], content)]
  | link _ => []
  | directory es => filesAmong es

def filesAmong : List (Bytes × FileTree) → List (Place × Bytes)
  | [] => []
  | (name, t) :: rest => (filesIn t).map (fun f => (name :: f.1, f.2)) ++ filesAmong rest

end

theorem mem_filesAmong {es : Entries} {f : Place × Bytes} :
    f ∈ filesAmong es ↔ ∃ e ∈ es, ∃ g ∈ filesIn e.2, f = (e.1 :: g.1, g.2) := by
  induction es with
  | nil => simp [filesAmong]
  | cons e rest ih =>
      obtain ⟨name, t⟩ := e
      rw [filesAmong, List.mem_append, ih, List.mem_map]
      simp [eq_comm]

theorem lookup_of_mem {es : Entries} (distinct : (es.map (·.1)).Nodup) {name : Bytes}
    {t : FileTree} (there : (name, t) ∈ es) : lookup name es = some t := by
  induction es with
  | nil => cases there
  | cons e rest ih =>
      obtain ⟨n, u⟩ := e
      obtain ⟨fresh, others⟩ := List.nodup_cons.mp distinct
      rw [lookup]
      rcases List.mem_cons.mp there with same | later
      · cases same
        exact if_pos rfl
      · rw [if_neg, ih others later]
        rintro rfl
        exact fresh (List.mem_map.mpr ⟨_, later, rfl⟩)

theorem mem_of_lookup {es : Entries} {name : Bytes} {t : FileTree}
    (found : lookup name es = some t) : (name, t) ∈ es := by
  induction es with
  | nil => cases found
  | cons e rest ih =>
      obtain ⟨n, u⟩ := e
      rw [lookup] at found
      split at found
      · rename_i same
        cases same
        cases found
        exact List.mem_cons_self
      · exact List.mem_cons_of_mem _ (ih found)

namespace Regular

variable {t u : FileTree} {f : Place × Bytes}

theorem named (regular : Regular u) (there : f ∈ filesIn u) : ∀ n ∈ f.1, EntryName n := by
  induction regular generalizing f with
  | file text =>
      rw [filesIn, List.mem_singleton] at there
      subst there
      exact fun n h => (List.not_mem_nil h).elim
  | directory distinct named inside ih =>
      rw [filesIn, mem_filesAmong] at there
      obtain ⟨e, he, g, hg, rfl⟩ := there
      exact List.forall_mem_cons.mpr ⟨named e he, ih e he hg⟩

theorem text (regular : Regular u) (there : f ∈ filesIn u) : ∃ text, f.2 = Utf8.encode text := by
  induction regular generalizing f with
  | file text =>
      rw [filesIn, List.mem_singleton] at there
      exact ⟨text, congrArg Prod.snd there⟩
  | directory distinct named inside ih =>
      rw [filesIn, mem_filesAmong] at there
      obtain ⟨e, he, g, hg, rfl⟩ := there
      exact ih e he (f := g) hg

theorem nodup_places (regular : Regular u) : ((filesIn u).map (·.1)).Nodup := by
  induction regular with
  | file text =>
      rw [filesIn]
      exact List.nodup_singleton _
  | @directory es distinct named inside ih =>
      rw [filesIn]
      clear named inside
      induction es with
      | nil => exact List.nodup_nil
      | cons e rest ihRest =>
          obtain ⟨name, t⟩ := e
          obtain ⟨fresh, others⟩ := List.nodup_cons.mp distinct
          obtain ⟨here, later⟩ := List.forall_mem_cons.mp ih
          rw [filesAmong, List.map_append, List.map_map, List.nodup_append]
          refine ⟨?_, ihRest others later, ?_⟩
          · have below := List.Nodup.map (List.cons_injective (a := name)) here
            rwa [List.map_map] at below
          · intro place first place' second same
            subst same
            obtain ⟨g, -, rfl⟩ := List.mem_map.mp first
            obtain ⟨g', hg', same⟩ := List.mem_map.mp second
            obtain ⟨e, he, h, -, rfl⟩ := mem_filesAmong.mp hg'
            obtain ⟨rfl, -⟩ := List.cons.inj same
            exact fresh (List.mem_map.mpr ⟨e, he, rfl⟩)

theorem eq_of_place (regular : Regular u) {g : Place × Bytes} (hf : f ∈ filesIn u)
    (hg : g ∈ filesIn u) (same : f.1 = g.1) : f = g :=
  List.inj_on_of_nodup_map regular.nodup_places hf hg same

/-- The names of a file lead to it from where its tree lies, and no links are needed. -/
theorem exists_walks (regular : Regular u) (there : f ∈ filesIn u) {trail : Trail}
    (here : trail.node t = u) :
    ∃ found : Trail, found.node t = .file f.2 ∧
      ∀ links, Walks t true (links + 1) trail f.1 found := by
  induction regular generalizing f trail with
  | file text =>
      rw [filesIn, List.mem_singleton] at there
      subst there
      exact ⟨trail, here, fun links => .arrived⟩
  | directory distinct named inside ih =>
      rw [filesIn, mem_filesAmong] at there
      obtain ⟨e, he, g, hg, rfl⟩ := there
      have entered : Trail.node t (e :: trail) = e.2 := rfl
      obtain ⟨found, arrived, way⟩ := ih e he hg entered
      refine ⟨found, arrived, fun links => ?_⟩
      refine .enter here (named e he).toIsName (lookup_of_mem distinct he) ?_ (way links)
      intro target isLink
      have isRegular := inside e he
      rw [isLink] at isRegular
      cases isRegular

theorem mem_filesIn_of_walks (regular : Regular u) {links : Nat} {trail found : Trail}
    {names : List Bytes} (here : trail.node t = u) (plain : ∀ n ∈ names, Path.Plain n)
    (way : Walks t true links trail names found) {content : Bytes}
    (arrived : found.node t = .file content) : (names, content) ∈ filesIn u := by
  induction regular generalizing trail names links with
  | file text =>
      cases way with
      | arrived =>
          cases arrived.symm.trans here
          rw [filesIn]
          exact List.mem_cons_self
      | stay here' => cases here.symm.trans here'
      | up here' => cases here.symm.trans here'
      | enter here' => cases here.symm.trans here'
      | last here' => cases here.symm.trans here'
      | follow here' => cases here.symm.trans here'
  | directory distinct named inside ih =>
      cases way with
      | arrived => cases arrived.symm.trans here
      | stay here' blank =>
          have first := plain _ List.mem_cons_self
          exact (blank.elim first.present first.notCurrent).elim
      | up => exact ((plain _ List.mem_cons_self).notParent rfl).elim
      | enter here' _ entry _ further =>
          cases here.symm.trans here'
          have there := mem_of_lookup entry
          have below := ih _ there rfl (fun n h => plain n (List.mem_cons_of_mem _ h)) further
          rw [filesIn, mem_filesAmong]
          exact ⟨_, there, _, below, rfl⟩
      | last _ _ _ unfollowed => cases unfollowed
      | follow here' _ entry =>
          cases here.symm.trans here'
          cases inside _ (mem_of_lookup entry)

end Regular

theorem length_le_foldl_join (path : Path) {names : List Bytes} (named : ∀ n ∈ names, EntryName n) :
    path.length ≤ (names.foldl Path.join path).length := by
  induction names generalizing path with
  | nil => exact Nat.le_refl _
  | cons name rest ih =>
      obtain ⟨here, later⟩ := List.forall_mem_cons.mp named
      exact (Path.length_le_length_join path here.relative).trans (ih _ later)

theorem mem_foldl_join {path : Path} {names : List Bytes} (named : ∀ n ∈ names, EntryName n)
    {b : UInt8} (there : b ∈ names.foldl Path.join path) :
    b ∈ path ∨ b = Path.slash ∨ ∃ n ∈ names, b ∈ n := by
  induction names generalizing path with
  | nil => exact .inl there
  | cons name rest ih =>
      obtain ⟨here, later⟩ := List.forall_mem_cons.mp named
      rcases ih later there with joined | slash | ⟨n, hn, inside⟩
      · rcases Path.mem_join here.relative joined with above | slash | inside
        · exact .inl above
        · exact .inr (.inl slash)
        · exact .inr (.inr ⟨name, List.mem_cons_self, inside⟩)
      · exact .inr (.inl slash)
      · exact .inr (.inr ⟨n, List.mem_cons_of_mem _ hn, inside⟩)

/-- What a walk meets as a file, by names from where it started. -/
def foundAt (path : Path) (f : Place × Bytes) : Found := ⟨f.1.foldl Path.join path, .file f.2⟩

mutual

/-- A walk meets the files of a tree, if their paths are not too long, and no others. -/
theorem files_foundIn : ∀ (t : FileTree) (path : Path), Regular t →
    (∀ f ∈ filesIn t, (foundAt path f).path.length ≤ pathLimit) →
    (⟨path, t⟩ :: foundIn path t).filter (·.node.isFile) = (filesIn t).map (foundAt path)
  | .file content, path, _, _ => rfl
  | .link target, path, regular, _ => nomatch regular
  | .directory es, path, regular, short => by
      have below : (foundIn path (.directory es)).filter (·.node.isFile) =
          (filesAmong es).map (foundAt path) := by
        rw [foundIn]
        split
        · rename_i long
          -- files in a directory whose path is too long would have too long a path
          have none : filesAmong es = [] := by
            refine List.eq_nil_iff_forall_not_mem.mpr fun f there => ?_
            have limit := short f there
            have grows := length_le_foldl_join path (regular.named there)
            exact absurd (grows.trans limit) (Nat.not_le.mpr long)
          rw [none]
          rfl
        · cases regular with
          | directory _ named inside => exact files_foundAmong es path named inside short
      rw [filesIn, List.filter_cons_of_neg Bool.false_ne_true, below]

theorem files_foundAmong : ∀ (es : List (Bytes × FileTree)) (path : Path),
    (∀ e ∈ es, EntryName e.1) → (∀ e ∈ es, Regular e.2) →
    (∀ f ∈ filesAmong es, (foundAt path f).path.length ≤ pathLimit) →
    (foundAmong path es).filter (·.node.isFile) = (filesAmong es).map (foundAt path)
  | [], _, _, _, _ => rfl
  | (name, t) :: rest, path, named, inside, short => by
      obtain ⟨-, namedRest⟩ := List.forall_mem_cons.mp named
      obtain ⟨regular, insideRest⟩ := List.forall_mem_cons.mp inside
      rw [filesAmong] at short
      obtain ⟨shortHere, shortRest⟩ := List.forall_mem_append.mp short
      have here := files_foundIn t (Path.join path name) regular fun f there =>
        shortHere _ (List.mem_map_of_mem there)
      rw [foundAmong, filesAmong, List.filter_append, here,
        files_foundAmong rest path namedRest insideRest shortRest, List.map_append, List.map_map]
      rfl

end

theorem checkPath_eq_ok_iff {p : Path} : checkPath p = .ok () ↔
    0 ∉ p ∧ p.length ≤ pathLimit ∧ p ≠ [] := by
  rw [checkPath]
  split_ifs with zero long nowhere
  all_goals simp_all

end FileTree

namespace FileSystem

open FileTree (Entries Regular Trail Walks checkPath filesIn foundAt isStandardInput linkLimit
  pathLimit)

variable {files : FileSystem} {root : Path} {es : Entries}

theorem files_walkFrom (there : files.get root = .ok (.directory es))
    (regular : Regular (.directory es)) (walked : isStandardInput root = false)
    (short : ∀ f ∈ filesIn (.directory es), (foundAt root f).path.length ≤ pathLimit) :
    (files.walkFrom root).filter (·.node.isFile) =
      (filesIn (.directory es)).map (foundAt root) := by
  have met := FileTree.files_foundIn (.directory es) root regular short
  rw [List.filter_cons_of_neg Bool.false_ne_true] at met
  rw [walkFrom, walked, there]
  exact met

theorem locate_eq_ok_iff {p : Path} {trail : Trail} : files.locate true p = .ok trail ↔
    checkPath p = .ok () ∧ Walks files.top true (linkLimit + 1) [] (files.names p) trail := by
  constructor
  · intro located
    obtain ⟨⟨⟩, accepted, walked⟩ := Outcome.bind_eq_ok_iff.mp located
    exact ⟨accepted, .of_walkLinks walked⟩
  · rintro ⟨accepted, way⟩
    rw [locate, accepted]
    exact way.walkLinks_eq

theorem get_eq_ok_iff {p : Path} {u : FileTree} : files.get p = .ok u ↔
    ∃ trail, files.locate true p = .ok trail ∧ trail.node files.top = u := by
  rw [get]
  cases files.locate true p <;> simp [Except.map]

theorem readText_eq_ok_iff {p : Path} {text : Text} : files.readText p = .ok text ↔
    files.get p = .ok (.file (Utf8.encode text)) := by
  rw [readText, readBytes]
  cases files.get p with
  | error fault => exact iff_of_false nofun nofun
  | ok u =>
      cases u with
      | file content =>
          rw [Except.ok.injEq, FileTree.file.injEq, @eq_comm _ content, ← Utf8.decode?_eq_some_iff]
          cases read : Utf8.decode? content <;> simp [bind, Except.bind, read]
      | link target => exact iff_of_false nofun nofun
      | directory es => exact iff_of_false nofun nofun

/-- The names of a path below a directory lead first to the directory. -/
theorem exists_walks_before {trail : Trail} (located : files.locate true root = .ok trail) :
    ∃ before, Walks files.top true (linkLimit + 1) [] before trail ∧
      ∀ q, Path.isAbsolute q = false →
        files.names (Path.join root q) = before ++ q.splitOn Path.slash := by
  obtain ⟨-, way⟩ := locate_eq_ok_iff.mp located
  obtain ⟨before, joined, same | same⟩ := files.exists_names_join root
  · exact ⟨before, same ▸ way, joined⟩
  · exact ⟨before, (same ▸ way).of_blank, joined⟩

/-- Below a directory names read the file whose place they are, and nothing else. -/
theorem readText_foldl_join_iff (there : files.get root = .ok (.directory es))
    (regular : Regular (.directory es)) {names : List Bytes} (place : Path.PlainPlace names)
    (short : ∀ f ∈ filesIn (.directory es), (foundAt root f).path.length ≤ pathLimit)
    {text : Text} : files.readText (names.foldl Path.join root) = .ok text ↔
      (names, Utf8.encode text) ∈ filesIn (.directory es) := by
  obtain ⟨trail, located, here⟩ := get_eq_ok_iff.mp there
  obtain ⟨accepted, -⟩ := locate_eq_ok_iff.mp located
  obtain ⟨noZero, -, nonempty⟩ := FileTree.checkPath_eq_ok_iff.mp accepted
  obtain ⟨before, way, joined⟩ := exists_walks_before located
  have spelled := joined _ place.isAbsolute_pathAt
  rw [place.splitOn_pathAt] at spelled
  rw [readText_eq_ok_iff, get_eq_ok_iff, Path.foldl_join place]
  constructor
  · rintro ⟨found, reached, arrived⟩
    obtain ⟨-, whole⟩ := locate_eq_ok_iff.mp reached
    rw [spelled] at whole
    obtain ⟨links, rest⟩ := way.rest whole
    exact regular.mem_filesIn_of_walks here place.plain rest arrived
  · intro listed
    obtain ⟨found, arrived, further⟩ := regular.exists_walks listed here
    refine ⟨found, locate_eq_ok_iff.mpr ⟨?_, ?_⟩, arrived⟩
    · have limit := short _ listed
      rw [foundAt, Path.foldl_join place] at limit
      have absent : 0 ∉ Path.join root (Ignore.pathAt names) := by
        intro inside
        rw [← Path.foldl_join place] at inside
        rcases FileTree.mem_foldl_join (regular.named listed) inside with above | same | ⟨n, there, below⟩
        · exact noZero above
        · cases same
        · exact (regular.named listed n there).noZero below
      refine FileTree.checkPath_eq_ok_iff.mpr ⟨absent, limit, ?_⟩
      exact Path.join_ne_nil nonempty place.isAbsolute_pathAt
    · rw [spelled]
      exact way.append further (.inr rfl)

end FileSystem

end Phrasebook
