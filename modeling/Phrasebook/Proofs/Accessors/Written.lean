import Mathlib.Data.List.Forall2
import Phrasebook.Proofs.Accessors.Generation
import Phrasebook.Proofs.FileTree.Change
import Phrasebook.Proofs.Path

/-! Generated files in a directory. Each is written to one spot of the tree. Files of different
names go to different spots, so that each can be read again when all are written, and the rest of
the tree is what it was, but that directories may have been made. -/
namespace Phrasebook

open FileTree (Place)

theorem FileSystem.LeadsTo.injective {s : FileSystem} {dir q q' : Path} {spot : Place}
    (whole : Path.slash ∉ q) (whole' : Path.slash ∉ q') (leads : s.LeadsTo (Path.join dir q) spot)
    (leads' : s.LeadsTo (Path.join dir q') spot) : q = q' := by
  obtain ⟨before, joined, -⟩ := s.exists_names_join dir
  have spelled : ∀ q, Path.slash ∉ q → s.names (Path.join dir q) = before ++ [q] := by
    intro q whole
    rw [joined q (Path.isAbsolute_of_not_mem whole), List.splitOn_eq_singleton whole]
  obtain ⟨-, start, last, trail, names, -, -, here⟩ := leads
  obtain ⟨-, start', last', trail', names', -, -, here'⟩ := leads'
  have same := (List.append_inj' ((spelled q whole).symm.trans names) rfl).2
  have same' := (List.append_inj' ((spelled q' whole').symm.trans names') rfl).2
  cases same
  cases same'
  have ends := (List.append_inj' (here.symm.trans here') rfl).2
  exact (List.cons.inj ends).1

namespace Accessors

def GeneratedFile.path (file : GeneratedFile) (outDir : Path) : Path :=
  Path.join outDir (Path.ofText file.fileName)

/-- Files have been written into a directory, one after the other. -/
inductive Written (outDir : Path) : FileSystem → List GeneratedFile → FileSystem → Prop where
  | none {files : FileSystem} : Written outDir files [] files
  | next {files files' files'' : FileSystem} {file : GeneratedFile} {path : Path}
    {rest : List GeneratedFile} (here : write files file outDir = (files', .ok path))
    (further : Written outDir files' rest files'') : Written outDir files (file :: rest) files''

section Write

variable {s s' : FileSystem} {outDir path : Path} {file : GeneratedFile}

/-- A written file is in its spot, which its path leads to unless it names a link. -/
theorem exists_spot_of_write (h : write s file outDir = (s', .ok path)) :
    path = file.path outDir ∧ ∃ made spot, s.Spreads made ∧
      made.SetAt spot (.file (Utf8.encode file.source)) s' ∧ made.Grows s' ∧
      ∀ later, s'.Grows later → later.isLinkAt (file.path outDir) = false →
        later.LeadsTo (file.path outDir) spot := by
  rw [write] at h
  have spreads := FileSystem.spreads_makeDirectories s outDir
  split at h
  · cases h
  · rename_i made directories
    rw [directories] at spreads
    dsimp only at h
    split at h
    · rename_i wrote
      cases h
      obtain ⟨spot, set, free, leads⟩ := FileSystem.leadsTo_of_writeFile wrote
      exact ⟨rfl, made, spot, spreads, set, set.grows free, leads⟩
    · cases h

end Write

/-- Where files have been written to, and what the tree is then. -/
structure Spots (outDir : Path) (files : FileSystem) (outputs : List GeneratedFile)
    (after : FileSystem) (spots : List Place) : Prop where
  grows : files.Grows after
  elsewhere : ∀ place, place ∉ spots →
    FileTree.Kept (files.kindAt? place) (after.kindAt? place)
  leads : ∀ later, after.Grows later → List.Forall₂ (fun file spot =>
    later.isLinkAt (file.path outDir) = false → later.LeadsTo (file.path outDir) spot) outputs spots
  contents : spots.Nodup → List.Forall₂ (fun file spot =>
    after.kindAt? spot = some (.file (Utf8.encode file.source))) outputs spots

theorem Written.exists_spots {outDir : Path} {files after : FileSystem}
    {outputs : List GeneratedFile} (written : Written outDir files outputs after) :
    ∃ spots, Spots outDir files outputs after spots := by
  induction written with
  | none => exact ⟨[], .refl _, fun _ _ => .inl rfl, fun _ _ => .nil, fun _ => .nil⟩
  | next here further ih =>
      obtain ⟨spots, others⟩ := ih
      obtain ⟨-, made, spot, spreads, set, grows, leads⟩ := exists_spot_of_write here
      refine ⟨spot :: spots, (spreads.grows.trans grows).trans others.grows, ?_, ?_, ?_⟩
      · intro place outside
        rw [List.mem_cons, not_or] at outside
        have same := set.kinds place
        rw [if_neg outside.1] at same
        have kept := others.elsewhere place outside.2
        rw [same] at kept
        exact (spreads.kept place).trans kept
      · intro later grown
        exact .cons (leads later (others.grows.trans grown)) (others.leads later grown)
      · intro distinct
        obtain ⟨outside, distinct⟩ := List.nodup_cons.mp distinct
        refine .cons ?_ (others.contents distinct)
        -- No later file goes to this spot, so it keeps what was written to it.
        have there := set.kinds spot
        rw [if_pos rfl] at there
        rcases others.elsewhere spot outside with same | ⟨gone, -⟩
        · exact same.trans there
        · rw [there] at gone
          cases gone

theorem mem_of_mem_stem {fileName : Text} {c : Char} (h : c ∈ Resource.stem fileName) :
    c ∈ fileName := by
  rw [Resource.stem, Resource.stemAndExtension] at h
  split at h
  · rename_i stem extension cut
    split at h
    · exact h
    · rw [(Cut.eq_of_last cut).1]
      exact List.mem_append_left _ h
  · exact h

theorem slash_not_mem_afterLast (name : Text) : '/' ∉ Cut.afterLast '/' name := by
  rw [Cut.afterLast]
  split
  · rename_i cut
    exact (Cut.eq_of_last cut).2
  · rename_i whole
    exact Cut.last_eq_none_iff.mp whole

theorem slash_not_mem_fileName {text : Text} {path projectDir : Path} {o : Options}
    {file : GeneratedFile} (h : generate text path projectDir o = .ok (some file)) :
    '/' ∉ file.fileName := by
  have suffix : '/' ∉ ".rs".toList := by decide
  rw [(named_of_generate h).2, List.mem_append, not_or]
  exact ⟨fun there => slash_not_mem_afterLast file.relativePath (mem_of_mem_stem there), suffix⟩

theorem exists_left_of_forall₂ {α β : Type} {R : α → β → Prop} {as : List α} {bs : List β}
    (h : List.Forall₂ R as bs) {b : β} (there : b ∈ bs) : ∃ a ∈ as, R a b := by
  induction h with
  | nil => cases there
  | cons here _ ih =>
      rcases List.mem_cons.mp there with rfl | later
      · exact ⟨_, List.mem_cons_self, here⟩
      · obtain ⟨a, inside, related⟩ := ih later
        exact ⟨a, List.mem_cons_of_mem _ inside, related⟩

theorem slash_not_mem_ofText {name : Text} (whole : '/' ∉ name) :
    Path.slash ∉ Path.ofText name :=
  fun there => whole (Utf8.mem_of_mem_encode (by decide) there)

namespace Spots

variable {outDir : Path} {files after : FileSystem} {outputs : List GeneratedFile}
  {spots : List Place}

/-- The spots of files with different names are different, if none of them is behind a link. -/
theorem nodup (leads : List.Forall₂ (fun file spot => after.LeadsTo (file.path outDir) spot)
      outputs spots)
    (whole : ∀ file ∈ outputs, '/' ∉ file.fileName)
    (distinct : (outputs.map (·.fileName)).Nodup) : spots.Nodup := by
  induction leads with
  | nil => exact List.nodup_nil
  | @cons file spot rest spots here leads ih =>
      rw [List.map_cons, List.nodup_cons] at distinct
      rw [List.forall_mem_cons] at whole
      refine List.nodup_cons.mpr ⟨fun again => distinct.1 ?_, ih whole.2 distinct.2⟩
      obtain ⟨other, there, leads'⟩ := exists_left_of_forall₂ leads again
      have same := here.injective (slash_not_mem_ofText whole.1)
        (slash_not_mem_ofText (whole.2 other there)) leads'
      rw [Utf8.encode_injective same]
      exact List.mem_map_of_mem there

/-- At the end every path leads to its spot, if none of them names a link. -/
theorem leadsTo (h : Spots outDir files outputs after spots)
    (unlinked : ∀ file ∈ outputs, after.isLinkAt (file.path outDir) = false) :
    List.Forall₂ (fun file spot => after.LeadsTo (file.path outDir) spot) outputs spots := by
  have named := (List.forall₂_and_left _ _).mpr ⟨unlinked, h.leads after (.refl after)⟩
  exact named.imp fun file spot both => both.2 both.1

/-- At the end every file is read where it was written, if none of their paths names a link. -/
theorem readText (h : Spots outDir files outputs after spots)
    (unlinked : ∀ file ∈ outputs, after.isLinkAt (file.path outDir) = false)
    (whole : ∀ file ∈ outputs, '/' ∉ file.fileName)
    (distinct : (outputs.map (·.fileName)).Nodup) {file : GeneratedFile} (there : file ∈ outputs) :
    after.readText (file.path outDir) = .ok file.source := by
  have leads := h.leadsTo unlinked
  have contents := h.contents (nodup leads whole distinct)
  have read : List.Forall₂ (fun file _ => after.readText (file.path outDir) = .ok file.source)
      outputs spots := leads.mp (fun file spot leads content => leads.readText content) contents
  obtain ⟨_, -, found⟩ := exists_left_of_forall₂ (List.Forall₂.flip read) there
  exact found

end Spots

end Accessors

end Phrasebook
