import Phrasebook.Proofs.Accessors.Written
import Phrasebook.Proofs.Outcome
import Phrasebook.Proofs.Resources.Name

/-! Generated files stay where they are put. However the path of a document is written, the name of
its file is a single name with an extension of its own, which joined to a directory lies in that
directory and nowhere else. -/
namespace Phrasebook

namespace Path

theorem Plain.splitHead_eq {name : Bytes} (plain : Plain name) : splitHead name = (none, name) := by
  obtain ⟨b, rest, rfl⟩ := List.exists_cons_of_ne_nil plain.present
  have notSlash : b ≠ slash := fun same => plain.whole (same ▸ List.mem_cons_self)
  have notCurrent : ¬ (b = dot ∧ (rest.isEmpty ∨ rest.head? = some slash)) := by
    rintro ⟨rfl, empty | slashed⟩
    · exact plain.notCurrent (List.isEmpty_iff.mp empty ▸ rfl)
    · exact plain.whole (List.mem_cons_of_mem _ (List.mem_of_head? slashed))
  rw [splitHead, if_neg notSlash, if_neg notCurrent]

/-- A name joined to a directory, be it the empty path, is the one component behind those of the
directory. -/
theorem Plain.components_join {name : Bytes} (plain : Plain name) (dir : Path) :
    (join dir name).components = dir.components ++ [.named name] := by
  have relative : isAbsolute name = false := isAbsolute_of_not_mem plain.whole
  have body : bodyComponents name = [.named name] := by
    rw [bodyComponents, List.splitOn_eq_singleton plain.whole,
      List.filterMap_cons_some plain.component?_eq, List.filterMap_nil]
  by_cases empty : dir = []
  · subst empty
    have joined : join [] name = name := by rw [join, relative]; rfl
    rw [joined, components_eq, plain.splitHead_eq, body]
    rfl
  · rw [Path.components_join empty relative, body]

end Path

namespace Accessors

theorem mem_of_mem_afterLast {name : Text} {sep c : Char} (h : c ∈ Cut.afterLast sep name) :
    c ∈ name := by
  rw [Cut.afterLast] at h
  split at h
  · rename_i cut
    rw [(Cut.eq_of_last cut).1]
    exact List.mem_append_right _ (List.mem_cons_of_mem _ h)
  · exact h

section Named

variable {text : Text} {path projectDir : Path} {o : Options} {file : GeneratedFile}
  (h : generate text path projectDir o = .ok (some file))
include h

/-- Backslashes in the path of a document separate names, as slashes do. -/
theorem backslash_not_mem_fileName : '\\' ∉ file.fileName := by
  obtain ⟨relative, named⟩ := named_of_generate h
  have suffix : '\\' ∉ ".rs".toList := by decide
  rw [named, List.mem_append, not_or]
  refine ⟨fun there => ?_, suffix⟩
  have inPath := mem_of_mem_afterLast (mem_of_mem_stem there)
  rw [relative] at inPath
  exact Resource.backslash_not_mem_normalize _ inPath

theorem getLast?_fileName : file.fileName.getLast? = some 's' := by
  rw [(named_of_generate h).2, List.getLast?_append]
  rfl

theorem plain_fileName : Path.Plain (Path.ofText file.fileName) := by
  have ends := getLast?_fileName h
  have other : ∀ name : Text, name.getLast? ≠ some 's' →
      Path.ofText file.fileName ≠ Path.ofText name := by
    intro name otherwise same
    rw [Utf8.encode_injective same] at ends
    exact otherwise ends
  exact ⟨other [] (by decide), other ['.'] (by decide), other ['.', '.'] (by decide),
    slash_not_mem_ofText (slash_not_mem_fileName h)⟩

end Named

/-- A generated file stays in the directory that it is written to. Its name ends in its own
extension, has no separator in it and is neither the directory itself nor the one above. Joined to
any directory it is one name behind the components of that, and it is at this path that a file which
could be written is put. -/
theorem generated_stays_inside {text : Text} {path projectDir : Path} {o : Options}
    {file : GeneratedFile} (h : generate text path projectDir o = .ok (some file)) :
    (∃ stem, file.fileName = stem ++ ".rs".toList) ∧
    ('/' ∉ file.fileName ∧ '\\' ∉ file.fileName) ∧
    (file.fileName ≠ ".".toList ∧ file.fileName ≠ "..".toList) ∧
    ∀ outDir, (file.path outDir).components =
        outDir.components ++ [.named (Path.ofText file.fileName)] ∧
      ∀ files after put, write files file outDir = (after, .ok put) → put = file.path outDir := by
  have plain := plain_fileName h
  refine ⟨⟨_, (named_of_generate h).2⟩,
    ⟨slash_not_mem_fileName h, backslash_not_mem_fileName h⟩, ⟨?_, ?_⟩, fun outDir => ⟨?_, ?_⟩⟩
  · intro same
    exact plain.notCurrent (congrArg Path.ofText same)
  · intro same
    exact plain.notParent (congrArg Path.ofText same)
  · exact plain.components_join outDir
  · intro files after put wrote
    exact (exists_spot_of_write wrote).1

/-- A document with scope names. -/
def greeting : Text :=
  "[echoes_config]\ngenerated_class_name = 'Strings'\ngenerated_namespace = 'App'\n".toList ++
    "[translations]\nhello = 'Hello'\n".toList

/-- A path that leads up, with a backslash, two dots in the last name and a byte that is no text. -/
def oddPath : Path := Path.ofText "/srv/../i18n\\..\\odd.x.".toList ++ [0xff]

theorem generated_stays_inside_odd :
    ∃ file, generate greeting oddPath (Path.ofText "/elsewhere".toList) .default =
        .ok (some file) ∧
      file.fileName = "odd.x.rs".toList ∧ '/' ∉ file.fileName ∧ '\\' ∉ file.fileName ∧
      (file.path []).components = [.named (Path.ofText "odd.x.rs".toList)] ∧
      (file.path (Path.ofText "../out/".toList)).components =
        [.parent, .named (Path.ofText "out".toList), .named (Path.ofText "odd.x.rs".toList)] := by
  have named : (generate greeting oddPath (Path.ofText "/elsewhere".toList)
      .default).toOption.join.map (·.fileName) = some "odd.x.rs".toList := by decide +kernel
  obtain ⟨file, found, name⟩ := Option.map_eq_some_iff.mp named
  have generated := Outcome.eq_ok_of_toOption (Option.join_eq_some_iff.mp found)
  obtain ⟨-, ⟨noSlash, noBackslash⟩, -, inside⟩ := generated_stays_inside generated
  refine ⟨file, generated, name, noSlash, noBackslash, ?_, ?_⟩
  · rw [(inside _).1, name]
    rfl
  · rw [(inside _).1, name]
    decide +kernel

end Accessors

end Phrasebook
