import Phrasebook.Accessors.Generation
import Phrasebook.Proofs.Accessors.KeysTable
import Phrasebook.Proofs.Lookup.Fallback

/-! What is generated from a document agrees with what is looked up in it. Where the document that a
source was made from is the one that its name finds in an embedded set, every key that the source
lists has a text for every locale. -/
namespace Phrasebook.Accessors

theorem extract_eq_ok {text : Text} {path projectDir : Path} {d : Descriptor}
    (h : extract text path projectDir = .ok (some d)) :
    ∃ table names tree, Toml.read text = some table ∧
      (⟨table⟩ : Document).scopeNames = some names ∧ (⟨table⟩ : Document).tree = .ok tree ∧
      d = ⟨relativePath path projectDir, names, tree⟩ := by
  obtain ⟨document, hread, rest⟩ := Outcome.bind_eq_ok_iff.mp h
  rw [Document.read] at hread
  cases parsed : Toml.read text with
  | none =>
      rw [parsed] at hread
      cases hread
  | some table =>
      rw [parsed] at hread
      cases hread
      cases named : (⟨table⟩ : Document).scopeNames with
      | none =>
          rw [named] at rest
          cases rest
      | some names =>
          rw [named] at rest
          obtain ⟨tree, htree, same⟩ := Outcome.bind_eq_ok_iff.mp rest
          cases same
          exact ⟨table, names, tree, rfl, named, htree, rfl⟩

theorem generate_eq_ok {text : Text} {path projectDir : Path} {o : Options} {file : GeneratedFile}
    (h : generate text path projectDir o = .ok (some file)) :
    ∃ d, extract text path projectDir = .ok (some d) ∧ emit o d = .ok file.source ∧
      file.relativePath = d.relativePath := by
  unfold generate at h
  split at h
  · cases h
  · cases extracted : extract text path projectDir with
    | error e =>
        rw [extracted] at h
        cases h
    | ok found =>
        rw [extracted] at h
        cases found with
        | none => cases h
        | some d =>
            cases emitted : emit o d with
            | error c =>
                simp only [emitted] at h
                cases h
            | ok source =>
                simp only [emitted] at h
                cases h
                exact ⟨d, rfl, emitted, rfl⟩

theorem sortedKeys_perm {table : Toml.Table} {tree : KeyTree}
    (h : (⟨table⟩ : Document).tree = .ok tree) :
    (sortedKeys tree).Perm ((Document.declared table).map (·.path)) := by
  have built := Document.tree_eq_ok_iff.mp h
  rw [Document.leaves_eq_declared] at built
  exact (Sorting.sort_perm _ _).trans (KeyTree.paths_of_ofPaths built)

/-- Every key that generated source lists is found at run time. The document that it was made from
makes a family; in no language the text is the one declared, and for any other locale it is a text
that some copy among the tiers declares. -/
theorem listed_keys_found {text : Text} {path projectDir : Path} {o : Options}
    {file : GeneratedFile} (generated : generate text path projectDir o = .ok (some file))
    {r : Resources} {n : Nat} (shipped : (r.set n).read file.relativePath = some text) :
    ∃ table keys f, Toml.read text = some table ∧ HasKeys file.source keys ∧
      keys.Perm ((Document.declared table).map (·.path)) ∧
      (Family.read (.embeddedOnly n) r file.relativePath).value = .ok f ∧
      ∀ calls : List Family.Call, (∀ c ∈ calls, c.resources.set n = r.set n) →
        (∀ leaf ∈ Document.declared table, ∀ l : Locale, l.isInvariant = true →
          ((f.after calls).resolve r leaf.path l).value.1 = leaf.text) ∧
        ∀ key ∈ keys, ∀ l : Locale, ∃ answer,
          ((f.after calls).resolve r key l).value.1 = answer ∧
          ((f.after calls).resolve r key l).value.2.tiers.findSome? (·.find? key) = some answer ∧
          ∃ name ∈ Family.tierNames file.relativePath l, ∃ copy sibling,
            (r.set n).read name = some copy ∧ ¬ Document.Bad copy ∧
            Toml.read copy = some sibling ∧ ⟨key, answer⟩ ∈ Document.declared sibling := by
  obtain ⟨d, extracted, emitted, hpath⟩ := generate_eq_ok generated
  obtain ⟨table, names, tree, parsed, -, htree, rfl⟩ := extract_eq_ok extracted
  have listed := sortedKeys_perm htree
  have good : ¬ Document.Bad text := fun bad =>
    bad table parsed ((Document.tree_isOk_iff ⟨table⟩).mp ⟨tree, htree⟩)
  obtain ⟨f, made⟩ := Family.read_embeddedOnly shipped good
  refine ⟨table, sortedKeys tree, f, parsed, hasKeys_of_emit emitted, listed, made, ?_⟩
  intro calls same
  have resolved := Family.resolve_embeddedOnly made same
  have own : ∀ leaf ∈ Document.declared table,
      ((Loader.embeddedOnly n).tier r file.relativePath).bind (· leaf.path) = some leaf.text :=
    fun leaf there => Loader.tier_of_declared shipped good parsed there
  refine ⟨fun leaf there l inv => ?_, fun key hkey l => ?_⟩
  · rw [resolved, Family.lookup, Family.findSome?_tiers made, Family.tierNames,
      Family.siblingNames, if_pos inv, List.nil_append, List.findSome?_singleton, own leaf there]
    rfl
  · obtain ⟨leaf, there, rfl⟩ := List.mem_map.mp (listed.mem_iff.mp hkey)
    have others : ((Family.tierNames file.relativePath l).findSome? fun name =>
        ((Loader.embeddedOnly n).tier r name).bind (· leaf.path)).isSome := by
      rw [List.findSome?_isSome_iff]
      refine ⟨file.relativePath, List.mem_append_right _ List.mem_cons_self, ?_⟩
      rw [own leaf there]
      rfl
    obtain ⟨answer, first⟩ := Option.isSome_iff_exists.mp others
    obtain ⟨name, hname, found⟩ := List.exists_of_findSome?_eq_some first
    refine ⟨answer, ?_, ?_, name, hname, Loader.declared_of_tier found⟩
    · rw [resolved, Family.lookup, Family.findSome?_tiers made, first]
      rfl
    · rw [resolved, Family.findSome?_tiers made, first]

/-- A document with scope names, and a set that holds it beside a German sibling. -/
def welcome : Text :=
  "[echoes_config]\ngenerated_class_name = 'Strings'\ngenerated_namespace = 'App'\n".toList ++
    "[translations]\ntitle = 'Welcome'\n".toList

def shelf : Resources :=
  ⟨[⟨[("ui/strings.toml".toList, welcome),
    ("ui/strings_de.toml".toList, "title = 'Willkommen'".toList)]⟩], .empty⟩

def inGerman : Family.Call := ⟨shelf, "title".toList, ⟨"de".toList, none, none, []⟩⟩

/-- After a look-up in German, the title is found in no language, and found in German again. -/
theorem listed_keys_found_welcome :
    ∃ file keys f, generate welcome "ui/strings.toml".toUTF8.toList [] .default = .ok (some file) ∧
      (shelf.set 0).read file.relativePath = some welcome ∧ HasKeys file.source keys ∧
      "title".toList ∈ keys ∧
      (Family.read (.embeddedOnly 0) shelf file.relativePath).value = .ok f ∧
      (∀ c ∈ [inGerman], c.resources.set 0 = shelf.set 0) ∧
      ((f.after [inGerman]).resolve shelf "title".toList .invariant).value.1 =
        "Welcome".toList ∧
      ∃ answer, ((f.after [inGerman]).resolve shelf "title".toList inGerman.locale).value.1 =
          answer ∧
        ((f.after [inGerman]).resolve shelf "title".toList
          inGerman.locale).value.2.tiers.findSome? (·.find? "title".toList) = some answer := by
  have written :
      (generate welcome "ui/strings.toml".toUTF8.toList [] .default).toOption.join.isSome := by
    decide +kernel
  have declares : (Toml.read welcome).map Document.declared =
      some [⟨"title".toList, "Welcome".toList⟩] := by decide +kernel
  obtain ⟨file, hfile⟩ := Option.isSome_iff_exists.mp written
  have generated := Outcome.eq_ok_of_toOption (Option.join_eq_some_iff.mp hfile)
  have shipped : (shelf.set 0).read file.relativePath = some welcome := by
    obtain ⟨d, extracted, -, same⟩ := generate_eq_ok generated
    obtain ⟨_, _, _, -, -, -, rfl⟩ := extract_eq_ok extracted
    rw [same]
    change (shelf.set 0).read (relativePath "ui/strings.toml".toUTF8.toList []) = some welcome
    decide +kernel
  have same : ∀ c ∈ [inGerman], c.resources.set 0 = shelf.set 0 := by simp [inGerman]
  obtain ⟨table, keys, f, parsed, has, listed, made, found⟩ :=
    listed_keys_found generated shipped
  rw [parsed] at declares
  have only : Document.declared table = [⟨"title".toList, "Welcome".toList⟩] :=
    Option.some.inj declares
  have hkey : "title".toList ∈ keys := by
    rw [listed.mem_iff, only]
    exact List.mem_cons_self
  obtain ⟨whole, others⟩ := found [inGerman] same
  obtain ⟨answer, hanswer, htiers, -⟩ := others _ hkey inGerman.locale
  refine ⟨file, keys, f, generated, shipped, has, hkey, made, same, ?_, answer, hanswer, htiers⟩
  exact whole ⟨"title".toList, "Welcome".toList⟩ (by rw [only]; exact List.mem_cons_self)
    .invariant (by decide)

end Phrasebook.Accessors
