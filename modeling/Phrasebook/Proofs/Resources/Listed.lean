import Phrasebook.Proofs.Resources.Name

/-! The names that a set lists, asked for again. A listed name is answered by the first document that
fits it; that is the document listed under the name, unless an earlier one ends with this name, and
in what order the set is made decides between all that fit. -/
namespace Phrasebook.Embedded

open Resource

variable {documents : List (Text × Text)} {requested : Text} {found : Text × Text}

/-- A document that fits is the first to do so in a list that begins with it. -/
theorem read_cons_of_fits (fits : Fits found.1 requested) (rest : List (Text × Text)) :
    (Embedded.mk (found :: rest)).read requested = some found.2 :=
  read_eq_some_iff.mpr ⟨found.1, [], rest, rfl, fits, fun _ there => (List.not_mem_nil there).elim⟩

/-- In a list without repetition, a document that fits comes first exactly when none before it
fits. -/
theorem FirstFitting.eq_iff {before after : List (Text × Text)} {document : Text × Text}
    (distinct : (before ++ document :: after).Nodup)
    (first : FirstFitting (before ++ document :: after) requested found)
    (fits : Fits document.1 requested) :
    found = document ↔ ∀ earlier ∈ before, ¬ Fits earlier.1 requested := by
  have next : (document :: after).find? (fun d => nameMatches d.1 requested) = some document :=
    List.find?_cons_of_pos (nameMatches_iff_fits.mpr fits)
  rw [firstFitting_iff_find?, List.find?_append, next] at first
  cases answer : before.find? fun d => nameMatches d.1 requested with
  | none =>
      rw [answer, Option.none_or, Option.some.injEq] at first
      refine iff_of_true first.symm fun earlier there earlierFits => ?_
      exact List.find?_eq_none.mp answer earlier there (nameMatches_iff_fits.mpr earlierFits)
  | some earlier =>
      rw [answer, Option.some_or, Option.some.injEq] at first
      subst first
      have front := firstFitting_iff_find?.mpr answer
      refine iff_of_false ?_ fun unfit => ?_
      · rintro rfl
        exact (List.nodup_append.mp distinct).2.2 earlier front.mem earlier
          List.mem_cons_self rfl
      · exact unfit earlier front.mem front.fits

/-- A listed name stands for one document, and is answered by the first that fits it. This is the
document itself exactly when none before it has a name that ends with the listed one. So it is read
in every order of the set if no other document fits, and each document that fits is read in some
order. -/
theorem listed_name_answered {e : Embedded}
    (distinct : (e.documents.map fun d => comparable d.1).Nodup) {n : Text} (listed : n ∈ e.names) :
    ∃ before document after, e.documents = before ++ document :: after ∧
      Resource.normalize document.1 = n ∧
      (∀ other ∈ e.documents, Resource.normalize other.1 = n → other = document) ∧
      (∃ found, FirstFitting e.documents n found ∧ e.read n = some found.2 ∧
        (found = document ↔ ∀ earlier ∈ before, ¬ Fits earlier.1 n)) ∧
      ((∀ other ∈ e.documents, Fits other.1 n → other = document) →
        ∀ order : List (Text × Text), order.Perm e.documents →
          (Embedded.mk order).read n = some document.2) ∧
      ∀ other ∈ e.documents, Fits other.1 n →
        ∃ order : List (Text × Text), order.Perm e.documents ∧
          (Embedded.mk order).read n = some other.2 := by
  obtain ⟨document, there, spelled⟩ := List.mem_map.mp listed
  change Resource.normalize document.1 = n at spelled
  subst spelled
  obtain ⟨before, after, cut⟩ := List.append_of_mem there
  have same : comparable document.1 = comparable (Resource.normalize document.1) := by
    rw [comparable, comparable, normalize_normalize]
  have fits : Fits document.1 (Resource.normalize document.1) := fits_of_comparable_eq same
  refine ⟨before, document, after, cut, rfl, ?_, ?_, ?_, ?_⟩
  · intro other otherThere spelled
    refine List.inj_on_of_nodup_map distinct otherThere there ?_
    rw [comparable, comparable, spelled]
  · obtain ⟨found, first⟩ := exists_firstFitting there fits
    refine ⟨found, first, first.read_eq, ?_⟩
    rw [cut] at first distinct
    exact first.eq_iff distinct.of_map fits
  · intro alone order reordered
    obtain ⟨found, first⟩ := exists_firstFitting (reordered.mem_iff.mpr there) fits
    have one := alone found (reordered.mem_iff.mp first.mem) first.fits
    have answered := first.read_eq (e := ⟨order⟩)
    rwa [one] at answered
  · intro other otherThere otherFits
    exact ⟨other :: e.documents.erase other, (List.perm_cons_erase otherThere).symm,
      read_cons_of_fits otherFits _⟩

/-- A document in a directory, and one that is listed under the name the first ends with. -/
def nested : Embedded :=
  ⟨[("i18n/strings.toml".toList, "A".toList), ("strings.toml".toList, "B".toList)]⟩

theorem listed_name_answered_nested :
    (nested.documents.map fun d => comparable d.1).Nodup ∧ "strings.toml".toList ∈ nested.names ∧
      ∃ found, FirstFitting nested.documents "strings.toml".toList found ∧
        nested.read "strings.toml".toList = some found.2 ∧
        ∀ other ∈ nested.documents, Fits other.1 "strings.toml".toList →
          ∃ order : List (Text × Text), order.Perm nested.documents ∧
            (Embedded.mk order).read "strings.toml".toList = some other.2 := by
  have distinct : (nested.documents.map fun d => comparable d.1).Nodup := by decide +kernel
  have listed : "strings.toml".toList ∈ nested.names := by decide +kernel
  obtain ⟨-, -, -, -, -, -, ⟨found, first, answered, -⟩, -, reached⟩ :=
    listed_name_answered distinct listed
  exact ⟨distinct, listed, found, first, answered, reached⟩

/-- Being listed under a name does not suffice to be what the name reads. -/
theorem listed_name_taken :
    ¬ ∀ e : Embedded, (e.documents.map fun d => comparable d.1).Nodup → ∀ n ∈ e.names,
      ∀ document ∈ e.documents, Resource.normalize document.1 = n → e.read n = some document.2 := by
  intro all
  have answered := all nested (by decide +kernel) "strings.toml".toList (by decide +kernel)
    ("strings.toml".toList, "B".toList) (by decide +kernel) (by decide +kernel)
  have taken : nested.read "strings.toml".toList = some "A".toList := by decide +kernel
  rw [taken] at answered
  cases answered

end Phrasebook.Embedded
