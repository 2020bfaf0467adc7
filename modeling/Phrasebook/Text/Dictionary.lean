import Phrasebook.Text.Basic

/-!
A dictionary lists its values by key in increasing key order. Characters are compared by code
point, which is also the order of the bytes of their encoding.
-/

namespace Phrasebook

abbrev Dictionary (α : Type) := List (Text × α)

namespace Dictionary

variable {α : Type}

def find? (key : Text) : Dictionary α → Option α
  | [] => none
  | (k, v) :: rest => if key = k then some v else find? key rest

def contains (key : Text) (d : Dictionary α) : Bool := (d.find? key).isSome

/-- Puts a value at its place in the order; an older value of the key gives way. -/
def insert (key : Text) (value : α) : Dictionary α → Dictionary α
  | [] => [(key, value)]
  | (k, v) :: rest =>
    if k < key then (k, v) :: insert key value rest
    else if key = k then (key, value) :: rest
    else (key, value) :: (k, v) :: rest

def keys (d : Dictionary α) : List Text := d.map (·.1)

def ofList (pairs : List (Text × α)) : Dictionary α :=
  pairs.foldl (fun d (k, v) => d.insert k v) []

/-- Values of `upper` replace those of `lower`, key by key. -/
def overlay (lower upper : Dictionary α) : Dictionary α :=
  upper.foldl (fun d (k, v) => d.insert k v) lower

def Ordered (d : Dictionary α) : Prop := d.keys.Pairwise (· < ·)

theorem find?_insert_self (key : Text) (value : α) (d : Dictionary α) :
    find? key (insert key value d) = some value := by
  induction d with
  | nil => simp [insert, find?]
  | cons e rest ih =>
    obtain ⟨k, v⟩ := e
    by_cases h1 : k < key
    · have hne : key ≠ k := fun h => List.lt_irrefl k (h ▸ h1)
      rw [insert, if_pos h1, find?, if_neg hne, ih]
    · by_cases h2 : key = k
      · rw [insert, if_neg h1, if_pos h2, find?, if_pos rfl]
      · rw [insert, if_neg h1, if_neg h2, find?, if_pos rfl]

theorem find?_insert_of_ne {key other : Text} (h : other ≠ key) (value : α) (d : Dictionary α) :
    find? other (insert key value d) = find? other d := by
  induction d with
  | nil => simp [insert, find?, h]
  | cons e rest ih =>
    obtain ⟨k, v⟩ := e
    by_cases h1 : k < key
    · rw [insert, if_pos h1, find?, find?, ih]
    · by_cases h2 : key = k
      · rw [insert, if_neg h1, if_pos h2, find?, if_neg h, find?, if_neg (h2 ▸ h)]
      · rw [insert, if_neg h1, if_neg h2, find?, if_neg h]

end Dictionary

end Phrasebook
