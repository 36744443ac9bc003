/-!
# Records

A record holds entries under names, in the order in which the names came in. Entering a name again
replaces what it held and keeps its place.
-/

namespace Scripting

/-- Entries under names. -/
abbrev Record (α : Type) := List (String × α)

namespace Record

variable {α : Type}

/-- The entry under a name. -/
def get? (record : Record α) (name : String) : Option α :=
  record.lookup name

/-- The record with an entry under a name. -/
def insert (record : Record α) (name : String) (entry : α) : Record α :=
  match record with
  | [] => [(name, entry)]
  | (other, held) :: rest =>
    if other = name then (name, entry) :: rest else (other, held) :: insert rest name entry

/-- A record has an entry under a name. -/
def has (record : Record α) (name : String) : Bool :=
  (get? record name).isSome

/-- The names of a record, in order. -/
def names (record : Record α) : List String :=
  record.map Prod.fst

@[simp] theorem get?_insert_self (record : Record α) (name : String) (entry : α) :
    get? (insert record name entry) name = some entry := by
  induction record with
  | nil => simp [insert, get?]
  | cons head rest ih =>
    obtain ⟨other, held⟩ := head
    unfold insert
    split
    · simp [get?]
    · next h =>
      have h' : (name == other) = false := by
        simpa using fun e => h e.symm
      simpa [get?, List.lookup_cons, h'] using ih

@[simp] theorem get?_insert_of_ne (record : Record α) {name other : String} (entry : α)
    (h : other ≠ name) : get? (insert record name entry) other = get? record other := by
  have h' : (other == name) = false := by simpa using h
  induction record with
  | nil => simp [insert, get?, List.lookup_cons, h']
  | cons head rest ih =>
    obtain ⟨first, held⟩ := head
    unfold insert
    split
    · next e =>
      subst e
      simp [get?, List.lookup_cons, h']
    · by_cases hf : other == first
      · simp [get?, List.lookup_cons, hf]
      · simpa [get?, List.lookup_cons, hf] using ih

end Record

end Scripting
