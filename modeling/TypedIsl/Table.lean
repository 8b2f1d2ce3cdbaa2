/-! # Tables ordered by first insertion -/

namespace TypedIsl

/-- Values by name, in the order in which the names were first put. -/
structure Table (α : Type) where
  entries : List (String × α)

namespace Table

variable {α : Type}

def empty : Table α := ⟨[]⟩

/-- The value of the first entry with that name. -/
def findEntry? (name : String) : List (String × α) → Option α
  | [] => none
  | (n, v) :: rest => if n = name then some v else findEntry? name rest

def get? (table : Table α) (name : String) : Option α :=
  findEntry? name table.entries

def contains (table : Table α) (name : String) : Bool :=
  (table.get? name).isSome

/-- Replaces the value of the first entry with that name, or adds an entry at the end. -/
def putEntry (name : String) (value : α) : List (String × α) → List (String × α)
  | [] => [(name, value)]
  | (n, v) :: rest => if n = name then (n, value) :: rest else (n, v) :: putEntry name value rest

/-- Replaces the value of a name where it stands, or adds the name at the end. -/
def put (table : Table α) (name : String) (value : α) : Table α :=
  ⟨putEntry name value table.entries⟩

/-- Puts all entries of a list, one after the other. -/
def putAll (table : Table α) (entries : List (String × α)) : Table α :=
  entries.foldl (fun table (name, value) => table.put name value) table

def names (table : Table α) : List String :=
  table.entries.map Prod.fst

def size (table : Table α) : Nat :=
  table.entries.length

@[simp] theorem get?_empty (name : String) : (empty : Table α).get? name = none := rfl

theorem findEntry?_putEntry (name other : String) (value : α) (entries : List (String × α)) :
    findEntry? other (putEntry name value entries) =
      if name = other then some value else findEntry? other entries := by
  induction entries with
  | nil => rfl
  | cons entry rest ih =>
      obtain ⟨n, v⟩ := entry
      by_cases hn : n = name
      · subst hn
        by_cases ho : n = other <;> simp [putEntry, findEntry?, ho]
      · by_cases ho : n = other
        · subst ho
          simp [putEntry, findEntry?, hn, Ne.symm hn]
        · simp [putEntry, findEntry?, hn, ho, ih]

theorem get?_put (table : Table α) (name other : String) (value : α) :
    (table.put name value).get? other = if name = other then some value else table.get? other :=
  findEntry?_putEntry name other value table.entries

end Table

end TypedIsl
