import TypedIsl.Text.Escaped

/-! # Names numbered in order of first appearance -/

namespace TypedIsl

/-- The number of a name in a name table. Numbers start at one. -/
structure Handle where
  number : Nat
deriving DecidableEq

def Handle.text (handle : Handle) : String :=
  s!"Interned({handle.number})"

/-- Distinct names, each with its place as its number. -/
structure NameTable where
  names : List String
  nodup : names.Nodup

namespace NameTable

def empty : NameTable := ⟨[], .nil⟩

def size (table : NameTable) : Nat :=
  table.names.length

/-- The number of a name, if the table has it. -/
def lookup? (table : NameTable) (name : String) : Option Handle :=
  (table.names.idxOf? name).map fun i => ⟨i + 1⟩

/-- The name with a number. -/
def get? (table : NameTable) (handle : Handle) : Option String :=
  if handle.number = 0 then none else table.names[handle.number - 1]?

/-- Adds a name unless the table has it. -/
def add (table : NameTable) (name : String) : NameTable :=
  if h : name ∈ table.names then table
  else ⟨table.names ++ [name], by
    rw [List.nodup_append]
    exact ⟨table.nodup, by simp, fun _ ha _ hb => by
      rintro rfl
      exact h (List.mem_singleton.mp hb ▸ ha)⟩⟩

/-- Adds names, one after the other. -/
def addAll (table : NameTable) (names : List String) : NameTable :=
  names.foldl add table

/-- Adds a name unless the table has it, and gives its number. -/
def intern (table : NameTable) (name : String) : NameTable × Handle :=
  match table.lookup? name with
  | some handle => (table, handle)
  | none => (table.add name, ⟨table.size + 1⟩)

/-- Each number with its name. -/
def text (table : NameTable) : String :=
  let entries := table.names.zipIdx.map fun (name, i) => s!"{i + 1}: {escaped name}"
  "\x7b" ++ ", ".intercalate entries ++ "\x7d"

end NameTable

end TypedIsl
