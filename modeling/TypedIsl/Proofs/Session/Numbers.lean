import Mathlib.Data.List.Forall2
import TypedIsl.NameTable
import TypedIsl.Proofs.Double.Written

/-!
# Names and their numbers

A table only grows at its end, so a number that it has given out stays the number of the same name.
-/

namespace TypedIsl

theorem Handle.text_inj {handle other : Handle} (h : handle.text = other.text) :
    handle = other := by
  obtain ⟨n⟩ := handle
  obtain ⟨m⟩ := other
  have hlists := congrArg String.toList h
  simp only [Handle.text, ToString.toString, String.toList_append, Nat.toList_repr] at hlists
  have hdigits : Nat.toDigits 10 n = Nat.toDigits 10 m :=
    List.append_cancel_left (List.append_cancel_right hlists)
  have hnumbers := congrArg natOfDigits hdigits
  rw [natOfDigits_toDigits, natOfDigits_toDigits] at hnumbers
  rw [hnumbers]

namespace NameTable

variable {table grown : NameTable} {name : String} {handle : Handle}

/-! ## Looking up -/

theorem lookup?_eq_some_iff : table.lookup? name = some handle ↔ table.get? handle = some name := by
  obtain ⟨number⟩ := handle
  simp only [lookup?, get?, Option.map_eq_some_iff, List.idxOf?_eq_some_iff, Handle.mk.injEq]
  constructor
  · rintro ⟨i, ⟨hi, rfl, -⟩, rfl⟩
    simp [hi]
  · intro h
    obtain ⟨hnumber, hget⟩ : number ≠ 0 ∧ table.names[number - 1]? = some name := by
      split at h
      · cases h
      · exact ⟨‹_›, h⟩
    obtain ⟨hi, rfl⟩ := List.getElem?_eq_some_iff.mp hget
    refine ⟨number - 1, ⟨hi, rfl, fun j hj heq => ?_⟩, by omega⟩
    have := (List.getElem_inj table.nodup).mp heq
    omega

theorem mem_names_of_lookup? (h : table.lookup? name = some handle) : name ∈ table.names := by
  obtain ⟨i, hi, -⟩ := Option.map_eq_some_iff.mp h
  obtain ⟨hlt, rfl, -⟩ := List.idxOf?_eq_some_iff.mp hi
  exact List.getElem_mem hlt

theorem lookup?_eq_none_iff : table.lookup? name = none ↔ name ∉ table.names := by
  simp [lookup?, List.idxOf?_eq_none_iff]

/-! ## Growing -/

/-- A table with the names of another one first. -/
def Extends (grown table : NameTable) : Prop :=
  table.names <+: grown.names

theorem Extends.refl (table : NameTable) : table.Extends table :=
  List.prefix_rfl

theorem Extends.trans {last : NameTable} (h : last.Extends grown) (hgrown : grown.Extends table) :
    last.Extends table :=
  List.IsPrefix.trans hgrown h

theorem Extends.get? (h : grown.Extends table) (hget : table.get? handle = some name) :
    grown.get? handle = some name := by
  unfold NameTable.get? at hget ⊢
  split at hget
  · cases hget
  · rw [if_neg ‹_›]
    obtain ⟨hlt, rfl⟩ := List.getElem?_eq_some_iff.mp hget
    rw [List.getElem?_eq_getElem (Nat.lt_of_lt_of_le hlt (List.IsPrefix.length_le h)),
      ← List.IsPrefix.getElem h hlt]

theorem extends_add (table : NameTable) (name : String) : (table.add name).Extends table := by
  unfold add
  split
  · exact .refl table
  · exact List.prefix_append ..

theorem extends_addAll (table : NameTable) (names : List String) :
    (table.addAll names).Extends table := by
  induction names generalizing table with
  | nil => exact .refl table
  | cons name names ih => exact (ih (table.add name)).trans (extends_add table name)

theorem Extends.subset (h : grown.Extends table) : table.names ⊆ grown.names :=
  List.IsPrefix.subset h

theorem mem_add (table : NameTable) (name : String) : name ∈ (table.add name).names := by
  unfold add
  split
  · assumption
  · exact List.mem_append_right _ List.mem_cons_self

theorem subset_addAll (table : NameTable) (names : List String) :
    names ⊆ (table.addAll names).names := by
  induction names generalizing table with
  | nil => exact List.nil_subset _
  | cons name names ih =>
      refine List.cons_subset.mpr ⟨?_, ih (table.add name)⟩
      exact (extends_addAll (table.add name) names).subset (mem_add table name)

theorem addAll_append (table : NameTable) (names others : List String) :
    table.addAll (names ++ others) = (table.addAll names).addAll others :=
  List.foldl_append

theorem intern_fst (table : NameTable) (name : String) :
    (table.intern name).1 = table.add name := by
  unfold intern
  split
  · rw [add, dif_pos (mem_names_of_lookup? ‹_›)]
  · rfl

theorem get?_intern (table : NameTable) (name : String) :
    (table.intern name).1.get? (table.intern name).2 = some name := by
  unfold intern
  split
  · exact lookup?_eq_some_iff.mp ‹_›
  · rw [add, dif_neg (lookup?_eq_none_iff.mp ‹_›)]
    simp [NameTable.get?, size]

theorem extends_intern (table : NameTable) (name : String) :
    (table.intern name).1.Extends table :=
  intern_fst table name ▸ extends_add table name

/-- Interns names, one after the other. -/
def internAll (table : NameTable) : List String → NameTable × List Handle
  | [] => (table, [])
  | name :: names =>
      let (table, handle) := table.intern name
      let (table, handles) := table.internAll names
      (table, handle :: handles)

theorem internAll_fst (table : NameTable) (names : List String) :
    (table.internAll names).1 = table.addAll names := by
  induction names generalizing table with
  | nil => rfl
  | cons name names ih =>
      rw [internAll, ih, intern_fst]
      rfl

theorem get?_internAll (table : NameTable) (names : List String) :
    List.Forall₂ (fun handle name => (table.internAll names).1.get? handle = some name)
      (table.internAll names).2 names := by
  induction names generalizing table with
  | nil => exact .nil
  | cons name names ih =>
      have hgrows : (table.internAll (name :: names)).1.Extends (table.intern name).1 := by
        rw [internAll, internAll_fst]
        exact extends_addAll ..
      exact .cons (hgrows.get? (get?_intern table name)) (ih _)

/-! ## Numbers in place of names -/

/-- The name whose number is written like that. -/
def read? (table : NameTable) (text : String) : Option String :=
  table.names.find? fun name => (table.lookup? name).any (·.text = text)

theorem read?_eq_some_iff {text : String} :
    table.read? text = some name ↔
      ∃ handle, table.get? handle = some name ∧ handle.text = text := by
  have hfound {found : String} (h : table.read? text = some found) :
      ∃ handle, table.lookup? found = some handle ∧ handle.text = text := by
    have hany := List.find?_some h
    simpa only [Option.any_eq_true, decide_eq_true_eq] using hany
  constructor
  · intro h
    obtain ⟨handle, hlookup, htext⟩ := hfound h
    exact ⟨handle, lookup?_eq_some_iff.mp hlookup, htext⟩
  · rintro ⟨handle, hget, rfl⟩
    have hlookup := lookup?_eq_some_iff.mpr hget
    have hsome : (table.read? handle.text).isSome :=
      List.find?_isSome.mpr ⟨name, mem_names_of_lookup? hlookup, by simp [hlookup]⟩
    obtain ⟨found, hread⟩ := Option.isSome_iff_exists.mp hsome
    obtain ⟨other, hother, htext⟩ := hfound hread
    obtain rfl := Handle.text_inj htext
    obtain rfl := Option.some.inj ((lookup?_eq_some_iff.mp hother).symm.trans hget)
    exact hread

theorem read?_text (h : table.get? handle = some name) : table.read? handle.text = some name :=
  read?_eq_some_iff.mpr ⟨handle, h, rfl⟩

theorem Extends.read? {text : String} (h : grown.Extends table)
    (hread : table.read? text = some name) : grown.read? text = some name := by
  obtain ⟨handle, hget, htext⟩ := read?_eq_some_iff.mp hread
  exact read?_eq_some_iff.mpr ⟨handle, h.get? hget, htext⟩

/-- A number reads as its name, by any later table. -/
def Denotes (table : NameTable) (number name : String) : Prop :=
  ∀ last : NameTable, last.Extends table → last.read? number = some name

theorem denotes_text (h : table.get? handle = some name) : table.Denotes handle.text name :=
  fun _ hlast => hlast.read? (read?_text h)

theorem denotes_internAll (table : NameTable) (names : List String) :
    List.Forall₂ (table.internAll names).1.Denotes ((table.internAll names).2.map Handle.text)
      names := by
  rw [List.forall₂_map_left_iff]
  exact (get?_internAll table names).imp fun _ _ => denotes_text

/-- The number of a name, as it stands in a tree or a type. -/
def number? (table : NameTable) (name : String) : Option String :=
  (table.lookup? name).map Handle.text

theorem exists_number? (h : name ∈ table.names) :
    ∃ number, table.number? name = some number ∧ table.Denotes number name := by
  obtain ⟨handle, hlookup⟩ : ∃ handle, table.lookup? name = some handle := by
    rw [← Option.isSome_iff_exists, Option.isSome_iff_ne_none]
    exact fun hnone => lookup?_eq_none_iff.mp hnone h
  exact ⟨handle.text, by rw [number?, hlookup]; rfl, denotes_text (lookup?_eq_some_iff.mp hlookup)⟩

/-- Different numbers stand for different names. -/
theorem read?_inj {text other : String} (h : table.read? text = some name)
    (hother : table.read? other = some name) : text = other := by
  obtain ⟨handle, hget, rfl⟩ := read?_eq_some_iff.mp h
  obtain ⟨number, hnumber, rfl⟩ := read?_eq_some_iff.mp hother
  have heq := (lookup?_eq_some_iff.mpr hget).symm.trans (lookup?_eq_some_iff.mpr hnumber)
  rw [Option.some.inj heq]

end NameTable

end TypedIsl
