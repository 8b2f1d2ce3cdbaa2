import TypedIsl.Proofs.Session.Numbers
import TypedIsl.Table

/-!
# Interning

Names are interned and looked up in any order. The distinct interned names are numbered in the order
of their first interning, and a number stays that of its name. A table that is kept twice, by name
and by number, gives the same answers, and its two halves stay inverse to each other.
-/

namespace TypedIsl

namespace NameTable

/-- One use of a table. -/
inductive Use where
  | intern (name : String)
  | lookup (name : String)
deriving DecidableEq

namespace Use

/-- The name that is interned. -/
def interned? : Use → Option String
  | intern name => some name
  | lookup _ => none

/-- What a use gives, and the table after it. -/
def perform (table : NameTable) : Use → NameTable × Option Handle
  | intern name => (table.intern name).map id some
  | lookup name => (table, table.lookup? name)

/-- Uses one after the other. -/
def performAll (table : NameTable) : List Use → NameTable × List (Option Handle)
  | [] => (table, [])
  | use :: uses =>
      let (table, handle?) := use.perform table
      let (table, handles) := performAll table uses
      (table, handle? :: handles)

/-- The distinct names that are interned, in the order of their first interning. -/
def distinct (uses : List Use) : List String :=
  (uses.filterMap interned?).eraseDups

/-- The place of a name among the distinct interned ones, counted from one. -/
def numberOf (uses : List Use) (name : String) : Handle :=
  ⟨(distinct uses).idxOf name + 1⟩

theorem mem_distinct {uses : List Use} {name : String} :
    name ∈ distinct uses ↔ intern name ∈ uses := by
  rw [distinct, List.mem_eraseDups, List.mem_filterMap]
  constructor
  · rintro ⟨use, huse, hname⟩
    cases use with
    | intern other => exact Option.some.inj hname ▸ huse
    | lookup other => cases hname
  · exact fun h => ⟨intern name, h, rfl⟩

theorem distinct_intern (uses : List Use) (name : String) :
    distinct (uses ++ [intern name]) =
      if name ∈ distinct uses then distinct uses else distinct uses ++ [name] := by
  have hnames : (uses ++ [intern name]).filterMap interned? =
      uses.filterMap interned? ++ [name] := by
    rw [List.filterMap_append]
    rfl
  unfold distinct
  rw [hnames, List.eraseDups_append]
  generalize uses.filterMap interned? = names
  by_cases h : name ∈ names
  · simp [List.removeAll, h]
  · simp [List.removeAll, List.eraseDups_cons, h]

theorem distinct_lookup (uses : List Use) (name : String) :
    distinct (uses ++ [lookup name]) = distinct uses := by
  have hnames : (uses ++ [lookup name]).filterMap interned? = uses.filterMap interned? := by
    rw [List.filterMap_append]
    exact List.append_nil _
  rw [distinct, hnames, distinct]

/-! ## One use -/

theorem extends_perform (use : Use) (table : NameTable) :
    (use.perform table).1.Extends table := by
  cases use with
  | intern name => exact extends_intern table name
  | lookup name => exact .refl table

/-- The names of the table stay the distinct interned ones. -/
theorem names_perform {table : NameTable} {earlier : List Use}
    (h : table.names = distinct earlier) (use : Use) :
    (use.perform table).1.names = distinct (earlier ++ [use]) := by
  cases use with
  | lookup name =>
      rw [distinct_lookup]
      exact h
  | intern name =>
      rw [distinct_intern, ← h]
      change (table.intern name).1.names = _
      rw [intern_fst, add]
      split <;> rfl

/-! ## Runs -/

theorem extends_performAll (table : NameTable) (uses : List Use) :
    (performAll table uses).1.Extends table := by
  induction uses generalizing table with
  | nil => exact .refl table
  | cons use uses ih => exact (ih (use.perform table).1).trans (extends_perform use table)

theorem names_performAll {table : NameTable} {earlier : List Use}
    (h : table.names = distinct earlier) (uses : List Use) :
    (performAll table uses).1.names = distinct (earlier ++ uses) := by
  induction uses generalizing table earlier with
  | nil =>
      rw [List.append_nil]
      exact h
  | cons use uses ih =>
      have hrest := ih (names_perform h use)
      rwa [List.append_assoc, List.singleton_append] at hrest

theorem names_performAll_empty (uses : List Use) :
    (performAll .empty uses).1.names = distinct uses := by
  have hempty : NameTable.empty.names = distinct [] := rfl
  have h := names_performAll hempty uses
  rwa [List.nil_append] at h

theorem performAll_append (table : NameTable) (uses more : List Use) :
    (performAll table (uses ++ more)).1 = (performAll (performAll table uses).1 more).1 := by
  induction uses generalizing table with
  | nil => rfl
  | cons use uses ih => exact ih (use.perform table).1

theorem performAll_take_succ (table : NameTable) {uses : List Use} {i : Nat} {use : Use}
    (h : uses[i]? = some use) :
    (performAll table (uses.take (i + 1))).1 =
      (use.perform (performAll table (uses.take i)).1).1 := by
  rw [List.take_add_one, h, performAll_append]
  rfl

theorem extends_take (table : NameTable) (uses : List Use) (i : Nat) :
    (performAll table uses).1.Extends (performAll table (uses.take i)).1 := by
  have h := extends_performAll (performAll table (uses.take i)).1 (uses.drop i)
  rwa [← performAll_append, List.take_append_drop] at h

/-- The answer to a use comes from the table that the uses before it have led to. -/
theorem performAll_snd_getElem? (table : NameTable) {uses : List Use} {i : Nat} {use : Use}
    (h : uses[i]? = some use) :
    (performAll table uses).2[i]? = some (use.perform (performAll table (uses.take i)).1).2 := by
  induction uses generalizing table i with
  | nil => cases h
  | cons first uses ih =>
      cases i with
      | zero =>
          obtain rfl := Option.some.inj h
          rfl
      | succ i => exact ih (first.perform table).1 h

end Use

variable {table : NameTable} {name other : String}

/-- The number of a name is its place in the table. -/
theorem lookup?_eq_idxOf (h : name ∈ table.names) :
    table.lookup? name = some ⟨table.names.idxOf name + 1⟩ := by
  rw [lookup?_eq_some_iff]
  simp [get?, List.idxOf_lt_length_of_mem h]

theorem lookup?_add (h : name ∉ table.names) :
    (table.add name).lookup? other =
      if name = other then some ⟨table.size + 1⟩ else table.lookup? other := by
  have hadd : (table.add name).names = table.names ++ [name] := by rw [add, dif_neg h]
  by_cases hother : name = other
  · subst hother
    rw [if_pos rfl, lookup?_eq_idxOf (mem_add table name), hadd, List.idxOf_append, if_neg h]
    simp [size]
  · rw [if_neg hother]
    cases hlookup : table.lookup? other with
    | some handle =>
        have hget := (extends_add table name).get? (lookup?_eq_some_iff.mp hlookup)
        exact lookup?_eq_some_iff.mpr hget
    | none =>
        rw [lookup?_eq_none_iff] at hlookup ⊢
        simp [hadd, hlookup, Ne.symm hother]

end NameTable

/-! ## Both ways -/

/-- The largest number that there is for a name. -/
def Handle.greatest : Nat := 4294967295

/-- A table kept twice: numbers by their names, and names in the order of their numbers. -/
structure TwoWayTable where
  numbers : Table Handle
  names : List String

namespace TwoWayTable

def empty : TwoWayTable := ⟨.empty, []⟩

def lookup? (table : TwoWayTable) (name : String) : Option Handle :=
  table.numbers.get? name

def get? (table : TwoWayTable) (handle : Handle) : Option String :=
  if handle.number = 0 then none else table.names[handle.number - 1]?

/-- Gives the number of a name, which is added in both ways unless the table has it. There may be no
number left. -/
def intern? (table : TwoWayTable) (name : String) : Option (TwoWayTable × Handle) :=
  match table.lookup? name with
  | some handle => some (table, handle)
  | none =>
      let handle : Handle := ⟨table.names.length + 1⟩
      if handle.number ≤ Handle.greatest then
        some (⟨table.numbers.put name handle, table.names ++ [name]⟩, handle)
      else none

/-- What a use gives, and the table after it. -/
def perform? (table : TwoWayTable) : NameTable.Use → Option (TwoWayTable × Option Handle)
  | .intern name => (table.intern? name).map fun (table, handle) => (table, some handle)
  | .lookup name => some (table, table.lookup? name)

/-- Uses one after the other. -/
def performAll? (table : TwoWayTable) :
    List NameTable.Use → Option (TwoWayTable × List (Option Handle))
  | [] => some (table, [])
  | use :: uses => do
      let (table, handle?) ← table.perform? use
      let (table, handles) ← table.performAll? uses
      return (table, handle? :: handles)

/-- Both halves hold what the other table holds. -/
structure Mirrors (twice : TwoWayTable) (table : NameTable) : Prop where
  names_eq : twice.names = table.names
  lookup?_eq : ∀ name, twice.lookup? name = table.lookup? name

theorem mirrors_empty : empty.Mirrors .empty :=
  ⟨rfl, fun _ => rfl⟩

variable {twice : TwoWayTable} {table : NameTable}

/-- The halves are inverse to each other. -/
theorem Mirrors.inverse (h : twice.Mirrors table) (name : String) (handle : Handle) :
    twice.lookup? name = some handle ↔ twice.get? handle = some name := by
  rw [h.lookup?_eq, NameTable.lookup?_eq_some_iff, get?, h.names_eq]
  rfl

theorem Mirrors.intern (h : twice.Mirrors table) {name : String}
    (hsize : (table.intern name).1.size ≤ Handle.greatest) :
    ∃ grown, twice.intern? name = some (grown, (table.intern name).2) ∧
      grown.Mirrors (table.intern name).1 := by
  unfold intern?
  rw [h.lookup?_eq]
  unfold NameTable.intern at hsize ⊢
  cases hlookup : table.lookup? name with
  | some handle => exact ⟨twice, rfl, h⟩
  | none =>
      have hnew := NameTable.lookup?_eq_none_iff.mp hlookup
      have hadd : (table.add name).names = table.names ++ [name] := by
        rw [NameTable.add, dif_neg hnew]
      have hlength : twice.names.length + 1 = (table.add name).size := by
        rw [NameTable.size, hadd, h.names_eq, List.length_append, List.length_singleton]
      rw [hlookup] at hsize
      dsimp only at hsize ⊢
      rw [if_pos (hlength ▸ hsize), h.names_eq]
      refine ⟨_, rfl, hadd.symm, fun other => ?_⟩
      rw [lookup?, Table.get?_put, NameTable.lookup?_add hnew, ← h.lookup?_eq]
      rfl

theorem Mirrors.perform (h : twice.Mirrors table) {use : NameTable.Use}
    (hsize : (use.perform table).1.size ≤ Handle.greatest) :
    ∃ grown, twice.perform? use = some (grown, (use.perform table).2) ∧
      grown.Mirrors (use.perform table).1 := by
  cases use with
  | intern name =>
      obtain ⟨grown, hintern, hgrown⟩ := h.intern hsize
      exact ⟨grown, by rw [perform?, hintern]; rfl, hgrown⟩
  | lookup name => exact ⟨twice, by rw [perform?, h.lookup?_eq]; rfl, h⟩

theorem Mirrors.performAll (h : twice.Mirrors table) {uses : List NameTable.Use}
    (hsize : (NameTable.Use.performAll table uses).1.size ≤ Handle.greatest) :
    ∃ last, twice.performAll? uses = some (last, (NameTable.Use.performAll table uses).2) ∧
      last.Mirrors (NameTable.Use.performAll table uses).1 := by
  induction uses generalizing twice table with
  | nil => exact ⟨twice, rfl, h⟩
  | cons use uses ih =>
      have hgrows := NameTable.Use.extends_performAll (use.perform table).1 uses
      obtain ⟨grown, hstep, hgrown⟩ :=
        h.perform (Nat.le_trans (List.IsPrefix.length_le hgrows) hsize)
      obtain ⟨last, hrest, hlast⟩ := ih hgrown hsize
      exact ⟨last, by rw [performAll?, hstep]; simp [hrest, NameTable.Use.performAll], hlast⟩

end TwoWayTable

/-! ## Numbers of names -/

namespace NameTable

namespace Use

variable {uses : List Use} {name : String} {i : Nat}

/-- A table has the interned names, each at its place among the distinct ones. -/
theorem lookup?_performAll (uses : List Use) (name : String) :
    (performAll .empty uses).1.lookup? name =
      if intern name ∈ uses then some (numberOf uses name) else none := by
  have hnames := names_performAll_empty uses
  split <;> rename_i hname <;> rw [← mem_distinct, ← hnames] at hname
  · rw [lookup?_eq_idxOf hname, numberOf, hnames]
  · exact lookup?_eq_none_iff.mpr hname

/-- Names that are interned later do not change the number of a name. -/
theorem numberOf_take (h : intern name ∈ uses.take i) :
    numberOf (uses.take i) name = numberOf uses name := by
  have hbefore := lookup?_performAll (uses.take i) name
  have hlast := lookup?_performAll uses name
  rw [if_pos h] at hbefore
  rw [if_pos (List.mem_of_mem_take h)] at hlast
  have hget := (extends_take .empty uses i).get? (lookup?_eq_some_iff.mp hbefore)
  exact Option.some.inj ((lookup?_eq_some_iff.mpr hget).symm.trans hlast)

theorem answer_intern (h : uses[i]? = some (intern name)) :
    (performAll .empty uses).2[i]? = some (some (numberOf uses name)) := by
  have hmem : intern name ∈ uses.take (i + 1) := by
    rw [List.take_add_one, h]
    exact List.mem_append_right _ (List.mem_singleton_self _)
  have hget := get?_intern (performAll .empty (uses.take i)).1 name
  have hnumber := lookup?_performAll (uses.take (i + 1)) name
  rw [if_pos hmem, numberOf_take hmem, performAll_take_succ .empty h] at hnumber
  have hhandle := (lookup?_eq_some_iff.mpr hget).symm.trans hnumber
  rw [performAll_snd_getElem? .empty h, ← hhandle]
  rfl

theorem answer_lookup (h : uses[i]? = some (lookup name)) :
    (performAll .empty uses).2[i]? =
      some (if intern name ∈ uses.take i then some (numberOf uses name) else none) := by
  rw [performAll_snd_getElem? .empty h, perform, lookup?_performAll]
  split
  · rw [numberOf_take ‹_›]
  · rfl

end Use

/-- However names are interned and looked up, interning a name gives its place among the distinct
interned names, so that different names have different numbers, and by the last table the number
still stands for the name. A look-up finds this number if the name was interned before, and changes
nothing. As long as there are numbers left, a table that is kept both ways gives the same answers,
and its two halves are inverse to each other. -/
theorem uses_numbered (uses : List Use) :
    let last := (Use.performAll .empty uses).1
    let answers := (Use.performAll .empty uses).2
    last.size = (Use.distinct uses).length ∧
      (∀ name other, Use.intern name ∈ uses → Use.intern other ∈ uses →
        (Use.numberOf uses name = Use.numberOf uses other ↔ name = other)) ∧
      (∀ (i : Nat) (name : String), uses[i]? = some (Use.intern name) →
        answers[i]? = some (some (Use.numberOf uses name)) ∧
          last.get? (Use.numberOf uses name) = some name) ∧
      (∀ (i : Nat) (name : String), uses[i]? = some (Use.lookup name) →
        answers[i]? =
            some (if Use.intern name ∈ uses.take i then some (Use.numberOf uses name) else none) ∧
          (Use.performAll .empty (uses.take (i + 1))).1 =
            (Use.performAll .empty (uses.take i)).1) ∧
      ((Use.distinct uses).length ≤ Handle.greatest →
        ∃ twice, TwoWayTable.empty.performAll? uses = some (twice, answers) ∧
          twice.names = Use.distinct uses ∧
          ∀ name handle, twice.lookup? name = some handle ↔ twice.get? handle = some name) := by
  intro last answers
  have hnames : last.names = Use.distinct uses := Use.names_performAll_empty uses
  refine ⟨by rw [size, hnames], fun name other hname _ => ?_, fun i name huse => ?_,
    fun i name huse => ?_, fun hsize => ?_⟩
  · rw [Use.numberOf, Use.numberOf, Handle.mk.injEq, Nat.add_right_cancel_iff]
    exact List.idxOf_inj (Use.mem_distinct.mpr hname)
  · have hlookup := Use.lookup?_performAll uses name
    rw [if_pos (List.mem_of_getElem? huse)] at hlookup
    exact ⟨Use.answer_intern huse, lookup?_eq_some_iff.mp hlookup⟩
  · exact ⟨Use.answer_lookup huse, Use.performAll_take_succ .empty huse⟩
  · rw [← hnames] at hsize
    obtain ⟨twice, hrun, htwice⟩ := TwoWayTable.mirrors_empty.performAll hsize
    exact ⟨twice, hrun, htwice.names_eq.trans hnames, htwice.inverse⟩

end NameTable

end TypedIsl
