import TypedIsl.Proofs.Check.Visits

/-!
# Calls, slot by slot

The arguments of a call are lined up with the parameters of its function. The first parameter that
may be repeated takes the place of all the arguments by which there are more than parameters, and
each argument is judged by the parameter at its slot.
-/

namespace TypedIsl

namespace Param

/-- As many arguments can be lined up with the parameters: one for each of them, or at least so many
if some parameter may be repeated. -/
def LinesUp (params : List Param) (count : Nat) : Prop :=
  (∀ param ∈ params, param.isMany = false) ∧ count = params.length ∨
    (∃ param ∈ params, param.isMany = true) ∧ params.length ≤ count

instance (params : List Param) (count : Nat) : Decidable (LinesUp params count) :=
  inferInstanceAs (Decidable (_ ∧ _ ∨ _ ∧ _))

/-- The parameter that judges the argument at index `i`, if `extra` arguments more than parameters
take the place of the first one that may be repeated. -/
def slot (params : List Param) (extra i : Nat) : Nat :=
  match params.findIdx? isMany with
  | none => i
  | some k => if i ≤ k then i else if i ≤ k + extra then k else i - extra

end Param

/-- The diagnostic for an argument, given by its range and type, unless it can be what is
expected. -/
def argumentMismatch? (callee : Callee) (position : Nat) (range : Range) (actual expected : Ty) :
    Option Diagnostic :=
  if actual.canBe expected then none
  else some ⟨.argumentMismatch callee position expected.tag actual.tag, range, []⟩

/-- The diagnostic for the argument at index `i` of a call, judged by the parameter at its slot. -/
def Value.mismatchAt? (structs : List String) (scopes : Scopes) (callee : Callee)
    (params : List Param) (args : List Value) (i : Nat) : Option Diagnostic := do
  let arg ← args[i]?
  let param ← params[Param.slot params (args.length - params.length) i]?
  argumentMismatch? callee (i + 1) arg.range (arg.check structs scopes).result param.type

/-! ## Slots -/

namespace Param

variable {params : List Param} {count extra i : Nat}

theorem slot_cons_fixed_zero (type : Ty) (params : List Param) (extra : Nat) :
    slot (.fixed type :: params) extra 0 = 0 := by
  rw [slot]
  split
  · rfl
  · exact if_pos (Nat.zero_le _)

theorem slot_cons_fixed_succ (type : Ty) (params : List Param) (extra i : Nat) :
    slot (.fixed type :: params) extra (i + 1) = slot params extra i + 1 := by
  rw [slot, slot, List.findIdx?_cons, isMany]
  cases params.findIdx? isMany with
  | none => rfl
  | some k =>
      simp only [Bool.false_eq_true, if_false, Option.map_some, Nat.add_le_add_iff_right]
      by_cases hbefore : i ≤ k
      · rw [if_pos hbefore, if_pos hbefore]
      rw [if_neg hbefore, if_neg hbefore]
      by_cases hextra : i ≤ k + extra
      · rw [if_pos (by omega), if_pos hextra]
      · rw [if_neg (by omega), if_neg hextra]
        omega

theorem slot_cons_many (type : Ty) (params : List Param) (extra i : Nat) :
    slot (.many type :: params) extra i = i - extra := by
  simp only [slot, List.findIdx?_cons, isMany, if_true]
  split
  · omega
  · split <;> omega

/-- The expected types are those of the parameters at the slots. -/
theorem getElem?_spread (extra : Nat) (params : List Param) (i : Nat) :
    (spread extra params)[i]? = params[slot params extra i]?.map type := by
  induction params generalizing i with
  | nil => rfl
  | cons param params ih =>
      cases param with
      | fixed type =>
          cases i with
          | zero => rw [slot_cons_fixed_zero]; rfl
          | succ i => rw [slot_cons_fixed_succ, spread, List.getElem?_cons_succ, ih]; rfl
      | many type =>
          rw [slot_cons_many, spread, List.getElem?_append, List.length_replicate]
          split
          · rw [List.getElem?_replicate_of_lt ‹_›, show i - extra = 0 by omega]
            rfl
          · rw [show i - extra = i - (extra + 1) + 1 by omega, List.getElem?_cons_succ,
              List.getElem?_map]

theorem length_spread (extra : Nat) (params : List Param) :
    (spread extra params).length = params.length + if params.any isMany then extra else 0 := by
  induction params with
  | nil => rfl
  | cons param params ih =>
      cases param with
      | fixed type =>
          rw [spread, List.length_cons, ih, List.any_cons, isMany, Bool.false_or, List.length_cons]
          omega
      | many type =>
          simp [spread, isMany]
          omega

theorem linesUp_iff :
    LinesUp params count ↔ (spread (count - params.length) params).length = count := by
  rw [length_spread, LinesUp]
  by_cases hmany : params.any isMany = true
  · have hsome := List.any_eq_true.mp hmany
    have hnot : ¬∀ param ∈ params, param.isMany = false := by
      obtain ⟨param, hparam, htrue⟩ := hsome
      exact fun h => absurd htrue (by simp [h param hparam])
    rw [if_pos hmany]
    simp only [hnot, hsome, false_and, true_and, false_or]
    omega
  · have hnone : ¬∃ param ∈ params, param.isMany = true := fun h => hmany (List.any_eq_true.mpr h)
    have hall : ∀ param ∈ params, param.isMany = false := by
      intro param hparam
      exact Bool.eq_false_iff.mpr fun htrue => hnone ⟨param, hparam, htrue⟩
    rw [if_neg hmany]
    simp only [hnone, false_and, or_false]
    exact ⟨fun h => h.2.symm, fun h => ⟨hall, h.symm⟩⟩

theorem expectedTypes?_of_linesUp (h : LinesUp params count) :
    expectedTypes? params count = some (spread (count - params.length) params) :=
  if_pos (linesUp_iff.mp h)

theorem expectedTypes?_of_not_linesUp (h : ¬LinesUp params count) :
    expectedTypes? params count = none :=
  if_neg fun hlength => h (linesUp_iff.mpr hlength)

/-- Every argument has a slot. -/
theorem slot_lt (h : LinesUp params count) (hi : i < count) :
    slot params (count - params.length) i < params.length := by
  by_contra hle
  have hspread := getElem?_spread (count - params.length) params i
  rw [List.getElem?_eq_none (Nat.le_of_not_lt hle), Option.map_none, List.getElem?_eq_none_iff,
    linesUp_iff.mp h] at hspread
  omega

end Param

/-! ## Arguments -/

theorem diagnostics_ensure_argument (callee : Callee) (position : Nat) (range : Range)
    (actual expected : Ty) :
    (Judged.ensure (actual.canBe expected) range
      (.argumentMismatch callee position expected.tag actual.tag)).diagnostics =
      (argumentMismatch? callee position range actual expected).toList := by
  rw [Judged.ensure, argumentMismatch?]
  split <;> rfl

/-- Arguments are judged one after the other, as long as there are expected types. -/
theorem diagnostics_judgeArgs (callee : Callee) (position : Nat) (args : List (Range × Ty))
    (expected : List Ty) :
    (judgeArgs callee position args expected).diagnostics =
      (List.range args.length).filterMap (fun i => do
        let arg ← args[i]?
        let type ← expected[i]?
        argumentMismatch? callee (position + i) arg.1 arg.2 type) := by
  induction args generalizing position expected with
  | nil => rfl
  | cons arg args ih =>
      cases expected with
      | nil => simp [judgeArgs]
      | cons type expected =>
          have hrest (i : Nat) : position + 1 + i = position + (i + 1) := by omega
          rw [judgeArgs, Judged.diagnostics_bind, diagnostics_ensure_argument, ih, List.length_cons,
            List.range_succ_eq_map, List.filterMap_cons, List.filterMap_map]
          simp only [hrest]
          cases hfirst : argumentMismatch? callee position arg.1 arg.2 type <;>
            simp [hfirst]

theorem result_checkAll (structs : List String) (scopes : Scopes) (args : List Value) :
    (Value.checkAll structs scopes args).result =
      args.map fun arg => (arg.check structs scopes).result := by
  induction args with
  | nil => rfl
  | cons arg args ih => simp [Value.checkAll, ih]

/-! ## Calls -/

section

variable {structs : List String} {scopes : Scopes} {callee : Value} {params : List Param}
  {result : Ty}

/-- The arguments of a call as they are judged. -/
def Value.given (structs : List String) (scopes : Scopes) (args : List Value) : List (Range × Ty) :=
  args.map fun arg => (arg.range, (arg.check structs scopes).result)

theorem Value.check_call_function
    (h : (callee.check structs scopes).result = .function params result) (range : Range)
    (args : List Value) :
    let judged := judgeCall range callee.asCallee params result (given structs scopes args)
    (Value.call range callee args).check structs scopes =
      ⟨judged.result,
        (callee.check structs scopes).diagnostics ++
          args.flatMap (fun arg => (arg.check structs scopes).diagnostics) ++
          judged.diagnostics⟩ := by
  intro judged
  have hgiven : (args.map Value.range).zip (Value.checkAll structs scopes args).result =
      given structs scopes args := by
    rw [result_checkAll, given, List.zip_map']
  rw [Value.check, ← Value.checkAll_diagnostics, List.append_assoc]
  show Judged.mk _ _ = _
  rw [h]
  dsimp only
  rw [Judged.diagnostics_bind, Judged.result_bind, hgiven]

theorem Value.diagnostics_judgeArgs_given (structs : List String) (scopes : Scopes)
    (callee : Callee) (params : List Param) (args : List Value) :
    (judgeArgs callee 1 (given structs scopes args)
      (spread (args.length - params.length) params)).diagnostics =
      (List.range args.length).filterMap (mismatchAt? structs scopes callee params args) := by
  rw [diagnostics_judgeArgs, given, List.length_map]
  apply List.filterMap_congr
  intro i _
  rw [List.getElem?_map, Param.getElem?_spread, Nat.add_comm, mismatchAt?]
  cases args[i]? with
  | none => rfl
  | some arg => cases params[Param.slot params (args.length - params.length) i]? <;> rfl

/-- A call of a function. If the arguments can be lined up with the parameters, the call has the
result type of the function, and after what is found in its parts there is one diagnostic for each
argument that cannot be what the parameter at its slot expects, in order. Otherwise its type is not
known, and the only thing to add is that the numbers do not match. -/
theorem Value.check_call_slots (structs : List String) (scopes : Scopes) (range : Range)
    (args : List Value) (h : (callee.check structs scopes).result = .function params result) :
    let judged := (Value.call range callee args).check structs scopes
    let parts := (callee.check structs scopes).diagnostics ++
      args.flatMap fun arg => (arg.check structs scopes).diagnostics
    (Param.LinesUp params args.length →
      (∀ i < args.length, Param.slot params (args.length - params.length) i < params.length) ∧
        judged.result = result ∧
        judged.diagnostics = parts ++ (List.range args.length).filterMap
          (mismatchAt? structs scopes callee.asCallee params args)) ∧
      (¬Param.LinesUp params args.length →
        judged.result = .flexible ∧
        judged.diagnostics = parts ++ [⟨.arityMismatch callee.asCallee params.length args.length
          (params.any Param.isMany), range, []⟩]) := by
  intro judged parts
  have hlength : (given structs scopes args).length = args.length := List.length_map _
  simp only [judged, check_call_function h, judgeCall, hlength]
  refine ⟨fun hlines => ?_, fun hlines => ?_⟩
  · rw [Param.expectedTypes?_of_linesUp hlines]
    refine ⟨fun i hi => Param.slot_lt hlines hi, rfl, ?_⟩
    rw [← diagnostics_judgeArgs_given]
    simp only [Judged.diagnostics_bind, Judged.diagnostics_pure, List.append_nil, parts]
  · rw [Param.expectedTypes?_of_not_linesUp hlines]
    exact ⟨rfl, rfl⟩

/-- A function whose second and third parameters may both be repeated. -/
def repeatingParams : List Param :=
  [.fixed .number, .many .string, .many .boolean]

/-- Of four arguments the second and the third are judged by the second parameter, and the last one
by the last parameter. Two arguments are too few. -/
theorem Value.check_call_slots_repeated :
    let scopes := Scopes.root ⟨[("f", ⟨.function repeatingParams .symbol, none⟩)]⟩
    let callee := Value.name ⟨"f", default⟩
    let args := [Literal.integer 1, .string "a", .integer 2, .string "b"].map (literal default)
    (callee.check [] scopes).result = .function repeatingParams .symbol ∧
      Param.LinesUp repeatingParams args.length ∧
      ((Value.call default callee args).check [] scopes).diagnostics =
        [⟨.argumentMismatch (.named "f") 3 .string .number, default, []⟩,
          ⟨.argumentMismatch (.named "f") 4 .boolean .string, default, []⟩] ∧
      ¬Param.LinesUp repeatingParams (args.take 2).length ∧
      ((Value.call default callee (args.take 2)).check [] scopes).diagnostics =
        [⟨.arityMismatch (.named "f") 3 2 true, default, []⟩] := by
  intro scopes callee args
  have hcallee : (callee.check [] scopes).result = .function repeatingParams .symbol := rfl
  have hlines : Param.LinesUp repeatingParams args.length := by decide
  have hfew : ¬Param.LinesUp repeatingParams (args.take 2).length := by decide
  obtain ⟨hslots, -⟩ := check_call_slots [] scopes default args hcallee
  obtain ⟨-, harity⟩ := check_call_slots [] scopes default (args.take 2) hcallee
  exact ⟨hcallee, hlines, (hslots hlines).2.2, hfew, (harity hfew).2⟩

end

end TypedIsl
