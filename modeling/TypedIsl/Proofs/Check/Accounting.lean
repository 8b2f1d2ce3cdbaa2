import TypedIsl.Proofs.Check.Simulation
import TypedIsl.Proofs.Ty.Loosening

/-!
# Accounting for diagnostics

If the types in the scopes are loosened, a step of the checker finds hardly more than before: each
of its diagnostics stands where one of the same kind stood, or is excused by the slack that the
types have. What the step computes is loosened again.
-/

namespace TypedIsl

/-! ## Diagnostics that are excused -/

namespace Problem

inductive Kind where
  | alreadyDefined
  | alreadyDefinedLocally
  | undefined
  | unknownType
  | notTypeChecked
  | notCallable
  | arityMismatch
  | argumentMismatch
  | returnMismatch
  | conditionNotBoolean
deriving DecidableEq

def kind : Problem → Kind
  | alreadyDefined _ => .alreadyDefined
  | alreadyDefinedLocally _ => .alreadyDefinedLocally
  | undefined _ => .undefined
  | unknownType _ => .unknownType
  | notTypeChecked _ => .notTypeChecked
  | notCallable _ _ => .notCallable
  | arityMismatch _ _ _ _ => .arityMismatch
  | argumentMismatch _ _ _ _ => .argumentMismatch
  | returnMismatch _ _ _ => .returnMismatch
  | conditionNotBoolean _ _ => .conditionNotBoolean

/-- An argument, a result or a condition has the type `any` where another one is expected. -/
def FoundAny : Problem → Prop
  | argumentMismatch _ _ _ actual => actual = .any
  | returnMismatch _ _ actual => actual = .any
  | conditionNotBoolean _ actual => actual = .any
  | _ => False

end Problem

/-- The diagnostics that slack in the types may add, besides those of which `own` speaks. -/
def Slack.Excuses (slack : Slack) (own : Diagnostic → Prop) (d : Diagnostic) : Prop :=
  own d ∨ slack.dynamic ∧ d.problem.FoundAny ∨
    ¬slack.callable ∧ ∃ callee, d.problem = .notCallable callee .union

/-- Each of the second diagnostics is excused or stands where one of its kind stood before. -/
def Accounted (slack : Slack) (own : Diagnostic → Prop) (ds es : List Diagnostic) : Prop :=
  ∀ e ∈ es, slack.Excuses own e ∨ ∃ d ∈ ds, d.range = e.range ∧ d.problem.kind = e.problem.kind

section

variable {slack : Slack} {own : Diagnostic → Prop} {ds es : List Diagnostic}

theorem accounted_nil : Accounted slack own ds [] :=
  fun _ he => absurd he List.not_mem_nil

theorem accounted_refl (ds : List Diagnostic) : Accounted slack own ds ds :=
  fun d hd => .inr ⟨d, hd, rfl, rfl⟩

theorem additive_accounted (slack : Slack) (own : Diagnostic → Prop) :
    Additive (Accounted slack own) := by
  refine ⟨accounted_nil, ?_⟩
  intro ds es more others h hmore e he
  rcases List.mem_append.mp he with he | he
  · refine (h e he).imp_right ?_
    rintro ⟨d, hd, hsame⟩
    exact ⟨d, List.mem_append_left _ hd, hsame⟩
  · refine (hmore e he).imp_right ?_
    rintro ⟨d, hd, hsame⟩
    exact ⟨d, List.mem_append_right _ hd, hsame⟩

/-- A diagnostic of the same kind at the same place. -/
theorem accounted_report {d e : Diagnostic} (hrange : d.range = e.range)
    (hkind : d.problem.kind = e.problem.kind) :
    (Judged.report d).Match (Accounted slack own) Eq (Judged.report e) := by
  refine .report fun diagnostic hmem => ?_
  rw [List.mem_singleton.mp hmem]
  exact .inr ⟨d, List.mem_singleton_self _, hrange, hkind⟩

theorem accounted_excused {d : Diagnostic} (h : slack.Excuses own d) {x : Judged Unit} :
    x.Match (Accounted slack own) Eq (Judged.report d) := by
  refine ⟨rfl, fun e he => .inl ?_⟩
  rw [List.mem_singleton.mp he]
  exact h

/-- What is expected still holds, or its failure is excused. -/
theorem accounted_unless {holds still : Bool} {d e : Diagnostic} (hrange : d.range = e.range)
    (hkind : d.problem.kind = e.problem.kind)
    (h : holds = true → still = true ∨ slack.Excuses own e) :
    (if holds then pure () else Judged.report d).Match (Accounted slack own) Eq
      (if still then pure () else Judged.report e) := by
  have hR := additive_accounted slack own
  by_cases hstill : still = true
  · rw [if_pos hstill]
    exact ⟨rfl, accounted_nil⟩
  · rw [if_neg hstill]
    by_cases hholds : holds = true
    · exact accounted_excused ((h hholds).resolve_left hstill)
    · rw [if_neg hholds]
      exact accounted_report hrange hkind

end

/-! ## Arguments of wider functions -/

theorem forall₂_spread {params others : List Param} (h : List.Forall₂ Param.Widens params others)
    (extra : Nat) :
    List.Forall₂ (fun type wide => wide = type ∨ wide = .any) (spread extra params)
      (spread extra others) := by
  induction h with
  | nil => exact .nil
  | @cons param wide params others hparam hparams ih =>
      obtain ⟨hmany, htype⟩ := hparam
      cases param with
      | fixed type =>
          cases wide with
          | fixed wide => exact .cons htype ih
          | many wide => exact Bool.noConfusion hmany
      | many type =>
          cases wide with
          | fixed wide => exact Bool.noConfusion hmany
          | many wide =>
              rw [spread, spread]
              refine List.rel_append ?_ ?_
              · generalize extra + 1 = times
                induction times with
                | zero => exact .nil
                | succ times ihTimes => exact .cons htype ihTimes
              · rw [List.forall₂_map_left_iff, List.forall₂_map_right_iff]
                exact hparams.imp fun _ _ hwidens => hwidens.2

/-- As many arguments are expected. -/
theorem expectedTypes?_widens {params others : List Param}
    (h : List.Forall₂ Param.Widens params others) (count : Nat) :
    Option.Rel (List.Forall₂ fun type wide => wide = type ∨ wide = .any)
      (expectedTypes? params count) (expectedTypes? others count) := by
  have hspread := forall₂_spread h (count - params.length)
  dsimp only [expectedTypes?]
  rw [← h.length_eq, ← hspread.length_eq]
  split
  · exact .some hspread
  · exact .none

section

variable {R : List Diagnostic → List Diagnostic → Prop} {r : Ty → Ty → Prop}
  {callee called : Callee} (hR : Additive R)
  (hone : ∀ {actual other expected wide}, r actual other → wide = expected ∨ wide = .any →
    ∀ range position,
      (Judged.ensure (actual.canBe expected) range
        (.argumentMismatch callee position expected.tag actual.tag)).Match R Eq
      (Judged.ensure (other.canBe wide) range
        (.argumentMismatch called position wide.tag other.tag)))

include hR hone

/-- Arguments are judged as those of a function with wider parameters, if each single one is. -/
theorem judgeArgs_related {position : Nat} {ranges : List Range}
    {actuals others expected wider : List Ty} (h : List.Forall₂ r actuals others)
    (hwider : List.Forall₂ (fun type wide => wide = type ∨ wide = .any) expected wider) :
    (judgeArgs callee position (ranges.zip actuals) expected).Match R Eq
      (judgeArgs called position (ranges.zip others) wider) := by
  induction ranges generalizing position actuals others expected wider with
  | nil => exact .pure hR rfl
  | cons range ranges ih =>
      cases h with
      | nil => exact .pure hR rfl
      | cons hactual hactuals =>
          cases hwider with
          | nil => exact .pure hR rfl
          | cons htype hwider =>
              rw [List.zip_cons_cons, List.zip_cons_cons, judgeArgs, judgeArgs]
              exact .step hR (hone hactual htype range position) fun _ => ih hactuals hwider

/-- A function with wider parameters takes as many arguments. -/
theorem judgeCall_related {params others : List Param} {result other : Ty} {range : Range}
    {ranges : List Range} {actuals args : List Ty}
    (hparams : List.Forall₂ Param.Widens params others) (hresult : r result other)
    (hsame : r .flexible .flexible) (hargs : List.Forall₂ r actuals args)
    (harity : ∀ count,
      (Judged.report ⟨.arityMismatch callee params.length count (params.any Param.isMany), range,
        []⟩).Match R Eq
      (Judged.report ⟨.arityMismatch called others.length count (others.any Param.isMany), range,
        []⟩)) :
    (judgeCall range callee params result (ranges.zip actuals)).Match R r
      (judgeCall range called others other (ranges.zip args)) := by
  have hlength : (ranges.zip args).length = (ranges.zip actuals).length := by
    rw [List.length_zip, List.length_zip, hargs.length_eq]
  have hexpected := expectedTypes?_widens hparams (ranges.zip actuals).length
  rw [judgeCall, judgeCall, hlength]
  generalize expectedTypes? params (ranges.zip actuals).length = expected at hexpected ⊢
  generalize expectedTypes? others (ranges.zip actuals).length = wider at hexpected ⊢
  cases hexpected with
  | some hwider =>
      exact .step hR (judgeArgs_related hR hone hargs hwider) fun _ => .pure hR hresult
  | none => exact .step hR (harity _) fun _ => .pure hR hsame

end

/-! ## Conditions, results and calls -/

section

variable {slack : Slack} {own : Diagnostic → Prop} {actual other : Ty}

/-- A looser type is accepted where the other one is, or its being `any` is excused. -/
theorem Ty.Loosens.accepted (h : Ty.Loosens slack actual other) {expected wider : Ty}
    (hwider : wider = expected ∨ wider = .any) {d : Diagnostic}
    (hd : other.tag = .any → d.problem.FoundAny) (hcan : actual.canBe expected = true) :
    other.canBe wider = true ∨ slack.Excuses own d := by
  refine (h.canBe hwider hcan).imp_right ?_
  rintro ⟨hdynamic, rfl⟩
  exact .inr (.inl ⟨hdynamic, hd rfl⟩)

theorem judgeCondition_accounted (h : Ty.Loosens slack actual other) (form : String)
    (range : Range) :
    (judgeCondition form range actual).Match (Accounted slack own) Eq
      (judgeCondition form range other) :=
  accounted_unless rfl rfl (h.accepted (.inl rfl) id)

theorem judgeResult_accounted (h : Ty.Loosens slack actual other) (function? : Option String)
    (body declared : Range) (expected : Ty) :
    (judgeResult function? body declared expected actual).Match (Accounted slack own) Eq
      (judgeResult function? body declared expected other) :=
  accounted_unless rfl rfl (h.accepted (.inl rfl) id)

theorem judgeCall_accounted {params others : List Param} {result loose : Ty}
    {actuals args : List Ty} (hparams : List.Forall₂ Param.Widens params others)
    (hresult : Ty.Loosens slack result loose) (hargs : List.Forall₂ (Ty.Loosens slack) actuals args)
    (range : Range) (callee called : Callee) (ranges : List Range) :
    (judgeCall range callee params result (ranges.zip actuals)).Match (Accounted slack own)
      (Ty.Loosens slack) (judgeCall range called others loose (ranges.zip args)) := by
  refine judgeCall_related (additive_accounted slack own) (fun hactual htype range position => ?_)
    hparams hresult (.same _) hargs fun _ => accounted_report rfl rfl
  exact accounted_unless rfl rfl (hactual.accepted htype id)

theorem Ty.loosens_flexible (h : ¬slack.callable) (t : Ty) : Ty.Loosens slack t .flexible :=
  .looser (by decide) (fun hcall => absurd hcall h) (fun _ => rfl) fun _ _ _ => rfl

/-- If the callee and the arguments have looser types, so has the call. -/
theorem callAs_accounted {structs : List String} {scopes others : Scopes} {type loose : Ty}
    (h : Ty.Loosens slack type loose) (range : Range) {callee looser : Value}
    (hrange : looser.range = callee.range) {args looserArgs : List Value}
    (hranges : looserArgs.map Value.range = args.map Value.range)
    (hargs : (Value.checkAll structs scopes args).Match (Accounted slack own)
      (List.Forall₂ (Ty.Loosens slack)) (Value.checkAll structs others looserArgs)) :
    (Value.callAs structs scopes range callee args type).Match (Accounted slack own)
      (Ty.Loosens slack) (Value.callAs structs others range looser looserArgs loose) := by
  have hR := additive_accounted slack own
  by_cases hflexible : type.tag = .flexible
  · obtain rfl := Ty.eq_flexible_of_tag hflexible
    rw [h.flexible]
    exact .pure hR (.same .flexible)
  by_cases hfunction : type.tag = .function
  · cases type with
    | function params result =>
        rcases h.function_cases with ⟨wider, loose, rfl, hparams, hresult⟩ | ⟨hcall, hother⟩
        · rw [Value.callAs, Value.callAs, hranges]
          refine .bind hR hargs fun types more htypes => ?_
          exact judgeCall_accounted hparams hresult htypes _ _ _ _
        · rcases hother with rfl | hunion
          · exact ⟨Ty.loosens_flexible hcall _, accounted_nil⟩
          · rw [Value.callAs_other structs others range looser looserArgs
              (by rw [hunion]; decide) (by rw [hunion]; decide)]
            refine ⟨Ty.loosens_flexible hcall _, fun e he => .inl ?_⟩
            rw [List.mem_singleton.mp he]
            exact .inr (.inr ⟨hcall, looser.asCallee, by rw [hunion]⟩)
    | _ => exact Tag.noConfusion hfunction
  · rw [Value.callAs_other structs scopes range callee args hflexible hfunction]
    by_cases hlooser : loose.tag = .flexible
    · obtain rfl := Ty.eq_flexible_of_tag hlooser
      exact ⟨.same .flexible, accounted_nil⟩
    · have hnot : loose.tag ≠ .function := by
        intro htag
        cases loose with
        | function params result =>
            obtain ⟨_, _, rfl, -⟩ := h.of_function
            exact hfunction rfl
        | _ => exact Tag.noConfusion htag
      rw [Value.callAs_other structs others range looser looserArgs hlooser hnot]
      refine .step hR (accounted_report hrange.symm rfl) fun _ => ?_
      exact .pure hR (.same .flexible)

variable (slack own) in
theorem simulation_accounted : Simulation (Accounted slack own) (Ty.Loosens slack) where
  additive := additive_accounted slack own
  refl := accounted_refl
  same := .same
  function params h := .function (Ty.widens_refl params) h
  collapse := .collapse
  unionOf := .unionOf
  condition form range h := judgeCondition_accounted h form range
  result function? body declared expected h :=
    judgeResult_accounted h function? body declared expected
  call range _ _ h hargs := callAs_accounted h range rfl rfl hargs

end

/-! ## Scopes -/

/-- The second binding is that of the same definition, with a looser type. -/
def Binding.Loosens (slack : Slack) (binding other : Binding) : Prop :=
  other.definedAt? = binding.definedAt? ∧ Ty.Loosens slack binding.type other.type

namespace Scopes

/-- The same names are bound, at the same places, and their types are loosened. -/
structure Loosens (slack : Slack) (scopes others : Scopes) : Prop where
  local? : ∀ name, Option.Rel (Binding.Loosens slack) (scopes.local? name) (others.local? name)
  type? : ∀ name, Option.Rel (Ty.Loosens slack) (scopes.type? name) (others.type? name)

section

variable {slack : Slack} {own : Diagnostic → Prop} {scopes others : Scopes}

theorem Loosens.refl (slack : Slack) (scopes : Scopes) : scopes.Loosens slack scopes := by
  constructor
  · intro name
    cases scopes.local? name with
    | none => exact .none
    | some binding => exact .some ⟨rfl, .same _⟩
  · intro name
    cases scopes.type? name with
    | none => exact .none
    | some type => exact .some (.same type)

theorem loosens_iff_related :
    scopes.Loosens slack others ↔ scopes.Related (Ty.Loosens slack) others :=
  ⟨fun h => ⟨h.local?, h.type?⟩, fun h => ⟨h.local?, h.type?⟩⟩

theorem Loosens.related (h : scopes.Loosens slack others) :
    scopes.Related (Ty.Loosens slack) others :=
  loosens_iff_related.mp h

theorem Loosens.of_related {x y : Judged Scopes}
    (h : x.Match (Accounted slack own) (Related (Ty.Loosens slack)) y) :
    x.Match (Accounted slack own) (Loosens slack) y :=
  h.mono (fun _ _ hdiagnostics => hdiagnostics) fun _ _ => loosens_iff_related.mpr

theorem Loosens.enter (h : scopes.Loosens slack others) :
    scopes.enter.Loosens slack others.enter :=
  loosens_iff_related.mpr h.related.enter

theorem Loosens.bind (h : scopes.Loosens slack others) (name : Ident) {type other : Ty}
    (htype : Ty.Loosens slack type other) :
    (scopes.bind name type).Loosens slack (others.bind name other) :=
  loosens_iff_related.mpr (h.related.bind name htype)

theorem Loosens.conflict? (h : scopes.Loosens slack others) (name : Ident) (problem : Problem) :
    others.conflict? name problem = scopes.conflict? name problem :=
  h.related.conflict? name problem

theorem Loosens.bindNew (h : scopes.Loosens slack others) (name : Ident) {type other : Ty}
    (htype : Ty.Loosens slack type other) (problem : Problem) :
    (scopes.bindNew name type problem).Match (Accounted slack own) (Loosens slack)
      (others.bindNew name other problem) :=
  of_related ((simulation_accounted slack own).bindNew h.related name htype problem)

theorem Loosens.bindParams (h : scopes.Loosens slack others) (own : Diagnostic → Prop)
    (names : List Ident) {types looser : List Ty}
    (htypes : List.Forall₂ (Ty.Loosens slack) types looser) :
    (scopes.bindParams (names.zip types)).Match (Accounted slack own) (Loosens slack)
      (others.bindParams (names.zip looser)) := by
  have hR := additive_accounted slack own
  induction names generalizing scopes others types looser with
  | nil => exact .pure hR h
  | cons name names ih =>
      cases htypes with
      | nil => exact .pure hR h
      | cons htype htypes =>
          refine .bind hR (h.bindNew name htype _) fun inner other hinner => ?_
          exact ih hinner htypes

theorem Loosens.finalize (h : scopes.Loosens slack others) (name : Ident) {type other : Ty}
    (htype : Ty.Loosens slack type other) :
    (scopes.finalize name type).Loosens slack (others.finalize name other) :=
  loosens_iff_related.mpr (h.related.finalize name htype)

theorem Loosens.type?_eq_none (h : scopes.Loosens slack others) {name : String}
    (hname : scopes.get? name = none) : others.type? name = none := by
  have htype := h.type? name
  rw [Scopes.type?, hname, Option.map_none] at htype
  generalize others.type? name = looked at htype ⊢
  cases htype
  rfl

end

end Scopes

end TypedIsl
