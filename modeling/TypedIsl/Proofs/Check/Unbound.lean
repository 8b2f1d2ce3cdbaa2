import TypedIsl.Language.Minimal
import TypedIsl.Proofs.Check.LooseParts

/-!
# Values that are not known

An unbound name is reported once and has the type `flexible` from then on. Whatever that type flows
into, no other diagnostics come of it, with one exception. A union with `flexible` among its members
is no function, even if all other members are.
-/

namespace TypedIsl

/-- Functions may stop being callable, but no type becomes `any`. -/
def Slack.placeholder : Slack := ⟨False, False⟩

/-- An unbound name in place of a value. -/
theorem Value.loosens_unbound {structs bound : List String} {value : Value} {ident : Ident}
    (hname : ident.name ∉ bound) (hrange : value.range = ident.range) :
    value.Loosens .placeholder (fun d => d = ⟨.undefined ident.name, ident.range, []⟩) structs bound
      (.name ident) := by
  refine ⟨hrange.symm, fun scopes others hscopes hbound => ?_⟩
  have hnone := hscopes.type?_eq_none (hbound ident.name hname)
  rw [Value.check, Scopes.use_eq, hnone]
  refine ⟨Ty.loosens_flexible id _, fun e he => .inl (.inl ?_)⟩
  exact List.mem_singleton.mp he

namespace Program

/-- A value of a program is replaced by a name that is bound nowhere around it, at the same
range. -/
def Unbinds (language : Language) (ident : Ident) : Program → Program → Prop :=
  fun program other => Program.Within
    (fun bound value other =>
      ident.name ∉ bound ∧ value.range = ident.range ∧ other = .name ident)
    (fun _ _ _ => False) (rootNames language program) program other

/-- Besides the unbound name itself, nothing is reported but where the same kind of diagnostic was
reported before, or for a union that is called. -/
theorem check_unbinds {language : Language} {program other : Program} {ident : Ident}
    (h : program.Unbinds language ident other) :
    ∀ e ∈ (check language other).diagnostics,
      e = ⟨.undefined ident.name, ident.range, []⟩ ∨
      (∃ d ∈ (check language program).diagnostics,
        d.range = e.range ∧ d.problem.kind = e.problem.kind) ∨
      ∃ callee, e.problem = .notCallable callee .union := by
  have haccounted : Accounted .placeholder (fun d => d = ⟨.undefined ident.name, ident.range, []⟩)
      (check language program).diagnostics (check language other).diagnostics := by
    refine h.accounted ?_ fun _ _ _ hfalse => hfalse.elim
    rintro bound value _ ⟨hname, hrange, rfl⟩
    exact Value.loosens_unbound hname hrange
  intro e he
  rcases haccounted e he with (hown | ⟨hdynamic, -⟩ | ⟨-, hcallee⟩) | hbefore
  · exact .inl hown
  · exact hdynamic.elim
  · exact .inr (.inr hcallee)
  · exact .inr (.inl hbefore)

/-! ## A callee that may be unknown -/

open Range in
/-- `((if #true + arm) 1 2)`, with a name for the second arm -/
def calledBranch (arm : String) : Program :=
  [.value (.call (inLine 1 21)
    (.branch (inLine 2 16) (.literal (inLine 6 11) (.boolean true)) (.name ⟨"+", inLine 12 13⟩)
      (.name ⟨arm, inLine 14 15⟩))
    [.literal (inLine 17 18) (.integer 1), .literal (inLine 19 20) (.integer 2)])]

theorem calledBranch_unbinds :
    (calledBranch "+").Unbinds .minimal ⟨"z", .inLine 14 15⟩ (calledBranch "z") := by
  have hfree : "z" ∉ rootNames .minimal (calledBranch "+") := by decide +kernel
  exact @Within.form _ _ _ [] [] _ _ (.value (.callee (.elseArm (.part ⟨hfree, rfl, rfl⟩))))

/-- Both arms are functions as long as they are known. If one of them is not, the call is reported
besides the unbound name. -/
theorem check_unbinds_union :
    (calledBranch "+").Unbinds .minimal ⟨"z", .inLine 14 15⟩ (calledBranch "z") ∧
      ¬∀ e ∈ (check .minimal (calledBranch "z")).diagnostics,
        e = ⟨.undefined "z", .inLine 14 15, []⟩ ∨
        ∃ d ∈ (check .minimal (calledBranch "+")).diagnostics,
          d.range = e.range ∧ d.problem.kind = e.problem.kind :=
  ⟨calledBranch_unbinds, by decide +kernel⟩

/-- The call is the only thing that is reported besides. -/
theorem check_unbinds_calledBranch :
    (calledBranch "+").Unbinds .minimal ⟨"z", .inLine 14 15⟩ (calledBranch "z") ∧
      ∀ e ∈ (check .minimal (calledBranch "z")).diagnostics,
        e = ⟨.undefined "z", .inLine 14 15, []⟩ ∨
        (∃ d ∈ (check .minimal (calledBranch "+")).diagnostics,
          d.range = e.range ∧ d.problem.kind = e.problem.kind) ∨
        ∃ callee, e.problem = .notCallable callee .union :=
  ⟨calledBranch_unbinds, check_unbinds calledBranch_unbinds⟩

end Program

end TypedIsl
