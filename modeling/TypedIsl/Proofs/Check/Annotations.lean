import TypedIsl.Check.Annotation
import TypedIsl.Proofs.Syntax.Containment

/-!
# What annotations denote

An annotation denotes a type if it is a built-in name, the name of a struct, or a built-in function
on types with no more arguments than it has a use for. All others should be reported, and all but
those with arguments too many are: such arguments are not looked at, so that an annotation is read
as if they were not there.
-/

namespace TypedIsl

/-- The built-in types that are written as bare names. -/
def builtinTypes : List String := ["Number", "String", "Boolean", "Symbol"]

/-- The built-in functions on types. -/
def builtinTypeFunctions : List String := ["Any", "List-of"]

/-- The types that annotations denote. A built-in name is never that of a struct. -/
inductive TypeExpr.Denotes (structs : List String) : TypeExpr → Ty → Prop
  | number {name : Ident} (h : name.name = "Number") : Denotes structs (.named name) .number
  | string {name : Ident} (h : name.name = "String") : Denotes structs (.named name) .string
  | boolean {name : Ident} (h : name.name = "Boolean") : Denotes structs (.named name) .boolean
  | symbol {name : Ident} (h : name.name = "Symbol") : Denotes structs (.named name) .symbol
  | struct {name : Ident} (hmem : name.name ∈ structs) (hfree : name.name ∉ builtinTypes) :
      Denotes structs (.named name) (.struct name.name)
  | any {range : Range} {function : Ident} (h : function.name = "Any") :
      Denotes structs (.apply range function []) .any
  | list {range : Range} {function : Ident} (h : function.name = "List-of") :
      Denotes structs (.apply range function []) (.list .any)
  | listOf {range : Range} {function : Ident} {element : TypeExpr} {type : Ty}
      (h : function.name = "List-of") (helement : Denotes structs element type) :
      Denotes structs (.apply range function [element]) (.list type)

/-- The annotation without the arguments that are not looked at. -/
def TypeExpr.trimmed : TypeExpr → TypeExpr
  | .named name => .named name
  | .apply range function args =>
      if function.name = "Any" then .apply range function []
      else if function.name = "List-of" then
        match args with
        | [] => .apply range function []
        | arg :: _ => .apply range function [arg.trimmed]
      else .apply range function args

/-! ## Names -/

theorem namedType?_of_not_builtin {name : String} (h : name ∉ builtinTypes)
    (structs : List String) :
    namedType? structs name = if name ∈ structs then some (.struct name) else none := by
  simp only [builtinTypes, List.mem_cons, List.not_mem_nil, or_false, not_or] at h
  obtain ⟨hnumber, hstring, hboolean, hsymbol⟩ := h
  rw [namedType?, if_neg hnumber, if_neg hstring, if_neg hboolean, if_neg hsymbol]

theorem TypeExpr.denotes_of_builtin {name : Ident} (h : name.name ∈ builtinTypes)
    (structs : List String) : ∃ type, (named name).Denotes structs type := by
  simp only [builtinTypes, List.mem_cons, List.not_mem_nil, or_false] at h
  rcases h with h | h | h | h
  · exact ⟨_, .number h⟩
  · exact ⟨_, .string h⟩
  · exact ⟨_, .boolean h⟩
  · exact ⟨_, .symbol h⟩

/-! ## Built-in functions -/

namespace TypeExpr

variable {function : Ident}

theorem resolve_any (h : function.name = "Any") (structs : List String)
    (range : Range) (args : List TypeExpr) :
    (apply range function args).resolve structs = pure .any := by
  rw [resolve.eq_def]
  simp only [if_pos h]

theorem resolve_listOf_nil (h : function.name = "List-of")
    (structs : List String) (range : Range) :
    (apply range function []).resolve structs = pure (.list .any) := by
  rw [resolve.eq_def]
  simp only [if_pos h, if_neg (h ▸ by decide : function.name ≠ "Any")]

theorem resolve_listOf_cons (h : function.name = "List-of")
    (structs : List String) (range : Range) (arg : TypeExpr) (args : List TypeExpr) :
    (apply range function (arg :: args)).resolve structs = do
      return .list (← arg.resolve structs) := by
  rw [resolve.eq_def]
  simp only [if_pos h, if_neg (h ▸ by decide : function.name ≠ "Any")]

theorem resolve_of_not_builtin (h : function.name ∉ builtinTypeFunctions) (structs : List String)
    (range : Range) (args : List TypeExpr) :
    (apply range function args).resolve structs = unknownType function := by
  simp only [builtinTypeFunctions, List.mem_cons, List.not_mem_nil, or_false, not_or] at h
  rw [resolve.eq_def]
  simp only [if_neg h.1, if_neg h.2]

theorem trimmed_any (h : function.name = "Any") {range : Range} {args : List TypeExpr} :
    (apply range function args).trimmed = apply range function [] := by
  rw [trimmed.eq_def]
  simp only [if_pos h]

theorem trimmed_listOf_nil (h : function.name = "List-of") {range : Range} :
    (apply range function []).trimmed = apply range function [] := by
  rw [trimmed.eq_def]
  simp only [if_pos h, if_neg (h ▸ by decide : function.name ≠ "Any")]

theorem trimmed_listOf_cons (h : function.name = "List-of") {range : Range} {arg : TypeExpr}
    {args : List TypeExpr} :
    (apply range function (arg :: args)).trimmed = apply range function [arg.trimmed] := by
  rw [trimmed.eq_def]
  simp only [if_pos h, if_neg (h ▸ by decide : function.name ≠ "Any")]

theorem trimmed_of_not_builtin (h : function.name ∉ builtinTypeFunctions) {range : Range}
    {args : List TypeExpr} :
    (apply range function args).trimmed = apply range function args := by
  simp only [builtinTypeFunctions, List.mem_cons, List.not_mem_nil, or_false, not_or] at h
  rw [trimmed.eq_def]
  simp only [if_neg h.1, if_neg h.2]

/-! ## Annotations -/

variable {structs : List String} {type : TypeExpr} {denoted : Ty}

theorem Denotes.trimmed_eq (h : type.Denotes structs denoted) : type.trimmed = type := by
  induction h with
  | number | string | boolean | symbol | struct => rfl
  | any h => exact trimmed_any h
  | list h => exact trimmed_listOf_nil h
  | listOf h _ ih => rw [trimmed_listOf_cons h, ih]

theorem Denotes.resolve_eq (h : type.Denotes structs denoted) :
    type.resolve structs = pure denoted := by
  induction h with
  | number h | string h | boolean h | symbol h => simp [resolve, namedType?, h]
  | struct hmem hfree => rw [resolve, namedType?_of_not_builtin hfree, if_pos hmem]
  | any h => exact resolve_any h structs _ _
  | list h => exact resolve_listOf_nil h structs _
  | listOf h _ ih =>
      rw [resolve_listOf_cons h, ih]
      rfl

theorem resolve_trimmed (structs : List String) (type : TypeExpr) :
    type.trimmed.resolve structs = type.resolve structs := by
  cases type with
  | named name => rfl
  | apply range function args =>
      by_cases hany : function.name = "Any"
      · rw [trimmed_any hany, resolve_any hany, resolve_any hany]
      by_cases hlist : function.name = "List-of"
      · cases args with
        | nil => rw [trimmed_listOf_nil hlist]
        | cons arg args =>
            rw [trimmed_listOf_cons hlist, resolve_listOf_cons hlist, resolve_listOf_cons hlist,
              resolve_trimmed structs arg]
      · rw [trimmed_of_not_builtin (by simp [builtinTypeFunctions, hany, hlist])]

/-- Unless an annotation denotes a type once it is trimmed, one name in it is reported. -/
theorem denotes_or_unknown (structs : List String) {node : Node} {type : TypeExpr}
    (hin : node.Contains (.type type)) :
    (∃ denoted, type.trimmed.Denotes structs denoted) ∨
      ∃ name, node.Contains (.ident name) ∧
        (type.resolve structs).diagnostics = [⟨.unknownType name.name, name.range, []⟩] := by
  match type with
  | .named name =>
      by_cases hbuiltin : name.name ∈ builtinTypes
      · exact .inl (denotes_of_builtin hbuiltin structs)
      by_cases hmem : name.name ∈ structs
      · exact .inl ⟨_, .struct hmem hbuiltin⟩
      · refine .inr ⟨name, hin.part (List.mem_singleton_self _), ?_⟩
        rw [resolve, namedType?_of_not_builtin hbuiltin, if_neg hmem]
        rfl
  | .apply range function args =>
      by_cases hany : function.name = "Any"
      · rw [trimmed_any hany]
        exact .inl ⟨_, .any hany⟩
      by_cases hlist : function.name = "List-of"
      · cases args with
        | nil =>
            rw [trimmed_listOf_nil hlist]
            exact .inl ⟨_, .list hlist⟩
        | cons arg args =>
            have harg : node.Contains (.type arg) := hin.part (Part.mem_enclosed (by simp))
            rcases denotes_or_unknown structs harg with ⟨denoted, h⟩ | ⟨name, hname, hfound⟩
            · rw [trimmed_listOf_cons hlist]
              exact .inl ⟨_, .listOf hlist h⟩
            · refine .inr ⟨name, hname, ?_⟩
              rw [resolve_listOf_cons hlist, Judged.diagnostics_bind, hfound]
              rfl
      · refine .inr ⟨function, hin.part (Part.mem_enclosed (by simp)), ?_⟩
        rw [resolve_of_not_builtin (by simp [builtinTypeFunctions, hany, hlist])]
        rfl

/-- An annotation is read as if the arguments that are not looked at were left out of it, which
leaves those alone that denote a type. If what remains denotes a type, then that is the result, and
nothing is reported. Otherwise one name in the annotation is reported as unknown. -/
theorem resolve_reports (structs : List String) (type : TypeExpr) :
    (∀ denoted, type.Denotes structs denoted → type.trimmed = type) ∧
      (∀ denoted, type.trimmed.Denotes structs denoted → type.resolve structs = pure denoted) ∧
      ((type.resolve structs).diagnostics = [] ↔
        ∃ denoted, type.trimmed.Denotes structs denoted) ∧
      ((¬ ∃ denoted, type.trimmed.Denotes structs denoted) →
        ∃ name, (Node.type type).Contains (.ident name) ∧
          (type.resolve structs).diagnostics =
            [⟨.unknownType name.name, name.range, []⟩]) := by
  have hsilent : ∀ denoted, type.trimmed.Denotes structs denoted →
      type.resolve structs = pure denoted := by
    intro denoted h
    rw [← resolve_trimmed, h.resolve_eq]
  have hself : (Node.type type).Contains (.type type) := .refl
  have hcases := denotes_or_unknown structs hself
  refine ⟨fun _ h => h.trimmed_eq, hsilent, ⟨?_, ?_⟩, hcases.resolve_left⟩
  · intro hnil
    refine hcases.resolve_right ?_
    rintro ⟨name, -, hfound⟩
    exact absurd (hnil.symm.trans hfound) (List.cons_ne_nil _ _).symm
  · rintro ⟨denoted, h⟩
    rw [hsilent denoted h, Judged.diagnostics_pure]

/-- `(Any Foo)` is taken for `any`, although it denotes nothing: its argument is not looked at. -/
theorem resolve_surplus :
    let surplus := apply ⟨⟨1, 16, 15⟩, ⟨1, 25, 24⟩⟩ ⟨"Any", ⟨1, 17, 16⟩, ⟨1, 20, 19⟩⟩
      [named ⟨"Foo", ⟨1, 21, 20⟩, ⟨1, 24, 23⟩⟩]
    surplus.resolve [] = pure .any ∧ ¬ ∃ denoted, surplus.Denotes [] denoted := by
  refine ⟨rfl, ?_⟩
  rintro ⟨denoted, h⟩
  cases h with
  | listOf h _ => exact absurd h (by decide)

end TypeExpr

end TypedIsl
