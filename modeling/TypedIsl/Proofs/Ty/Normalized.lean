import TypedIsl.Language.BeginningStudent
import TypedIsl.Language.Minimal
import TypedIsl.Proofs.Ty.Normal

/-!
# Types that are normal throughout

Collapsing looks at the top of a type only. If the members of a union are normal throughout, then so
is the collapsed union.
-/

namespace TypedIsl

mutual

/-- The type itself and all types that occur in it, at any depth. -/
def Ty.parts : Ty → List Ty
  | .list element => .list element :: element.parts
  | .function params result => .function params result :: (Param.allParts params ++ result.parts)
  | .union members => .union members :: Ty.allParts members
  | t => [t]

def Ty.allParts : List Ty → List Ty
  | [] => []
  | t :: ts => t.parts ++ Ty.allParts ts

def Param.parts : Param → List Ty
  | .fixed type => type.parts
  | .many type => type.parts

def Param.allParts : List Param → List Ty
  | [] => []
  | p :: ps => p.parts ++ Param.allParts ps

end

namespace Ty

instance (t : Ty) : Decidable t.Normal :=
  match t with
  | union members => inferInstanceAs (Decidable ((members.map Ty.tag).Nodup ∧ 2 ≤ members.length ∧
      (∀ t ∈ members, t.tag ≠ .union) ∧ any ∉ members))
  | number | string | boolean | symbol | list _ | function _ _ | struct _ | any | flexible | void =>
      .isTrue trivial

/-- Every union in the type, at any depth, is normal, and nothing in it is `void`. -/
def Normalized (t : Ty) : Prop :=
  ∀ part ∈ t.parts, part.Normal ∧ part ≠ void

instance (t : Ty) : Decidable t.Normalized :=
  inferInstanceAs (Decidable (∀ part ∈ t.parts, part.Normal ∧ part ≠ void))

variable {t : Ty} {ts : List Ty} {params : List Param}

theorem mem_allParts {part : Ty} : part ∈ allParts ts ↔ ∃ t ∈ ts, part ∈ t.parts := by
  induction ts with
  | nil => simp [allParts]
  | cons t ts ih => simp [allParts, ih]

theorem mem_allParts_params {part : Ty} :
    part ∈ Param.allParts params ↔ ∃ param ∈ params, part ∈ param.type.parts := by
  induction params with
  | nil => simp [Param.allParts]
  | cons param params ih => cases param <;> simp [Param.allParts, Param.parts, Param.type, ih]

theorem self_mem_parts (t : Ty) : t ∈ t.parts := by
  cases t <;> exact List.mem_cons_self

theorem Normalized.normal (h : t.Normalized) : t.Normal :=
  (h t t.self_mem_parts).1

theorem normalized_atom (hparts : t.parts = [t]) (hnormal : t.Normal) (hvoid : t ≠ void) :
    t.Normalized := by
  rw [Normalized, hparts]
  exact List.forall_mem_singleton.mpr ⟨hnormal, hvoid⟩

theorem normalized_any : any.Normalized :=
  normalized_atom rfl trivial Ty.noConfusion

theorem normalized_flexible : flexible.Normalized :=
  normalized_atom rfl trivial Ty.noConfusion

theorem normalized_struct (name : String) : (struct name).Normalized :=
  normalized_atom rfl trivial Ty.noConfusion

@[simp] theorem normalized_list : (list t).Normalized ↔ t.Normalized := by
  simp [Normalized, parts, Normal]

@[simp] theorem normalized_function : (function params t).Normalized ↔
    (∀ param ∈ params, param.type.Normalized) ∧ t.Normalized := by
  simp only [Normalized, parts, List.forall_mem_cons, List.forall_mem_append, mem_allParts_params]
  refine ⟨fun h => ⟨fun param hparam part hpart => h.2.1 part ⟨param, hparam, hpart⟩, h.2.2⟩,
    fun h => ⟨⟨trivial, Ty.noConfusion⟩, fun part hpart => ?_, h.2⟩⟩
  obtain ⟨param, hparam, hpart⟩ := hpart
  exact h.1 param hparam part hpart

theorem normalized_union :
    (union ts).Normalized ↔ (union ts).Normal ∧ ∀ t ∈ ts, t.Normalized := by
  simp only [Normalized, parts, List.forall_mem_cons, mem_allParts]
  refine ⟨fun h => ⟨h.1.1, fun t ht part hpart => h.2 part ⟨t, ht, hpart⟩⟩,
    fun h => ⟨⟨h.1, Ty.noConfusion⟩, fun part hpart => ?_⟩⟩
  obtain ⟨t, ht, hpart⟩ := hpart
  exact h.2 t ht part hpart

/-- The type of a function whose parameters all stand once. -/
theorem normalized_fixed : (function (ts.map .fixed) t).Normalized ↔
    (∀ u ∈ ts, u.Normalized) ∧ t.Normalized := by
  rw [normalized_function, List.forall_mem_map]
  rfl

/-! ## Collapsing -/

theorem Normalized.members (h : t.Normalized) : ∀ member ∈ t.members, member.Normalized := by
  cases t with
  | union members => exact (normalized_union.mp h).2
  | _ => exact List.forall_mem_singleton.mpr h

theorem Normalized.collapse_eq (h : t.Normalized) : t.collapse = t :=
  collapse_of_normal h.normal

theorem normalized_join (hleaves : Leaves ts) (h : ∀ t ∈ ts, t.Normalized) :
    (join ts).Normalized := by
  have hnormal := normal_join hleaves
  unfold join at hnormal ⊢
  split
  · exact normalized_any
  · rename_i hany
    rw [if_neg hany] at hnormal
    have hdedupe : ∀ t ∈ dedupe ts, t.Normalized := fun t ht => h t (dedupe_subset ht)
    split
    · exact normalized_flexible
    · rename_i u hsingle
      exact hdedupe u (hsingle ▸ List.mem_singleton_self u)
    · rename_i hnil hsingle
      split at hnormal
      · exact absurd ‹_› hnil
      · exact absurd ‹_› (hsingle _)
      · exact normalized_union.mpr ⟨hnormal, hdedupe⟩

theorem normalized_unionOf (h : ∀ t ∈ ts, t.Normalized) : (unionOf ts).Normalized := by
  refine normalized_join (leaves_flatten ts) fun member hmember => ?_
  rw [flatten_eq] at hmember
  obtain ⟨t, ht, hmember⟩ := List.mem_flatMap.mp hmember
  rw [(h t ht).collapse_eq] at hmember
  exact (h t ht).members member hmember

end Ty

/-! ## Languages -/

/-- The types of all builtins are normal throughout. -/
def Language.Normalized (language : Language) : Prop :=
  ∀ entry ∈ language.entries, entry.2.Normalized

instance (language : Language) : Decidable language.Normalized :=
  inferInstanceAs (Decidable (∀ entry ∈ language.entries, entry.2.Normalized))

theorem Language.normalized_minimal : Language.minimal.Normalized := by
  decide +kernel

theorem Language.normalized_beginningStudent : Language.beginningStudent.Normalized := by
  decide +kernel

end TypedIsl
