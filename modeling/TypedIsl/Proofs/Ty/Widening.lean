import TypedIsl.Proofs.Ty.Loosening

/-!
# Types with wider parameters

Functions may become ones whose parameters accept everything. Where the types of values are
compared, only the outermost constructors count, and those stay; so types that differ in such
functions are accepted in the same places, also when they have been joined.
-/

namespace TypedIsl

namespace Ty

/-- The second type is the first one, some functions in it having wider parameters. -/
inductive Widens : Ty → Ty → Prop
  | same (t : Ty) : Widens t t
  | function {params others : List Param} {result other : Ty}
      (hparams : List.Forall₂ Param.Widens params others) (hresult : Widens result other) :
      Widens (.function params result) (.function others other)
  | union {ts us : List Ty} (h : List.Forall₂ Widens ts us) : Widens (.union ts) (.union us)

namespace Widens

variable {t u : Ty} {ts us : List Ty}

theorem all_same (ts : List Ty) : List.Forall₂ Widens ts ts :=
  List.forall₂_same.mpr fun t _ => .same t

theorem tag_eq (h : Widens t u) : u.tag = t.tag := by
  cases h <;> rfl

theorem members (h : Widens t u) : List.Forall₂ Widens t.members u.members := by
  cases h with
  | same => exact all_same _
  | function hparams hresult => exact .cons (.function hparams hresult) .nil
  | union h => exact h

/-! ## What is accepted -/

mutual

theorem fits_eq (tag : Tag) {t u : Ty} (h : Widens t u) : u.fits tag = t.fits tag := by
  match h with
  | .same _ => rfl
  | .function _ _ => rfl
  | .union hall => exact allFit_eq tag hall

theorem allFit_eq (tag : Tag) {ts us : List Ty} (h : List.Forall₂ Widens ts us) :
    allFit tag us = allFit tag ts := by
  match h with
  | .nil => rfl
  | .cons hhead hrest => rw [allFit, allFit, fits_eq tag hhead, allFit_eq tag hrest]

end

theorem canBe_eq (h : Widens t u) (expected : Ty) : u.canBe expected = t.canBe expected := by
  have hflexible : t = .flexible ↔ u = .flexible := by
    constructor
    · rintro rfl
      exact eq_flexible_of_tag h.tag_eq
    · rintro rfl
      exact eq_flexible_of_tag h.tag_eq.symm
  refine Bool.eq_iff_iff.mpr ⟨canBe_of_fits hflexible.mpr ?_ expected,
    canBe_of_fits hflexible.mp ?_ expected⟩
  · exact fun tag _ hfits => h.fits_eq tag ▸ hfits
  · exact fun tag _ hfits => (h.fits_eq tag).symm ▸ hfits

/-! ## Collapsing and joining -/

theorem any_mem_iff (h : List.Forall₂ Widens ts us) : .any ∈ us ↔ .any ∈ ts := by
  induction h with
  | nil => exact Iff.rfl
  | @cons t u ts us hhead _ ih =>
      have hany : Ty.any = u ↔ Ty.any = t := by
        cases hhead with
        | same => exact Iff.rfl
        | function | union => exact iff_of_false Ty.noConfusion Ty.noConfusion
      rw [List.mem_cons, List.mem_cons, ih, hany]

theorem dedupe (h : List.Forall₂ Widens ts us) :
    List.Forall₂ Widens (Ty.dedupe ts) (Ty.dedupe us) := by
  induction h with
  | nil => exact .nil
  | @cons t u ts us hhead _ ih =>
      have htag := hhead.tag_eq
      refine .cons hhead (List.rel_filter (fun first other hwidens => ?_) ih)
      dsimp only
      rw [hwidens.tag_eq, htag]

theorem join (h : List.Forall₂ Widens ts us) : Widens (Ty.join ts) (Ty.join us) := by
  have hdedupe := dedupe h
  rw [Ty.join, Ty.join]
  by_cases hany : Ty.any ∈ ts
  · rw [if_pos hany, if_pos ((any_mem_iff h).mpr hany)]
    exact .same _
  · rw [if_neg hany, if_neg fun hmem => hany ((any_mem_iff h).mp hmem)]
    generalize Ty.dedupe ts = first at hdedupe ⊢
    generalize Ty.dedupe us = second at hdedupe ⊢
    cases hdedupe with
    | nil => exact .same _
    | cons hhead hrest =>
        cases hrest with
        | nil => exact hhead
        | cons hnext hrest => exact .union (.cons hhead (.cons hnext hrest))

mutual

theorem collapse {t u : Ty} (h : Widens t u) : Widens t.collapse u.collapse := by
  match h with
  | .same _ => exact .same _
  | .function hparams hresult => exact .function hparams hresult
  | .union hall => exact join (flatten hall)

theorem flatten {ts us : List Ty} (h : List.Forall₂ Widens ts us) :
    List.Forall₂ Widens (Ty.flatten ts) (Ty.flatten us) := by
  match h with
  | .nil => exact .nil
  | .cons hhead hrest => exact List.rel_append (collapse hhead).members (flatten hrest)

end

theorem unionOf (h : List.Forall₂ Widens ts us) : Widens (Ty.unionOf ts) (Ty.unionOf us) :=
  collapse (.union h)

end Widens

end Ty

end TypedIsl
