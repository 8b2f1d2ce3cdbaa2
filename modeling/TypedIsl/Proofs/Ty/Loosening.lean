import Mathlib.Data.List.Forall2
import TypedIsl.Proofs.Ty.Normal

/-!
# Looser types

A type loosens another one if a value of it may be used wherever a value of the other one may, or
nearly so: what is given away besides is a matter of slack. Collapsing and joining keep types
loosened, so that the types of two runs of the checker stay related from their leaves up.
-/

namespace TypedIsl

/-- What else may happen to types that are loosened. -/
structure Slack where
  /-- Types may become `any`, which is accepted nowhere but where `any` is expected. -/
  dynamic : Prop
  /-- Functions stay functions. -/
  callable : Prop

/-- The second parameter accepts what the first one does, as many times. -/
def Param.Widens (param other : Param) : Prop :=
  other.isMany = param.isMany ∧ (other.type = param.type ∨ other.type = .any)

namespace Ty

/-- The second type loosens the first one. -/
inductive Loosens (slack : Slack) : Ty → Ty → Prop
  | same (t : Ty) : Loosens slack t t
  | function {params others : List Param} {result other : Ty}
      (hparams : List.Forall₂ Param.Widens params others) (hresult : Loosens slack result other) :
      Loosens slack (.function params result) (.function others other)
  /-- A type that fits more. It does not become a function on the way. -/
  | looser {t u : Ty} (hfunction : u.collapse.tag ≠ .function)
      (hcallable : slack.callable → t.collapse.tag ≠ .function)
      (hflexible : t = .flexible → u = .flexible)
      (hfits : ∀ tag : Tag, tag.Compared → t.fits tag = true → u.fits tag = true) :
      Loosens slack t u
  | dynamic {t : Ty} (h : slack.dynamic) (hfunction : t.collapse.tag ≠ .function)
      (hfits : ¬t.FitsAll) : Loosens slack t .any

theorem widens_refl (params : List Param) : List.Forall₂ Param.Widens params params := by
  rw [List.forall₂_same]
  exact fun _ _ => ⟨rfl, .inl rfl⟩

section

variable {slack : Slack} {t u : Ty} {ts us : List Ty}

/-! ## What fits -/

theorem Loosens.fits (h : Loosens slack t u) :
    (∀ tag : Tag, tag.Compared → t.fits tag = true → u.fits tag = true) ∨
      slack.dynamic ∧ u = .any ∧ t.collapse.tag ≠ .function ∧ ¬t.FitsAll := by
  cases h with
  | same => exact .inl fun _ _ hfits => hfits
  | function hparams hresult => exact .inl fun _ _ hfits => hfits
  | looser hfunction hcallable hflexible hfits => exact .inl hfits
  | dynamic h hfunction hfits => exact .inr ⟨h, rfl, hfunction, hfits⟩

theorem Loosens.fitsAll (h : Loosens slack t u) (hfits : t.FitsAll) : u.FitsAll := by
  rcases h.fits with hmore | ⟨-, -, -, hnot⟩
  · exact fun tag htag => hmore tag htag (hfits tag htag)
  · exact absurd hfits hnot

theorem Loosens.flexible (h : Loosens slack .flexible u) : u = .flexible := by
  cases h with
  | same => rfl
  | looser hfunction hcallable hflexible hfits => exact hflexible rfl
  | dynamic h hfunction hfits => exact absurd fitsAll_flexible hfits

mutual

theorem canBe_of_fits (hflexible : t = .flexible → u = .flexible)
    (hfits : ∀ tag : Tag, tag.Compared → t.fits tag = true → u.fits tag = true) (expected : Ty)
    (h : t.canBe expected = true) : u.canBe expected = true := by
  match expected with
  | .any => rfl
  | .union targets =>
      rw [canBe, Bool.or_eq_true, beq_iff_eq] at h ⊢
      rcases h with htag | htargets
      · rw [hflexible (eq_flexible_of_tag htag)]
        exact .inl rfl
      · exact .inr (canBeOneOf_of_fits hflexible hfits targets htargets)
  | .number | .string | .boolean | .symbol | .flexible | .void | .list _ | .function _ _
  | .struct _ => exact hfits _ (by simp [Tag.Compared, Ty.tag]) h
termination_by structural expected

theorem canBeOneOf_of_fits (hflexible : t = .flexible → u = .flexible)
    (hfits : ∀ tag : Tag, tag.Compared → t.fits tag = true → u.fits tag = true)
    (targets : List Ty) (h : t.canBeOneOf targets = true) : u.canBeOneOf targets = true := by
  match targets with
  | [] => exact h
  | target :: targets =>
      rw [canBeOneOf, Bool.or_eq_true] at h ⊢
      exact h.imp (canBe_of_fits hflexible hfits target)
        (canBeOneOf_of_fits hflexible hfits targets)
termination_by structural targets

end

/-- A looser type is accepted wherever the other one is, unless it has become `any`. -/
theorem Loosens.canBe (h : Loosens slack t u) {expected other : Ty}
    (hexpected : other = expected ∨ other = .any) (hcan : t.canBe expected = true) :
    u.canBe other = true ∨ slack.dynamic ∧ u = .any := by
  rcases hexpected with rfl | rfl
  · rcases h.fits with hfits | ⟨hdynamic, hany, -⟩
    · refine .inl (canBe_of_fits (fun ht => ?_) hfits other hcan)
      exact Loosens.flexible (ht ▸ h)
    · exact .inr ⟨hdynamic, hany⟩
  · exact .inl rfl

/-! ## Functions -/

theorem Loosens.of_function {others : List Param} {other : Ty}
    (h : Loosens slack t (.function others other)) :
    ∃ params result, t = .function params result ∧
      List.Forall₂ Param.Widens params others ∧ Loosens slack result other := by
  cases h with
  | same => exact ⟨others, other, rfl, widens_refl others, .same other⟩
  | function hparams hresult => exact ⟨_, _, rfl, hparams, hresult⟩
  | looser hfunction hcallable hflexible hfits => exact absurd rfl hfunction

/-- What a function is loosened to is a function too, or has to be a union or unknown. -/
theorem Loosens.function_cases {params : List Param} {result : Ty}
    (h : Loosens slack (.function params result) u) :
    (∃ others other, u = .function others other ∧ List.Forall₂ Param.Widens params others ∧
      Loosens slack result other) ∨
    ¬slack.callable ∧ (u = .flexible ∨ u.tag = .union) := by
  cases h with
  | same => exact .inl ⟨params, result, rfl, widens_refl params, .same result⟩
  | function hparams hresult => exact .inl ⟨_, _, rfl, hparams, hresult⟩
  | looser hfunction hcallable hflexible hfits =>
      refine .inr ⟨fun hcall => hcallable hcall rfl, ?_⟩
      by_cases hunion : u.tag = .union
      · exact .inr hunion
      · rcases (fits_of_leaf hunion).mp (hfits .function (by decide) rfl) with htag | htag
        · exact .inl (eq_flexible_of_tag htag)
        · exact absurd htag (by rwa [collapse_of_leaf hunion] at hfunction)
  | dynamic h hfunction hfits => exact absurd rfl hfunction

theorem Loosens.tag_function (h : Loosens slack t u) (htag : u.collapse.tag = .function) :
    t.collapse.tag = .function := by
  cases h with
  | same => exact htag
  | function hparams hresult => rfl
  | looser hfunction hcallable hflexible hfits => exact absurd htag hfunction
  | dynamic h hfunction hfits => exact absurd htag (by decide)

theorem Loosens.tag_function_callable (h : Loosens slack t u) (hcall : slack.callable)
    (htag : t.collapse.tag = .function) : u.collapse.tag = .function := by
  cases h with
  | same => exact htag
  | function hparams hresult => rfl
  | looser hfunction hcallable hflexible hfits => exact absurd htag (hcallable hcall)
  | dynamic h hfunction hfits => exact absurd htag hfunction

/-! ## Collapsing and joining -/

theorem Loosens.collapse (h : Loosens slack t u) : Loosens slack t.collapse u.collapse := by
  have hfitsAll := h.fitsAll
  cases h with
  | same => exact .same _
  | function hparams hresult => exact .function hparams hresult
  | looser hfunction hcallable hflexible hfits =>
      refine .looser ?_ (fun hcall => ?_) (fun hcollapse => ?_) fun tag htag => ?_
      · rwa [collapse_collapse]
      · rw [collapse_collapse]
        exact hcallable hcall
      · rw [collapse_eq_flexible (hfitsAll ?_)]
        rw [← fitsAll_collapse, hcollapse]
        exact fitsAll_flexible
      · rw [fits_collapse t htag, fits_collapse u htag]
        exact hfits tag htag
  | dynamic h hfunction hfits =>
      refine .dynamic h ?_ fun hall => hfits (fitsAll_collapse.mp hall)
      rwa [collapse_collapse]

/-- What fits all types of a list fits all those of the other one, unless `any` has come in. -/
theorem Loosens.fits_list (h : List.Forall₂ (Loosens slack) ts us) :
    (∀ tag : Tag, tag.Compared → (∀ t ∈ ts, t.fits tag = true) → ∀ u ∈ us, u.fits tag = true) ∨
      slack.dynamic ∧ .any ∈ us ∧ ∃ t ∈ ts, t.collapse.tag ≠ .function ∧ ¬t.FitsAll := by
  induction h with
  | nil => exact .inl fun _ _ _ _ hu => absurd hu List.not_mem_nil
  | cons hhead _ ih =>
      rcases ih with hrest | ⟨hdynamic, hany, t, ht, hnot⟩
      · rcases hhead.fits with hfits | ⟨hdynamic, rfl, hnot⟩
        · refine .inl fun tag htag hall => ?_
          rw [List.forall_mem_cons] at hall ⊢
          exact ⟨hfits tag htag hall.1, hrest tag htag hall.2⟩
        · exact .inr ⟨hdynamic, List.mem_cons_self, _, List.mem_cons_self, hnot⟩
      · exact .inr ⟨hdynamic, List.mem_cons_of_mem _ hany, t, List.mem_cons_of_mem _ ht, hnot⟩

theorem Loosens.functions (h : List.Forall₂ (Loosens slack) ts us)
    (hus : ∀ u ∈ us, u.collapse.tag = .function) : ∀ t ∈ ts, t.collapse.tag = .function := by
  induction h with
  | nil => exact fun _ ht => absurd ht List.not_mem_nil
  | cons hhead _ ih =>
      rw [List.forall_mem_cons] at hus ⊢
      exact ⟨hhead.tag_function hus.1, ih hus.2⟩

theorem Loosens.functions_callable (h : List.Forall₂ (Loosens slack) ts us)
    (hcall : slack.callable) (hts : ∀ t ∈ ts, t.collapse.tag = .function) :
    ∀ u ∈ us, u.collapse.tag = .function := by
  induction h with
  | nil => exact fun _ hu => absurd hu List.not_mem_nil
  | cons hhead _ ih =>
      rw [List.forall_mem_cons] at hts ⊢
      exact ⟨hhead.tag_function_callable hcall hts.1, ih hts.2⟩

theorem Loosens.unionOf (h : List.Forall₂ (Loosens slack) ts us) :
    Loosens slack (unionOf ts) (unionOf us) := by
  have hcollapse : ∀ types, (Ty.unionOf types).collapse = Ty.unionOf types :=
    fun types => collapse_collapse (.union types)
  by_cases hfunction : (Ty.unionOf us).tag = .function
  · obtain ⟨hne, hus⟩ := functions_of_unionOf hfunction
    have hts := Loosens.functions h hus
    cases h with
    | nil => exact absurd rfl hne
    | cons hhead _ =>
        rw [unionOf_of_functions hts, unionOf_of_functions hus]
        exact hhead.collapse
  rcases Loosens.fits_list h with hfits | ⟨hdynamic, hany, t, ht, htag, hnot⟩
  · refine .looser ?_ (fun hcall => ?_) (fun hflexible => ?_) fun tag htag hts => ?_
    · rwa [hcollapse]
    · intro htag
      rw [hcollapse] at htag
      obtain ⟨hne, hts⟩ := functions_of_unionOf htag
      have hus := Loosens.functions_callable h hcall hts
      cases h with
      | nil => exact hne rfl
      | cons _ _ =>
          rw [unionOf_of_functions hus] at hfunction
          exact hfunction (hus _ List.mem_cons_self)
    · have hts : ∀ t ∈ ts, t.FitsAll := by
        rw [← fitsAll_unionOf, hflexible]
        exact fitsAll_flexible
      rw [← hcollapse, collapse_eq_flexible]
      refine fitsAll_unionOf.mpr fun u hu tag htag => ?_
      exact hfits tag htag (fun t ht => hts t ht tag htag) u hu
    · exact (fits_unionOf htag).mpr (hfits tag htag ((fits_unionOf htag).mp hts))
  · rw [unionOf_eq_any hany]
    refine .dynamic hdynamic (fun hunion => ?_) fun hall => hnot (fitsAll_unionOf.mp hall t ht)
    rw [hcollapse] at hunion
    exact htag ((functions_of_unionOf hunion).2 t ht)

end

end Ty

end TypedIsl
