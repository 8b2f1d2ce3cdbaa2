import TypedIsl.Check.Call
import TypedIsl.Proofs.Ty.Canonical

/-!
# Compatibility and collapsing

Whether one type can be another does not depend on whether either has been collapsed, as long as the
second one is no union of empty unions. Between collapsed types compatibility is transitive.
-/

namespace TypedIsl

theorem Judged.diagnostics_ensure_eq_nil {holds : Bool} {range : Range} {problem : Problem} :
    (Judged.ensure holds range problem).diagnostics = [] ↔ holds = true := by
  cases holds <;> simp [Judged.ensure, Judged.report]

theorem judgeArgs_single_eq_nil {callee : Callee} {position : Nat} {range : Range}
    {actual expected : Ty} :
    (judgeArgs callee position [(range, actual)] [expected]).diagnostics = [] ↔
      actual.canBe expected = true := by
  simp [judgeArgs, Judged.diagnostics_ensure_eq_nil]

/-- A union that is built from empty unions only, at any depth. -/
inductive Ty.Hollow : Ty → Prop
  | union {ts : List Ty} (h : ∀ t ∈ ts, t.Hollow) : Hollow (.union ts)

namespace Ty

variable {a b c t u : Ty} {ts us : List Ty} {tag : Tag}

/-! ## Targets -/

theorem canBeOneOf_iff : a.canBeOneOf ts = true ↔ ∃ t ∈ ts, a.canBe t = true := by
  induction ts with
  | nil => simp [canBeOneOf]
  | cons t ts ih => simp [canBeOneOf, ih]

theorem canBe_union :
    a.canBe (union ts) = true ↔ a.tag = .flexible ∨ ∃ t ∈ ts, a.canBe t = true := by
  rw [canBe, Bool.or_eq_true, beq_iff_eq, canBeOneOf_iff]

/-- A target that is no union is a matter of its tag. -/
theorem canBe_of_leaf (h : b.tag ≠ .union) :
    a.canBe b = true ↔ b.tag = .any ∨ a.fits b.tag = true := by
  cases b <;> first | exact absurd rfl h | simp [canBe, Ty.tag]

theorem compared_of_leaf (h : b.tag ≠ .union) (hany : b ≠ any) : b.tag.Compared := by
  refine ⟨?_, h⟩
  cases b <;> first | exact absurd rfl hany | simp [Ty.tag]

theorem canBe_flexible (b : Ty) : flexible.canBe b = true := by
  cases b <;> rfl

/-! ## Types that fit everything -/

/-- What can be `flexible` can be anything. -/
theorem fitsAll_of_fits_flexible (h : t.fits .flexible = true) : t.FitsAll := by
  have hcompared : Tag.flexible.Compared := by decide
  have hmembers : ∀ m ∈ t.collapse.members, m.tag = .flexible := by
    intro m hm
    rw [← fits_collapse t hcompared, fits_iff_members] at h
    have hfits := h m hm
    rw [fits_of_leaf ((normal_collapse t).leaves m hm)] at hfits
    exact hfits.elim id id
  have htag := (normal_collapse t).tag_of_members hmembers
  rw [← fitsAll_collapse, eq_flexible_of_tag htag]
  exact fitsAll_flexible

theorem not_hollow_of_leaf (h : b.tag ≠ .union) : ¬ b.Hollow := by
  rintro ⟨-⟩
  exact h rfl

theorem hollow_union : (union ts).Hollow ↔ ∀ t ∈ ts, t.Hollow := by
  constructor
  · rintro ⟨h⟩
    exact h
  · exact .union

theorem not_hollow_union : ¬ (union ts).Hollow ↔ ∃ t ∈ ts, ¬ t.Hollow := by
  simp [hollow_union]

theorem Hollow.canBe_iff (h : b.Hollow) : a.canBe b = true ↔ a.tag = .flexible := by
  induction h with
  | @union ts _ ih =>
      rw [canBe_union]
      constructor
      · rintro (htag | ⟨t, ht, hcan⟩)
        · exact htag
        · exact (ih t ht).mp hcan
      · exact .inl

theorem Hollow.fitsAll (h : b.Hollow) : b.FitsAll := by
  intro tag _
  induction h with
  | union _ ih => exact allFit_iff.mpr ih

mutual

theorem FitsAll.canBe (ha : a.FitsAll) (b : Ty) (hb : ¬ b.Hollow) : a.canBe b = true := by
  match b with
  | .union ts =>
      obtain ⟨t, ht, hhollow⟩ := not_hollow_union.mp hb
      exact canBe_union.mpr (.inr ⟨t, ht, FitsAll.canBe_mem ha ts t ht hhollow⟩)
  | .any => rfl
  | .number | .string | .boolean | .symbol | .flexible | .void | .list _ | .function _ _
  | .struct _ => exact ha _ (by simp [Tag.Compared, Ty.tag])
termination_by structural b

theorem FitsAll.canBe_mem (ha : a.FitsAll) (ts : List Ty) :
    ∀ t ∈ ts, ¬ t.Hollow → a.canBe t = true := by
  match ts with
  | [] => exact fun _ ht => absurd ht List.not_mem_nil
  | t :: ts => exact List.forall_mem_cons.mpr ⟨FitsAll.canBe ha t, FitsAll.canBe_mem ha ts⟩
termination_by structural ts

end

/-- Hollow targets of a union that is not hollow do not matter. -/
theorem canBe_union_of_not_hollow (h : ¬ (union ts).Hollow) :
    a.canBe (union ts) = true ↔ a.FitsAll ∨ ∃ t ∈ ts, ¬ t.Hollow ∧ a.canBe t = true := by
  have hfitsAll : a.tag = .flexible → a.FitsAll :=
    fun htag => eq_flexible_of_tag htag ▸ fitsAll_flexible
  constructor
  · intro hcan
    rcases canBe_union.mp hcan with htag | ⟨t, ht, hcan⟩
    · exact .inl (hfitsAll htag)
    · by_cases hhollow : t.Hollow
      · exact .inl (hfitsAll (hhollow.canBe_iff.mp hcan))
      · exact .inr ⟨t, ht, hhollow, hcan⟩
  · rintro (hall | ⟨t, ht, -, hcan⟩)
    · exact hall.canBe _ h
    · exact canBe_union.mpr (.inr ⟨t, ht, hcan⟩)

/-! ## Collapsed sources -/

mutual

theorem collapse_canBe (a b : Ty) (hb : ¬ b.Hollow) : a.collapse.canBe b = a.canBe b := by
  match b with
  | .union ts =>
      rw [Bool.eq_iff_iff, canBe_union_of_not_hollow hb, canBe_union_of_not_hollow hb,
        fitsAll_collapse]
      refine or_congr_right (exists_congr fun t => and_congr_right fun ht => ?_)
      refine and_congr_right fun hhollow => ?_
      rw [collapse_canBe_mem a ts t ht hhollow]
  | .any => rfl
  | .number | .string | .boolean | .symbol | .flexible | .void | .list _ | .function _ _
  | .struct _ => exact fits_collapse a (by simp [Tag.Compared, Ty.tag])
termination_by structural b

theorem collapse_canBe_mem (a : Ty) (ts : List Ty) :
    ∀ t ∈ ts, ¬ t.Hollow → a.collapse.canBe t = a.canBe t := by
  match ts with
  | [] => exact fun _ ht => absurd ht List.not_mem_nil
  | t :: ts => exact List.forall_mem_cons.mpr ⟨collapse_canBe a t, collapse_canBe_mem a ts⟩
termination_by structural ts

end

/-! ## Collapsed targets -/

/-- A normal target is met if one of its members is. -/
theorem Normal.canBe_iff (h : b.Normal) :
    a.canBe b = true ↔ ∃ m ∈ b.members, a.canBe m = true := by
  cases b with
  | union members =>
      rw [canBe_union]
      refine or_iff_right_of_imp fun htag => ?_
      obtain ⟨-, hlength, -⟩ := h
      match members, hlength with
      | first :: _, _ =>
          rw [eq_flexible_of_tag htag]
          exact ⟨first, List.mem_cons_self, canBe_flexible first⟩
  | _ => simp [members]

theorem exists_canBe_dedupe (h : Leaves ts) :
    (∃ t ∈ dedupe ts, a.canBe t = true) ↔ ∃ t ∈ ts, a.canBe t = true := by
  constructor
  · rintro ⟨t, ht, hcan⟩
    exact ⟨t, dedupe_subset ht, hcan⟩
  · rintro ⟨t, ht, hcan⟩
    obtain ⟨u, hu, htag⟩ := exists_mem_dedupe ht
    refine ⟨u, hu, ?_⟩
    rwa [canBe_of_leaf (h u (dedupe_subset hu)), htag, ← canBe_of_leaf (h t ht)]

theorem JoinAlike.exists_canBe (h : JoinAlike ts us) (hts : Leaves ts) (hus : Leaves us) :
    (∃ t ∈ ts, a.canBe t = true) ↔ ∃ u ∈ us, a.canBe u = true := by
  by_cases hany : any ∈ ts
  · exact iff_of_true ⟨any, hany, rfl⟩ ⟨any, h.any_iff.mp hany, rfl⟩
  · rw [← exists_canBe_dedupe hts, h.dedupe_eq hany, exists_canBe_dedupe hus]

theorem canBe_unionOf (hne : ts ≠ []) :
    a.canBe (unionOf ts) = true ↔ ∃ t ∈ ts, a.canBe t.collapse = true := by
  have hleaves := leaves_flatten ts
  have hnormal : (unionOf ts).Normal := normal_collapse (union ts)
  have hjoin : JoinAlike (unionOf ts).members (flatten ts) :=
    .members_join (flatten_ne_nil hne) hleaves
  rw [hnormal.canBe_iff, hjoin.exists_canBe hnormal.leaves hleaves, flatten_eq]
  simp only [List.mem_flatMap]
  constructor
  · rintro ⟨m, ⟨t, ht, hm⟩, hcan⟩
    exact ⟨t, ht, (normal_collapse t).canBe_iff.mpr ⟨m, hm, hcan⟩⟩
  · rintro ⟨t, ht, hcan⟩
    obtain ⟨m, hm, hcan⟩ := (normal_collapse t).canBe_iff.mp hcan
    exact ⟨m, ⟨t, ht, hm⟩, hcan⟩

mutual

theorem canBe_collapse (a b : Ty) (hb : ¬ b.Hollow) : a.canBe b.collapse = a.canBe b := by
  match b with
  | .union ts =>
      obtain ⟨solid, hsolid, hnot⟩ := not_hollow_union.mp hb
      have hmem := canBe_collapse_mem a ts
      rw [Bool.eq_iff_iff, canBe_union_of_not_hollow hb]
      refine (canBe_unionOf (List.ne_nil_of_mem hsolid)).trans ⟨?_, ?_⟩
      · rintro ⟨t, ht, hcan⟩
        by_cases hhollow : t.Hollow
        · rw [collapse_eq_flexible hhollow.fitsAll] at hcan
          exact .inl (fitsAll_of_fits_flexible hcan)
        · exact .inr ⟨t, ht, hhollow, hmem t ht hhollow ▸ hcan⟩
      · rintro (hall | ⟨t, ht, hhollow, hcan⟩)
        · exact ⟨solid, hsolid, hmem solid hsolid hnot ▸ hall.canBe solid hnot⟩
        · exact ⟨t, ht, hmem t ht hhollow ▸ hcan⟩
  | .number | .string | .boolean | .symbol | .any | .flexible | .void | .list _ | .function _ _
  | .struct _ => rfl
termination_by structural b

theorem canBe_collapse_mem (a : Ty) (ts : List Ty) :
    ∀ t ∈ ts, ¬ t.Hollow → a.canBe t.collapse = a.canBe t := by
  match ts with
  | [] => exact fun _ ht => absurd ht List.not_mem_nil
  | t :: ts => exact List.forall_mem_cons.mpr ⟨canBe_collapse a t, canBe_collapse_mem a ts⟩
termination_by structural ts

end

/-! ## Joins of arms -/

/-- A join can be what each of the joined types can be. -/
theorem unionOf_canBe (h : c.tag ≠ .union) :
    (unionOf ts).canBe c = true ↔ ∀ t ∈ ts, t.canBe c = true := by
  by_cases hany : c = any
  · rw [hany]
    exact iff_of_true rfl fun _ _ => rfl
  · have hcompared := compared_of_leaf h hany
    simp only [canBe_of_compared hcompared]
    exact fits_unionOf hcompared

/-- Collapsing the source or the target changes no verdict, except for targets that are hollow. A
join can be another type, no union, if all joined types can be it: so a condition, or an argument,
that is a join of arms is accepted if and only if each arm would be. -/
theorem canBe_regardless_of_collapse :
    (∀ a b : Ty, ¬ b.Hollow →
      a.collapse.canBe b = a.canBe b ∧ a.canBe b.collapse = a.canBe b) ∧
    (∀ (ts : List Ty) (c : Ty), c.tag ≠ .union →
      ((unionOf ts).canBe c = true ↔ ∀ t ∈ ts, t.canBe c = true)) ∧
    (∀ (form : String) (range : Range) (ts : List Ty),
      (judgeCondition form range (unionOf ts)).diagnostics = [] ↔
        ∀ t ∈ ts, (judgeCondition form range t).diagnostics = []) ∧
    (∀ (callee : Callee) (position : Nat) (range : Range) (ts : List Ty) (c : Ty),
      c.tag ≠ .union →
      ((judgeArgs callee position [(range, unionOf ts)] [c]).diagnostics = [] ↔
        ∀ t ∈ ts, (judgeArgs callee position [(range, t)] [c]).diagnostics = [])) := by
  refine ⟨fun a b hb => ⟨collapse_canBe a b hb, canBe_collapse a b hb⟩,
    fun ts c hc => unionOf_canBe hc, fun form range ts => ?_,
    fun callee position range ts c hc => ?_⟩
  · simp only [judgeCondition, Judged.diagnostics_ensure_eq_nil]
    exact unionOf_canBe (by decide)
  · simp only [judgeArgs_single_eq_nil]
    exact unionOf_canBe hc

/-- An empty union stands among the targets, and `flexible` among the sources. -/
theorem canBe_regardless_of_collapse_nested :
    ¬ (union [union [], union [string, number]]).Hollow ∧ boolean.tag ≠ .union ∧
      (union [union [flexible], number]).collapse.canBe (union [union [], union [string, number]]) =
        (union [union [flexible], number]).canBe (union [union [], union [string, number]]) ∧
      (union [union [flexible], number]).canBe (union [union [], union [string, number]]).collapse =
        (union [union [flexible], number]).canBe (union [union [], union [string, number]]) ∧
      ((unionOf [boolean, flexible]).canBe boolean = true ↔
        ∀ t ∈ [boolean, flexible], t.canBe boolean = true) := by
  have hinner : ¬ (union [string, number]).Hollow :=
    not_hollow_union.mpr ⟨string, List.mem_cons_self, not_hollow_of_leaf (by decide)⟩
  have hhollow : ¬ (union [union [], union [string, number]]).Hollow :=
    not_hollow_union.mpr ⟨_, List.mem_cons_of_mem _ List.mem_cons_self, hinner⟩
  have htag : boolean.tag ≠ .union := by decide
  obtain ⟨hcollapse, hjoin, -⟩ := canBe_regardless_of_collapse
  obtain ⟨hsource, htarget⟩ := hcollapse (union [union [flexible], number]) _ hhollow
  exact ⟨hhollow, htag, hsource, htarget, hjoin [boolean, flexible] boolean htag⟩

/-! ## Transitivity -/

/-- A normal type in between passes on what its members accept. -/
theorem canBe_through (hb : b.Normal) (hc : c.Normal) (hab : a.canBe b = true)
    (hbc : b.canBe c = true) : a.canBe c = true := by
  obtain ⟨m, hm, ham⟩ := hb.canBe_iff.mp hab
  obtain ⟨n, hn, hbn⟩ := hc.canBe_iff.mp hbc
  refine hc.canBe_iff.mpr ⟨n, hn, ?_⟩
  by_cases hany : n = any
  · rw [hany]
    rfl
  have hcompared := compared_of_leaf (hc.leaves n hn) hany
  rw [canBe_of_compared hcompared] at hbn ⊢
  -- All members of the type in between fit `n`, so `m` does, which `a` can be.
  have hmn := fits_iff_members.mp hbn m hm
  rw [fits_of_leaf (hb.leaves m hm)] at hmn
  rw [canBe_of_leaf (hb.leaves m hm)] at ham
  rcases hmn with hflexible | htag
  · rw [hflexible] at ham
    have hfits := ham.resolve_left (by decide)
    exact fitsAll_of_fits_flexible hfits n.tag hcompared
  · rw [htag] at ham
    exact ham.resolve_left hcompared.1

/-- Compatibility is transitive on collapsed types. -/
theorem canBe_trans (a b c : Ty) (hab : a.collapse.canBe b.collapse = true)
    (hbc : b.collapse.canBe c.collapse = true) : a.collapse.canBe c.collapse = true :=
  canBe_through (normal_collapse b) (normal_collapse c) hab hbc

/-- By way of a type that may be anything or a number. -/
theorem canBe_trans_flexible :
    number.collapse.canBe (union [flexible, number]).collapse = true ∧
      (union [flexible, number]).collapse.canBe (union [string, number]).collapse = true ∧
      number.collapse.canBe (union [string, number]).collapse = true := by
  have hab : number.collapse.canBe (union [flexible, number]).collapse = true := by
    decide +kernel
  have hbc : (union [flexible, number]).collapse.canBe (union [string, number]).collapse =
      true := by
    decide +kernel
  exact ⟨hab, hbc, canBe_trans number (union [flexible, number]) (union [string, number]) hab hbc⟩

/-- From an empty union to an empty union, by way of `flexible`: types that are not collapsed may
break the chain. -/
example : (union []).canBe flexible = true ∧ flexible.canBe (union []) = true ∧
    (union []).canBe (union []) = false := by
  decide +kernel

end Ty

end TypedIsl
