import TypedIsl.Ty.Basic

/-!
# Normal types

A union is normal if it has at least two members, of different tags, none of which is a union or
`any`. Collapsing makes a type normal, keeps what fits it, and leaves normal types as they are.
-/

namespace TypedIsl

/-- The tags that `fits` is about: all but `any`, which every type can be, and that of unions,
which are taken member by member. -/
def Tag.Compared (tag : Tag) : Prop :=
  tag ≠ .any ∧ tag ≠ .union

instance (tag : Tag) : Decidable tag.Compared :=
  inferInstanceAs (Decidable (tag ≠ .any ∧ tag ≠ .union))

namespace Ty

variable {t : Ty} {ts : List Ty} {tag : Tag}

/-- None of the types is a union. -/
def Leaves (ts : List Ty) : Prop :=
  ∀ t ∈ ts, t.tag ≠ .union

/-- A type that is no union, or a union in normal form. -/
def Normal : Ty → Prop
  | union members =>
      (members.map Ty.tag).Nodup ∧ 2 ≤ members.length ∧ Leaves members ∧ any ∉ members
  | _ => True

/-! ## Members -/

theorem members_of_leaf (h : t.tag ≠ .union) : t.members = [t] := by
  cases t <;> first | rfl | exact absurd rfl h

theorem collapse_of_leaf (h : t.tag ≠ .union) : t.collapse = t := by
  cases t <;> first | rfl | exact absurd rfl h

theorem Normal.leaves (h : t.Normal) : Leaves t.members := by
  cases t with
  | union members => exact h.2.2.1
  | _ => simp [Leaves, members, Ty.tag]

/-- The members of a normal union do not all have the same tag. -/
theorem Normal.tag_of_members (h : t.Normal) (hmembers : ∀ m ∈ t.members, m.tag = tag) :
    t.tag = tag := by
  cases t with
  | union members =>
      obtain ⟨hnodup, hlength, -⟩ := h
      match members, hlength with
      | first :: second :: rest, _ =>
          have hne : first.tag ≠ second.tag := by
            intro heq
            simp [heq] at hnodup
          have hfirst := hmembers first List.mem_cons_self
          have hsecond := hmembers second (List.mem_cons_of_mem _ List.mem_cons_self)
          exact absurd (hfirst.trans hsecond.symm) hne
  | _ => exact hmembers _ (List.mem_singleton_self _)

theorem flatten_of_leaves (h : Leaves ts) : flatten ts = ts := by
  induction ts with
  | nil => rfl
  | cons t ts ih =>
      have ht := h t List.mem_cons_self
      rw [flatten, collapse_of_leaf ht, members_of_leaf ht,
        ih fun u hu => h u (List.mem_cons_of_mem _ hu), List.singleton_append]

theorem flatten_eq : flatten ts = ts.flatMap fun t => t.collapse.members := by
  induction ts with
  | nil => rfl
  | cons t ts ih => rw [flatten, ih, List.flatMap_cons]

/-! ## One type of each tag -/

theorem dedupe_subset : dedupe ts ⊆ ts := by
  induction ts with
  | nil => exact List.Subset.refl _
  | cons t ts ih =>
      refine List.cons_subset_cons t fun u hu => ?_
      exact ih (List.mem_filter.mp hu).1

theorem exists_mem_dedupe (h : t ∈ ts) : ∃ u ∈ dedupe ts, u.tag = t.tag := by
  induction ts with
  | nil => exact absurd h List.not_mem_nil
  | cons first ts ih =>
      by_cases htag : t.tag = first.tag
      · exact ⟨first, List.mem_cons_self, htag.symm⟩
      · have hmem : t ∈ ts := by
          rcases List.mem_cons.mp h with rfl | hmem
          · exact absurd rfl htag
          · exact hmem
        obtain ⟨u, hu, hutag⟩ := ih hmem
        refine ⟨u, List.mem_cons_of_mem _ ?_, hutag⟩
        exact List.mem_filter.mpr ⟨hu, by simpa [hutag] using htag⟩

theorem nodup_dedupe (ts : List Ty) : ((dedupe ts).map Ty.tag).Nodup := by
  induction ts with
  | nil => exact .nil
  | cons t ts ih =>
      rw [dedupe, List.map_cons, List.nodup_cons]
      constructor
      · intro hmem
        obtain ⟨u, hu, heq⟩ := List.mem_map.mp hmem
        simp [heq] at hu
      · exact ih.sublist (List.Sublist.map _ List.filter_sublist)

theorem dedupe_of_nodup (h : (ts.map Ty.tag).Nodup) : dedupe ts = ts := by
  induction ts with
  | nil => rfl
  | cons t ts ih =>
      rw [List.map_cons, List.nodup_cons] at h
      rw [dedupe, ih h.2, List.filter_eq_self.mpr]
      intro u hu
      have hne : u.tag ≠ t.tag := fun heq => h.1 (List.mem_map.mpr ⟨u, hu, heq⟩)
      simpa using hne

/-! ## Joining -/

theorem join_cons_of_tag (h : ∀ u ∈ t :: ts, u.tag = tag) (hany : tag ≠ .any) :
    join (t :: ts) = t := by
  have hmem : any ∉ t :: ts := fun hmem => hany (h any hmem).symm
  have hfilter : (dedupe ts).filter (·.tag ≠ t.tag) = [] := by
    rw [List.filter_eq_nil_iff]
    intro u hu
    have htag := h u (List.mem_cons_of_mem _ (dedupe_subset hu))
    simp [htag, h t List.mem_cons_self]
  rw [join, if_neg hmem, dedupe, hfilter]

theorem normal_join (h : Leaves ts) : (join ts).Normal := by
  unfold join
  split
  · trivial
  · rename_i hany
    have hleaves : Leaves (dedupe ts) := fun u hu => h u (dedupe_subset hu)
    split
    · trivial
    · rename_i u hdedupe
      have hu : u.tag ≠ .union := hleaves u (by simp [hdedupe])
      cases u <;> trivial
    · rename_i hnil hsingle
      refine ⟨nodup_dedupe ts, ?_, hleaves, fun hmem => hany (dedupe_subset hmem)⟩
      match hmembers : dedupe ts with
      | [] => exact absurd hmembers hnil
      | [u] => exact absurd hmembers (hsingle u)
      | _ :: _ :: _ => exact Nat.le_add_left 2 _

theorem collapse_of_normal (h : t.Normal) : t.collapse = t := by
  cases t with
  | union members =>
      obtain ⟨hnodup, hlength, hleaves, hany⟩ := h
      rw [collapse, flatten_of_leaves hleaves, join, if_neg hany, dedupe_of_nodup hnodup]
      match members, hlength with
      | _ :: _ :: _, _ => rfl
  | _ => rfl

theorem join_singleton (t : Ty) : join [t] = t := by
  by_cases hany : t = any
  · rw [hany, join, if_pos (List.mem_singleton_self any)]
  · rw [join, if_neg fun hmem => hany (List.mem_singleton.mp hmem).symm]
    rfl

/-- A normal type is the join of its members. -/
theorem Normal.join_members (h : t.Normal) : join t.members = t := by
  cases t with
  | union members =>
      have hcollapse := collapse_of_normal h
      rwa [collapse, flatten_of_leaves h.2.2.1] at hcollapse
  | _ => exact join_singleton _

mutual

theorem normal_collapse (t : Ty) : t.collapse.Normal := by
  cases t with
  | union members => exact normal_join (leaves_flatten members)
  | _ => trivial
termination_by structural t

theorem leaves_flatten (ts : List Ty) : Leaves (flatten ts) := by
  match ts with
  | [] => exact fun _ hmem => absurd hmem List.not_mem_nil
  | t :: ts =>
      intro u hu
      rcases List.mem_append.mp hu with hu | hu
      · exact (normal_collapse t).leaves u hu
      · exact leaves_flatten ts u hu
termination_by structural ts

end

theorem collapse_collapse (t : Ty) : t.collapse.collapse = t.collapse :=
  collapse_of_normal (normal_collapse t)

/-! ## What fits -/

theorem allFit_iff : allFit tag ts = true ↔ ∀ t ∈ ts, t.fits tag = true := by
  induction ts with
  | nil => simp [allFit]
  | cons t ts ih => simp [allFit, ih]

theorem fits_iff_members : t.fits tag = true ↔ ∀ m ∈ t.members, m.fits tag = true := by
  cases t with
  | union members => exact allFit_iff
  | _ => simp [members]

/-- What fits a type that is no union is a matter of its tag. -/
theorem fits_of_leaf (h : t.tag ≠ .union) :
    t.fits tag = true ↔ t.tag = .flexible ∨ t.tag = tag := by
  cases t <;> first | exact absurd rfl h | simp [fits, Ty.tag]

theorem canBe_of_compared {expected : Ty} (h : expected.tag.Compared) (type : Ty) :
    type.canBe expected = type.fits expected.tag := by
  cases expected <;> first | rfl | exact absurd rfl h.1 | exact absurd rfl h.2

theorem not_fits_any (h : tag.Compared) : ¬any.fits tag = true := by
  rw [fits_of_leaf (by decide)]
  rintro (heq | heq)
  · exact absurd heq (by decide)
  · exact h.1 heq.symm

theorem fits_join (hleaves : Leaves ts) (h : tag.Compared) :
    (join ts).fits tag = true ↔ ∀ t ∈ ts, t.fits tag = true := by
  have hdedupe : (∀ t ∈ dedupe ts, t.fits tag = true) ↔ ∀ t ∈ ts, t.fits tag = true := by
    refine ⟨fun hfits t ht => ?_, fun hfits t ht => hfits t (dedupe_subset ht)⟩
    obtain ⟨u, hu, htag⟩ := exists_mem_dedupe ht
    have hufits := hfits u hu
    rw [fits_of_leaf (hleaves u (dedupe_subset hu)), htag] at hufits
    rwa [fits_of_leaf (hleaves t ht)]
  unfold join
  split
  · rename_i hany
    exact ⟨fun hfits => absurd hfits (not_fits_any h),
      fun hfits => absurd (hfits any hany) (not_fits_any h)⟩
  · rw [← hdedupe]
    split
    · rename_i hnil
      simp [hnil, fits]
    · rename_i u hsingle
      simp [hsingle]
    · exact allFit_iff

mutual

theorem fits_collapse (t : Ty) (h : tag.Compared) : t.collapse.fits tag = t.fits tag := by
  cases t with
  | union members =>
      rw [Bool.eq_iff_iff, collapse, fits_join (leaves_flatten members) h, fits, allFit_iff]
      exact fits_flatten members h
  | _ => rfl
termination_by structural t

theorem fits_flatten (ts : List Ty) (h : tag.Compared) :
    (∀ t ∈ flatten ts, t.fits tag = true) ↔ ∀ t ∈ ts, t.fits tag = true := by
  match ts with
  | [] => simp [flatten]
  | t :: ts =>
      rw [flatten, List.forall_mem_append, ← fits_iff_members, fits_collapse t h,
        fits_flatten ts h, List.forall_mem_cons]
termination_by structural ts

end

theorem fits_unionOf (h : tag.Compared) :
    (unionOf ts).fits tag = true ↔ ∀ t ∈ ts, t.fits tag = true := by
  rw [unionOf, fits_collapse _ h, fits, allFit_iff]

/-- The type fits every tag that is compared. Of the normal types only `flexible` does. -/
def FitsAll (t : Ty) : Prop :=
  ∀ tag : Tag, tag.Compared → t.fits tag = true

theorem fitsAll_flexible : flexible.FitsAll :=
  fun _ _ => rfl

theorem fitsAll_unionOf : (unionOf ts).FitsAll ↔ ∀ t ∈ ts, t.FitsAll := by
  refine ⟨fun h t ht tag htag => (fits_unionOf htag).mp (h tag htag) t ht, fun h tag htag => ?_⟩
  exact (fits_unionOf htag).mpr fun t ht => h t ht tag htag

theorem fitsAll_collapse : t.collapse.FitsAll ↔ t.FitsAll := by
  refine ⟨fun h tag htag => ?_, fun h tag htag => ?_⟩
  · rw [← fits_collapse t htag]
    exact h tag htag
  · rw [fits_collapse t htag]
    exact h tag htag

theorem eq_flexible_of_tag (h : t.tag = .flexible) : t = flexible := by
  cases t <;> first | rfl | exact Tag.noConfusion h

theorem Normal.eq_flexible (h : t.Normal) (hfits : t.FitsAll) : t = flexible := by
  have hmembers : ∀ m ∈ t.members, m.tag = .flexible := by
    intro m hm
    have hnumber := fits_iff_members.mp (hfits .number (by decide)) m hm
    have hstring := fits_iff_members.mp (hfits .string (by decide)) m hm
    rw [fits_of_leaf (h.leaves m hm)] at hnumber hstring
    rcases hnumber with heq | heq
    · exact heq
    · rcases hstring with hother | hother
      · exact hother
      · exact absurd (heq.symm.trans hother) (by decide)
  exact eq_flexible_of_tag (h.tag_of_members hmembers)

theorem collapse_eq_flexible (h : t.FitsAll) : t.collapse = flexible :=
  (normal_collapse t).eq_flexible (fitsAll_collapse.mpr h)

/-! ## Joining functions -/

/-- A union of several types is a function if all of them are. It is the first one then. -/
theorem unionOf_of_functions (h : ∀ u ∈ t :: ts, u.collapse.tag = .function) :
    unionOf (t :: ts) = t.collapse := by
  have hmembers : ∀ u ∈ t :: ts, u.collapse.members = [u.collapse] := by
    intro u hu
    exact members_of_leaf (by simp [h u hu])
  rw [unionOf, collapse, flatten, hmembers t List.mem_cons_self, List.singleton_append]
  have hany : Tag.function ≠ .any := by decide
  refine join_cons_of_tag (fun u hu => ?_) hany
  rcases List.mem_cons.mp hu with rfl | hu
  · exact h t List.mem_cons_self
  · rw [flatten_eq] at hu
    obtain ⟨source, hsource, hu⟩ := List.mem_flatMap.mp hu
    rw [hmembers source (List.mem_cons_of_mem _ hsource), List.mem_singleton] at hu
    exact hu ▸ h source (List.mem_cons_of_mem _ hsource)

theorem functions_of_unionOf (h : (unionOf ts).tag = .function) :
    ts ≠ [] ∧ ∀ t ∈ ts, t.collapse.tag = .function := by
  have hleaves := leaves_flatten ts
  have hall : flatten ts ≠ [] ∧ ∀ u ∈ flatten ts, u.tag = .function := by
    rw [unionOf, collapse] at h
    unfold join at h
    split at h
    · exact absurd h (by decide)
    · split at h
      · exact absurd h (by decide)
      · rename_i u hsingle
        refine ⟨fun hnil => by simp [hnil, dedupe] at hsingle, fun leaf hleaf => ?_⟩
        obtain ⟨v, hv, htag⟩ := exists_mem_dedupe hleaf
        rw [hsingle, List.mem_singleton] at hv
        rw [← htag, hv, h]
      · exact absurd h (by simp [Ty.tag])
  refine ⟨fun hnil => hall.1 (by rw [hnil]; rfl), fun t ht => ?_⟩
  refine (normal_collapse t).tag_of_members fun m hm => hall.2 m ?_
  rw [flatten_eq]
  exact List.mem_flatMap.mpr ⟨t, ht, hm⟩

theorem unionOf_eq_any (h : any ∈ ts) : unionOf ts = any := by
  have hmem : any ∈ flatten ts := by
    rw [flatten_eq]
    exact List.mem_flatMap.mpr ⟨any, h, List.mem_singleton_self _⟩
  rw [unionOf, collapse, join, if_pos hmem]

end Ty

end TypedIsl
