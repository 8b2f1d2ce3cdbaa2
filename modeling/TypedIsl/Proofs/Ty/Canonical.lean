import TypedIsl.Proofs.Ty.Normal

/-!
# The canonical form of a union

Collapsing takes a union apart level by level, and keeps one type of each tag at every level. Taking
all leaves at once, through all nested unions, gives the same type: what an inner union drops would
be dropped later, and what absorbs it would absorb everything.
-/

namespace TypedIsl

mutual

/-- The types in a union that are no unions, from left to right and through all nested unions. An
empty union counts as `flexible`. -/
def Ty.leaves : Ty → List Ty
  | .union [] => [.flexible]
  | .union (t :: ts) => t.leaves ++ Ty.allLeaves ts
  | t => [t]

def Ty.allLeaves : List Ty → List Ty
  | [] => []
  | t :: ts => t.leaves ++ Ty.allLeaves ts

end

namespace Ty

/-- The canonical form of a union that has these leaves. -/
def canonical (leaves : List Ty) : Ty :=
  if any ∈ leaves then any
  else match leaves.eraseDupsBy fun t u => t.tag == u.tag with
    | [] => flexible
    | [t] => t
    | members => union members

variable {ts us vs ws : List Ty} {p : Ty → Bool}

/-! ## The first type of each tag -/

/-- Whether a type is kept may depend on its tag only. -/
theorem filter_dedupe (h : ∀ t u : Ty, t.tag = u.tag → p t = p u) :
    (dedupe ts).filter p = dedupe (ts.filter p) := by
  induction ts with
  | nil => rfl
  | cons t ts ih =>
      by_cases ht : p t = true
      · rw [List.filter_cons_of_pos ht, dedupe, List.filter_cons_of_pos ht, dedupe, ← ih,
          List.filter_filter, List.filter_filter]
        simp only [Bool.and_comm]
      · have hkept : ∀ u ∈ dedupe ts, p u = true → u.tag ≠ t.tag := by
          intro u _ hu htag
          exact ht ((h u t htag).symm.trans hu)
        rw [List.filter_cons_of_neg ht, ← ih, dedupe, List.filter_cons_of_neg ht,
          List.filter_filter]
        apply List.filter_congr
        intro u hu
        simpa using hkept u hu

theorem dedupe_eq_eraseDupsBy (ts : List Ty) :
    dedupe ts = ts.eraseDupsBy fun t u => t.tag == u.tag := by
  induction hlength : ts.length using Nat.strongRecOn generalizing ts with
  | _ n ih =>
      cases ts with
      | nil => rfl
      | cons t ts =>
          have hfilter : ts.filter (fun u => (u.tag == t.tag) = false) =
              ts.filter (·.tag ≠ t.tag) := by
            apply List.filter_congr
            intro u _
            simp
          rw [List.eraseDupsBy_cons, hfilter, dedupe, filter_dedupe fun u v htag => by rw [htag]]
          congr 1
          refine ih _ ?_ _ rfl
          have := List.length_filter_le (fun u : Ty => decide (u.tag ≠ t.tag)) ts
          rw [← hlength, List.length_cons]
          omega

/-- What comes first decides what is kept of the rest. -/
theorem dedupe_append : dedupe (ts ++ us) =
    dedupe ts ++ (dedupe us).filter fun u => u.tag ∉ ts.map Ty.tag := by
  induction ts with
  | nil =>
      rw [dedupe, List.nil_append, List.nil_append, List.filter_eq_self.mpr]
      simp
  | cons t ts ih =>
      rw [List.cons_append, dedupe, ih, List.filter_append, List.filter_filter, dedupe,
        List.cons_append]
      congr 2
      apply List.filter_congr
      intro u _
      simp [not_or]

theorem dedupe_dedupe (ts : List Ty) : dedupe (dedupe ts) = dedupe ts :=
  dedupe_of_nodup (nodup_dedupe ts)

theorem mem_map_tag_dedupe (ts : List Ty) {tag : Tag} :
    tag ∈ (dedupe ts).map Ty.tag ↔ tag ∈ ts.map Ty.tag := by
  simp only [List.mem_map]
  constructor
  · rintro ⟨t, ht, rfl⟩
    exact ⟨t, dedupe_subset ht, rfl⟩
  · rintro ⟨t, ht, rfl⟩
    exact exists_mem_dedupe ht

/-! ## Lists that join alike -/

/-- Both lists have the same first types of each tag, or both have `any`. -/
structure JoinAlike (ts us : List Ty) : Prop where
  any_iff : any ∈ ts ↔ any ∈ us
  dedupe_eq : any ∉ ts → dedupe ts = dedupe us

namespace JoinAlike

theorem refl (ts : List Ty) : JoinAlike ts ts :=
  ⟨Iff.rfl, fun _ => rfl⟩

theorem trans (h : JoinAlike ts us) (h' : JoinAlike us vs) : JoinAlike ts vs where
  any_iff := h.any_iff.trans h'.any_iff
  dedupe_eq hts := (h.dedupe_eq hts).trans (h'.dedupe_eq fun hus => hts (h.any_iff.mpr hus))

theorem of_any (hts : any ∈ ts) (hus : any ∈ us) : JoinAlike ts us :=
  ⟨iff_of_true hts hus, fun h => absurd hts h⟩

theorem dedupe (hts : any ∉ ts) : JoinAlike (dedupe ts) ts where
  any_iff := iff_of_false (fun h => hts (dedupe_subset h)) hts
  dedupe_eq _ := dedupe_dedupe ts

theorem append (h : JoinAlike ts us) (h' : JoinAlike vs ws) :
    JoinAlike (ts ++ vs) (us ++ ws) where
  any_iff := by rw [List.mem_append, List.mem_append, h.any_iff, h'.any_iff]
  dedupe_eq hany := by
    rw [List.mem_append, not_or] at hany
    have hts := h.dedupe_eq hany.1
    rw [dedupe_append, dedupe_append, hts, h'.dedupe_eq hany.2]
    congr 1
    apply List.filter_congr
    intro u _
    rw [decide_eq_decide, ← mem_map_tag_dedupe ts, hts, mem_map_tag_dedupe]

theorem join_eq (h : JoinAlike ts us) : join ts = join us := by
  by_cases hany : any ∈ ts
  · rw [join, join, if_pos hany, if_pos (h.any_iff.mp hany)]
  · rw [join, join, if_neg hany, if_neg fun hus => hany (h.any_iff.mpr hus), h.dedupe_eq hany]

/-- A join stands for the types that it joins. -/
theorem members_join (hne : ts ≠ []) (hleaves : Leaves ts) : JoinAlike (join ts).members ts := by
  by_cases hany : any ∈ ts
  · rw [join, if_pos hany]
    exact of_any (List.mem_singleton_self any) hany
  · have hmembers : (join ts).members = Ty.dedupe ts := by
      rw [join, if_neg hany]
      split
      · rename_i hnil
        obtain ⟨t, ts, rfl⟩ := List.exists_cons_of_ne_nil hne
        cases hnil
      · rename_i t hsingle
        have ht : t ∈ Ty.dedupe ts := hsingle ▸ List.mem_singleton_self t
        rw [members_of_leaf (hleaves t (dedupe_subset ht)), hsingle]
      · rfl
    rw [hmembers]
    exact dedupe hany

end JoinAlike

/-! ## Collapsing level by level and all at once -/

theorem members_collapse_ne_nil (t : Ty) : t.collapse.members ≠ [] := by
  have h := normal_collapse t
  cases hcollapse : t.collapse with
  | union members =>
      rw [hcollapse] at h
      rintro rfl
      exact absurd h.2.1 (by simp)
  | _ => exact List.cons_ne_nil _ _

theorem flatten_append : flatten (ts ++ us) = flatten ts ++ flatten us := by
  simp [flatten_eq]

theorem flatten_ne_nil (h : ts ≠ []) : flatten ts ≠ [] := by
  obtain ⟨t, ts, rfl⟩ := List.exists_cons_of_ne_nil h
  rw [flatten]
  exact List.append_ne_nil_of_left_ne_nil (members_collapse_ne_nil t) _

mutual

theorem joinAlike_collapse (t : Ty) : JoinAlike t.collapse.members t.leaves := by
  match t with
  | .union [] => exact .refl [flexible]
  | .union (t :: ts) =>
      have hne : t :: ts ≠ [] := List.cons_ne_nil t ts
      have hjoin := JoinAlike.members_join (flatten_ne_nil hne) (leaves_flatten (t :: ts))
      exact hjoin.trans (.append (joinAlike_collapse t) (joinAlike_flatten ts))
  | .number | .string | .boolean | .symbol | .list _ | .function _ _ | .struct _ | .any | .flexible
  | .void => exact .refl _
termination_by structural t

theorem joinAlike_flatten (ts : List Ty) : JoinAlike (flatten ts) (allLeaves ts) := by
  match ts with
  | [] => exact .refl []
  | t :: ts => exact .append (joinAlike_collapse t) (joinAlike_flatten ts)
termination_by structural ts

end

theorem canonical_eq_join (ts : List Ty) : canonical ts = join ts := by
  rw [canonical, ← dedupe_eq_eraseDupsBy]
  rfl

theorem collapse_union (ts : List Ty) : (union ts).collapse = canonical (allLeaves ts) := by
  rw [canonical_eq_join, collapse]
  exact (joinAlike_flatten ts).join_eq

/-- A join of several types may be joined with others before or after they are. -/
theorem unionOf_unionOf (hne : us ≠ []) :
    unionOf (ts ++ [unionOf us] ++ vs) = unionOf (ts ++ us ++ vs) := by
  have hinner : JoinAlike (flatten [unionOf us]) (flatten us) := by
    have hcollapse : (unionOf us).collapse = join (flatten us) := collapse_collapse (union us)
    rw [flatten, flatten, List.append_nil, hcollapse]
    exact .members_join (flatten_ne_nil hne) (leaves_flatten us)
  have hjoin := ((JoinAlike.refl (flatten ts)).append hinner).append (.refl (flatten vs))
  rw [← flatten_append, ← flatten_append, ← flatten_append, ← flatten_append] at hjoin
  exact hjoin.join_eq

/-- A type may be joined with others after they are. -/
theorem unionOf_cons (hne : us ≠ []) (t : Ty) : unionOf (t :: us) = unionOf [t, unionOf us] := by
  have h : unionOf ([t] ++ [unionOf us] ++ []) = unionOf ([t] ++ us ++ []) := unionOf_unionOf hne
  rw [List.append_nil, List.append_nil] at h
  exact h.symm

theorem unionOf_singleton (t : Ty) : unionOf [t] = t.collapse := by
  rw [unionOf, collapse, flatten, flatten, List.append_nil]
  exact (normal_collapse t).join_members

theorem unionOf_pair_collapse (t u : Ty) : unionOf [t, u.collapse] = unionOf [t, u] := by
  rw [← unionOf_singleton, ← unionOf_cons (List.cons_ne_nil u [])]

/-- A union collapses to the canonical form of its leaves, and any other type to itself. So
collapsing again changes nothing, the result is normal, and joining is associative. -/
theorem collapse_canonical (t y : Ty) (xs ys zs : List Ty) :
    (t.collapse = match t with
      | union ts => canonical (allLeaves ts)
      | t => t) ∧
    t.collapse.collapse = t.collapse ∧
    t.collapse.Normal ∧
    unionOf (xs ++ [unionOf (y :: ys)] ++ zs) = unionOf (xs ++ (y :: ys) ++ zs) := by
  refine ⟨?_, collapse_collapse t, normal_collapse t, unionOf_unionOf (List.cons_ne_nil y ys)⟩
  split
  · exact collapse_union _
  · rename_i hleaf
    exact collapse_of_leaf fun htag => by cases t <;> first | exact hleaf _ rfl | cases htag

/-- Joining no types gives `flexible`, which stays a member. -/
example : unionOf [unionOf [], number] = union [flexible, number] := by
  decide +kernel

end Ty

end TypedIsl
