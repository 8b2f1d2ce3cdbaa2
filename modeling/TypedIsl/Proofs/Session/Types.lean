import TypedIsl.Proofs.Session.Respelling
import TypedIsl.Proofs.Ty.Normal

/-!
# Respelled types

Only a struct type has a name, and types are compared by their outermost constructors. So joining
and comparing does not depend on how names are spelled.
-/

namespace TypedIsl

namespace Ty

section

variable {f : String → Option String} {type spelled : Ty} {types others : List Ty}

/-! ## Outermost constructors -/

theorem respell?_union {members : List Ty} (h : (union members).respell? f = some spelled) :
    ∃ others, Elementwise (Ty.respell? f) members others ∧ spelled = .union others := by
  obtain ⟨others, hmembers, hspelled⟩ := Option.bind_eq_some_iff.mp h
  exact ⟨others, Ty.respellAll?_eq_some_iff.mp hmembers, (Option.some.inj hspelled).symm⟩

theorem respell?_function {params : List Param} {result : Ty}
    (h : (function params result).respell? f = some spelled) :
    ∃ others other, Elementwise (Param.respell? f) params others ∧
      result.respell? f = some other ∧ spelled = .function others other := by
  obtain ⟨others, hparams, h⟩ := Option.bind_eq_some_iff.mp h
  obtain ⟨other, hresult, hspelled⟩ := Option.bind_eq_some_iff.mp h
  exact ⟨others, other, Param.respellAll?_eq_some_iff.mp hparams, hresult,
    (Option.some.inj hspelled).symm⟩

theorem tag_of_respell? (h : type.respell? f = some spelled) : spelled.tag = type.tag := by
  cases type with
  | list element =>
      obtain ⟨_, _, rfl⟩ := one_part h
      rfl
  | struct name =>
      obtain ⟨_, _, rfl⟩ := one_part h
      rfl
  | function params result =>
      obtain ⟨_, _, _, _, rfl⟩ := respell?_function h
      rfl
  | union members =>
      obtain ⟨_, _, rfl⟩ := respell?_union h
      rfl
  | _ =>
      obtain rfl := Option.some.inj h
      rfl

theorem eq_any_of_tag (h : type.tag = .any) : type = .any := by
  cases type <;> first | rfl | exact Tag.noConfusion h

theorem any_mem_of_respell? (h : Elementwise (Ty.respell? f) types others) :
    .any ∈ others ↔ .any ∈ types := by
  induction h with
  | nil => rfl
  | cons hhead _ ih =>
      have htag := tag_of_respell? hhead
      rw [List.mem_cons, List.mem_cons, ih]
      refine or_congr_left ⟨?_, ?_⟩
      · rintro rfl
        exact (eq_any_of_tag htag.symm).symm
      · rintro rfl
        exact (eq_any_of_tag htag).symm

/-! ## Joining -/

theorem members_respells (h : type.respell? f = some spelled) :
    Elementwise (Ty.respell? f) type.members spelled.members := by
  by_cases hunion : type.tag = .union
  · cases type <;> first | exact Tag.noConfusion hunion | skip
    obtain ⟨others, hmembers, rfl⟩ := respell?_union h
    exact hmembers
  · rw [members_of_leaf hunion, members_of_leaf (tag_of_respell? h ▸ hunion)]
    exact .cons h .nil

theorem dedupe_respells (h : Elementwise (Ty.respell? f) types others) :
    Elementwise (Ty.respell? f) (dedupe types) (dedupe others) := by
  induction h with
  | nil => exact .nil
  | cons hhead _ ih =>
      refine .cons hhead (List.rel_filter ?_ ih)
      intro type spelled h
      have htag := tag_of_respell? h
      have hhead := tag_of_respell? hhead
      simp only [htag, hhead]

theorem join_respells (h : Elementwise (Ty.respell? f) types others) :
    (join types).respell? f = some (join others) := by
  have hdedupe := dedupe_respells h
  unfold join
  by_cases hany : .any ∈ types
  · rw [if_pos hany, if_pos ((any_mem_of_respell? h).mpr hany)]
    rfl
  · rw [if_neg hany, if_neg fun hmem => hany ((any_mem_of_respell? h).mp hmem)]
    generalize dedupe types = first, dedupe others = second at hdedupe ⊢
    rcases hdedupe with _ | ⟨hhead, _ | ⟨hnext, hrest⟩⟩
    · rfl
    · exact hhead
    · have hmembers := Ty.respellAll?_eq_some_iff.mpr (.cons hhead (.cons hnext hrest))
      simp [Ty.respell?, hmembers]

mutual

theorem collapse_respells {type spelled : Ty} (h : type.respell? f = some spelled) :
    type.collapse.respell? f = some spelled.collapse := by
  cases type with
  | union members =>
      obtain ⟨others, hmembers, rfl⟩ := respell?_union h
      exact join_respells (flatten_respells hmembers)
  | _ =>
      have hleaf : spelled.tag ≠ .union := by
        rw [tag_of_respell? h]
        exact Tag.noConfusion
      rw [collapse_of_leaf hleaf]
      exact h
termination_by structural type

theorem flatten_respells {types others : List Ty} (h : Elementwise (Ty.respell? f) types others) :
    Elementwise (Ty.respell? f) (flatten types) (flatten others) := by
  cases types with
  | nil =>
      cases h
      exact .nil
  | cons type types =>
      cases h with
      | cons hhead htail =>
          exact List.rel_append (members_respells (collapse_respells hhead))
            (flatten_respells htail)
termination_by structural types

end

theorem unionOf_respells (h : Elementwise (Ty.respell? f) types others) :
    (unionOf types).respell? f = some (unionOf others) :=
  join_respells (flatten_respells h)

/-! ## Comparing -/

theorem fits_of_leaves (hleaf : type.tag ≠ .union) (htag : spelled.tag = type.tag) (tag : Tag) :
    spelled.fits tag = type.fits tag := by
  rw [Bool.eq_iff_iff, fits_of_leaf hleaf, fits_of_leaf (htag ▸ hleaf), htag]

mutual

theorem fits_respells {type spelled : Ty} (h : type.respell? f = some spelled) (tag : Tag) :
    spelled.fits tag = type.fits tag := by
  cases type with
  | union members =>
      obtain ⟨others, hmembers, rfl⟩ := respell?_union h
      exact allFit_respells hmembers tag
  | _ =>
      exact fits_of_leaves Tag.noConfusion (tag_of_respell? h) tag
termination_by structural type

theorem allFit_respells {types others : List Ty} (h : Elementwise (Ty.respell? f) types others)
    (tag : Tag) : allFit tag others = allFit tag types := by
  cases types with
  | nil =>
      cases h
      rfl
  | cons type types =>
      cases h with
      | cons hhead htail => rw [allFit, allFit, fits_respells hhead, allFit_respells htail]
termination_by structural types

end

mutual

theorem canBe_respells (h : type.respell? f = some spelled) {expected other : Ty}
    (hexpected : expected.respell? f = some other) :
    spelled.canBe other = type.canBe expected := by
  have htag := tag_of_respell? hexpected
  cases expected with
  | any =>
      obtain rfl := Option.some.inj hexpected
      rfl
  | union targets =>
      obtain ⟨others, htargets, rfl⟩ := respell?_union hexpected
      rw [canBe, canBe, tag_of_respell? h, canBeOneOf_respells h htargets]
  | _ =>
      have hother : other.tag.Compared := by
        rw [htag]
        exact ⟨Tag.noConfusion, Tag.noConfusion⟩
      rw [canBe_of_compared hother, canBe_of_compared (htag ▸ hother), htag]
      exact fits_respells h _
termination_by structural expected

theorem canBeOneOf_respells (h : type.respell? f = some spelled) {targets others : List Ty}
    (htargets : Elementwise (Ty.respell? f) targets others) :
    spelled.canBeOneOf others = type.canBeOneOf targets := by
  cases targets with
  | nil =>
      cases htargets
      rfl
  | cons target targets =>
      cases htargets with
      | cons hhead htail =>
          rw [canBeOneOf, canBeOneOf, canBe_respells h hhead, canBeOneOf_respells h htail]
termination_by structural targets

end

end

end Ty

end TypedIsl
