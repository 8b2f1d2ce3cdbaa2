import TypedIsl.Proofs.Check.Root
import TypedIsl.Proofs.Session.Judging
import TypedIsl.Proofs.Session.Numbers

/-!
# Builtins with numbered names

The names of structs in the types of builtins have their numbers when a language is made; the names
of the builtins get theirs when a program is checked.
-/

namespace TypedIsl

/-- Interns the names of builtins, in order. -/
def Language.number? (names : NameTable) (language : Language) : Option (NameTable × Language) := do
  let types ← language.entries.mapM fun entry => entry.2.respell? names.number?
  let (names, handles) := names.internAll language.names
  return (names, ⟨(handles.map Handle.text).zip types⟩)

section

variable {names : NameTable}

mutual

theorem Ty.exists_number? {type : Ty} (h : ∀ name ∈ type.structNames, name ∈ names.names) :
    ∃ numbered, type.respell? names.number? = some numbered ∧
      ∀ last : NameTable, last.Extends names → numbered.Respells last.read? type := by
  match type with
  | .list element =>
      have helement : ∀ name ∈ element.structNames, name ∈ names.names := h
      obtain ⟨numbered, hnumbered, hreads⟩ := Ty.exists_number? helement
      refine ⟨.list numbered, by simp [Ty.respell?, hnumbered], fun last hlast => ?_⟩
      rw [Ty.Respells, Ty.respell?, hreads last hlast]
      rfl
  | .function params result =>
      rw [Ty.structNames, List.forall_mem_append] at h
      obtain ⟨params', hparams, hreads⟩ := Param.exists_numberAll? h.1
      obtain ⟨result', hresult, hread⟩ := Ty.exists_number? h.2
      refine ⟨.function params' result', by simp [Ty.respell?, hparams, hresult],
        fun last hlast => ?_⟩
      rw [Ty.Respells, Ty.respell?, hreads last hlast, hread last hlast]
      rfl
  | .struct name =>
      obtain ⟨number, hnumber, hread⟩ := NameTable.exists_number? (h name List.mem_cons_self)
      refine ⟨.struct number, by simp [Ty.respell?, hnumber], fun last hlast => ?_⟩
      rw [Ty.Respells, Ty.respell?, hread last hlast]
      rfl
  | .union members =>
      have hmembers : ∀ name ∈ Ty.allStructNames members, name ∈ names.names := h
      obtain ⟨numbered, hnumbered, hreads⟩ := Ty.exists_numberAll? hmembers
      refine ⟨.union numbered, by simp [Ty.respell?, hnumbered], fun last hlast => ?_⟩
      rw [Ty.Respells, Ty.respell?, hreads last hlast]
      rfl
  | .number | .string | .boolean | .symbol | .any | .flexible | .void =>
      exact ⟨_, rfl, fun _ _ => rfl⟩
termination_by structural type

theorem Ty.exists_numberAll? {types : List Ty}
    (h : ∀ name ∈ Ty.allStructNames types, name ∈ names.names) :
    ∃ numbered, Ty.respellAll? names.number? types = some numbered ∧
      ∀ last : NameTable, last.Extends names →
        Ty.respellAll? last.read? numbered = some types := by
  match types with
  | [] => exact ⟨[], rfl, fun _ _ => rfl⟩
  | type :: types =>
      rw [Ty.allStructNames, List.forall_mem_append] at h
      obtain ⟨first, hfirst, hread⟩ := Ty.exists_number? h.1
      obtain ⟨rest, hrest, hreads⟩ := Ty.exists_numberAll? h.2
      refine ⟨first :: rest, by simp [Ty.respellAll?, hfirst, hrest], fun last hlast => ?_⟩
      rw [Ty.respellAll?, hread last hlast, hreads last hlast]
      rfl
termination_by structural types

theorem Param.exists_number? {param : Param} (h : ∀ name ∈ param.structNames, name ∈ names.names) :
    ∃ numbered, param.respell? names.number? = some numbered ∧
      ∀ last : NameTable, last.Extends names → numbered.respell? last.read? = some param := by
  match param with
  | .fixed type =>
      have htype : ∀ name ∈ type.structNames, name ∈ names.names := h
      obtain ⟨numbered, hnumbered, hread⟩ := Ty.exists_number? htype
      refine ⟨.fixed numbered, by simp [Param.respell?, hnumbered], fun last hlast => ?_⟩
      rw [Param.respell?, hread last hlast]
      rfl
  | .many type =>
      have htype : ∀ name ∈ type.structNames, name ∈ names.names := h
      obtain ⟨numbered, hnumbered, hread⟩ := Ty.exists_number? htype
      refine ⟨.many numbered, by simp [Param.respell?, hnumbered], fun last hlast => ?_⟩
      rw [Param.respell?, hread last hlast]
      rfl
termination_by structural param

theorem Param.exists_numberAll? {params : List Param}
    (h : ∀ name ∈ Param.allStructNames params, name ∈ names.names) :
    ∃ numbered, Param.respellAll? names.number? params = some numbered ∧
      ∀ last : NameTable, last.Extends names →
        Param.respellAll? last.read? numbered = some params := by
  match params with
  | [] => exact ⟨[], rfl, fun _ _ => rfl⟩
  | param :: params =>
      rw [Param.allStructNames, List.forall_mem_append] at h
      obtain ⟨first, hfirst, hread⟩ := Param.exists_number? h.1
      obtain ⟨rest, hrest, hreads⟩ := Param.exists_numberAll? h.2
      refine ⟨first :: rest, by simp [Param.respellAll?, hfirst, hrest], fun last hlast => ?_⟩
      rw [Param.respellAll?, hread last hlast, hreads last hlast]
      rfl
termination_by structural params

end

/-! ## Languages -/

theorem exists_mapM {α β : Type} {f : α → Option β} {R : β → α → Prop} {as : List α}
    (h : ∀ a ∈ as, ∃ b, f a = some b ∧ R b a) :
    ∃ bs, as.mapM f = some bs ∧ List.Forall₂ R bs as := by
  induction as with
  | nil => exact ⟨[], rfl, .nil⟩
  | cons a as ih =>
      rw [List.forall_mem_cons] at h
      obtain ⟨⟨b, hb, hR⟩, hrest⟩ := h
      obtain ⟨bs, hbs, hRs⟩ := ih hrest
      exact ⟨b :: bs, by simp [hb, hbs], .cons hR hRs⟩

theorem zip_entries {α β γ δ : Type} {R : α → γ → Prop} {S : β → δ → Prop} {as : List α}
    {bs : List β} {entries : List (γ × δ)} (hfirst : List.Forall₂ R as (entries.map Prod.fst))
    (hsecond : List.Forall₂ S bs (entries.map Prod.snd)) :
    List.Forall₂ (fun pair entry => R pair.1 entry.1 ∧ S pair.2 entry.2) (as.zip bs) entries := by
  induction entries generalizing as bs with
  | nil =>
      cases hfirst
      exact .nil
  | cons entry entries ih =>
      cases hfirst with
      | cons hfirst hfirsts =>
          cases hsecond with
          | cons hsecond hseconds => exact .cons ⟨hfirst, hsecond⟩ (ih hfirsts hseconds)

theorem Language.exists_number? {language : Language}
    (h : ∀ name ∈ language.structNames, name ∈ names.names) :
    ∃ numbered, language.number? names = some (names.addAll language.names, numbered) ∧
      ∀ last : NameTable, last.Extends (names.addAll language.names) →
        Scope.Respells last.read? numbered.scope language.scope := by
  have htypes : ∀ entry ∈ language.entries,
      ∃ numbered, entry.2.respell? names.number? = some numbered ∧
        ∀ last : NameTable, last.Extends names → numbered.Respells last.read? entry.2 :=
    fun entry hentry => Ty.exists_number? fun name hname =>
      h name (List.mem_flatMap.mpr ⟨entry, hentry, hname⟩)
  obtain ⟨types, hmap, htypes⟩ := exists_mapM htypes
  have hnumbers := names.denotes_internAll language.names
  have htypes : List.Forall₂ (fun numbered type =>
      ∀ last : NameTable, last.Extends names → numbered.Respells last.read? type) types
      (language.entries.map Prod.snd) := List.forall₂_map_right_iff.mpr htypes
  have hentries := zip_entries (names.denotes_internAll language.names) htypes
  have hgrown := NameTable.internAll_fst names language.names
  refine ⟨⟨((names.internAll language.names).2.map Handle.text).zip types⟩, ?_,
    fun last hlast => ?_⟩
  · rw [number?, hmap, ← hgrown]
    rfl
  · have hlater := hlast.trans (NameTable.extends_addAll names language.names)
    rw [← hgrown] at hlast
    rw [Scope.Respells, Language.scope, Language.scope, List.forall₂_map_left_iff,
      List.forall₂_map_right_iff]
    exact hentries.imp fun _ _ h => ⟨h.1 last hlast, h.2 last hlater, rfl⟩

end

/-! ## Custom builtins -/

theorem Language.structNames_put (language : Language) (name : String) (type : Ty) :
    structNames (language.put name type) ⊆ language.structNames ++ type.structNames := by
  intro struct hstruct
  obtain ⟨entry, hentry, hmem⟩ := List.mem_flatMap.mp hstruct
  rw [List.mem_append]
  rcases Table.mem_putEntry hentry with hentry | rfl
  · exact .inl (List.mem_flatMap.mpr ⟨entry, hentry, hmem⟩)
  · exact .inr hmem

/-- The structs of a language are those of the table that it was made from and those of the builtins
that were put in. -/
theorem Language.structNames_putAll (base : Language) (custom : List (String × Ty)) :
    structNames (base.putAll custom) ⊆
      base.structNames ++ custom.flatMap fun (_, type) => type.structNames := by
  induction custom generalizing base with
  | nil => simp [Table.putAll]
  | cons entry custom ih =>
      have hput := structNames_put base entry.1 entry.2
      refine List.Subset.trans (ih (base.put entry.1 entry.2)) ?_
      rw [List.flatMap_cons, ← List.append_assoc]
      exact List.append_subset.mpr
        ⟨List.Subset.trans hput (List.subset_append_left _ _), List.subset_append_right _ _⟩

end TypedIsl
