import TypedIsl.Check.Judged

/-!
# Judgements side by side

Two judgements match if their results and their diagnostics are related. Judgements made of
matching steps match, so that two runs of the checker are compared one step at a time.
-/

namespace TypedIsl

/-- Relations between lists of diagnostics that pass from parts to the lists they make up. -/
structure Additive (R : List Diagnostic → List Diagnostic → Prop) : Prop where
  nil : R [] []
  append : ∀ {ds es more others}, R ds es → R more others → R (ds ++ more) (es ++ others)

namespace Judged

variable {α β γ δ : Type} {R : List Diagnostic → List Diagnostic → Prop}

/-- The results are related by `r` and the diagnostics by `R`. -/
structure Match (R : List Diagnostic → List Diagnostic → Prop) (r : α → β → Prop) (x : Judged α)
    (y : Judged β) : Prop where
  result : r x.result y.result
  diagnostics : R x.diagnostics y.diagnostics

theorem Match.refl (hR : ∀ ds, R ds ds) (x : Judged α) : x.Match R Eq x :=
  ⟨rfl, hR x.diagnostics⟩

theorem Match.mono {S : List Diagnostic → List Diagnostic → Prop} {r q : α → β → Prop}
    {x : Judged α} {y : Judged β} (h : x.Match R r y) (hR : ∀ ds es, R ds es → S ds es)
    (hr : ∀ a b, r a b → q a b) : x.Match S q y :=
  ⟨hr _ _ h.result, hR _ _ h.diagnostics⟩

theorem Match.pure (hR : Additive R) {r : α → β → Prop} {a : α} {b : β} (h : r a b) :
    (pure a : Judged α).Match R r (pure b) :=
  ⟨h, hR.nil⟩

theorem Match.report {d e : Diagnostic} (h : R [d] [e]) : (report d).Match R Eq (report e) :=
  ⟨rfl, h⟩

theorem Match.bind (hR : Additive R) {r : α → β → Prop} {q : γ → δ → Prop} {x : Judged α}
    {y : Judged β} {f : α → Judged γ} {g : β → Judged δ} (h : x.Match R r y)
    (hf : ∀ a b, r a b → (f a).Match R q (g b)) : (x >>= f).Match R q (y >>= g) := by
  have hnext := hf x.result y.result h.result
  exact ⟨hnext.result, hR.append h.diagnostics hnext.diagnostics⟩

/-- Steps of which the next ones only have to match at the results. -/
theorem Match.next (hR : Additive R) {r : α → β → Prop} {q : γ → δ → Prop} {x : Judged α}
    {y : Judged β} {f : α → Judged γ} {g : β → Judged δ} (h : x.Match R r y)
    (hf : (f x.result).Match R q (g y.result)) : (x >>= f).Match R q (y >>= g) :=
  ⟨hf.result, hR.append h.diagnostics hf.diagnostics⟩

/-- Steps with equal results. -/
theorem Match.step (hR : Additive R) {q : γ → δ → Prop} {x y : Judged α} {f : α → Judged γ}
    {g : α → Judged δ} (h : x.Match R Eq y) (hf : ∀ a, (f a).Match R q (g a)) :
    (x >>= f).Match R q (y >>= g) := by
  refine h.bind hR fun a b hab => ?_
  rw [← hab]
  exact hf a

/-- Steps with equal results, of which the next ones may depend. -/
theorem Match.along (hR : Additive R) {q : γ → δ → Prop} {x y : Judged α} {f : α → Judged γ}
    {g : α → Judged δ} (h : x.Match R Eq y) (hf : (f x.result).Match R q (g x.result)) :
    (x >>= f).Match R q (y >>= g) := by
  constructor
  · rw [result_bind, result_bind, ← h.result]
    exact hf.result
  · rw [diagnostics_bind, diagnostics_bind, ← h.result]
    exact hR.append h.diagnostics hf.diagnostics

/-- A step that is the same on both sides. -/
theorem Match.after (hR : Additive R) (hrefl : ∀ ds, R ds ds) {q : γ → δ → Prop} (x : Judged α)
    {f : α → Judged γ} {g : α → Judged δ} (h : (f x.result).Match R q (g x.result)) :
    (x >>= f).Match R q (x >>= g) :=
  ⟨h.result, hR.append (hrefl _) h.diagnostics⟩

theorem match_eq_iff {x y : Judged α} : x.Match Eq Eq y ↔ x = y := by
  constructor
  · intro h
    obtain ⟨hresult, hdiagnostics⟩ := h
    cases x
    cases y
    simp_all
  · rintro rfl
    exact ⟨rfl, rfl⟩

/-! ## Runs -/

section

variable {σ τ : Type}

/-- The diagnostics of each step of a run over a list. -/
def trail (step : σ → α → Judged σ) (state : σ) : List α → List (List Diagnostic)
  | [] => []
  | a :: list => (step state a).diagnostics :: trail step (step state a).result list

theorem diagnostics_foldlM (step : σ → α → Judged σ) (state : σ) (list : List α) :
    (list.foldlM step state).diagnostics = (trail step state list).flatten := by
  induction list generalizing state with
  | nil => rfl
  | cons a list ih => rw [List.foldlM_cons, diagnostics_bind, ih, trail, List.flatten_cons]

variable (step : σ → α → Judged σ) (other : τ → α → Judged τ) {r : σ → τ → Prop} {s : σ} {t : τ}

/-- Runs of matching steps leave the same trail. -/
theorem trail_congr {list : List α}
    (hstep : ∀ a ∈ list, ∀ s t, r s t → (step s a).Match Eq r (other t a)) (h : r s t) :
    trail other t list = trail step s list ∧
      r (list.foldlM step s).result (list.foldlM other t).result := by
  induction list generalizing s t with
  | nil => exact ⟨rfl, h⟩
  | cons a list ih =>
      obtain ⟨hfirst, hrest⟩ := List.forall_mem_cons.mp hstep
      have hmatch := hfirst s t h
      obtain ⟨htrail, hresult⟩ := ih hrest hmatch.result
      refine ⟨?_, hresult⟩
      rw [trail, trail, htrail, hmatch.diagnostics]

/-- One more step that keeps the states related adds its own diagnostics and changes no others. -/
theorem trail_insert {before after : List α} {a : α}
    (hstep : ∀ b ∈ before ++ after, ∀ s t, r s t → (step s b).Match Eq r (other t b))
    (hskip : ∀ s t, r s t → r s (other t a).result) (h : r s t) :
    (trail other t (before ++ a :: after)).eraseIdx before.length =
        trail step s (before ++ after) ∧
      r ((before ++ after).foldlM step s).result
        ((before ++ a :: after).foldlM other t).result := by
  induction before generalizing s t with
  | nil => exact trail_congr step other hstep (hskip s t h)
  | cons b before ih =>
      obtain ⟨hfirst, hrest⟩ := List.forall_mem_cons.mp hstep
      have hmatch := hfirst s t h
      obtain ⟨htrail, hresult⟩ := ih hrest hmatch.result
      refine ⟨?_, hresult⟩
      rw [List.cons_append, List.cons_append, trail, trail, List.length_cons,
        List.eraseIdx_cons_succ, htrail, hmatch.diagnostics]

end

end Judged

end TypedIsl
