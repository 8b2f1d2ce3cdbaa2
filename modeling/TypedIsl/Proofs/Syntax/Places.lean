import TypedIsl.Proofs.Syntax.Reading

/-!
# Places for values

The states in which a value may come next, whatever stands around it: `Awaits` says that such a
state takes in the beginning of a value as its context asks for it.
-/

namespace TypedIsl

/-- A closing parenthesis that a parameter list takes in does not end it. -/
theorem OpenParams.finish?_eq_none {read next : OpenParams} {token : Token}
    (h : read.accept? token = some next) (hkind : token.kind = .closeParen)
    (closing : Position) : read.finish? closing = none := by
  cases read <;> simp [accept?, hkind] at h
  rfl

namespace Progress

variable {p : Progress}

/-- After a parenthesis that opens a value at a place in `context`. -/
def OpensValue (q : Progress) (start : Position) (context : Context .value) : Prop :=
  ∀ arrival next, openedValue? start context arrival = some next → q.accept? arrival = some next

/-- At a place for a value in `context`. -/
structure Awaits (p : Progress) (context : Context .value) : Prop where
  atom : ∀ arrival next, arrival.token.kind ≠ .openParen → value? context arrival = some next →
    p.accept? arrival = some next
  form : ∀ paren, paren.token.kind = .openParen →
    ∃ q, p.accept? paren = some q ∧ q.OpensValue paren.start context

variable {context : Context .value} {start : Position}

theorem opened_opensValue (paren : Arrival) (context : Context .value) :
    (opened paren context).OpensValue paren.start context := by
  intro arrival next h
  cases context <;> exact h

theorem awaits_of_value?
    (h : ∀ arrival next, value? context arrival = some next → p.accept? arrival = some next) :
    p.Awaits context where
  atom arrival next _ hvalue := h arrival next hvalue
  form paren hparen :=
    ⟨opened paren context, h paren _ (by simp [value?, hparen]), opened_opensValue paren context⟩

theorem awaits_alone : (waiting .alone).Awaits .alone :=
  awaits_of_value? fun _ _ h => h

/-- A form that stands in a program may also be a definition, but only after a keyword that does
not begin a value. -/
theorem awaits_topValue (read : List TopLevel) :
    (waiting (.program read)).Awaits (.topValue read) where
  atom arrival next hkind h := by simpa [accept?, waiting?, hkind] using h
  form paren hparen := by
    refine ⟨opened paren (.program read), by simp [accept?, waiting?, hparen], ?_⟩
    intro arrival next h
    simp only [accept?, opened?]
    split
    · simp_all [openedValue?, value?]
    · simp_all [openedValue?, value?]
    · exact h

theorem awaits_values {place : Place} {heading : Heading place} {read : List Value}
    {outer : Context place} (hwants : heading.wants read.length = true) :
    (waiting (.values start heading read outer)).Awaits (.values start heading read outer) := by
  refine awaits_of_value? fun arrival next h => ?_
  simp only [accept?, waiting?]
  split
  · simp_all [value?]
  · rw [if_pos hwants]
    exact h

theorem OpensValue.awaits_callee {q : Progress} (h : q.OpensValue start context) :
    q.Awaits (.values start .call [] context) := by
  refine awaits_of_value? fun arrival next hvalue => h arrival next ?_
  simp only [openedValue?]
  split <;> simp_all [value?]

theorem awaits_condition (paren : Arrival) {clauses : List Clause} {otherwise? : Option Value} :
    (opened paren (.arms start clauses otherwise? context)).Awaits
      (.values paren.start .clause [] (.arms start clauses otherwise? context)) := by
  refine awaits_of_value? fun arrival next h => ?_
  simp only [accept?, opened?]
  split
  · simp_all [value?]
  · simp_all [value?]
  · exact h

theorem accept?_otherwise (paren : Arrival) {arrival : Arrival} {clauses : List Clause}
    {otherwise? : Option Value} (hkind : arrival.token.kind = .keyword .otherwise)
    (hne : clauses ≠ []) :
    (opened paren (.arms start clauses otherwise? context)).accept? arrival =
      some (waiting
        (.values paren.start .otherwise [] (.arms start clauses otherwise? context))) := by
  obtain ⟨clause, clauses, rfl⟩ := List.exists_cons_of_ne_nil hne
  simp [accept?, opened?, hkind]

end Progress

end TypedIsl
