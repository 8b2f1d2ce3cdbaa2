import TypedIsl.Syntax.Reader

/-!
# Where reading stops

The error is at the token that cannot come next, or at the parenthesis right before it.
-/

namespace TypedIsl

namespace Progress

/-- The parenthesis at the end of what has been read. -/
def paren? : Progress → Option Arrival
  | opened paren _ => some paren
  | _ => none

/-- Only an opening parenthesis is kept until the next token. -/
def KeepsParen (next : Progress) (arrival : Arrival) : Prop :=
  ∀ paren, next.paren? = some paren → paren = arrival ∧ arrival.token.kind = .openParen

section

variable {arrival : Arrival} {next : Progress}

theorem KeepsParen.of_none (h : next.paren? = none) : next.KeepsParen arrival := by
  intro paren hparen
  rw [h] at hparen
  cases hparen

theorem keepsParen_opened {place : Place} {context : Context place}
    (h : arrival.token.kind = .openParen) : (opened arrival context).KeepsParen arrival := by
  intro paren hparen
  exact ⟨(Option.some.inj hparen).symm, h⟩

theorem keepsParen_deliver {place : Place} (context : Context place) (content : place.Content) :
    (context.deliver content).KeepsParen arrival := by
  refine .of_none ?_
  cases context <;> try rfl
  cases content <;> rfl

theorem keepsParen_resume {place : Place} (owner : ParamsOwner place) (params : Params)
    (context : Context place) : (owner.resume params context).KeepsParen arrival :=
  .of_none (by cases owner <;> rfl)

theorem keepsParen_value? {context : Context .value} (h : value? context arrival = some next) :
    next.KeepsParen arrival := by
  simp only [value?] at h
  split at h <;> simp only [Option.some.injEq, reduceCtorEq] at h <;> subst h
  · exact keepsParen_opened ‹_›
  · exact keepsParen_deliver _ _
  · exact keepsParen_deliver _ _

theorem keepsParen_openedValue? {context : Context .value} {start : Position}
    (h : openedValue? start context arrival = some next) : next.KeepsParen arrival := by
  simp only [openedValue?] at h
  split at h
  case h_7 => exact keepsParen_value? h
  all_goals
    obtain rfl := Option.some.inj h
    exact .of_none rfl

theorem keepsParen_opened? {place : Place} {context : Context place} {paren : Arrival}
    (h : opened? paren context arrival = some next) : next.KeepsParen arrival := by
  cases context <;> simp only [opened?] at h
  case topValue | alone | values => exact keepsParen_openedValue? h
  case program =>
    split at h
    case h_3 => exact keepsParen_openedValue? h
    all_goals
      obtain rfl := Option.some.inj h
      exact .of_none rfl
  case arms =>
    split at h
    · cases h
    · obtain rfl := Option.some.inj h
      exact .of_none rfl
    · exact keepsParen_value? h
  all_goals
    split at h
    · obtain rfl := Option.some.inj h
      exact .of_none rfl
    · cases h

theorem keepsParen_waiting? {place : Place} {context : Context place}
    (h : waiting? context arrival = some next) : next.KeepsParen arrival := by
  cases context <;> simp only [waiting?] at h
  case topValue | alone => exact keepsParen_value? h
  case program =>
    split at h
    · obtain rfl := Option.some.inj h
      exact keepsParen_opened ‹_›
    · exact keepsParen_value? h
  case values =>
    split at h
    · obtain ⟨content, -, rfl⟩ := Option.map_eq_some_iff.mp h
      exact keepsParen_deliver _ _
    · split at h
      · exact keepsParen_value? h
      · cases h
  case arms =>
    split at h
    · obtain rfl := Option.some.inj h
      exact keepsParen_opened ‹_›
    · split at h
      · cases h
      · obtain rfl := Option.some.inj h
        exact keepsParen_deliver _ _
    · cases h
  case topDefinition =>
    split at h
    · obtain rfl := Option.some.inj h
      exact keepsParen_opened ‹_›
    · cases h
  case definitions | bindings =>
    split at h
    · obtain rfl := Option.some.inj h
      exact keepsParen_opened ‹_›
    · obtain rfl := Option.some.inj h
      exact .of_none rfl
    · cases h

theorem keepsParen_opening? {place : Place} {head : Opening place} {context : Context place}
    (h : opening? head context arrival = some next) : next.KeepsParen arrival := by
  simp only [opening?] at h
  split at h
  case h_12 =>
    split at h
    · obtain rfl := Option.some.inj h
      exact keepsParen_resume _ _ _
    · obtain ⟨_, -, rfl⟩ := Option.map_eq_some_iff.mp h
      exact .of_none rfl
  case h_13 => cases h
  all_goals
    obtain rfl := Option.some.inj h
    first
      | exact .of_none rfl
      | exact keepsParen_deliver _ _

theorem keepsParen_accept? {progress : Progress} (h : progress.accept? arrival = some next) :
    next.KeepsParen arrival := by
  cases progress with
  | waiting context => exact keepsParen_waiting? h
  | opened paren context => exact keepsParen_opened? h
  | opening head context => exact keepsParen_opening? h
  | finished value => cases h

theorem index_rejection (progress : Progress) (arrival : Arrival) :
    (progress.rejection arrival).index = arrival.index ∨
      ∃ paren, progress.paren? = some paren ∧ (progress.rejection arrival).index = paren.index := by
  unfold rejection
  split
  · exact .inr ⟨_, rfl, rfl⟩
  · exact .inl rfl

end

/-! ## Runs -/

theorem run_docstring {token : Token} {text : String} (h : token.kind = .docstring text)
    (progress : Progress) (index : Nat) (docs : List String) (rest : List Token) :
    progress.run index docs (token :: rest) =
      progress.run (index + 1) (docs ++ [text]) rest := by
  rw [run, h]

theorem run_cons {token : Token} (h : ∀ text, token.kind ≠ .docstring text) (progress : Progress)
    (index : Nat) (docs : List String) (rest : List Token) :
    progress.run index docs (token :: rest) =
      match progress.accept? ⟨token, index, docs⟩ with
      | some next => next.run (index + 1) [] rest
      | none => .error (progress.rejection ⟨token, index, docs⟩) := by
  rw [run, step]
  split
  · exact absurd ‹_› (h _)
  · cases progress.accept? ⟨token, index, docs⟩ <;> rfl

/-- Tokens before the first one are not to blame, except for a parenthesis right before it. -/
theorem index_of_run_error {progress : Progress} {index : Nat} {docs : List String}
    {tokens : List Token} {e : SyntaxError} (h : progress.run index docs tokens = .error e) :
    index ≤ e.index ∨ ∃ paren, progress.paren? = some paren ∧ e.index = paren.index := by
  induction tokens generalizing progress index docs with
  | nil => cases h
  | cons token rest ih =>
      rw [run] at h
      split at h
      · exact (ih h).imp_left Nat.le_of_succ_le
      · rw [step] at h
        cases haccept : progress.accept? ⟨token, index, docs⟩ with
        | none =>
            rw [haccept] at h
            obtain rfl := Except.error.inj h
            have hindex := index_rejection progress ⟨token, index, docs⟩
            exact hindex.imp_left fun h => Nat.le_of_eq h.symm
        | some next =>
            rw [haccept] at h
            obtain hlate | ⟨paren, hparen, hindex⟩ := ih h
            · exact .inl (Nat.le_of_succ_le hlate)
            · obtain ⟨rfl, -⟩ := keepsParen_accept? haccept paren hparen
              exact .inl (Nat.le_of_eq hindex.symm)

/-- An error is at a token that there is, or at a parenthesis right before the first one. -/
theorem index_le_of_run_error {progress : Progress} {index : Nat} {docs : List String}
    {tokens : List Token} {e : SyntaxError} (h : progress.run index docs tokens = .error e)
    (hparen : ∀ paren, progress.paren? = some paren → paren.index ≤ index) :
    e.index ≤ index + tokens.length := by
  induction tokens generalizing progress index docs with
  | nil => cases h
  | cons token rest ih =>
      rw [List.length_cons]
      rcases token.kind.docstring_or_spoken with ⟨text, htext⟩ | hspoken
      · rw [run_docstring htext] at h
        have hrest := ih h fun paren hopen => Nat.le_succ_of_le (hparen paren hopen)
        omega
      · rw [run_cons hspoken] at h
        cases haccept : progress.accept? ⟨token, index, docs⟩ with
        | none =>
            rw [haccept] at h
            obtain rfl := Except.error.inj h
            rcases index_rejection progress ⟨token, index, docs⟩ with
              hindex | ⟨paren, hopen, hindex⟩
            · rw [hindex]
              exact Nat.le_add_right index _
            · rw [hindex]
              exact Nat.le_add_right_of_le (hparen paren hopen)
        | some next =>
            rw [haccept] at h
            have hrest := ih h fun paren hopen => by
              obtain ⟨rfl, -⟩ := keepsParen_accept? haccept paren hopen
              exact Nat.le_succ index
            omega

end Progress

end TypedIsl
