import TypedIsl.Proofs.Syntax.Completion

/-!
# Syntax errors stand where a program stops being one

The tokens before a syntax error begin some program, and with the token at the error they begin
none. There is one exception: that an `else` arm comes first is known only after the parenthesis at
which the error is reported.
-/

namespace TypedIsl

namespace Progress

/-- Reading all of the tokens leads from one state to another, before which the docstrings `later`
stand. -/
inductive Reads : Progress → Nat → List String → List Token → Progress → List String → Prop
  | nil {p : Progress} {index : Nat} {docs : List String} : Reads p index docs [] p docs
  | docstring {p q : Progress} {index : Nat} {docs later : List String} {token : Token}
      {rest : List Token} {text : String} (h : token.kind = .docstring text)
      (hrest : Reads p (index + 1) (docs ++ [text]) rest q later) :
      Reads p index docs (token :: rest) q later
  | spoken {p next q : Progress} {index : Nat} {docs later : List String} {token : Token}
      {rest : List Token} (h : ∀ text, token.kind ≠ .docstring text)
      (haccept : p.accept? ⟨token, index, docs⟩ = some next)
      (hrest : Reads next (index + 1) [] rest q later) : Reads p index docs (token :: rest) q later

variable {p q : Progress} {index : Nat} {docs later : List String} {tokens front : List Token}
  {e : SyntaxError}

/-! ## Parts of a run -/

/-- Tokens are all read, or one of them is rejected. -/
theorem reads_or_rejected (p : Progress) (index : Nat) (docs : List String) (tokens : List Token) :
    (∃ q later, p.run index docs tokens = .ok q ∧ p.Reads index docs tokens q later) ∨
      ∃ front token rest q later, tokens = front ++ token :: rest ∧
        p.Reads index docs front q later ∧ (∀ text, token.kind ≠ .docstring text) ∧
        q.accept? ⟨token, index + front.length, later⟩ = none := by
  induction tokens generalizing p index docs with
  | nil => exact .inl ⟨p, docs, rfl, .nil⟩
  | cons token tokens ih =>
      rcases token.kind.docstring_or_spoken with ⟨text, htext⟩ | hspoken
      · rcases ih p (index + 1) (docs ++ [text]) with
          ⟨q, later, hrun, hreads⟩ | ⟨front, found, rest, q, later, rfl, hreads, hfound⟩
        · exact .inl ⟨q, later, (run_docstring htext ..).trans hrun, .docstring htext hreads⟩
        · rw [Nat.add_assoc, Nat.add_comm 1] at hfound
          exact .inr ⟨token :: front, found, rest, q, later, rfl, .docstring htext hreads, hfound⟩
      · cases haccept : p.accept? ⟨token, index, docs⟩ with
        | none => exact .inr ⟨[], token, tokens, p, docs, rfl, .nil, hspoken, haccept⟩
        | some next =>
            rcases ih next (index + 1) [] with
              ⟨q, later, hrun, hreads⟩ | ⟨front, found, rest, q, later, rfl, hreads, hfound⟩
            · refine .inl ⟨q, later, ?_, .spoken hspoken haccept hreads⟩
              rw [run_cons hspoken, haccept]
              exact hrun
            · rw [Nat.add_assoc, Nat.add_comm 1] at hfound
              exact .inr
                ⟨token :: front, found, rest, q, later, rfl, .spoken hspoken haccept hreads, hfound⟩

/-- Reading goes on from where it has got to. -/
theorem Reads.run_append (h : p.Reads index docs front q later) (rest : List Token) :
    p.run index docs (front ++ rest) = q.run (index + front.length) later rest := by
  induction h with
  | nil => rfl
  | docstring hdoc _ ih =>
      rw [List.cons_append, run_docstring hdoc, ih, List.length_cons]
      congr 1
      omega
  | spoken hspoken haccept _ ih =>
      rw [List.cons_append, run_cons hspoken, haccept]
      dsimp only
      rw [ih, List.length_cons]
      congr 1
      omega

/-- A token that is rejected is an error, whatever comes after it. -/
theorem Reads.run_rejected (h : p.Reads index docs front q later) {token : Token}
    (hspoken : ∀ text, token.kind ≠ .docstring text)
    (haccept : q.accept? ⟨token, index + front.length, later⟩ = none) (rest : List Token) :
    p.run index docs (front ++ token :: rest) =
      .error (q.rejection ⟨token, index + front.length, later⟩) := by
  rw [h.run_append, run_cons hspoken, haccept]

theorem Reads.sound (h : p.Reads index docs front q later) (hp : p.Proper anyDoc) (ho : p.Open) :
    q.Proper anyDoc ∧ q.Open := by
  induction h with
  | nil => exact ⟨hp, ho⟩
  | docstring _ _ ih => exact ih hp ho
  | spoken _ haccept _ ih =>
      exact ih (accept?_spec haccept (fun _ _ => trivial) hp).2 (open_accept? haccept ho)

/-- After an opening parenthesis there may be docstrings, but nothing else has been read. -/
theorem Reads.exists_paren (h : p.Reads index docs front q later) {paren : Arrival}
    (hparen : q.paren? = some paren) :
    (p.paren? = some paren ∧ ∀ token ∈ front, ∃ text, token.kind = .docstring text) ∨
      ∃ before after r others, front = before ++ paren.token :: after ∧
        paren.index = index + before.length ∧ paren.token.kind = .openParen ∧
        (∀ token ∈ after, ∃ text, token.kind = .docstring text) ∧
        p.Reads index docs before r others := by
  induction h with
  | nil => exact .inl ⟨hparen, by simp⟩
  | @docstring p q index docs later token rest text hdoc _ ih =>
      rcases ih hparen with ⟨hopen, hrest⟩ | ⟨before, after, r, others, rfl, hindex, hbefore⟩
      · exact .inl ⟨hopen, List.forall_mem_cons.mpr ⟨⟨text, hdoc⟩, hrest⟩⟩
      · refine .inr ⟨token :: before, after, r, others, rfl, ?_, hbefore.1, hbefore.2.1,
          .docstring hdoc hbefore.2.2⟩
        rw [hindex, List.length_cons]
        omega
  | @spoken p next q index docs later token rest hspoken haccept _ ih =>
      rcases ih hparen with ⟨hopen, hrest⟩ | ⟨before, after, r, others, rfl, hindex, hbefore⟩
      · obtain ⟨rfl, hkind⟩ := keepsParen_accept? haccept paren hopen
        exact .inr ⟨[], rest, p, docs, rfl, rfl, hkind, hrest, .nil⟩
      · refine .inr ⟨token :: before, after, r, others, rfl, ?_, hbefore.1, hbefore.2.1,
          .spoken hspoken haccept hbefore.2.2⟩
        rw [hindex, List.length_cons]
        omega

/-! ## Rejections -/

/-- A rejection is at the token that may not come next, or it is at the parenthesis before an `else`
arm that comes first. -/
theorem rejection_cases (q : Progress) (arrival : Arrival) :
    q.rejection arrival = ⟨q.expects, some arrival.token.kind, arrival.start, arrival.index⟩ ∨
      ∃ paren, q.paren? = some paren ∧ arrival.token.kind = .keyword .otherwise ∧
        q.rejection arrival = ⟨.clause, some paren.token.kind, paren.start, paren.index⟩ := by
  unfold rejection
  split
  · exact .inr ⟨_, rfl, ‹_›, rfl⟩
  · exact .inl rfl

/-- A parenthesis may come where a clause is expected. -/
theorem accept?_of_expects_clause (hp : q.Proper anyDoc) (h : q.expects = .clause)
    {arrival : Arrival} (hkind : arrival.token.kind = .openParen) : q.accept? arrival ≠ none := by
  cases q with
  | finished value => cases h
  | opened paren context => cases context <;> cases h
  | opening head context =>
      cases head with
      | params owner read => cases read <;> cases h
      | _ => cases h
  | waiting context =>
      cases context with
      | values start heading read outer =>
          rw [expects] at h
          split at h <;> cases h
      | arms start clauses otherwise? outer =>
          cases otherwise? with
          | none => simp [accept?, waiting?, hkind]
          | some value =>
              rw [expects, if_neg (by simpa using hp.2.1)] at h
              cases h
      | _ => cases h

end Progress

/-! ## Where a program stops being one -/

/-- Some list of tokens that begins in this way is a program. -/
def BeginsProgram (tokens : List Token) : Prop :=
  ∃ rest program, parseProgram (tokens ++ rest) = .ok program

/-- The error of an `else` arm that comes first: a clause is expected, and a parenthesis found. -/
def SyntaxError.IsElse (e : SyntaxError) : Prop :=
  e.expected = .clause ∧ e.found? = some .openParen

/-- The error stands at the first token with which the tokens do not begin a program any more. -/
structure SyntaxError.IsFirst (e : SyntaxError) (tokens : List Token) : Prop where
  index_le : e.index ≤ tokens.length
  found_eq : e.found? = tokens[e.index]?.map (·.kind)
  before : BeginsProgram (tokens.take e.index)
  unfinished : e.index = tokens.length → ∀ program, parseProgram tokens ≠ .ok program
  fault : e.index < tokens.length → ¬ e.IsElse → ¬ BeginsProgram (tokens.take (e.index + 1))
  /-- The `else` arm comes right after the parenthesis, except for docstrings. -/
  late : e.IsElse → ∃ paren docs other rest,
    tokens = tokens.take e.index ++ paren :: docs ++ other :: rest ∧
      (∀ token ∈ docs, ∃ text, token.kind = .docstring text) ∧
      other.kind = .keyword .otherwise ∧
      ¬ BeginsProgram (tokens.take e.index ++ paren :: docs ++ [other])

section

variable {q : Progress} {later : List String} {tokens front rest : List Token} {token : Token}

theorem beginsProgram_of_reads
    (h : (Progress.waiting (.program [])).Reads 0 [] front q later) : BeginsProgram front := by
  obtain ⟨hproper, hopen⟩ := h.sound (fun _ hform => absurd hform List.not_mem_nil) trivial
  obtain ⟨rest, program, hrun⟩ := Progress.exists_completion hproper hopen (0 + front.length) later
  refine ⟨rest, program, ?_⟩
  rw [parseProgram, h.run_append, hrun]

theorem isFirst_unfinished (h : (Progress.waiting (.program [])).Reads 0 [] tokens q later)
    (hfails : ∀ program, parseProgram tokens ≠ .ok program) :
    (q.unfinished tokens).IsFirst tokens where
  index_le := Nat.le_refl _
  found_eq := by simp [Progress.unfinished]
  before := by
    rw [show (q.unfinished tokens).index = tokens.length from rfl, List.take_length]
    exact beginsProgram_of_reads h
  unfinished _ := hfails
  fault hlt := absurd hlt (Nat.lt_irrefl _)
  late helse := absurd helse.2 (by simp [Progress.unfinished])

section

variable (h : (Progress.waiting (.program [])).Reads 0 [] front q later)
  (hspoken : ∀ text, token.kind ≠ .docstring text)
  (haccept : q.accept? ⟨token, 0 + front.length, later⟩ = none)
include h hspoken haccept

theorem not_beginsProgram_of_rejected : ¬ BeginsProgram (front ++ [token]) := by
  rintro ⟨rest, program, hparse⟩
  rw [parseProgram, List.append_assoc, List.singleton_append, h.run_rejected hspoken haccept]
    at hparse
  cases hparse

theorem isFirst_rejected :
    SyntaxError.IsFirst ⟨q.expects, some token.kind, token.range.start, front.length⟩
      (front ++ token :: rest) where
  index_le := by simp
  found_eq := by simp
  before := by
    rw [List.take_left]
    exact beginsProgram_of_reads h
  unfinished hlength := absurd hlength (by simp)
  fault _ _ := by
    rw [List.take_length_add_append]
    exact not_beginsProgram_of_rejected h hspoken haccept
  late helse := by
    obtain ⟨hproper, -⟩ := h.sound (fun _ hform => absurd hform List.not_mem_nil) trivial
    exact absurd haccept
      (Progress.accept?_of_expects_clause hproper helse.1 (Option.some.inj helse.2))

/-- The parenthesis before an `else` arm is the last token before it that is not a docstring. -/
theorem isFirst_else {paren : Arrival} (hparen : q.paren? = some paren)
    (hkind : token.kind = .keyword .otherwise) :
    SyntaxError.IsFirst ⟨.clause, some paren.token.kind, paren.start, paren.index⟩
      (front ++ token :: rest) := by
  rcases h.exists_paren hparen with
    ⟨hnone, -⟩ | ⟨before, docs, r, others, rfl, hindex, hopen, hdocs, hbefore⟩
  · cases hnone
  · have htake : (before ++ paren.token :: docs ++ token :: rest).take paren.index = before := by
      rw [hindex, Nat.zero_add, List.append_assoc, List.take_left]
    have hlt : paren.index < (before ++ paren.token :: docs ++ token :: rest).length := by
      rw [hindex, List.append_assoc, List.length_append, List.cons_append, List.length_cons]
      omega
    refine ⟨Nat.le_of_lt hlt, ?_, ?_, fun hlength => absurd hlength (Nat.ne_of_lt hlt), ?_,
      fun _ => ?_⟩
    · rw [hindex]
      simp
    · rw [htake]
      exact beginsProgram_of_reads hbefore
    · exact fun _ helse => absurd ⟨rfl, congrArg some hopen⟩ helse
    · dsimp only
      rw [htake]
      exact ⟨paren.token, docs, token, rest, rfl, hdocs, hkind,
        not_beginsProgram_of_rejected h hspoken haccept⟩

end

end

/-- A syntax error stands at the first token that rules out every program, or at the parenthesis of
an `else` arm that does. -/
theorem parseProgram_first_fault {tokens : List Token} {e : SyntaxError}
    (h : parseProgram tokens = .error e) : e.IsFirst tokens := by
  have hfails : ∀ program, parseProgram tokens ≠ .ok program := by
    intro program hok
    rw [h] at hok
    cases hok
  rcases Progress.reads_or_rejected (.waiting (.program [])) 0 [] tokens with
    ⟨q, later, hrun, hreads⟩ | ⟨front, token, rest, q, later, rfl, hreads, hspoken, haccept⟩
  · rw [parseProgram, hrun] at h
    split at h
    · cases h
    · obtain rfl := Except.error.inj h
      cases ‹Except.ok q = _›
      exact isFirst_unfinished hreads hfails
    · cases ‹Except.ok q = _›
  · rw [parseProgram, hreads.run_rejected hspoken haccept] at h
    obtain rfl := Except.error.inj h
    rcases q.rejection_cases ⟨token, 0 + front.length, later⟩ with
      hrejection | ⟨paren, hparen, hkind, hrejection⟩
    · rw [hrejection, Nat.zero_add]
      exact isFirst_rejected hreads hspoken haccept
    · rw [hrejection]
      exact isFirst_else hreads hspoken haccept hparen hkind

/-- A `cond` form that begins with an `else` arm. -/
def elseFirst : List Token :=
  [.openParen, .keyword .cond, .openParen, .docstring "doc", .keyword .otherwise].map
    fun kind => ⟨kind, default⟩

theorem parseProgram_first_fault_else :
    ∃ e, parseProgram elseFirst = .error e ∧ e.index = 2 ∧ e.IsElse ∧ e.IsFirst elseFirst := by
  have h : parseProgram elseFirst = .error _ := rfl
  exact ⟨_, h, rfl, ⟨rfl, rfl⟩, parseProgram_first_fault h⟩

end TypedIsl
