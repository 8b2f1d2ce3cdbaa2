import TypedIsl.Proofs.Session.Numbers
import TypedIsl.Proofs.Session.Parsing
import TypedIsl.Proofs.Syntax.Rejection
import TypedIsl.Source.Parse

/-!
# Reading programs with numbered names

Every token that is read brings its name into the table, and the tree keeps the number. A token that
cannot come next is not numbered, but the names before it stay in the table.
-/

namespace TypedIsl

/-- Interns the name of a token and puts its number in its place. -/
def TokenKind.number (names : NameTable) : TokenKind → NameTable × TokenKind
  | identifier name =>
      let (names, handle) := names.intern name
      (names, .identifier handle.text)
  | literal (.symbol name) =>
      let (names, handle) := names.intern name
      (names, .literal (.symbol handle.text))
  | kind => (names, kind)

/-- Reads tokens like `run`, and numbers the names of those that are read. -/
def Progress.runNumbered (names : NameTable) (progress : Progress) (index : Nat)
    (docs : List String) : List Token → NameTable × Except SyntaxError Progress
  | [] => (names, .ok progress)
  | token :: rest =>
      match token.kind with
      | .docstring text => progress.runNumbered names (index + 1) (docs ++ [text]) rest
      | kind =>
          let (grown, numbered) := kind.number names
          match progress.accept? ⟨⟨numbered, token.range⟩, index, docs⟩ with
          | some next => next.runNumbered grown (index + 1) [] rest
          | none => (names, .error (progress.rejection ⟨token, index, docs⟩))

/-- Reads a whole program to a tree of numbers. -/
def parseNumbered (names : NameTable) (tokens : List Token) :
    NameTable × Except SyntaxError Program :=
  match (Progress.waiting (.program [])).runNumbered names 0 [] tokens with
  | (names, .ok (.waiting (.program read))) => (names, .ok read)
  | (names, .ok progress) => (names, .error (progress.unfinished tokens))
  | (names, .error e) => (names, .error e)

/-- Two results that are related, or the same error. -/
inductive Agree {ε α β : Type} (R : α → β → Prop) : Except ε α → Except ε β → Prop where
  | ok {a : α} {b : β} (h : R a b) : Agree R (.ok a) (.ok b)
  | error (e : ε) : Agree R (.error e) (.error e)

/-! ## Tokens -/

theorem TokenKind.extends_number (names : NameTable) (kind : TokenKind) :
    (kind.number names).1.Extends names := by
  cases kind with
  | identifier name => exact NameTable.extends_intern names name
  | literal value =>
      cases value with
      | symbol name => exact NameTable.extends_intern names name
      | _ => exact .refl names
  | _ => exact .refl names

theorem TokenKind.number_respells {names last : NameTable} {kind : TokenKind}
    (h : last.Extends (kind.number names).1) : (kind.number names).2.Respells last.read? kind := by
  have hname (name : String) (h : last.Extends (names.intern name).1) :
      last.read? (names.intern name).2.text = some name :=
    h.read? (NameTable.read?_text (NameTable.get?_intern names name))
  cases kind with
  | identifier name => exact .identifier (hname name h)
  | literal value =>
      cases value with
      | symbol name => exact .literal (Literal.respell?_symbol (hname name h))
      | _ => exact .literal rfl
  | openParen => exact .openParen
  | closeParen => exact .closeParen
  | keyword word => exact .keyword word
  | colon => exact .colon
  | ampersand => exact .ampersand
  | arrow => exact .arrow
  | docstring text => exact .docstring text

/-! ## Runs -/

namespace Progress

theorem runNumbered_cons {token : Token} (h : ∀ text, token.kind ≠ .docstring text)
    (names : NameTable) (progress : Progress) (index : Nat) (docs : List String)
    (rest : List Token) :
    progress.runNumbered names index docs (token :: rest) =
      match progress.accept? ⟨⟨(token.kind.number names).2, token.range⟩, index, docs⟩ with
      | some next => next.runNumbered (token.kind.number names).1 (index + 1) [] rest
      | none => (names, .error (progress.rejection ⟨token, index, docs⟩)) := by
  rw [runNumbered]
  split
  · exact absurd ‹_› (h _)
  · rfl

theorem accept?_number {names later : NameTable} {numbered progress : Progress}
    (h : ∀ last : NameTable, last.Extends names → numbered.Respells last.read? progress)
    (token : Token) (index : Nat) (docs : List String)
    (hlater : later.Extends (token.kind.number names).1) :
    Option.Rel (Progress.Respells later.read?)
      (numbered.accept? ⟨⟨(token.kind.number names).2, token.range⟩, index, docs⟩)
      (progress.accept? ⟨token, index, docs⟩) :=
  accept?_respells (h later (hlater.trans (TokenKind.extends_number ..)))
    ⟨⟨TokenKind.number_respells hlater, token.range⟩, index, docs⟩

/-- A numbered run does what the run on the names does. The numbers may be read with any later
table. -/
theorem runNumbered_respells {names : NameTable} {numbered progress : Progress} {index : Nat}
    {docs : List String} {tokens : List Token}
    (h : ∀ last : NameTable, last.Extends names → numbered.Respells last.read? progress)
    {last : NameTable} (hlast : last.Extends (numbered.runNumbered names index docs tokens).1) :
    Agree (Progress.Respells last.read?) (numbered.runNumbered names index docs tokens).2
      (progress.run index docs tokens) := by
  induction tokens generalizing names numbered progress index docs with
  | nil => exact .ok (h last hlast)
  | cons token rest ih =>
      rcases token.kind.docstring_or_spoken with ⟨text, hdoc⟩ | hkind
      · simp only [runNumbered, run, hdoc] at hlast ⊢
        exact ih h hlast
      · have hstep {later : NameTable} :=
          @accept?_number names later numbered progress h token index docs
        rw [runNumbered_cons hkind] at hlast ⊢
        rw [run_cons hkind]
        rcases rel_cases (hstep (.refl _)) with ⟨hnone, hnone'⟩ | ⟨next, next', hnext, hnext', -⟩
        · rw [hnone] at hlast
          rw [hnone, hnone', rejection_respells (h last hlast)]
          exact .error _
        · simp only [hnext, hnext'] at hlast hstep ⊢
          refine ih (fun later hlater => ?_) hlast
          cases hstep hlater with
          | some hrespells => exact hrespells

theorem unfinished_respells {f : String → Option String} {numbered progress : Progress}
    (h : numbered.Respells f progress) (tokens : List Token) :
    numbered.unfinished tokens = progress.unfinished tokens := by
  rw [unfinished, unfinished, expects_respells h]

end Progress

/-! ## Programs -/

theorem parseNumbered_fst (names : NameTable) (tokens : List Token) :
    (parseNumbered names tokens).1 =
      ((Progress.waiting (.program [])).runNumbered names 0 [] tokens).1 := by
  unfold parseNumbered
  split <;> simp only [*]

/-- A numbered program reads as the program, by any later table. -/
theorem parseNumbered_respells {names last : NameTable} {tokens : List Token}
    (hlast : last.Extends (parseNumbered names tokens).1) :
    Agree (fun numbered program => Program.respell? (.uniform last.read?) numbered = some program)
      (parseNumbered names tokens).2 (parseProgram tokens) := by
  have hrun : Agree (Progress.Respells last.read?)
      ((Progress.waiting (.program [])).runNumbered names 0 [] tokens).2
      ((Progress.waiting (.program [])).run 0 [] tokens) :=
    Progress.runNumbered_respells (fun _ _ => .waiting (.program .nil))
      (parseNumbered_fst names tokens ▸ hlast)
  unfold parseNumbered parseProgram
  generalize (Progress.waiting (.program [])).runNumbered names 0 [] tokens = numbered,
    (Progress.waiting (.program [])).run 0 [] tokens = result at hrun ⊢
  obtain ⟨grown, numbered⟩ := numbered
  cases hrun with
  | error e => exact .error e
  | ok h =>
      have hunfinished := Progress.unfinished_respells h tokens
      cases h with
      | waiting h =>
          cases h with
          | program hread => exact .ok (mapM_eq_some_iff.mpr hread)
          | _ =>
              simp only [hunfinished]
              exact .error _
      | _ =>
          simp only [hunfinished]
          exact .error _

example (range : Range) :
    (parseNumbered (NameTable.empty.add "b") [⟨.identifier "a", range⟩]).2 =
      .ok [.value (.name ⟨"Interned(2)", range⟩)] := rfl

/-! ## Names that are read -/

/-- The names of the tokens before an error, or of all. The first token has the given index. -/
def namesBefore {α : Type} (index : Nat) (tokens : List Token) (result : Except SyntaxError α) :
    List String :=
  let read := match result with
    | .ok _ => tokens
    | .error e => tokens.take (e.index - index)
  read.filterMap (·.kind.name?)

theorem namesBefore_cons {α : Type} {index : Nat} {token : Token} {rest : List Token}
    {result : Except SyntaxError α}
    (h : ∀ e, result = .error e → e.index ≤ index → token.kind.name? = none) :
    namesBefore index (token :: rest) result =
      token.kind.name?.toList ++ namesBefore (index + 1) rest result := by
  unfold namesBefore
  cases result with
  | ok a =>
      rw [List.filterMap_cons]
      cases token.kind.name? <;> rfl
  | error e =>
      by_cases hle : e.index ≤ index
      · simp [h e rfl hle, Nat.sub_eq_zero_of_le hle, Nat.sub_eq_zero_of_le (Nat.le_succ_of_le hle)]
      · have hsucc : e.index - index = e.index - (index + 1) + 1 := by omega
        simp only [hsucc, List.take_succ_cons, List.filterMap_cons]
        cases token.kind.name? <;> rfl

theorem TokenKind.number_fst (names : NameTable) (kind : TokenKind) :
    (kind.number names).1 = names.addAll kind.name?.toList := by
  cases kind with
  | identifier name => exact NameTable.intern_fst names name
  | literal value =>
      cases value with
      | symbol name => exact NameTable.intern_fst names name
      | _ => rfl
  | _ => rfl

theorem Progress.runNumbered_names {names : NameTable} {numbered progress : Progress} {index : Nat}
    {docs : List String} {tokens : List Token}
    (h : ∀ last : NameTable, last.Extends names → numbered.Respells last.read? progress)
    (hparen : ∀ paren, progress.paren? = some paren → paren.index ≤ index) :
    (numbered.runNumbered names index docs tokens).1 =
      names.addAll (namesBefore index tokens (progress.run index docs tokens)) := by
  induction tokens generalizing names numbered progress index docs with
  | nil => rfl
  | cons token rest ih =>
      rcases token.kind.docstring_or_spoken with ⟨text, hdoc⟩ | hkind
      · have hname : token.kind.name? = none := by rw [hdoc]; rfl
        rw [namesBefore_cons fun _ _ _ => hname, hname]
        simp only [runNumbered, run, hdoc]
        exact ih h fun paren heq => Nat.le_succ_of_le (hparen paren heq)
      · have hstep {later : NameTable} :=
          @accept?_number names later numbered progress h token index docs
        rw [runNumbered_cons hkind, run_cons hkind]
        rcases rel_cases (hstep (.refl _)) with ⟨hnone, hnone'⟩ | ⟨next, next', hnext, hnext', -⟩
        · rw [hnone, hnone']
          have hindex : (progress.rejection ⟨token, index, docs⟩).index ≤ index := by
            obtain heq | ⟨paren, hsome, heq⟩ := index_rejection progress ⟨token, index, docs⟩
            · exact Nat.le_of_eq heq
            · exact heq ▸ hparen paren hsome
          simp [namesBefore, Nat.sub_eq_zero_of_le hindex, NameTable.addAll]
        · simp only [hnext, hnext'] at hstep ⊢
          have hkeeps := keepsParen_accept? hnext'
          have hnext (later : NameTable) (hlater : later.Extends (token.kind.number names).1) :
              next.Respells later.read? next' := by
            cases hstep hlater with
            | some hrespells => exact hrespells
          have hbefore (paren : Arrival) (hsome : next'.paren? = some paren) :
              paren.index ≤ index + 1 := by
            rw [(hkeeps paren hsome).1]
            exact Nat.le_succ index
          rw [ih hnext hbefore, TokenKind.number_fst, ← NameTable.addAll_append, ← namesBefore_cons]
          intro e herror hle
          obtain hlate | ⟨paren, hsome, -⟩ := index_of_run_error herror
          · omega
          · rw [(hkeeps paren hsome).2]
            rfl

/-- A numbered program has the names in its table that reading the program brings in. -/
theorem parseNumbered_names (names : NameTable) (tokens : List Token) :
    (parseNumbered names tokens).1 = names.addAll (namesRead tokens) := by
  have hrun : ((Progress.waiting (.program [])).runNumbered names 0 [] tokens).1 =
      names.addAll (namesBefore 0 tokens ((Progress.waiting (.program [])).run 0 [] tokens)) :=
    Progress.runNumbered_names (fun _ _ => .waiting (.program .nil)) fun _ h => by cases h
  have hread : namesBefore 0 tokens ((Progress.waiting (.program [])).run 0 [] tokens) =
      namesRead tokens := by
    unfold namesBefore namesRead parseProgram
    cases (Progress.waiting (.program [])).run 0 [] tokens with
    | error e => rfl
    | ok progress =>
        simp only
        split <;> rename_i heq
        · rfl
        · split at heq
          · cases heq
          · obtain rfl := Except.error.inj heq
            rw [Progress.unfinished, List.take_length]
          · cases ‹Except.ok progress = Except.error _›
  rw [parseNumbered_fst, hrun, hread]

end TypedIsl
