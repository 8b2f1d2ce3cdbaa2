import TypedIsl.Diagnostic.Report
import TypedIsl.Emission.Code
import TypedIsl.Proofs.Session.NumberedChecks
import TypedIsl.Proofs.Session.NumberedTrees
import TypedIsl.Session
import TypedIsl.Syntax.Outline

/-!
# Histories of sessions

The steps of a session share one table and one buffer of tokens. What a step shows has been worked
out on numbers and read by the table, and is the same as if nothing had come before it.
-/

namespace TypedIsl

/-! ## Numbered sessions -/

/-- Why a session breaks off. -/
inductive Panic where
  | tokensLeft (left : TokensLeft)
  /-- A number that stands for no name was looked up. -/
  | unknownNumber
deriving DecidableEq

/-- What was looked up by numbers, if all of them stand for names. -/
def known {α : Type} : Option α → Except Panic α
  | some a => .ok a
  | none => .error .unknownNumber

section

variable {α β : Type}

@[simp] theorem ok_bind (a : α) (f : α → Except Panic β) : (.ok a >>= f) = f a := rfl

@[simp] theorem known_some (a : α) : known (some a) = .ok a := rfl

end

/-- The program that a numbered tree stands for. -/
def Program.spelled? (names : NameTable) (numbered : Program) : Option Program :=
  numbered.respell? (.uniform names.read?)

/-- The outline of a numbered tree. -/
def Program.outline? (names : NameTable) (numbered : Program) : Option String :=
  (numbered.spelled? names).map Program.outline

/-- The code of a numbered tree. -/
def Program.code? (names : NameTable) (indent : Indent) (numbered : Program) : Option String :=
  (numbered.spelled? names).map (Program.code indent)

/-- Clears the buffer and reads a source to a tree of numbers. -/
def Session.read (session : Session) (source : String) :
    Except Panic (Session × Except SourceError Program) :=
  match session.clear.lex source with
  | .error left => .error (.tokensLeft left)
  | .ok (session, some e) => .ok (session, .error (.lexical e))
  | .ok (session, none) =>
      match parseNumbered session.names session.tokens with
      | (names, .ok program) => .ok (⟨names, session.tokens⟩, .ok program)
      | (names, .error e) => .ok (⟨names, session.tokens⟩, .error (.syntactic e))

theorem Session.extends_parse (session : Session) (source : String) :
    (session.parse source).1.names.Extends session.names := by
  unfold Session.parse
  generalize TypedIsl.lex source = lexed
  obtain ⟨tokens, _ | e⟩ := lexed
  · exact NameTable.extends_addAll ..
  · exact .refl session.names

/-- Reading to numbers changes a session as reading to names does. The tree reads as the program, by
any later table. -/
theorem Session.read_respells (session : Session) (source : String) :
    ∃ result, session.read source = .ok ((session.parse source).1, result) ∧
      ∀ last : NameTable, last.Extends (session.parse source).1.names →
        Agree (fun numbered program => numbered.spelled? last = some program) result
          (session.parse source).2 := by
  have hlex : session.clear.lex source =
      .ok (⟨session.names, (TypedIsl.lex source).tokens⟩, (TypedIsl.lex source).error?) := rfl
  unfold read Session.parse Lexed.parse
  rw [hlex]
  generalize TypedIsl.lex source = lexed
  obtain ⟨tokens, error?⟩ := lexed
  cases error? with
  | some e => exact ⟨.error (.lexical e), rfl, fun _ _ => .error _⟩
  | none =>
      have hrespells {last : NameTable} := @parseNumbered_respells session.names last tokens
      simp only [← parseNumbered_names]
      generalize parseNumbered session.names tokens = numbered at hrespells ⊢
      generalize parseProgram tokens = spelled at hrespells ⊢
      obtain ⟨names, result⟩ := numbered
      cases result with
      | ok program =>
          refine ⟨.ok program, rfl, fun last hlast => ?_⟩
          cases hrespells hlast with
          | ok h => exact .ok h
      | error e =>
          refine ⟨.error (.syntactic e), rfl, fun last hlast => ?_⟩
          cases hrespells hlast
          exact .error _

/-! ## Steps -/

/-- One use of a session. A check takes the language `base` with the builtins of `custom` put in. -/
inductive Step where
  | parse (source : String)
  | check (source : String) (base : Language) (custom : List (String × Ty))
  | emit (source : String) (indent : Indent)

/-- What a step shows. -/
inductive Answer where
  | fatal (error : SourceError)
  | tree (program : Program)
  | checked (globals : String) (diagnostics : List Diagnostic) (reports : List String)
  | code (text : String)

def Answer.ofChecked (source : String) (checked : Checked) : Answer :=
  .checked checked.globalsText checked.diagnostics (checked.sorted.map (·.report source))

def Answer.ofResult {α : Type} (make : α → Answer) : Except SourceError α → Answer
  | .ok a => make a
  | .error e => .fatal e

/-- A numbered tree, and the table right after it was read. -/
structure Kept where
  names : NameTable
  program : Program

/-- A session with the trees that have been read in it. -/
structure History where
  session : Session
  kept : List Kept

def History.empty : History := ⟨.empty, []⟩

namespace Step

def source : Step → String
  | parse source => source
  | check source _ _ => source
  | emit source _ => source

/-- The program that a step reads, if its source is one. -/
def program? (step : Step) : Option Program :=
  (programOfSource step.source).toOption

/-- A step in a session whose trees hold names. -/
def perform (step : Step) (session : Session) : Session × Answer :=
  match step with
  | parse source => (session.parse source).map id (.ofResult .tree)
  | check source base custom =>
      (session.check source base custom).map id (.ofResult (.ofChecked source))
  | emit source indent =>
      (session.parse source).map id (.ofResult fun program => .code (program.code indent))

/-- Steps one after the other. -/
def performAll (session : Session) : List Step → Session × List Answer
  | [] => (session, [])
  | step :: steps =>
      let (session, answer) := step.perform session
      let (session, answers) := performAll session steps
      (session, answer :: answers)

/-- What a step does with a numbered tree. -/
def finish (names : NameTable) (program : Program) : Step → Except Panic (NameTable × Answer)
  | parse _ => do
      let program ← known (program.spelled? names)
      return (names, .tree program)
  | check source base custom => do
      let structs := base.structNames ++ custom.flatMap fun (_, type) => type.structNames
      let (names, checked) ← known (program.checkNumbered? (names.addAll structs)
        (base.putAll custom))
      let checked ← known (checked.respell? names.read?)
      return (names, .ofChecked source checked)
  | emit _ indent => do
      let text ← known (program.code? names indent)
      return (names, .code text)

/-- A step in a session whose trees hold numbers. -/
def performNumbered (step : Step) (history : History) : Except Panic (History × Answer) := do
  match ← history.session.read step.source with
  | (session, .error e) => return (⟨session, history.kept⟩, .fatal e)
  | (session, .ok program) =>
      let (names, answer) ← step.finish session.names program
      return (⟨⟨names, session.tokens⟩, history.kept ++ [⟨session.names, program⟩]⟩, answer)

/-- Steps one after the other, until one breaks off. -/
def performAllNumbered (history : History) : List Step → Except Panic (History × List Answer)
  | [] => return (history, [])
  | step :: steps => do
      let (history, answer) ← step.performNumbered history
      let (history, answers) ← performAllNumbered history steps
      return (history, answer :: answers)

end Step

/-! ## One step -/

/-- A kept tree reads as the program, by any later table. -/
def Kept.Reads (kept : Kept) (program : Program) : Prop :=
  ∀ last : NameTable, last.Extends kept.names → kept.program.spelled? last = some program

/-- The trees that have been read still stand for these programs. -/
def History.Keeps (history : History) (programs : List Program) : Prop :=
  List.Forall₂ (fun kept program => history.session.names.Extends kept.names ∧ kept.Reads program)
    history.kept programs

theorem History.Keeps.grow {history after : History} {programs : List Program}
    (h : history.Keeps programs) (hkept : after.kept = history.kept)
    (hnames : after.session.names.Extends history.session.names) : after.Keeps programs := by
  unfold Keeps
  rw [hkept]
  exact h.imp fun _ _ h => ⟨hnames.trans h.1, h.2⟩

namespace Step

/-- What a step shows of a program. -/
def answer (program : Program) : Step → Answer
  | parse _ => .tree program
  | check source base custom => .ofChecked source (program.check (base.putAll custom))
  | emit _ indent => .code (program.code indent)

/-- The names that a step adds to the table after reading a program. -/
def brings (program : Program) : Step → List String
  | check _ base custom =>
      let structs := base.structNames ++ custom.flatMap fun (_, type) => type.structNames
      structs ++ (base.putAll custom).names ++ (program.check (base.putAll custom)).coined
  | _ => []

section

variable {session after : Session} {step : Step}

theorem perform_of_ok {program : Program}
    (h : session.parse step.source = (after, .ok program)) :
    step.perform session =
      (⟨after.names.addAll (step.brings program), after.tokens⟩, step.answer program) := by
  cases step <;> simp only [source] at h <;> simp only [perform, Session.check, h] <;> rfl

theorem perform_of_error {e : SourceError}
    (h : session.parse step.source = (after, .error e)) :
    step.perform session = (after, .fatal e) := by
  cases step <;> simp only [source] at h <;> simp only [perform, Session.check, h] <;> rfl

/-- What is shown does not depend on the session. -/
theorem perform_snd (step : Step) (session : Session) :
    (step.perform session).2 = .ofResult step.answer (programOfSource step.source) := by
  have hsource : (session.parse step.source).2 = programOfSource step.source := rfl
  rw [← hsource]
  generalize hparse : session.parse step.source = parsed
  obtain ⟨after, program | e⟩ := parsed
  · rw [perform_of_error hparse]
    rfl
  · rw [perform_of_ok hparse]
    rfl

end

/-- A numbered tree is shown like the program that it stands for. -/
theorem finish_eq {names : NameTable} {numbered program : Program}
    (h : Kept.Reads ⟨names, numbered⟩ program) (step : Step) :
    step.finish names numbered =
      .ok (names.addAll (step.brings program), step.answer program) := by
  have hspelled : numbered.spelled? names = some program := h names (.refl names)
  cases step with
  | parse source =>
      rw [finish, hspelled]
      rfl
  | emit source indent =>
      rw [finish, Program.code?, hspelled]
      rfl
  | check source base custom =>
      generalize hstructs : (base.structNames ++
        custom.flatMap fun entry => entry.2.structNames) = structs
      have hgrows := NameTable.extends_addAll names structs
      have hlanguage : ∀ name ∈ Language.structNames (base.putAll custom),
          name ∈ (names.addAll structs).names := fun name hname =>
        NameTable.subset_addAll names structs
          (hstructs ▸ Language.structNames_putAll base custom hname)
      obtain ⟨checked, hcheck, hread⟩ :=
        Program.checkNumbered?_respells hlanguage (h (names.addAll structs) hgrows)
      have hchecked := hread _ (.refl _)
      have hbrings : (check source base custom).brings program = structs ++
          ((base.putAll custom).names ++ (program.check (base.putAll custom)).coined) := by
        rw [brings, hstructs, List.append_assoc]
      rw [hbrings, NameTable.addAll_append]
      simp only [finish, hstructs, hcheck, known_some, ok_bind, hchecked]
      rfl

/-- A step on numbers leaves and shows what the step on names does, whatever has been done before.
It keeps its tree, and the trees before it stand for the same programs. -/
theorem performNumbered_spec (step : Step) {history : History} {programs : List Program}
    (h : history.Keeps programs) :
    ∃ after, step.performNumbered history = .ok (after, (step.perform history.session).2) ∧
      after.session = (step.perform history.session).1 ∧
      after.Keeps (programs ++ step.program?.toList) := by
  obtain ⟨result, hread, hrespells⟩ := history.session.read_respells step.source
  have hgrows := history.session.extends_parse step.source
  have hprogram : (history.session.parse step.source).2.toOption = step.program? := rfl
  rw [← hprogram]
  generalize hparse : history.session.parse step.source = parsed at hread hrespells hgrows ⊢
  obtain ⟨session, spelled⟩ := parsed
  cases hrespells session.names (.refl _) with
  | error e =>
      refine ⟨⟨session, history.kept⟩, ?_, ?_, ?_⟩
      · rw [perform_of_error hparse, performNumbered, hread]
        rfl
      · rw [perform_of_error hparse]
      · have hkeeps : History.Keeps ⟨session, history.kept⟩ programs := h.grow rfl hgrows
        simpa [Except.toOption] using hkeeps
  | @ok numbered program _ =>
      have hreads : Kept.Reads ⟨session.names, numbered⟩ program := fun last hlast => by
        cases hrespells last hlast with
        | ok h => exact h
      have hbrings := NameTable.extends_addAll session.names (step.brings program)
      refine ⟨⟨⟨session.names.addAll (step.brings program), session.tokens⟩,
        history.kept ++ [⟨session.names, numbered⟩]⟩, ?_, ?_, ?_⟩
      · rw [perform_of_ok hparse, performNumbered, hread]
        simp only [ok_bind, finish_eq hreads]
        rfl
      · rw [perform_of_ok hparse]
      · exact List.rel_append (h.imp fun _ _ h => ⟨hbrings.trans (hgrows.trans h.1), h.2⟩)
          (.cons ⟨hbrings, hreads⟩ .nil)

/-! ## Runs -/

theorem performAllNumbered_spec (steps : List Step) {history : History} {programs : List Program}
    (h : history.Keeps programs) :
    ∃ after, performAllNumbered history steps = .ok (after, (performAll history.session steps).2) ∧
      after.session = (performAll history.session steps).1 ∧
      after.Keeps (programs ++ steps.filterMap program?) := by
  induction steps generalizing history programs with
  | nil => exact ⟨history, rfl, rfl, by simpa using h⟩
  | cons step steps ih =>
      obtain ⟨next, hstep, hsession, hkeeps⟩ := performNumbered_spec step h
      obtain ⟨after, hsteps, hlast, hkeeps⟩ := ih hkeeps
      rw [hsession] at hsteps hlast
      refine ⟨after, ?_, hlast, ?_⟩
      · simp only [performAllNumbered, hstep, ok_bind, hsteps]
        rfl
      · rw [List.append_assoc] at hkeeps
        rw [List.filterMap_cons]
        cases hprogram : step.program? with
        | none => simpa [hprogram] using hkeeps
        | some program => simpa [hprogram] using hkeeps

theorem performAll_snd (steps : List Step) (session : Session) :
    (performAll session steps).2 = steps.map fun step => (step.perform .empty).2 := by
  induction steps generalizing session with
  | nil => rfl
  | cons step steps ih =>
      rw [List.map_cons, perform_snd, ← perform_snd step session, ← ih (step.perform session).1]
      rfl

end Step

theorem History.keeps_empty : empty.Keeps [] := .nil

/-- No step of a session breaks off, each shows what it shows alone in an empty session, and the
trees of all programs that have been read print and emit the same texts ever after. The session and
the answers are those of the same steps on trees that hold names. -/
theorem History.steps_independent (steps : List Step) :
    ∃ last answers, Step.performAllNumbered .empty steps = .ok (last, answers) ∧
      Step.performAll .empty steps = (last.session, answers) ∧
      List.Forall₂ (fun step answer =>
          ∃ alone, Step.performNumbered step .empty = .ok (alone, answer))
        steps answers ∧
      List.Forall₂ (fun kept program =>
          ∀ names ∈ [kept.names, last.session.names],
            kept.program.outline? names = some program.outline ∧
              ∀ indent, kept.program.code? names indent = some (program.code indent))
        last.kept (steps.filterMap Step.program?) := by
  obtain ⟨last, hrun, hsession, hkeeps⟩ := Step.performAllNumbered_spec steps History.keeps_empty
  refine ⟨last, _, hrun, ?_, ?_, ?_⟩
  · rw [hsession]
    rfl
  · rw [Step.performAll_snd, List.forall₂_map_right_iff, List.forall₂_same]
    intro step _
    obtain ⟨alone, hstep, -⟩ := Step.performNumbered_spec step History.keeps_empty
    exact ⟨alone, hstep⟩
  · refine hkeeps.imp fun kept program h names hnames => ?_
    have hspelled : kept.program.spelled? names = some program := by
      rcases List.mem_pair.mp hnames with rfl | rfl
      · exact h.2 _ (.refl _)
      · exact h.2 _ h.1
    simp [Program.outline?, Program.code?, hspelled]

end TypedIsl
