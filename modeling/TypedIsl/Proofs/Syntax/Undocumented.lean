import TypedIsl.Proofs.Syntax.Edit
import TypedIsl.Proofs.Syntax.Reading
import TypedIsl.Proofs.Syntax.Rejection

/-!
# Reading without docstrings

Without the docstrings among its tokens a program is read in the same way. The reader goes through
the same states, but no docstrings are kept in them, and tokens are counted anew.
-/

namespace TypedIsl

/-- Empties every list of docstrings. -/
def Edit.undocumented : Edit :=
  ⟨id, id, fun _ => []⟩

/-- A program without docstrings. -/
def Program.undocumented (program : Program) : Program :=
  program.edit .undocumented

@[simp] theorem Edit.undocumented_range (range : Range) : undocumented.range range = range := rfl

@[simp] theorem Edit.undocumented_params (params : Params) :
    undocumented.params params = params := rfl

@[simp] theorem Edit.undocumented_docs (docs : List String) : undocumented.docs docs = [] := rfl

@[simp] theorem Ident.edit_undocumented (ident : Ident) : ident.edit .undocumented = ident := rfl

/-! ## States without docstrings -/

def Place.undocumented : (place : Place) → place.Content → place.Content
  | topLevel, form => form.edit .undocumented
  | value, form => form.edit .undocumented
  | arm, .clause form => .clause (form.edit .undocumented)
  | arm, .otherwise form => .otherwise (form.edit .undocumented)
  | definition, form => form.edit .undocumented
  | binding, form => form.edit .undocumented

def Heading.undocumented {place : Place} : Heading place → Heading place
  | locals definitions => .locals (definitions.map (Definition.edit .undocumented))
  | lets kind bindings => .lets kind (bindings.map (LetBinding.edit .undocumented))
  | function _ name params => .function [] name params
  | constant _ name => .constant [] name
  | heading => heading

def Context.undocumented {place : Place} : Context place → Context place
  | program read => .program (read.map (TopLevel.edit .undocumented))
  | topValue read => .topValue (read.map (TopLevel.edit .undocumented))
  | topDefinition read => .topDefinition (read.map (TopLevel.edit .undocumented))
  | alone => .alone
  | values start heading read outer =>
      .values start heading.undocumented (read.map (Value.edit .undocumented)) outer.undocumented
  | arms start clauses otherwise? outer =>
      .arms start (clauses.map (Clause.edit .undocumented))
        (otherwise?.map (Value.edit .undocumented)) outer.undocumented
  | definitions start read outer =>
      .definitions start (read.map (Definition.edit .undocumented)) outer.undocumented
  | bindings start kind read outer =>
      .bindings start kind (read.map (LetBinding.edit .undocumented)) outer.undocumented

def ParamsOwner.undocumented {place : Place} : ParamsOwner place → ParamsOwner place
  | lambda start => .lambda start
  | function start _ name => .function start [] name
  | struct start _ name => .struct start [] name

def Opening.undocumented {place : Place} : Opening place → Opening place
  | define start _ => .define start []
  | function start _ => .function start []
  | struct start _ => .struct start []
  | structName start _ name => .structName start [] name
  | structFields start _ name fields => .structFields start [] name fields
  | params owner read => .params owner.undocumented read
  | opening => opening

/-- The same token among others, at another index. -/
def Arrival.undocumented (renumber : Nat → Nat) (arrival : Arrival) : Arrival :=
  ⟨arrival.token, renumber arrival.index, []⟩

def Progress.undocumented (renumber : Nat → Nat) : Progress → Progress
  | waiting context => .waiting context.undocumented
  | opened paren context => .opened (paren.undocumented renumber) context.undocumented
  | opening head context => .opening head.undocumented context.undocumented
  | finished value => .finished (value.edit .undocumented)

/-- The same error, at another index. -/
def SyntaxError.renumber (renumber : Nat → Nat) (e : SyntaxError) : SyntaxError :=
  { e with index := renumber e.index }

/-! ## Forms -/

section

variable {place : Place}

theorem Heading.wants_undocumented (heading : Heading place) (count : Nat) :
    heading.undocumented.wants count = heading.wants count := by
  cases heading <;> rfl

theorem Heading.build?_undocumented (heading : Heading place) (range : Range)
    (values : List Value) :
    heading.undocumented.build? range (values.map (Value.edit .undocumented)) =
      (heading.build? range values).map place.undocumented := by
  cases heading with
  | call => cases values <;> simp [undocumented, build?, Place.undocumented, Value.edit,
      Value.editAll_eq]
  | branch =>
      rcases values with _ | ⟨_, _ | ⟨_, _ | ⟨_, _ | ⟨_, _⟩⟩⟩⟩ <;> rfl
  | clause =>
      rcases values with _ | ⟨_, _ | ⟨_, _ | ⟨_, _⟩⟩⟩ <;> rfl
  | _ =>
      rcases values with _ | ⟨_, _ | ⟨_, _⟩⟩ <;>
        simp [undocumented, build?, Place.undocumented, Value.edit, LetBinding.edit,
          Definition.edit, Definition.editAll_eq, LetBinding.editAll_eq]

variable (renumber : Nat → Nat)

theorem Context.deliver_undocumented (context : Context place) (content : place.Content) :
    context.undocumented.deliver (place.undocumented content) =
      (context.deliver content).undocumented renumber := by
  cases context with
  | arms start clauses otherwise? outer =>
      cases content <;>
        simp [undocumented, deliver, Progress.undocumented, Place.undocumented]
  | _ =>
      simp [undocumented, deliver, Progress.undocumented, Place.undocumented, TopLevel.edit]

theorem ParamsOwner.resume_undocumented (owner : ParamsOwner place) (params : Params)
    (context : Context place) :
    owner.undocumented.resume params context.undocumented =
      (owner.resume params context).undocumented renumber := by
  cases owner <;> rfl

end

/-! ## Steps -/

namespace Progress

variable (renumber : Nat → Nat) (arrival : Arrival)

theorem value?_undocumented (context : Context .value) :
    value? context.undocumented (arrival.undocumented renumber) =
      (value? context arrival).map (undocumented renumber) := by
  have hdeliver := context.deliver_undocumented renumber
  simp only [value?, Arrival.undocumented]
  cases arrival.token.kind with
  | literal value => exact congrArg some (hdeliver (.literal arrival.token.range value))
  | identifier name => exact congrArg some (hdeliver (.name ⟨name, arrival.token.range⟩))
  | _ => rfl

theorem openedValue?_undocumented (start : Position) (context : Context .value) :
    openedValue? start context.undocumented (arrival.undocumented renumber) =
      (openedValue? start context arrival).map (undocumented renumber) := by
  have hcall := value?_undocumented renumber arrival (.values start .call [] context)
  simp only [openedValue?, Arrival.undocumented] at hcall ⊢
  cases arrival.token.kind with
  | keyword word => cases word <;> first | rfl | exact hcall
  | _ => exact hcall

theorem opened?_undocumented {place : Place} (paren : Arrival) (context : Context place) :
    opened? (paren.undocumented renumber) context.undocumented (arrival.undocumented renumber) =
      (opened? paren context arrival).map (undocumented renumber) := by
  cases context with
  | program read =>
      have hvalue := openedValue?_undocumented renumber arrival paren.start (.topValue read)
      simp only [opened?, Context.undocumented, Arrival.undocumented] at hvalue ⊢
      cases arrival.token.kind with
      | keyword word => cases word <;> first | rfl | exact hvalue
      | _ => exact hvalue
  | topValue read => exact openedValue?_undocumented renumber arrival _ (.topValue read)
  | alone => exact openedValue?_undocumented renumber arrival _ .alone
  | values start heading read outer =>
      exact openedValue?_undocumented renumber arrival _ (.values start heading read outer)
  | arms start clauses otherwise? outer =>
      have hvalue := value?_undocumented renumber arrival
        (.values paren.start .clause [] (.arms start clauses otherwise? outer))
      simp only [opened?, Context.undocumented, Arrival.undocumented] at hvalue ⊢
      cases arrival.token.kind with
      | keyword word =>
          cases word with
          | otherwise => cases clauses <;> rfl
          | _ => exact hvalue
      | _ => exact hvalue
  | _ =>
      simp only [opened?, Context.undocumented, Arrival.undocumented]
      cases arrival.token.kind with
      | keyword word => cases word <;> rfl
      | _ => rfl

theorem waiting?_undocumented {place : Place} (context : Context place) :
    waiting? context.undocumented (arrival.undocumented renumber) =
      (waiting? context arrival).map (undocumented renumber) := by
  cases context with
  | program read =>
      have hvalue := value?_undocumented renumber arrival (.topValue read)
      simp only [waiting?, Context.undocumented, Arrival.undocumented] at hvalue ⊢
      cases arrival.token.kind <;> first | rfl | exact hvalue
  | topValue read => exact value?_undocumented renumber arrival (.topValue read)
  | alone => exact value?_undocumented renumber arrival .alone
  | values start heading read outer =>
      have hvalue := value?_undocumented renumber arrival (.values start heading read outer)
      have hdeliver := outer.deliver_undocumented renumber
      simp only [waiting?, Context.undocumented, Arrival.undocumented, List.length_map,
        Heading.wants_undocumented, Heading.build?_undocumented] at hvalue ⊢
      cases arrival.token.kind with
      | closeParen => simp [Function.comp_def, hdeliver]
      | _ =>
          by_cases hwants : heading.wants read.length = true
          · simp only [hwants, if_true]
            exact hvalue
          · simp [hwants]
  | arms start clauses otherwise? outer =>
      simp only [waiting?, Context.undocumented, Arrival.undocumented, List.isEmpty_map]
      cases arrival.token.kind with
      | openParen => cases otherwise? <;> rfl
      | closeParen =>
          have hdeliver := outer.deliver_undocumented renumber
            (.cond ⟨start, arrival.token.range.stop⟩ clauses otherwise?)
          by_cases hclauses : clauses.isEmpty = true
          · simp [hclauses]
          · simp only [hclauses, Bool.false_eq_true, if_false, Option.map_some, Option.some.injEq,
              ← hdeliver]
            cases otherwise? <;> simp [Place.undocumented, Value.edit, Clause.editAll_eq]
      | _ => cases otherwise? <;> rfl
  | _ =>
      simp only [waiting?, Context.undocumented, Arrival.undocumented]
      cases arrival.token.kind <;> rfl

theorem opening?_undocumented {place : Place} (head : Opening place) (context : Context place) :
    opening? head.undocumented context.undocumented (arrival.undocumented renumber) =
      (opening? head context arrival).map (undocumented renumber) := by
  cases head with
  | params owner read =>
      simp only [opening?, Opening.undocumented, Arrival.undocumented]
      cases arrival.token.kind with
      | closeParen =>
          cases read.finish? arrival.token.range.start with
          | none => simp [Function.comp_def, undocumented, Opening.undocumented]
          | some params => exact congrArg some (owner.resume_undocumented renumber params context)
      | _ => simp [Function.comp_def, undocumented, Opening.undocumented]
  | required start library =>
      simp only [opening?, Opening.undocumented, Arrival.undocumented]
      have hdeliver := context.deliver_undocumented renumber
        (.require ⟨start, arrival.token.range.stop⟩ library)
      cases arrival.token.kind <;> first | rfl | exact congrArg some hdeliver
  | structFields start docs name fields =>
      simp only [opening?, Opening.undocumented, Arrival.undocumented]
      have hdeliver := context.deliver_undocumented renumber
        (.struct ⟨⟨start, arrival.token.range.stop⟩, docs, name, fields⟩)
      cases arrival.token.kind <;> first | rfl | exact congrArg some hdeliver
  | _ =>
      simp only [opening?, Opening.undocumented, Arrival.undocumented]
      cases arrival.token.kind <;> rfl

/-- Without docstrings, a token is accepted as before and leads to the same state. -/
theorem accept?_undocumented (progress : Progress) :
    (progress.undocumented renumber).accept? (arrival.undocumented renumber) =
      (progress.accept? arrival).map (undocumented renumber) := by
  cases progress with
  | waiting context => exact waiting?_undocumented renumber arrival context
  | opened paren context => exact opened?_undocumented renumber arrival paren context
  | opening head context => exact opening?_undocumented renumber arrival head context
  | finished value => rfl

theorem expects_undocumented (progress : Progress) :
    (progress.undocumented renumber).expects = progress.expects := by
  cases progress with
  | waiting context =>
      cases context with
      | values start heading read outer =>
          simp [undocumented, Context.undocumented, expects, Heading.wants_undocumented]
      | arms start clauses otherwise? outer =>
          simp [undocumented, Context.undocumented, expects]
      | _ => rfl
  | opened paren context => cases context <;> rfl
  | opening head context => cases head <;> rfl
  | finished value => rfl

theorem rejection_undocumented (progress : Progress) :
    (progress.undocumented renumber).rejection (arrival.undocumented renumber) =
      (progress.rejection arrival).renumber renumber := by
  have hexpects := expects_undocumented renumber progress
  cases progress with
  | opened paren context =>
      cases context with
      | arms start clauses otherwise? outer =>
          cases clauses with
          | nil =>
              simp only [rejection, undocumented, Context.undocumented, Arrival.undocumented]
              cases arrival.token.kind with
              | keyword word => cases word <;> rfl
              | _ => rfl
          | cons => rfl
      | _ => rfl
  | _ =>
      exact congrArg (SyntaxError.mk · (some arrival.token.kind) arrival.start
        (renumber arrival.index)) hexpects

/-! ## Runs -/

variable {renumber : Nat → Nat} {tokens : List Token} {index : Nat}

/-- Tokens are counted anew, docstrings left out. -/
def Counts (renumber : Nat → Nat) (index : Nat) (tokens : List Token) : Prop :=
  ∀ count, renumber (index + count) =
    renumber index + (spoken (tokens.take count)).length

theorem Counts.tail {token : Token} (h : Counts renumber index (token :: tokens)) :
    Counts renumber (index + 1) tokens := by
  intro count
  have hfirst := h 1
  have hmore := h (count + 1)
  rw [List.take_succ_cons, ← List.singleton_append, spoken, List.filter_append,
    List.length_append] at hmore
  rw [List.take_succ_cons, List.take_zero] at hfirst
  rw [Nat.add_assoc, Nat.add_comm 1, hmore, hfirst, Nat.add_assoc]
  rfl

/-- Reading the tokens without docstrings goes through the same states. -/
theorem run_spoken (h : Counts renumber index tokens) (progress : Progress)
    (docs : List String) :
    (progress.undocumented renumber).run (renumber index) [] (spoken tokens) =
      match progress.run index docs tokens with
      | .ok next => .ok (next.undocumented renumber)
      | .error e => .error (e.renumber renumber) := by
  induction tokens generalizing progress index docs with
  | nil => rfl
  | cons token tokens ih =>
      have hfirst := h 1
      rw [List.take_succ_cons, List.take_zero] at hfirst
      rcases token.kind.docstring_or_spoken with ⟨text, htext⟩ | hkind
      · rw [spoken_docstring htext] at hfirst ⊢
        rw [run_docstring htext, show renumber index = renumber (index + 1) from hfirst.symm]
        exact ih h.tail progress (docs ++ [text])
      · have hindex : renumber (index + 1) = renumber index + 1 := by
          rwa [spoken_cons hkind] at hfirst
        rw [spoken_cons hkind, run_cons hkind, run_cons hkind]
        have haccept := accept?_undocumented renumber ⟨token, index, docs⟩ progress
        have hrejection := rejection_undocumented renumber ⟨token, index, docs⟩ progress
        simp only [Arrival.undocumented] at haccept hrejection
        rw [haccept]
        cases progress.accept? ⟨token, index, docs⟩ with
        | none => exact congrArg Except.error hrejection
        | some next =>
            rw [← hindex]
            exact ih h.tail next []

end Progress

/-! ## Programs -/

/-- The index of a token among the tokens that are not docstrings. -/
def spokenIndex (tokens : List Token) (index : Nat) : Nat :=
  (spoken (tokens.take index)).length

section

variable {tokens : List Token}

theorem counts_spokenIndex (tokens : List Token) :
    Progress.Counts (spokenIndex tokens) 0 tokens := by
  intro count
  simp [spokenIndex, spoken]

theorem spokenIndex_eq_sub {index : Nat} (h : index ≤ tokens.length) :
    spokenIndex tokens index =
      index - (tokens.take index).countP (·.kind.isDocstring) := by
  have hlength := (tokens.take index).length_eq_countP_add_countP (·.kind.isDocstring)
  have hspoken : (tokens.take index).countP (fun token => !token.kind.isDocstring) =
      spokenIndex tokens index := List.countP_eq_length_filter
  rw [List.length_take_of_le h] at hlength
  simp only [Bool.not_eq_true, Bool.decide_eq_false] at hlength
  omega

/-- The program that has been read, if no form is open. -/
def Progress.program? : Progress → Option Program
  | waiting (.program read) => some read
  | _ => none

theorem Progress.program?_undocumented (renumber : Nat → Nat) (progress : Progress) :
    (progress.undocumented renumber).program? = progress.program?.map Program.undocumented := by
  cases progress with
  | waiting context => cases context <;> rfl
  | _ => rfl

theorem parseProgram_of_run {progress : Progress}
    (h : (Progress.waiting (.program [])).run 0 [] tokens = .ok progress) :
    parseProgram tokens = match progress.program? with
      | some read => .ok read
      | none => .error (progress.unfinished tokens) := by
  rw [parseProgram, h]
  cases progress with
  | waiting context => cases context <;> rfl
  | _ => rfl

theorem parseProgram_of_run_error {e : SyntaxError}
    (h : (Progress.waiting (.program [])).run 0 [] tokens = .error e) :
    parseProgram tokens = .error e := by
  rw [parseProgram, h]

/-- What an error says without the docstrings among the tokens. At the end of the input it may
stand elsewhere. -/
structure SyntaxError.Undocumented (tokens : List Token) (e other : SyntaxError) : Prop where
  expected_eq : other.expected = e.expected
  found_eq : other.found? = e.found?
  index_eq : other.index = spokenIndex tokens e.index
  index_le : e.index ≤ tokens.length
  position_eq : e.found? ≠ none → other.position = e.position

theorem undocumented_unfinished (progress : Progress) (tokens : List Token) :
    (progress.unfinished tokens).Undocumented tokens
      ((progress.undocumented (spokenIndex tokens)).unfinished (spoken tokens)) where
  expected_eq := progress.expects_undocumented (spokenIndex tokens)
  found_eq := rfl
  index_eq := by simp [Progress.unfinished, spokenIndex]
  index_le := Nat.le_refl _
  position_eq hfound := absurd rfl hfound

/-- Docstrings among the tokens change nothing but the docstrings that a program keeps, and the
index of an error. -/
theorem parseProgram_spoken (tokens : List Token) :
    match parseProgram tokens with
    | .ok program => parseProgram (spoken tokens) = .ok program.undocumented
    | .error e =>
        ∃ other, parseProgram (spoken tokens) = .error other ∧ e.Undocumented tokens other := by
  have hrun := Progress.run_spoken (counts_spokenIndex tokens) (.waiting (.program [])) []
  cases hread : (Progress.waiting (.program [])).run 0 [] tokens with
  | ok progress =>
      rw [hread] at hrun
      rw [parseProgram_of_run hread, parseProgram_of_run hrun, Progress.program?_undocumented]
      cases progress.program? with
      | some program => rfl
      | none => exact ⟨_, rfl, undocumented_unfinished progress tokens⟩
  | error e =>
      rw [hread] at hrun
      rw [parseProgram_of_run_error hread, parseProgram_of_run_error hrun]
      have hindex := Progress.index_le_of_run_error hread fun paren hopen => nomatch hopen
      rw [Nat.zero_add] at hindex
      exact ⟨_, rfl, rfl, rfl, rfl, hindex, fun _ => rfl⟩

end

end TypedIsl
