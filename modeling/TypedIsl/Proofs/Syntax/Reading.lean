import TypedIsl.Proofs.Syntax.Spelling
import TypedIsl.Source.Parse

/-!
# What has been read

Every state of the reader holds the tokens that led to it: `kinds` recovers them, docstrings
excepted. One token adds itself at the end, so a program that has been read is proper and reads
back as the tokens it came from.
-/

namespace TypedIsl

variable {doc : String → Prop}

/-! ## Parameter lists -/

def OpenType.kinds (type : OpenType) : List TokenKind :=
  .openParen :: type.function.kind :: TypeExpr.allKinds type.args

/-- Open types, the innermost of which comes first in the list and last in the text. -/
def OpenType.stackKinds : List OpenType → List TokenKind
  | [] => []
  | innermost :: outer => OpenType.stackKinds outer ++ innermost.kinds

/-- Typed parameters that another one follows. -/
def TypedParam.leadingKinds : List TypedParam → List TokenKind
  | [] => []
  | param :: params => TypedParam.allKinds (param :: params) ++ [.ampersand]

theorem TypedParam.allKinds_append_singleton (params : List TypedParam) (param : TypedParam) :
    TypedParam.allKinds (params ++ [param]) =
      TypedParam.leadingKinds params ++ param.kinds := by
  cases params with
  | nil => rfl
  | cons first params =>
      rw [TypedParam.allKinds_append _ _ (by simp), TypedParam.leadingKinds, List.append_assoc]
      rfl

def TypeSlot.kinds : TypeSlot → List TokenKind
  | param read name => TypedParam.leadingKinds read ++ [name.kind, .colon]
  | result read => TypedParam.allKinds read ++ [.arrow]

def TypeSlot.Proper : TypeSlot → Prop
  | param _ _ => True
  | result read => read ≠ []

namespace OpenParams

def kinds : OpenParams → List TokenKind
  | names read => read.map Ident.kind
  | nextName read => TypedParam.leadingKinds read
  | nextColon read name => TypedParam.leadingKinds read ++ [name.kind]
  | type slot opened => slot.kinds ++ OpenType.stackKinds opened
  | typeFunction slot opened _ => slot.kinds ++ OpenType.stackKinds opened ++ [.openParen]
  | typed read => TypedParam.allKinds read
  | result read output => TypedParam.allKinds read ++ .arrow :: output.kinds

def Proper : OpenParams → Prop
  | names _ => True
  | nextName read => read ≠ []
  | nextColon read _ => read ≠ []
  | type slot _ => slot.Proper
  | typeFunction slot _ _ => slot.Proper
  | typed read => read ≠ []
  | result read _ => read ≠ []

theorem withType_spec (slot : TypeSlot) (opened : List OpenType) (type : TypeExpr)
    (h : slot.Proper) :
    (withType slot opened type).kinds =
        slot.kinds ++ OpenType.stackKinds opened ++ type.kinds ∧
      (withType slot opened type).Proper := by
  cases opened with
  | cons innermost outer =>
      refine ⟨?_, h⟩
      simp [withType, kinds, OpenType.stackKinds, OpenType.kinds, TypeExpr.allKinds_eq]
  | nil =>
      cases slot with
      | param read name =>
          refine ⟨?_, by simp [withType, Proper]⟩
          simp [withType, kinds, OpenType.stackKinds, TypeSlot.kinds,
            TypedParam.allKinds_append_singleton, TypedParam.kinds]
      | result read =>
          refine ⟨?_, h⟩
          simp [withType, kinds, OpenType.stackKinds, TypeSlot.kinds]

/-- One token adds itself to what has been read of a parameter list. -/
theorem accept?_spec {params next : OpenParams} {token : Token}
    (h : params.accept? token = some next) (hp : params.Proper) :
    next.kinds = params.kinds ++ [token.kind] ∧ next.Proper := by
  simp only [accept?] at h
  split at h <;> simp only [Option.some.injEq, reduceCtorEq] at h <;> subst h <;>
    rename_i hkind <;> rw [hkind]
  case h_1 => exact ⟨by simp [kinds, Ident.kind], trivial⟩
  case h_2 =>
      exact ⟨by simp [kinds, TypeSlot.kinds, TypedParam.leadingKinds, OpenType.stackKinds],
        trivial⟩
  case h_3 => exact ⟨rfl, hp⟩
  case h_4 => exact ⟨by simp [kinds, TypeSlot.kinds, OpenType.stackKinds], trivial⟩
  case h_5 => exact withType_spec _ _ _ hp
  case h_6 => exact ⟨rfl, hp⟩
  case h_7 innermost outer =>
      obtain ⟨hkinds, hproper⟩ := withType_spec _ outer (.apply _ _ innermost.args) hp
      refine ⟨?_, hproper⟩
      rw [hkinds]
      simp [kinds, OpenType.stackKinds, OpenType.kinds, TypeExpr.kinds, enclosed]
  case h_8 =>
      refine ⟨?_, hp⟩
      simp [kinds, OpenType.stackKinds, OpenType.kinds, Ident.kind, TypeExpr.allKinds]
  case h_9 read =>
      refine ⟨?_, hp⟩
      cases read with
      | nil => exact absurd rfl hp
      | cons param params => rfl
  case h_10 => exact ⟨by simp [kinds, TypeSlot.kinds, OpenType.stackKinds], hp⟩

/-- A parameter list that may end reads back as the tokens that it was read from. -/
theorem finish?_spec {read : OpenParams} {closing : Position} {params : Params}
    (h : read.finish? closing = some params) (hp : read.Proper) :
    params.kinds = read.kinds ∧ params.Proper := by
  cases read <;> simp only [finish?, Option.some.injEq, reduceCtorEq] at h <;> subst h <;>
    exact ⟨rfl, hp⟩

end OpenParams

/-! ## Open forms -/

theorem Program.proper_append_singleton {program : Program} {form : TopLevel}
    (hp : Program.Proper doc program) (hf : form.Proper doc) :
    Program.Proper doc (program ++ [form]) := by
  exact List.forall_mem_append.mpr ⟨hp, List.forall_mem_singleton.mpr hf⟩

def Arm.kinds : Arm → List TokenKind
  | clause form => form.kinds
  | otherwise value => enclosed (.keyword .otherwise :: value.kinds)

def Arm.Proper (doc : String → Prop) : Arm → Prop
  | clause form => form.Proper doc
  | otherwise value => value.Proper doc

namespace Place

def contentKinds : (place : Place) → place.Content → List TokenKind
  | topLevel => TopLevel.kinds
  | value => Value.kinds
  | arm => Arm.kinds
  | definition => Definition.kinds
  | binding => LetBinding.kinds

def ContentProper (doc : String → Prop) : (place : Place) → place.Content → Prop
  | topLevel => TopLevel.Proper doc
  | value => Value.Proper doc
  | arm => Arm.Proper doc
  | definition => Definition.Proper doc
  | binding => LetBinding.Proper doc

end Place

namespace Heading

/-- The tokens of a form up to its values. -/
def kinds {place : Place} : Heading place → List TokenKind
  | branch => [.openParen, .keyword .branch]
  | lambda params => .openParen :: .keyword .lambda :: enclosed params.kinds
  | locals definitions =>
      .openParen :: .keyword .locals :: enclosed (Definition.allKinds definitions)
  | lets kind bindings =>
      .openParen :: .keyword (.lets kind) :: enclosed (LetBinding.allKinds bindings)
  | call => [.openParen]
  | clause => [.openParen]
  | otherwise => [.openParen, .keyword .otherwise]
  | binding name => [.openParen, name.kind]
  | function _ name params =>
      .openParen :: .keyword .define :: enclosed (name.kind :: params.kinds)
  | constant _ name => [.openParen, .keyword .define, name.kind]

def Proper (doc : String → Prop) {place : Place} : Heading place → Prop
  | lambda params => params.Proper
  | locals definitions => Definition.AllProper doc definitions
  | lets _ bindings => LetBinding.AllProper doc bindings
  | function docs _ params => (∀ text ∈ docs, doc text) ∧ params.Proper
  | constant docs _ => ∀ text ∈ docs, doc text
  | _ => True

theorem build?_spec {place : Place} {heading : Heading place} {range : Range}
    {values : List Value} {content : place.Content}
    (h : heading.build? range values = some content) (hh : heading.Proper doc)
    (hv : Value.AllProper doc values) :
    place.contentKinds content = heading.kinds ++ Value.allKinds values ++ [.closeParen] ∧
      place.ContentProper doc content := by
  unfold build? at h
  split at h <;> simp only [Option.some.injEq, reduceCtorEq] at h <;> subst h
  all_goals simp only [Value.AllProper, and_true] at hv
  all_goals simp only [Place.contentKinds, Place.ContentProper]
  case h_1 => exact ⟨by simp [kinds, Value.kinds, Value.allKinds, enclosed], hv⟩
  case h_2 => exact ⟨by simp [kinds, Value.kinds, Value.allKinds, enclosed], hh, hv⟩
  case h_3 => exact ⟨by simp [kinds, Value.kinds, Value.allKinds, enclosed], hh, hv⟩
  case h_4 => exact ⟨by simp [kinds, Value.kinds, Value.allKinds, enclosed], hh, hv⟩
  case h_5 => exact ⟨by simp [kinds, Value.kinds, Value.allKinds, enclosed], hv⟩
  case h_6 => exact ⟨by simp [kinds, Arm.kinds, Clause.kinds, Value.allKinds, enclosed], hv⟩
  case h_7 => exact ⟨by simp [kinds, Arm.kinds, Value.allKinds, enclosed], hv⟩
  case h_8 => exact ⟨by simp [kinds, LetBinding.kinds, Value.allKinds, enclosed], hv⟩
  case h_9 => exact ⟨by simp [kinds, Definition.kinds, Value.allKinds, enclosed], hh.1, hh.2, hv⟩
  case h_10 => exact ⟨by simp [kinds, Definition.kinds, Value.allKinds, enclosed], hh, hv⟩

end Heading

namespace Context

/-- The tokens before a place. -/
def kinds {place : Place} : Context place → List TokenKind
  | program read => Program.kinds read
  | topValue read => Program.kinds read
  | topDefinition read => Program.kinds read
  | alone => []
  | values _ heading read outer => outer.kinds ++ heading.kinds ++ Value.allKinds read
  | arms _ clauses none outer =>
      outer.kinds ++ .openParen :: .keyword .cond :: Clause.allKinds clauses
  | arms _ clauses (some value) outer =>
      outer.kinds ++ .openParen :: .keyword .cond :: Clause.allKinds clauses ++
        enclosed (.keyword .otherwise :: value.kinds)
  | definitions _ read outer =>
      outer.kinds ++ .openParen :: .keyword .locals :: .openParen :: Definition.allKinds read
  | bindings _ kind read outer =>
      outer.kinds ++
        .openParen :: .keyword (.lets kind) :: .openParen :: LetBinding.allKinds read

/-- Whether a form may stand at the place. Nothing follows an `else` arm, which is not the first
arm. -/
def Takes {place : Place} (context : Context place) (content : place.Content) : Prop :=
  match context, content with
  | arms _ _ otherwise? _, .clause _ => otherwise? = none
  | arms _ clauses otherwise? _, .otherwise _ => otherwise? = none ∧ clauses ≠ []
  | _, _ => True

def Proper (doc : String → Prop) {place : Place} : Context place → Prop
  | program read => Program.Proper doc read
  | topValue read => Program.Proper doc read
  | topDefinition read => Program.Proper doc read
  | alone => True
  | values _ heading read outer =>
      outer.Proper doc ∧ heading.Proper doc ∧ Value.AllProper doc read ∧
        ∀ range values content, heading.build? range values = some content →
          outer.Takes content
  | arms _ clauses none outer => outer.Proper doc ∧ Clause.AllProper doc clauses
  | arms _ clauses (some value) outer =>
      outer.Proper doc ∧ clauses ≠ [] ∧ Clause.AllProper doc clauses ∧ value.Proper doc
  | definitions _ read outer => outer.Proper doc ∧ Definition.AllProper doc read
  | bindings _ _ read outer => outer.Proper doc ∧ LetBinding.AllProper doc read

theorem takes_value (context : Context .value) (value : Value) : context.Takes value := by
  cases context <;> trivial

theorem takes_definition (context : Context .definition) (definition : Definition) :
    context.Takes definition := by
  cases context <;> trivial

theorem takes_topLevel (context : Context .topLevel) (form : TopLevel) : context.Takes form := by
  cases context
  trivial

theorem takes_clause {start : Position} {clauses : List Clause} {outer : Context .value}
    {range : Range} {values : List Value} {arm : Arm}
    (h : Heading.clause.build? range values = some arm) :
    (arms start clauses none outer).Takes arm := by
  rcases values with _ | ⟨_, _ | ⟨_, _ | ⟨_, _⟩⟩⟩ <;>
    simp only [Heading.build?, Option.some.injEq, reduceCtorEq] at h
  subst h
  rfl

theorem takes_otherwise {start : Position} {clauses : List Clause} {outer : Context .value}
    {range : Range} {values : List Value} {arm : Arm} (hne : clauses ≠ [])
    (h : Heading.otherwise.build? range values = some arm) :
    (arms start clauses none outer).Takes arm := by
  rcases values with _ | ⟨_, _ | ⟨_, _⟩⟩ <;>
    simp only [Heading.build?, Option.some.injEq, reduceCtorEq] at h
  subst h
  exact ⟨rfl, hne⟩

theorem takes_binding (context : Context .binding) (binding : LetBinding) :
    context.Takes binding := by
  cases context
  trivial

end Context

/-! ## The beginnings of forms -/

def ParamsOwner.kinds {place : Place} : ParamsOwner place → List TokenKind
  | lambda _ => [.openParen, .keyword .lambda, .openParen]
  | function _ _ name => [.openParen, .keyword .define, .openParen, name.kind]
  | struct _ _ name => [.openParen, .keyword .defineStruct, name.kind, .openParen]

def ParamsOwner.Proper (doc : String → Prop) {place : Place} : ParamsOwner place → Prop
  | lambda _ => True
  | function _ docs _ => ∀ text ∈ docs, doc text
  | struct _ docs _ => ∀ text ∈ docs, doc text

namespace Opening

def kinds {place : Place} : Opening place → List TokenKind
  | lambda _ => [.openParen, .keyword .lambda]
  | locals _ => [.openParen, .keyword .locals]
  | lets _ kind => [.openParen, .keyword (.lets kind)]
  | require _ => [.openParen, .keyword .require]
  | required _ library => [.openParen, .keyword .require, library.kind]
  | define _ _ => [.openParen, .keyword .define]
  | function _ _ => [.openParen, .keyword .define, .openParen]
  | struct _ _ => [.openParen, .keyword .defineStruct]
  | structName _ _ name => [.openParen, .keyword .defineStruct, name.kind]
  | structFields _ _ name fields =>
      .openParen :: .keyword .defineStruct :: name.kind :: enclosed fields.kinds
  | params owner read => owner.kinds ++ read.kinds

def Proper (doc : String → Prop) {place : Place} : Opening place → Prop
  | define _ docs => ∀ text ∈ docs, doc text
  | function _ docs => ∀ text ∈ docs, doc text
  | struct _ docs => ∀ text ∈ docs, doc text
  | structName _ docs _ => ∀ text ∈ docs, doc text
  | structFields _ docs _ fields => (∀ text ∈ docs, doc text) ∧ fields.Proper
  | params owner read => owner.Proper doc ∧ read.Proper
  | _ => True

end Opening

/-! ## Tokens that are spoken -/

def TokenKind.isDocstring : TokenKind → Bool
  | docstring _ => true
  | _ => false

theorem TokenKind.isDocstring_eq_false {kind : TokenKind}
    (h : ∀ text, kind = .docstring text → False) : kind.isDocstring = false := by
  cases kind with
  | docstring text => exact (h text rfl).elim
  | _ => rfl

/-- What the tokens say, docstrings left out. -/
def spokenKinds (tokens : List Token) : List TokenKind :=
  (tokens.map (·.kind)).filter (!·.isDocstring)

theorem spokenKinds_docstring {token : Token} {rest : List Token} {text : String}
    (h : token.kind = .docstring text) : spokenKinds (token :: rest) = spokenKinds rest := by
  simp [spokenKinds, h, TokenKind.isDocstring]

theorem spokenKinds_spoken {token : Token} {rest : List Token}
    (h : ∀ text, token.kind = .docstring text → False) :
    spokenKinds (token :: rest) = token.kind :: spokenKinds rest := by
  simp [spokenKinds, TokenKind.isDocstring_eq_false h]

/-- The tokens that are not docstrings. -/
def spoken (tokens : List Token) : List Token :=
  tokens.filter (!·.kind.isDocstring)

theorem spoken_docstring {token : Token} {rest : List Token} {text : String}
    (h : token.kind = .docstring text) : spoken (token :: rest) = spoken rest := by
  simp [spoken, h, TokenKind.isDocstring]

theorem spoken_cons {token : Token} {rest : List Token}
    (h : ∀ text, token.kind = .docstring text → False) :
    spoken (token :: rest) = token :: spoken rest := by
  simp [spoken, TokenKind.isDocstring_eq_false h]

/-- Every docstring among the tokens satisfies `doc`. -/
def DocsSatisfy (doc : String → Prop) (tokens : List Token) : Prop :=
  ∀ token ∈ tokens, ∀ text, token.kind = .docstring text → doc text

/-! ## The reader -/

namespace Progress

/-- The tokens that have been read. -/
def kinds : Progress → List TokenKind
  | waiting context => context.kinds
  | opened _ context => context.kinds ++ [.openParen]
  | opening head context => context.kinds ++ head.kinds
  | finished value => value.kinds

/-- After a parenthesis in a `cond` form there is no `else` arm yet. -/
def Proper (doc : String → Prop) : Progress → Prop
  | waiting context => context.Proper doc
  | opened paren (.arms start clauses otherwise? outer) =>
      (∀ text ∈ paren.docs, doc text) ∧ otherwise? = none ∧
        (Context.arms start clauses otherwise? outer).Proper doc
  | opened paren context => (∀ text ∈ paren.docs, doc text) ∧ context.Proper doc
  | opening head context => head.Proper doc ∧ context.Proper doc
  | finished value => value.Proper doc

/-- A form that is put in its place adds its tokens. -/
theorem deliver_spec {place : Place} {context : Context place} {content : place.Content}
    (hc : context.Proper doc) (ht : context.Takes content)
    (hp : place.ContentProper doc content) :
    (context.deliver content).kinds = context.kinds ++ place.contentKinds content ∧
      (context.deliver content).Proper doc := by
  cases context with
  | program read =>
      exact ⟨by simp [Context.deliver, kinds, Context.kinds, Program.kinds, Place.contentKinds],
        Program.proper_append_singleton hc hp⟩
  | topValue read =>
      exact ⟨by simp [Context.deliver, kinds, Context.kinds, Program.kinds, Place.contentKinds,
        TopLevel.kinds], Program.proper_append_singleton hc hp⟩
  | topDefinition read =>
      exact ⟨by simp [Context.deliver, kinds, Context.kinds, Program.kinds, Place.contentKinds,
        TopLevel.kinds], Program.proper_append_singleton hc hp⟩
  | alone => exact ⟨rfl, hp⟩
  | values start heading read outer =>
      obtain ⟨houter, hheading, hread, htakes⟩ := hc
      refine ⟨?_, houter, hheading, ?_, htakes⟩
      · simp [Context.deliver, kinds, Context.kinds, Place.contentKinds, Value.allKinds_eq]
      · rw [Value.allProper_iff] at hread ⊢
        exact List.forall_mem_append.mpr ⟨hread, List.forall_mem_singleton.mpr hp⟩
  | arms start clauses otherwise? outer =>
      cases content with
      | clause clause =>
          obtain rfl : otherwise? = none := ht
          refine ⟨?_, hc.1, ?_⟩
          · simp [Context.deliver, kinds, Context.kinds, Place.contentKinds, Arm.kinds,
              Clause.allKinds_eq]
          · have hclauses := hc.2
            rw [Clause.allProper_iff] at hclauses ⊢
            exact List.forall_mem_append.mpr ⟨hclauses, List.forall_mem_singleton.mpr hp⟩
      | otherwise value =>
          obtain ⟨rfl, hne⟩ : otherwise? = none ∧ clauses ≠ [] := ht
          exact ⟨by simp [Context.deliver, kinds, Context.kinds, Place.contentKinds, Arm.kinds],
            hc.1, hne, hc.2, hp⟩
  | definitions start read outer =>
      refine ⟨?_, hc.1, ?_⟩
      · simp [Context.deliver, kinds, Context.kinds, Place.contentKinds, Definition.allKinds_eq]
      · have hread := hc.2
        rw [Definition.allProper_iff] at hread ⊢
        exact List.forall_mem_append.mpr ⟨hread, List.forall_mem_singleton.mpr hp⟩
  | bindings start kind read outer =>
      refine ⟨?_, hc.1, ?_⟩
      · simp [Context.deliver, kinds, Context.kinds, Place.contentKinds, LetBinding.allKinds_eq]
      · have hread := hc.2
        rw [LetBinding.allProper_iff] at hread ⊢
        exact List.forall_mem_append.mpr ⟨hread, List.forall_mem_singleton.mpr hp⟩

theorem resume_spec {place : Place} {owner : ParamsOwner place} {params : Params}
    {context : Context place} (ho : owner.Proper doc) (hp : params.Proper)
    (hc : context.Proper doc) :
    (owner.resume params context).kinds =
        context.kinds ++ owner.kinds ++ params.kinds ++ [.closeParen] ∧
      (owner.resume params context).Proper doc := by
  cases owner with
  | lambda start =>
      refine ⟨?_, hc, hp, trivial, fun _ _ _ _ => context.takes_value _⟩
      simp [ParamsOwner.resume, kinds, Context.kinds, Heading.kinds, ParamsOwner.kinds, enclosed,
        Value.allKinds]
  | function start docs name =>
      refine ⟨?_, hc, ⟨ho, hp⟩, trivial, fun _ _ _ _ => context.takes_definition _⟩
      simp [ParamsOwner.resume, kinds, Context.kinds, Heading.kinds, ParamsOwner.kinds, enclosed,
        Value.allKinds]
  | struct start docs name =>
      refine ⟨?_, ⟨ho, hp⟩, hc⟩
      simp [ParamsOwner.resume, kinds, Opening.kinds, ParamsOwner.kinds, enclosed]

theorem deliver_value_spec {context : Context .value} {value : Value} (hc : context.Proper doc)
    (hv : value.Proper doc) :
    (context.deliver value).kinds = context.kinds ++ value.kinds ∧
      (context.deliver value).Proper doc :=
  deliver_spec hc (context.takes_value value) hv

theorem deliver_topLevel_spec {context : Context .topLevel} {form : TopLevel}
    (hc : context.Proper doc) (hf : form.Proper doc) :
    (context.deliver form).kinds = context.kinds ++ form.kinds ∧
      (context.deliver form).Proper doc :=
  deliver_spec hc (context.takes_topLevel form) hf

theorem value?_spec (context : Context .value) {arrival : Arrival} {next : Progress}
    (h : value? context arrival = some next) (hd : ∀ text ∈ arrival.docs, doc text)
    (hc : context.Proper doc) :
    next.kinds = context.kinds ++ [arrival.token.kind] ∧ next.Proper doc := by
  simp only [value?] at h
  split at h <;> simp only [Option.some.injEq, reduceCtorEq] at h <;> subst h <;>
    rename_i hkind <;> rw [hkind]
  case h_1 =>
    refine ⟨rfl, ?_⟩
    cases context <;> exact ⟨hd, hc⟩
  case h_2 => exact deliver_value_spec hc trivial
  case h_3 => exact deliver_value_spec hc trivial

theorem openedValue?_spec (context : Context .value) {start : Position} {arrival : Arrival}
    {next : Progress} (h : openedValue? start context arrival = some next)
    (hd : ∀ text ∈ arrival.docs, doc text) (hc : context.Proper doc) :
    next.kinds = context.kinds ++ [.openParen, arrival.token.kind] ∧ next.Proper doc := by
  have hcall : (Context.values start .call [] context).Proper doc :=
    ⟨hc, trivial, trivial, fun _ _ _ _ => context.takes_value _⟩
  simp only [openedValue?] at h
  split at h
  case h_7 =>
      obtain ⟨hkinds, hproper⟩ := value?_spec _ h hd hcall
      refine ⟨?_, hproper⟩
      rw [hkinds]
      simp [Context.kinds, Heading.kinds, Value.allKinds]
  all_goals
    rename_i hkind
    rw [hkind]
    simp only [Option.some.injEq] at h
    subst h
  case h_1 => exact ⟨by simp [kinds, Context.kinds, Heading.kinds, Value.allKinds], hc, trivial,
    trivial, fun _ _ _ _ => context.takes_value _⟩
  case h_2 => exact ⟨by simp [kinds, Context.kinds, Clause.allKinds], hc, trivial⟩
  all_goals exact ⟨rfl, trivial, hc⟩

theorem opened?_spec {place : Place} {context : Context place} {paren arrival : Arrival}
    {next : Progress} (h : opened? paren context arrival = some next)
    (hd : ∀ text ∈ arrival.docs, doc text) (hp : (opened paren context).Proper doc) :
    next.kinds = context.kinds ++ [.openParen, arrival.token.kind] ∧ next.Proper doc := by
  cases context with
  | program read =>
      obtain ⟨hdocs, hread⟩ := hp
      simp only [opened?] at h
      split at h
      case h_3 => exact openedValue?_spec (.topValue read) h hd hread
      all_goals
        rename_i hkind
        rw [hkind]
        simp only [Option.some.injEq] at h
        subst h
        exact ⟨rfl, hdocs, hread⟩
  | topValue read => exact openedValue?_spec (.topValue read) h hd hp.2
  | alone => exact openedValue?_spec .alone h hd hp.2
  | values start heading read outer =>
      exact openedValue?_spec (.values start heading read outer) h hd hp.2
  | arms start clauses otherwise? outer =>
      obtain ⟨hdocs, rfl, hc⟩ := hp
      have hclause : (Context.values paren.start .clause []
          (.arms start clauses none outer)).Proper doc :=
        ⟨hc, trivial, trivial, fun _ _ _ => Context.takes_clause⟩
      simp only [opened?] at h
      split at h
      case h_1 => exact absurd h (by simp)
      case h_2 first rest hkind =>
          rw [hkind]
          simp only [Option.some.injEq] at h
          subst h
          refine ⟨?_, hc, trivial, trivial, fun _ _ _ => Context.takes_otherwise (by simp)⟩
          simp [kinds, Context.kinds, Heading.kinds, Value.allKinds]
      case h_3 =>
          obtain ⟨hkinds, hproper⟩ := value?_spec _ h hd hclause
          refine ⟨?_, hproper⟩
          rw [hkinds]
          simp [Context.kinds, Heading.kinds, Value.allKinds]
  | topDefinition read =>
      simp only [opened?] at h
      split at h <;> simp only [Option.some.injEq, reduceCtorEq] at h
      rename_i hkind
      rw [hkind]
      subst h
      exact ⟨rfl, hp⟩
  | definitions start read outer =>
      simp only [opened?] at h
      split at h <;> simp only [Option.some.injEq, reduceCtorEq] at h
      rename_i hkind
      rw [hkind]
      subst h
      exact ⟨rfl, hp⟩
  | bindings start kind read outer =>
      simp only [opened?] at h
      split at h <;> simp only [Option.some.injEq, reduceCtorEq] at h
      rename_i hkind
      rw [hkind]
      subst h
      refine ⟨?_, hp.2, trivial, trivial, fun _ _ _ _ => Context.takes_binding _ _⟩
      simp [kinds, Context.kinds, Heading.kinds, Value.allKinds, Ident.kind]

/-- A `cond` form with a clause may be closed. -/
theorem close_cond {start stop : Position} {clauses : List Clause} {otherwise? : Option Value}
    {outer : Context .value} (hne : clauses ≠ [])
    (hc : (Context.arms start clauses otherwise? outer).Proper doc) :
    (outer.deliver (.cond ⟨start, stop⟩ clauses otherwise?)).kinds =
        (Context.arms start clauses otherwise? outer).kinds ++ [.closeParen] ∧
      (outer.deliver (.cond ⟨start, stop⟩ clauses otherwise?)).Proper doc := by
  cases otherwise? with
  | none =>
      have hv : (Value.cond ⟨start, stop⟩ clauses none).Proper doc := ⟨hne, hc.2⟩
      obtain ⟨hkinds, hproper⟩ := deliver_value_spec hc.1 hv
      refine ⟨?_, hproper⟩
      rw [hkinds]
      simp [Context.kinds, Value.kinds, enclosed]
  | some value =>
      have hv : (Value.cond ⟨start, stop⟩ clauses (some value)).Proper doc := ⟨hne, hc.2.2⟩
      obtain ⟨hkinds, hproper⟩ := deliver_value_spec hc.1 hv
      refine ⟨?_, hproper⟩
      rw [hkinds]
      simp [Context.kinds, Value.kinds, enclosed]

theorem waiting?_spec {place : Place} {context : Context place} {arrival : Arrival}
    {next : Progress} (h : waiting? context arrival = some next)
    (hd : ∀ text ∈ arrival.docs, doc text) (hc : context.Proper doc) :
    next.kinds = context.kinds ++ [arrival.token.kind] ∧ next.Proper doc := by
  cases context with
  | program read =>
      simp only [waiting?] at h
      split at h
      case h_1 hkind =>
          rw [hkind]
          simp only [Option.some.injEq] at h
          subst h
          exact ⟨rfl, hd, hc⟩
      case h_2 => exact value?_spec (.topValue read) h hd hc
  | topValue read => exact value?_spec (.topValue read) h hd hc
  | alone => exact value?_spec .alone h hd hc
  | values start heading read outer =>
      simp only [waiting?] at h
      split at h
      case h_1 hkind =>
          rw [hkind]
          obtain ⟨houter, hheading, hread, htakes⟩ := hc
          obtain ⟨content, hbuild, rfl⟩ := Option.map_eq_some_iff.mp h
          obtain ⟨hkinds, hproper⟩ := Heading.build?_spec hbuild hheading hread
          obtain ⟨hdelivered, hresult⟩ :=
            deliver_spec houter (htakes _ _ _ hbuild) hproper
          refine ⟨?_, hresult⟩
          rw [hdelivered, hkinds]
          simp [Context.kinds]
      case h_2 =>
          split at h
          · exact value?_spec (.values start heading read outer) h hd hc
          · exact absurd h (by simp)
  | arms start clauses otherwise? outer =>
      simp only [waiting?] at h
      split at h
      case h_1 hkind =>
          rw [hkind]
          simp only [Option.some.injEq] at h
          subst h
          exact ⟨rfl, hd, rfl, hc⟩
      case h_2 hkind =>
          rw [hkind]
          split at h
          · exact absurd h (by simp)
          · rename_i hclauses
            simp only [Option.some.injEq] at h
            subst h
            exact close_cond (by simpa using hclauses) hc
      case h_3 => exact absurd h (by simp)
  | topDefinition read =>
      simp only [waiting?] at h
      split at h <;> simp only [Option.some.injEq, reduceCtorEq] at h
      rename_i hkind
      rw [hkind]
      subst h
      exact ⟨rfl, hd, hc⟩
  | definitions start read outer =>
      simp only [waiting?] at h
      split at h <;> simp only [Option.some.injEq, reduceCtorEq] at h <;> subst h <;>
        rename_i hkind <;> rw [hkind]
      case h_1 => exact ⟨rfl, hd, hc⟩
      case h_2 =>
          refine ⟨?_, hc.1, hc.2, trivial, fun _ _ _ _ => Context.takes_value _ _⟩
          simp [kinds, Context.kinds, Heading.kinds, Value.allKinds, enclosed]
  | bindings start kind read outer =>
      simp only [waiting?] at h
      split at h <;> simp only [Option.some.injEq, reduceCtorEq] at h <;> subst h <;>
        rename_i hkind <;> rw [hkind]
      case h_1 => exact ⟨rfl, hd, hc⟩
      case h_2 =>
          refine ⟨?_, hc.1, hc.2, trivial, fun _ _ _ _ => Context.takes_value _ _⟩
          simp [kinds, Context.kinds, Heading.kinds, Value.allKinds, enclosed]

theorem opening?_spec {place : Place} {head : Opening place} {context : Context place}
    {arrival : Arrival} {next : Progress} (h : opening? head context arrival = some next)
    (hh : head.Proper doc) (hc : context.Proper doc) :
    next.kinds = context.kinds ++ head.kinds ++ [arrival.token.kind] ∧ next.Proper doc := by
  simp only [opening?] at h
  split at h
  case h_12 read owner =>
      split at h
      case h_1 params hkind hfinish =>
          obtain ⟨hparams, hproper⟩ := OpenParams.finish?_spec hfinish hh.2
          obtain ⟨hkinds, hresult⟩ := resume_spec hh.1 hproper hc
          simp only [Option.some.injEq] at h
          subst h
          refine ⟨?_, hresult⟩
          rw [hkinds, hkind, hparams]
          simp [Opening.kinds]
      case h_2 =>
          obtain ⟨params, haccept, rfl⟩ := Option.map_eq_some_iff.mp h
          obtain ⟨hkinds, hproper⟩ := OpenParams.accept?_spec haccept hh.2
          refine ⟨?_, ⟨hh.1, hproper⟩, hc⟩
          simp [kinds, Opening.kinds, hkinds]
  case h_13 => exact absurd h (by simp)
  all_goals
    rename_i hkind
    rw [hkind]
    simp only [Option.some.injEq] at h
    subst h
  case h_1 | h_8 | h_10 =>
      refine ⟨?_, ⟨hh, trivial⟩, hc⟩
      simp [kinds, Opening.kinds, ParamsOwner.kinds, OpenParams.kinds, Ident.kind]
  case h_2 =>
      refine ⟨?_, hc, trivial⟩
      simp [kinds, Opening.kinds, Context.kinds, Definition.allKinds]
  case h_3 =>
      refine ⟨?_, hc, trivial⟩
      simp [kinds, Opening.kinds, Context.kinds, LetBinding.allKinds]
  case h_4 | h_6 | h_9 => exact ⟨by simp [kinds, Opening.kinds, Ident.kind], hh, hc⟩
  case h_5 library context =>
      have hv : ∀ range, (Value.require range library).Proper doc := fun _ => trivial
      obtain ⟨hkinds, hproper⟩ := deliver_value_spec hc (hv _)
      refine ⟨?_, hproper⟩
      rw [hkinds]
      simp [Value.kinds, Opening.kinds, enclosed]
  case h_7 =>
      refine ⟨?_, hc, hh, trivial, fun _ _ _ _ => Context.takes_definition _ _⟩
      simp [kinds, Context.kinds, Opening.kinds, Heading.kinds, Value.allKinds, Ident.kind]
  case h_11 docs name fields context =>
      have hf : ∀ range, (TopLevel.struct ⟨range, docs, name, fields⟩).Proper doc := fun _ => hh
      obtain ⟨hkinds, hproper⟩ := deliver_topLevel_spec hc (hf _)
      refine ⟨?_, hproper⟩
      rw [hkinds]
      simp [TopLevel.kinds, StructDefinition.kinds, Opening.kinds, enclosed]

/-- A token that is read adds itself to what has been read. -/
theorem accept?_spec {progress next : Progress} {arrival : Arrival}
    (h : progress.accept? arrival = some next) (hd : ∀ text ∈ arrival.docs, doc text)
    (hp : progress.Proper doc) :
    next.kinds = progress.kinds ++ [arrival.token.kind] ∧ next.Proper doc := by
  cases progress with
  | waiting context => exact waiting?_spec h hd hp
  | opened paren context =>
      obtain ⟨hkinds, hproper⟩ := opened?_spec h hd hp
      refine ⟨?_, hproper⟩
      rw [hkinds]
      simp [kinds]
  | opening head context => exact opening?_spec h hp.1 hp.2
  | finished value => exact absurd h (by simp [accept?])

/-! ## Whole inputs -/

theorem run_spec {progress next : Progress} {index : Nat} {docs : List String}
    {tokens : List Token} (h : progress.run index docs tokens = .ok next)
    (hp : progress.Proper doc) (hd : ∀ text ∈ docs, doc text) (ht : DocsSatisfy doc tokens) :
    next.kinds = progress.kinds ++ spokenKinds tokens ∧ next.Proper doc := by
  induction tokens generalizing progress index docs with
  | nil =>
      simp only [run, Except.ok.injEq] at h
      subst h
      exact ⟨by simp [spokenKinds], hp⟩
  | cons token rest ih =>
      have hrest : DocsSatisfy doc rest := fun t hm => ht t (List.mem_cons_of_mem _ hm)
      simp only [run] at h
      split at h
      case h_1 text hkind =>
          rw [spokenKinds_docstring hkind]
          refine ih h hp ?_ hrest
          exact List.forall_mem_append.mpr ⟨hd, List.forall_mem_singleton.mpr
            (ht token (List.mem_cons_self ..) text hkind)⟩
      case h_2 hkind =>
          simp only [step] at h
          cases haccept : progress.accept? ⟨token, index, docs⟩ with
          | none => simp [haccept] at h
          | some middle =>
              simp only [haccept] at h
              obtain ⟨hkinds, hproper⟩ := accept?_spec haccept hd hp
              obtain ⟨hresult, hnext⟩ := ih h hproper (by simp) hrest
              refine ⟨?_, hnext⟩
              rw [hresult, hkinds, spokenKinds_spoken hkind, List.append_assoc]
              rfl

end Progress

/-- A program that has been read is proper and reads back as its tokens. -/
theorem parseProgram_spec {tokens : List Token} {program : Program}
    (h : parseProgram tokens = .ok program) (ht : DocsSatisfy doc tokens) :
    Program.kinds program = spokenKinds tokens ∧ Program.Proper doc program := by
  simp only [parseProgram] at h
  split at h <;> simp only [Except.ok.injEq, reduceCtorEq] at h
  subst h
  rename_i hrun
  exact Progress.run_spec hrun (fun _ h => absurd h (List.not_mem_nil)) (by simp) ht

theorem parseValue_spec {tokens : List Token} {value : Value}
    (h : parseValue tokens = .ok value) (ht : DocsSatisfy doc tokens) :
    value.kinds = spokenKinds tokens ∧ value.Proper doc := by
  simp only [parseValue] at h
  split at h <;> simp only [Except.ok.injEq, reduceCtorEq] at h
  subst h
  rename_i hrun
  exact Progress.run_spec hrun trivial (by simp) ht

end TypedIsl
