import TypedIsl.Proofs.Session.Respelling
import TypedIsl.Source.Parse

/-!
# Reading respelled tokens

A parser never looks at a name. So tokens whose names are mapped are read to the tree whose names
are mapped in the same way, one token after the other.
-/

namespace TypedIsl

/-! ## Tokens and forms that are being read -/

inductive TokenKind.Respells (f : String → Option String) : TokenKind → TokenKind → Prop where
  | openParen : Respells f .openParen .openParen
  | closeParen : Respells f .closeParen .closeParen
  | keyword (word : Keyword) : Respells f (.keyword word) (.keyword word)
  | literal {value spelled : Literal} (h : value.respell? f = some spelled) :
      Respells f (.literal value) (.literal spelled)
  | identifier {name spelled : String} (h : f name = some spelled) :
      Respells f (.identifier name) (.identifier spelled)
  | colon : Respells f .colon .colon
  | ampersand : Respells f .ampersand .ampersand
  | arrow : Respells f .arrow .arrow
  | docstring (text : String) : Respells f (.docstring text) (.docstring text)

inductive Token.Respells (f : String → Option String) : Token → Token → Prop where
  | mk {kind spelled : TokenKind} (h : kind.Respells f spelled) (range : Range) :
      Respells f ⟨kind, range⟩ ⟨spelled, range⟩

inductive Arrival.Respells (f : String → Option String) : Arrival → Arrival → Prop where
  | mk {token spelled : Token} (h : token.Respells f spelled) (index : Nat) (docs : List String) :
      Respells f ⟨token, index, docs⟩ ⟨spelled, index, docs⟩

inductive TypeSlot.Respells (f : String → Option String) : TypeSlot → TypeSlot → Prop where
  | param {read others : List TypedParam} {name spelled : Ident}
      (hread : Elementwise (TypedParam.respell? (.uniform f)) read others)
      (hname : name.respell? f = some spelled) :
      Respells f (.param read name) (.param others spelled)
  | result {read others : List TypedParam}
      (hread : Elementwise (TypedParam.respell? (.uniform f)) read others) :
      Respells f (.result read) (.result others)

inductive OpenType.Respells (f : String → Option String) : OpenType → OpenType → Prop where
  | mk (start : Position) {function spelled : Ident} {args others : List TypeExpr}
      (hfunction : function.respell? f = some spelled)
      (hargs : Elementwise (TypeExpr.respell? (.uniform f)) args others) :
      Respells f ⟨start, function, args⟩ ⟨start, spelled, others⟩

inductive OpenParams.Respells (f : String → Option String) : OpenParams → OpenParams → Prop where
  | names {read others : List Ident} (hread : Elementwise (Ident.respell? f) read others) :
      Respells f (.names read) (.names others)
  | nextName {read others : List TypedParam}
      (hread : Elementwise (TypedParam.respell? (.uniform f)) read others) :
      Respells f (.nextName read) (.nextName others)
  | nextColon {read others : List TypedParam} {name spelled : Ident}
      (hread : Elementwise (TypedParam.respell? (.uniform f)) read others)
      (hname : name.respell? f = some spelled) :
      Respells f (.nextColon read name) (.nextColon others spelled)
  | type {slot next : TypeSlot} {opened others : List OpenType} (hslot : slot.Respells f next)
      (hopened : List.Forall₂ (OpenType.Respells f) opened others) :
      Respells f (.type slot opened) (.type next others)
  | typeFunction {slot next : TypeSlot} {opened others : List OpenType}
      (hslot : slot.Respells f next) (hopened : List.Forall₂ (OpenType.Respells f) opened others)
      (start : Position) :
      Respells f (.typeFunction slot opened start) (.typeFunction next others start)
  | typed {read others : List TypedParam}
      (hread : Elementwise (TypedParam.respell? (.uniform f)) read others) :
      Respells f (.typed read) (.typed others)
  | result {read others : List TypedParam} {type spelled : TypeExpr}
      (hread : Elementwise (TypedParam.respell? (.uniform f)) read others)
      (htype : type.respell? (.uniform f) = some spelled) :
      Respells f (.result read type) (.result others spelled)

inductive Heading.Respells (f : String → Option String) :
    {place : Place} → Heading place → Heading place → Prop where
  | branch : Respells f .branch .branch
  | lambda {params spelled : Params} (h : params.respell? (.uniform f) = some spelled) :
      Respells f (.lambda params) (.lambda spelled)
  | locals {definitions others : List Definition}
      (h : Elementwise (Definition.respell? (.uniform f)) definitions others) :
      Respells f (.locals definitions) (.locals others)
  | lets (kind : LetKind) {bindings others : List LetBinding}
      (h : Elementwise (LetBinding.respell? (.uniform f)) bindings others) :
      Respells f (.lets kind bindings) (.lets kind others)
  | call : Respells f .call .call
  | clause : Respells f .clause .clause
  | otherwise : Respells f .otherwise .otherwise
  | binding {name spelled : Ident} (h : name.respell? f = some spelled) :
      Respells f (.binding name) (.binding spelled)
  | function (docs : List String) {name spelled : Ident} {params next : Params}
      (hname : name.respell? f = some spelled)
      (hparams : params.respell? (.uniform f) = some next) :
      Respells f (.function docs name params) (.function docs spelled next)
  | constant (docs : List String) {name spelled : Ident} (h : name.respell? f = some spelled) :
      Respells f (.constant docs name) (.constant docs spelled)

inductive Context.Respells (f : String → Option String) :
    {place : Place} → Context place → Context place → Prop where
  | program {read others : List TopLevel}
      (h : Elementwise (TopLevel.respell? (.uniform f)) read others) :
      Respells f (.program read) (.program others)
  | topValue {read others : List TopLevel}
      (h : Elementwise (TopLevel.respell? (.uniform f)) read others) :
      Respells f (.topValue read) (.topValue others)
  | topDefinition {read others : List TopLevel}
      (h : Elementwise (TopLevel.respell? (.uniform f)) read others) :
      Respells f (.topDefinition read) (.topDefinition others)
  | alone : Respells f .alone .alone
  | values {place : Place} (start : Position) {heading spelled : Heading place}
      {read others : List Value} {outer around : Context place}
      (hheading : heading.Respells f spelled)
      (hread : Elementwise (Value.respell? (.uniform f)) read others)
      (houter : Respells f outer around) :
      Respells f (.values start heading read outer) (.values start spelled others around)
  | arms (start : Position) {clauses others : List Clause} {otherwise? spelled? : Option Value}
      {outer around : Context .value}
      (hclauses : Elementwise (Clause.respell? (.uniform f)) clauses others)
      (hotherwise : Option.Rel
        (fun value spelled => Value.respell? (.uniform f) value = some spelled) otherwise? spelled?)
      (houter : Respells f outer around) :
      Respells f (.arms start clauses otherwise? outer) (.arms start others spelled? around)
  | definitions (start : Position) {read others : List Definition} {outer around : Context .value}
      (hread : Elementwise (Definition.respell? (.uniform f)) read others)
      (houter : Respells f outer around) :
      Respells f (.definitions start read outer) (.definitions start others around)
  | bindings (start : Position) (kind : LetKind) {read others : List LetBinding}
      {outer around : Context .value}
      (hread : Elementwise (LetBinding.respell? (.uniform f)) read others)
      (houter : Respells f outer around) :
      Respells f (.bindings start kind read outer) (.bindings start kind others around)

inductive ParamsOwner.Respells (f : String → Option String) :
    {place : Place} → ParamsOwner place → ParamsOwner place → Prop where
  | lambda (start : Position) : Respells f (.lambda start) (.lambda start)
  | function (start : Position) (docs : List String) {name spelled : Ident}
      (h : name.respell? f = some spelled) :
      Respells f (.function start docs name) (.function start docs spelled)
  | struct (start : Position) (docs : List String) {name spelled : Ident}
      (h : name.respell? f = some spelled) :
      Respells f (.struct start docs name) (.struct start docs spelled)

inductive Opening.Respells (f : String → Option String) :
    {place : Place} → Opening place → Opening place → Prop where
  | lambda (start : Position) : Respells f (.lambda start) (.lambda start)
  | locals (start : Position) : Respells f (.locals start) (.locals start)
  | lets (start : Position) (kind : LetKind) : Respells f (.lets start kind) (.lets start kind)
  | require (start : Position) : Respells f (.require start) (.require start)
  | required (start : Position) {library spelled : Ident} (h : library.respell? f = some spelled) :
      Respells f (.required start library) (.required start spelled)
  | define (start : Position) (docs : List String) :
      Respells f (.define start docs) (.define start docs)
  | function (start : Position) (docs : List String) :
      Respells f (.function start docs) (.function start docs)
  | struct (start : Position) (docs : List String) :
      Respells f (.struct start docs) (.struct start docs)
  | structName (start : Position) (docs : List String) {name spelled : Ident}
      (h : name.respell? f = some spelled) :
      Respells f (.structName start docs name) (.structName start docs spelled)
  | structFields (start : Position) (docs : List String) {name spelled : Ident}
      {fields next : Params} (hname : name.respell? f = some spelled)
      (hfields : fields.respell? (.uniform f) = some next) :
      Respells f (.structFields start docs name fields) (.structFields start docs spelled next)
  | params {place : Place} {owner next : ParamsOwner place} {read others : OpenParams}
      (howner : owner.Respells f next) (hread : read.Respells f others) :
      Respells f (.params owner read) (.params next others)

inductive Progress.Respells (f : String → Option String) : Progress → Progress → Prop where
  | waiting {place : Place} {context spelled : Context place} (h : context.Respells f spelled) :
      Respells f (.waiting context) (.waiting spelled)
  | opened {place : Place} (paren : Arrival) {context spelled : Context place}
      (hparen : paren.token.kind = .openParen) (h : context.Respells f spelled) :
      Respells f (.opened paren context) (.opened paren spelled)
  | opening {place : Place} {opening next : Opening place} {context spelled : Context place}
      (hopening : opening.Respells f next) (h : context.Respells f spelled) :
      Respells f (.opening opening context) (.opening next spelled)
  | finished {value spelled : Value} (h : value.respell? (.uniform f) = some spelled) :
      Respells f (.finished value) (.finished spelled)

/-! ## Parameter lists -/

section

variable {f : String → Option String}

theorem OpenParams.withType_respells {slot next : TypeSlot} {opened others : List OpenType}
    {type spelled : TypeExpr} (hslot : slot.Respells f next)
    (hopened : List.Forall₂ (OpenType.Respells f) opened others)
    (htype : type.respell? (.uniform f) = some spelled) :
    (withType slot opened type).Respells f (withType next others spelled) := by
  cases hopened with
  | nil =>
      cases hslot with
      | param hread hname =>
          exact .typed (hread.snoc (by simp [TypedParam.respell?, hname, htype]))
      | result hread => exact .result hread htype
  | cons hinnermost houter =>
      obtain ⟨start, hfunction, hargs⟩ := hinnermost
      exact .type hslot (.cons (.mk start hfunction (hargs.snoc htype)) houter)

theorem OpenParams.accept?_respells {params next : OpenParams} {token spelled : Token}
    (h : params.Respells f next) (htoken : token.Respells f spelled) :
    Option.Rel (OpenParams.Respells f) (params.accept? token) (next.accept? spelled) := by
  obtain ⟨hkind, range⟩ := htoken
  cases h with
  | names hread =>
      cases hkind with
      | identifier hname => exact .some (.names (hread.snoc (Ident.respell?_mk hname range)))
      | colon =>
          rcases hread with _ | ⟨hname, _ | _⟩
          · exact .none
          · exact .some (.type (.param .nil hname) .nil)
          · exact .none
      | _ => exact .none
  | nextName hread =>
      cases hkind with
      | identifier hname => exact .some (.nextColon hread (Ident.respell?_mk hname range))
      | _ => exact .none
  | nextColon hread hname =>
      cases hkind with
      | colon => exact .some (.type (.param hread hname) .nil)
      | _ => exact .none
  | type hslot hopened =>
      cases hkind with
      | identifier hname =>
          exact .some (withType_respells hslot hopened
            (by simp [TypeExpr.respell?, Ident.respell?_mk hname range]))
      | openParen => exact .some (.typeFunction hslot hopened range.start)
      | closeParen =>
          rcases hopened with _ | ⟨⟨start, hfunction, hargs⟩, houter⟩
          · exact .none
          · have hargs := TypeExpr.respellAll?_eq_some_iff.mpr hargs
            exact .some (withType_respells hslot houter
              (by simp [TypeExpr.respell?, hfunction, hargs]))
      | _ => exact .none
  | typeFunction hslot hopened start =>
      cases hkind with
      | identifier hname =>
          exact .some (.type hslot (.cons (.mk start (Ident.respell?_mk hname range) .nil) hopened))
      | _ => exact .none
  | typed hread =>
      cases hkind with
      | ampersand => exact .some (.nextName hread)
      | arrow => exact .some (.type (.result hread) .nil)
      | _ => exact .none
  | result hread htype =>
      cases hkind <;> exact .none

theorem OpenParams.typedRange_respells {read others : List TypedParam}
    (hread : Elementwise (TypedParam.respell? (.uniform f)) read others)
    {result? spelled? : Option TypeExpr}
    (hresult : Option.Rel (fun type spelled => TypeExpr.respell? (.uniform f) type = some spelled)
      result? spelled?) (closing : Position) :
    typedRange others spelled? closing = typedRange read result? closing := by
  have hparam {param spelled : TypedParam} (h : param.respell? (.uniform f) = some spelled) :
      spelled.name.range = param.name.range ∧ spelled.type.range = param.type.range := by
    obtain ⟨hname, htype⟩ := TypedParam.respell?_eq_some_iff.mp h
    exact ⟨(Ident.respell?_eq_some_iff.mp hname).2, TypeExpr.range_of_respell? htype⟩
  have hhead := hread.head?
  have hlast := hread.getLast?
  unfold typedRange
  generalize read.head? = first, others.head? = first' at hhead ⊢
  generalize read.getLast? = last, others.getLast? = last' at hlast ⊢
  refine congrArg₂ Range.mk ?_ ?_
  · cases hhead with
    | none => rfl
    | some hfirst => simp only [(hparam hfirst).1]
  · cases hresult with
    | some htype => simp only [TypeExpr.range_of_respell? htype]
    | none =>
        cases hlast with
        | none => rfl
        | some hlast => simp only [(hparam hlast).2]

theorem OpenParams.untypedRange_respells {read others : List Ident}
    (hread : Elementwise (Ident.respell? f) read others) (closing : Position) :
    untypedRange others closing = untypedRange read closing := by
  have hrange {ident spelled : Ident} (h : ident.respell? f = some spelled) :
      spelled.range = ident.range := (Ident.respell?_eq_some_iff.mp h).2
  have hhead := hread.head?
  have hlast := hread.getLast?
  rw [untypedRange, untypedRange]
  generalize read.head? = first, others.head? = first' at hhead ⊢
  generalize read.getLast? = last, others.getLast? = last' at hlast ⊢
  cases hhead with
  | none => rfl
  | some hfirst =>
      cases hlast with
      | none => rfl
      | some hlast => simp only [hrange hfirst, hrange hlast]

theorem OpenParams.finish?_respells {params next : OpenParams} (h : params.Respells f next)
    (closing : Position) :
    Option.Rel (fun params spelled => Params.respell? (.uniform f) params = some spelled)
      (params.finish? closing) (next.finish? closing) := by
  cases h with
  | names hread =>
      refine .some ?_
      rw [Params.respell?, ← untypedRange_respells hread]
      simp [mapM_eq_some_iff.mpr hread]
  | typed hread =>
      refine .some ?_
      rw [Params.respell?, ← typedRange_respells hread .none]
      simp [mapM_eq_some_iff.mpr hread]
  | result hread htype =>
      refine .some ?_
      rw [Params.respell?, ← typedRange_respells hread (.some htype)]
      simp [mapM_eq_some_iff.mpr hread, htype]
  | _ => exact .none

/-! ## Forms -/

/-- What stands at a place, with its names mapped. -/
def Place.respell? (ρ : Respelling) : (place : Place) → place.Content → Option place.Content
  | .topLevel, form => TopLevel.respell? ρ form
  | .value, form => Value.respell? ρ form
  | .arm, .clause form => do return .clause (← Clause.respell? ρ form)
  | .arm, .otherwise form => do return .otherwise (← Value.respell? ρ form)
  | .definition, form => Definition.respell? ρ form
  | .binding, form => LetBinding.respell? ρ form

theorem Heading.arity?_respells {place : Place} {heading next : Heading place}
    (h : heading.Respells f next) : next.arity? = heading.arity? := by
  cases h <;> rfl

theorem Heading.wants_respells {place : Place} {heading next : Heading place}
    (h : heading.Respells f next) {read others : List Value}
    (hread : Elementwise (Value.respell? (.uniform f)) read others) :
    next.wants others.length = heading.wants read.length := by
  rw [wants, wants, arity?_respells h, hread.length_eq]

theorem Heading.build?_respells {place : Place} {heading next : Heading place}
    (h : heading.Respells f next) {values others : List Value}
    (hvalues : Elementwise (Value.respell? (.uniform f)) values others) (range : Range) :
    Option.Rel (fun content spelled => place.respell? (.uniform f) content = some spelled)
      (heading.build? range values) (next.build? range others) := by
  cases h with
  | call =>
      rcases hvalues with _ | ⟨hcallee, hargs⟩
      · exact .none
      · have hargs := Value.respellAll?_eq_some_iff.mpr hargs
        exact .some (by simp [Place.respell?, Value.respell?, hcallee, hargs])
  | branch =>
      rcases hvalues with _ | ⟨hcondition, _ | ⟨hthen, _ | ⟨helse, _ | _⟩⟩⟩
      case cons.cons.cons.nil =>
        exact .some (by simp [Place.respell?, Value.respell?, hcondition, hthen, helse])
      all_goals exact .none
  | clause =>
      rcases hvalues with _ | ⟨hcondition, _ | ⟨hbody, _ | _⟩⟩
      case cons.cons.nil =>
        exact .some (by simp [Place.respell?, Clause.respell?, hcondition, hbody])
      all_goals exact .none
  | lambda hparams =>
      rcases hvalues with _ | ⟨hbody, _ | _⟩
      case cons.nil => exact .some (by simp [Place.respell?, Value.respell?, hparams, hbody])
      all_goals exact .none
  | locals hdefinitions =>
      have hdefinitions := Definition.respellAll?_eq_some_iff.mpr hdefinitions
      rcases hvalues with _ | ⟨hbody, _ | _⟩
      case cons.nil => exact .some (by simp [Place.respell?, Value.respell?, hdefinitions, hbody])
      all_goals exact .none
  | lets kind hbindings =>
      have hbindings := LetBinding.respellAll?_eq_some_iff.mpr hbindings
      rcases hvalues with _ | ⟨hbody, _ | _⟩
      case cons.nil => exact .some (by simp [Place.respell?, Value.respell?, hbindings, hbody])
      all_goals exact .none
  | otherwise =>
      rcases hvalues with _ | ⟨hbody, _ | _⟩
      case cons.nil => exact .some (by simp [Place.respell?, hbody])
      all_goals exact .none
  | binding hname =>
      rcases hvalues with _ | ⟨hbody, _ | _⟩
      case cons.nil => exact .some (by simp [Place.respell?, LetBinding.respell?, hname, hbody])
      all_goals exact .none
  | function docs hname hparams =>
      rcases hvalues with _ | ⟨hbody, _ | _⟩
      case cons.nil =>
        exact .some (by simp [Place.respell?, Definition.respell?, hname, hparams, hbody])
      all_goals exact .none
  | constant docs hname =>
      rcases hvalues with _ | ⟨hbody, _ | _⟩
      case cons.nil => exact .some (by simp [Place.respell?, Definition.respell?, hname, hbody])
      all_goals exact .none

theorem Context.deliver_respells {place : Place} {context next : Context place}
    (h : context.Respells f next) {content spelled : place.Content}
    (hcontent : place.respell? (.uniform f) content = some spelled) :
    (context.deliver content).Respells f (next.deliver spelled) := by
  cases h with
  | program hread => exact .waiting (.program (hread.snoc hcontent))
  | topValue hread =>
      have hform : TopLevel.respell? (.uniform f) (.value content) = some (.value spelled) := by
        have hvalue : Value.respell? (.uniform f) content = some spelled := hcontent
        rw [TopLevel.respell?, hvalue]
        rfl
      exact .waiting (.program (hread.snoc hform))
  | topDefinition hread =>
      have hform : TopLevel.respell? (.uniform f) (.definition content) =
          some (.definition spelled) := by
        rw [TopLevel.respell?,
          show Definition.respell? (.uniform f) content = some spelled from hcontent]
        rfl
      exact .waiting (.program (hread.snoc hform))
  | alone => exact .finished hcontent
  | values start hheading hread houter =>
      exact .waiting (.values start hheading (hread.snoc hcontent) houter)
  | arms start hclauses hotherwise houter =>
      cases content with
      | clause clause =>
          obtain ⟨next, hclause, rfl⟩ := one_part hcontent
          exact .waiting (.arms start (hclauses.snoc hclause) hotherwise houter)
      | otherwise value =>
          obtain ⟨next, hvalue, rfl⟩ := one_part hcontent
          exact .waiting (.arms start hclauses (.some hvalue) houter)
  | definitions start hread houter =>
      exact .waiting (.definitions start (hread.snoc hcontent) houter)
  | bindings start kind hread houter =>
      exact .waiting (.bindings start kind (hread.snoc hcontent) houter)

theorem ParamsOwner.resume_respells {place : Place} {owner next : ParamsOwner place}
    (h : owner.Respells f next) {params spelled : Params}
    (hparams : params.respell? (.uniform f) = some spelled) {context around : Context place}
    (hcontext : context.Respells f around) :
    (owner.resume params context).Respells f (next.resume spelled around) := by
  cases h with
  | lambda start => exact .waiting (.values start (.lambda hparams) .nil hcontext)
  | function start docs hname =>
      exact .waiting (.values start (.function docs hname hparams) .nil hcontext)
  | struct start docs hname => exact .opening (.structFields start docs hname hparams) hcontext

/-! ## Steps -/

namespace Progress

theorem value?_respells {context next : Context .value} (h : context.Respells f next)
    {arrival spelled : Arrival} (harrival : arrival.Respells f spelled) :
    Option.Rel (Progress.Respells f) (value? context arrival) (value? next spelled) := by
  obtain ⟨⟨hkind, range⟩, index, docs⟩ := harrival
  cases hkind with
  | openParen => exact .some (.opened _ rfl h)
  | literal hvalue =>
      exact .some (Context.deliver_respells h (by simp [Place.respell?, Value.respell?, hvalue]))
  | identifier hname =>
      exact .some (Context.deliver_respells h
        (by simp [Place.respell?, Value.respell?, Ident.respell?_mk hname range]))
  | _ => exact .none

theorem openedValue?_respells (start : Position) {context next : Context .value}
    (h : context.Respells f next) {arrival spelled : Arrival}
    (harrival : arrival.Respells f spelled) :
    Option.Rel (Progress.Respells f) (openedValue? start context arrival)
      (openedValue? start next spelled) := by
  have hcall := value?_respells (.values start .call .nil h) harrival
  obtain ⟨⟨hkind, range⟩, index, docs⟩ := harrival
  cases hkind with
  | keyword word =>
      cases word with
      | branch => exact .some (.waiting (.values start .branch .nil h))
      | cond => exact .some (.waiting (.arms start .nil .none h))
      | lambda => exact .some (.opening (.lambda start) h)
      | locals => exact .some (.opening (.locals start) h)
      | lets kind => exact .some (.opening (.lets start kind) h)
      | require => exact .some (.opening (.require start) h)
      | _ => exact hcall
  | _ => exact hcall

theorem opened?_respells {place : Place} {paren : Arrival} {context next : Context place}
    (h : context.Respells f next) {arrival spelled : Arrival}
    (harrival : arrival.Respells f spelled) :
    Option.Rel (Progress.Respells f) (opened? paren context arrival)
      (opened? paren next spelled) := by
  have hvalue {around other : Context .value} (h : around.Respells f other) :=
    openedValue?_respells paren.start h harrival
  cases h with
  | program hread =>
      have htop := hvalue (.topValue hread)
      obtain ⟨⟨hkind, range⟩, index, docs⟩ := harrival
      cases hkind with
      | keyword word =>
          cases word with
          | define => exact .some (.opening (.define paren.start paren.docs) (.topDefinition hread))
          | defineStruct => exact .some (.opening (.struct paren.start paren.docs) (.program hread))
          | _ => exact htop
      | _ => exact htop
  | topValue hread => exact hvalue (.topValue hread)
  | topDefinition hread =>
      obtain ⟨⟨hkind, range⟩, index, docs⟩ := harrival
      cases hkind with
      | keyword word =>
          cases word with
          | define => exact .some (.opening (.define paren.start paren.docs) (.topDefinition hread))
          | _ => exact .none
      | _ => exact .none
  | alone => exact hvalue .alone
  | values start hheading hread houter => exact hvalue (.values start hheading hread houter)
  | arms start hclauses hotherwise houter =>
      have harms := Context.Respells.arms start hclauses hotherwise houter
      have hclause := value?_respells (.values paren.start .clause .nil harms) harrival
      obtain ⟨⟨hkind, range⟩, index, docs⟩ := harrival
      cases hkind with
      | keyword word =>
          cases word with
          | otherwise =>
              cases hclauses with
              | nil => exact .none
              | cons => exact .some (.waiting (.values paren.start .otherwise .nil harms))
          | _ => exact hclause
      | _ => exact hclause
  | definitions start hread houter =>
      have hdefinitions := Context.Respells.definitions start hread houter
      obtain ⟨⟨hkind, range⟩, index, docs⟩ := harrival
      cases hkind with
      | keyword word =>
          cases word with
          | define => exact .some (.opening (.define paren.start paren.docs) hdefinitions)
          | _ => exact .none
      | _ => exact .none
  | bindings start kind hread houter =>
      have hbindings := Context.Respells.bindings start kind hread houter
      obtain ⟨⟨hkind, range⟩, index, docs⟩ := harrival
      cases hkind with
      | identifier hname =>
          exact .some (.waiting (.values paren.start (.binding (Ident.respell?_mk hname range))
            .nil hbindings))
      | _ => exact .none

theorem waiting?_respells {place : Place} {context next : Context place}
    (h : context.Respells f next) {arrival spelled : Arrival}
    (harrival : arrival.Respells f spelled) :
    Option.Rel (Progress.Respells f) (waiting? context arrival) (waiting? next spelled) := by
  cases h with
  | program hread =>
      have hvalue := value?_respells (.topValue hread) harrival
      obtain ⟨⟨hkind, range⟩, index, docs⟩ := harrival
      cases hkind with
      | openParen => exact .some (.opened _ rfl (.program hread))
      | _ => exact hvalue
  | topValue hread => exact value?_respells (.topValue hread) harrival
  | alone => exact value?_respells .alone harrival
  | values start hheading hread houter =>
      have hwants := Heading.wants_respells hheading hread
      have hvalue := value?_respells (.values start hheading hread houter) harrival
      obtain ⟨⟨hkind, range⟩, index, docs⟩ := harrival
      cases hkind with
      | closeParen =>
          have hbuilt := Heading.build?_respells hheading hread ⟨start, range.stop⟩
          simp only [waiting?]
          exact rel_map hbuilt fun hform => Context.deliver_respells houter hform
      | _ =>
          simp only [waiting?, hwants]
          split
          · exact hvalue
          · exact .none
  | arms start hclauses hotherwise houter =>
      obtain ⟨⟨hkind, range⟩, index, docs⟩ := harrival
      cases hkind with
      | openParen =>
          cases hotherwise with
          | none => exact .some (.opened _ rfl (.arms start hclauses .none houter))
          | some hvalue => exact .none
      | closeParen =>
          have harms := Clause.respellAll?_eq_some_iff.mpr hclauses
          cases hclauses with
          | nil => cases hotherwise <;> exact .none
          | cons =>
              cases hotherwise with
              | none =>
                  exact .some (Context.deliver_respells houter
                    (by simp [Place.respell?, Value.respell?, harms]))
              | some hvalue =>
                  exact .some (Context.deliver_respells houter
                    (by simp [Place.respell?, Value.respell?, harms, hvalue]))
      | _ => cases hotherwise <;> exact .none
  | topDefinition hread =>
      obtain ⟨⟨hkind, range⟩, index, docs⟩ := harrival
      cases hkind with
      | openParen => exact .some (.opened _ rfl (.topDefinition hread))
      | _ => exact .none
  | definitions start hread houter =>
      obtain ⟨⟨hkind, range⟩, index, docs⟩ := harrival
      cases hkind with
      | openParen => exact .some (.opened _ rfl (.definitions start hread houter))
      | closeParen => exact .some (.waiting (.values start (.locals hread) .nil houter))
      | _ => exact .none
  | bindings start kind hread houter =>
      obtain ⟨⟨hkind, range⟩, index, docs⟩ := harrival
      cases hkind with
      | openParen => exact .some (.opened _ rfl (.bindings start kind hread houter))
      | closeParen => exact .some (.waiting (.values start (.lets kind hread) .nil houter))
      | _ => exact .none

theorem opening?_respells {place : Place} {opening next : Opening place}
    (hopening : opening.Respells f next) {context around : Context place}
    (h : context.Respells f around) {arrival spelled : Arrival}
    (harrival : arrival.Respells f spelled) :
    Option.Rel (Progress.Respells f) (opening? opening context arrival)
      (opening? next around spelled) := by
  obtain ⟨⟨hkind, range⟩, index, docs⟩ := harrival
  cases hopening with
  | lambda start =>
      cases hkind with
      | openParen => exact .some (.opening (.params (.lambda start) (.names .nil)) h)
      | _ => exact .none
  | locals start =>
      cases hkind with
      | openParen => exact .some (.waiting (.definitions start .nil h))
      | _ => exact .none
  | lets start kind =>
      cases hkind with
      | openParen => exact .some (.waiting (.bindings start kind .nil h))
      | _ => exact .none
  | require start =>
      cases hkind with
      | identifier hname =>
          exact .some (.opening (.required start (Ident.respell?_mk hname range)) h)
      | _ => exact .none
  | required start hlibrary =>
      cases hkind with
      | closeParen =>
          exact .some (Context.deliver_respells h
            (by simp [Place.respell?, Value.respell?, hlibrary]))
      | _ => exact .none
  | define start docs =>
      cases hkind with
      | openParen => exact .some (.opening (.function start docs) h)
      | identifier hname =>
          exact .some (.waiting (.values start (.constant docs (Ident.respell?_mk hname range))
            .nil h))
      | _ => exact .none
  | function start docs =>
      cases hkind with
      | identifier hname =>
          exact .some (.opening (.params (.function start docs (Ident.respell?_mk hname range))
            (.names .nil)) h)
      | _ => exact .none
  | struct start docs =>
      cases hkind with
      | identifier hname =>
          exact .some (.opening (.structName start docs (Ident.respell?_mk hname range)) h)
      | _ => exact .none
  | structName start docs hname =>
      cases hkind with
      | openParen => exact .some (.opening (.params (.struct start docs hname) (.names .nil)) h)
      | _ => exact .none
  | structFields start docs hname hfields =>
      cases hkind with
      | closeParen =>
          exact .some (Context.deliver_respells h
            (by simp [Place.respell?, TopLevel.respell?, StructDefinition.respell?, hname,
              hfields]))
      | _ => exact .none
  | @params _ owner next read others howner hread =>
      have hfinish := OpenParams.finish?_respells hread range.start
      have hmore := rel_map (OpenParams.accept?_respells hread ⟨hkind, range⟩)
        fun hread => Respells.opening (.params howner hread) h
      cases hkind with
      | closeParen =>
          simp only [opening?]
          generalize read.finish? range.start = params?, others.finish? range.start = next?
            at hfinish ⊢
          cases hfinish with
          | none => exact hmore
          | some hparams => exact .some (ParamsOwner.resume_respells howner hparams h)
      | _ => exact hmore

theorem accept?_respells {progress next : Progress} (h : progress.Respells f next)
    {arrival spelled : Arrival} (harrival : arrival.Respells f spelled) :
    Option.Rel (Progress.Respells f) (progress.accept? arrival) (next.accept? spelled) := by
  cases h with
  | waiting h => exact waiting?_respells h harrival
  | opened paren hparen h => exact opened?_respells h harrival
  | opening hopening h => exact opening?_respells hopening h harrival
  | finished => exact .none

/-- What is expected does not depend on names. -/
theorem expects_respells {progress next : Progress} (h : progress.Respells f next) :
    next.expects = progress.expects := by
  cases h with
  | waiting h =>
      cases h with
      | values start hheading hread _ => simp only [expects, Heading.wants_respells hheading hread]
      | arms start hclauses => cases hclauses <;> rfl
      | _ => rfl
  | opened paren hparen h => cases h <;> rfl
  | opening hopening h =>
      cases hopening with
      | params _ hread => cases hread <;> rfl
      | _ => rfl
  | finished => rfl

theorem rejection_respells {progress next : Progress} (h : progress.Respells f next)
    (arrival : Arrival) : next.rejection arrival = progress.rejection arrival := by
  have hexpects := expects_respells h
  cases h with
  | opened paren hparen h =>
      cases h with
      | arms start hclauses _ _ =>
          cases hclauses with
          | nil =>
              unfold rejection
              cases arrival.token.kind with
              | keyword word => cases word <;> rfl
              | _ => rfl
          | cons => rfl
      | _ => rfl
  | _ =>
      exact congrArg (SyntaxError.mk · (some arrival.token.kind) arrival.start arrival.index)
        hexpects

end Progress

end

end TypedIsl
