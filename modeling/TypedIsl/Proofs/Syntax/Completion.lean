import Mathlib.Data.List.Basic
import TypedIsl.Proofs.Syntax.Placement
import TypedIsl.Proofs.Syntax.Rejection

/-!
# Closing what is open

Wherever reading has got to without an error, more tokens make what has been read a program. One
token after the other brings the open forms closer to their ends: `missing` bounds how many are
left.
-/

namespace TypedIsl

/-! ## Tokens that are missing -/

/-- A bound on the tokens that a parameter list needs before it may be closed. -/
def OpenParams.missing : OpenParams → Nat
  | names _ => 0
  | nextName _ => 3
  | nextColon _ _ => 2
  | type _ opened => opened.length + 1
  | typeFunction _ opened _ => opened.length + 3
  | typed _ => 0
  | result _ _ => 0

/-- The number of values that a form needs before it may be closed. -/
def Heading.missing {place : Place} (heading : Heading place) (count : Nat) : Nat :=
  match heading.arity? with
  | some arity => arity - count
  | none => 1 - count

/-- A bound on the tokens that close all forms around a place once one more part stands there. -/
def Context.rest {place : Place} : Context place → Nat
  | program _ => 0
  | topValue _ => 0
  | topDefinition _ => 0
  | alone => 0
  | values _ heading read outer => heading.missing (read.length + 1) + 1 + outer.rest
  | arms _ _ _ outer => 1 + outer.rest
  | definitions _ _ outer => 3 + outer.rest
  | bindings _ _ _ outer => 3 + outer.rest

def Opening.missing {place : Place} : Opening place → Nat
  | lambda _ => 4
  | locals _ => 4
  | lets _ _ => 4
  | require _ => 2
  | required _ _ => 1
  | define _ _ => 3
  | function _ _ => 4
  | struct _ _ => 5
  | structName _ _ _ => 4
  | structFields _ _ _ _ => 1
  | params _ read => read.missing + 3

/-- A bound on the tokens that close all forms. -/
def Progress.missing : Progress → Nat
  | waiting (.program _) => 0
  | waiting (.topValue _) => 1
  | waiting (.topDefinition _) => 5
  | waiting .alone => 1
  | waiting (.values _ heading read outer) => heading.missing read.length + 1 + outer.rest
  | waiting (.arms _ clauses _ outer) => (if clauses = [] then 6 else 1) + outer.rest
  | waiting (.definitions _ _ outer) => 3 + outer.rest
  | waiting (.bindings _ _ _ outer) => 3 + outer.rest
  | opened _ context => 4 + context.rest
  | opening head context => head.missing + context.rest
  | finished _ => 0

theorem Context.missing_deliver {place : Place} {context : Context place} {content : place.Content}
    (h : context.Takes content) : (context.deliver content).missing ≤ context.rest := by
  cases context with
  | program | topValue | topDefinition | alone | definitions | bindings => exact Nat.le_refl _
  | values start heading read outer =>
      rw [deliver, Progress.missing, rest, List.length_append]
      exact Nat.le_refl _
  | arms start clauses otherwise? outer =>
      cases content with
      | clause clause => simp [deliver, Progress.missing, rest]
      | otherwise value =>
          have hne : clauses ≠ [] := h.2
          simp [deliver, Progress.missing, rest, hne]

theorem ParamsOwner.missing_resume {place : Place} (owner : ParamsOwner place) (params : Params)
    (context : Context place) : (owner.resume params context).missing < 3 + context.rest := by
  cases owner <;>
    simp [resume, Progress.missing, Heading.missing, Heading.arity?, Opening.missing]

/-! ## Room for more -/

namespace Heading

/-- The form does not have too many values. -/
def Holds {place : Place} (heading : Heading place) (count : Nat) : Prop :=
  ∀ arity, heading.arity? = some arity → count ≤ arity

variable {place : Place} {heading : Heading place} {count : Nat}

theorem Holds.of_wants (h : heading.wants count = true) : heading.Holds count := by
  intro arity harity
  have hlt : count < arity := by simpa [wants, harity] using h
  exact Nat.le_of_lt hlt

theorem Holds.succ (h : heading.wants count = true) : heading.Holds (count + 1) := by
  intro arity harity
  have hlt : count < arity := by simpa [wants, harity] using h
  exact hlt

theorem wants_of_missing (h : 0 < heading.missing count) : heading.wants count = true := by
  unfold missing at h
  unfold wants
  cases harity : heading.arity? with
  | none => rfl
  | some arity =>
      rw [harity] at h
      have hlt : count < arity := Nat.lt_of_sub_pos h
      simpa using hlt

theorem missing_succ_lt (h : 0 < heading.missing count) :
    heading.missing (count + 1) < heading.missing count := by
  unfold missing at h ⊢
  split at h <;> omega

/-- A form that has all its values may be closed. -/
theorem Holds.exists_build {values : List Value} (h : heading.Holds values.length)
    (hmissing : heading.missing values.length = 0) (range : Range) :
    ∃ content, heading.build? range values = some content := by
  have harity : ∀ arity, heading.arity? = some arity → values.length = arity := by
    intro arity harity
    have hle := h arity harity
    rw [missing, harity] at hmissing
    dsimp only at hmissing
    omega
  cases heading with
  | call =>
      cases values with
      | nil => exact absurd hmissing (by decide)
      | cons callee args => exact ⟨_, rfl⟩
  | branch =>
      obtain ⟨condition, thenArm, elseArm, rfl⟩ := List.length_eq_three.mp (harity 3 rfl)
      exact ⟨_, rfl⟩
  | clause =>
      obtain ⟨condition, body, rfl⟩ := List.length_eq_two.mp (harity 2 rfl)
      exact ⟨_, rfl⟩
  | lambda | locals | lets | otherwise | binding | function | constant =>
      obtain ⟨value, rfl⟩ := List.length_eq_one_iff.mp (harity 1 rfl)
      exact ⟨_, rfl⟩

end Heading

/-- One more part may stand at the place and in the forms around it, which belong to a program. -/
def Context.Open {place : Place} : Context place → Prop
  | program _ => True
  | topValue _ => True
  | topDefinition _ => True
  | alone => False
  | values _ heading read outer => heading.wants read.length = true ∧ outer.Open
  | arms _ _ _ outer => outer.Open
  | definitions _ _ outer => outer.Open
  | bindings _ _ _ outer => outer.Open

/-- A parameter list may be closed, or one more token brings it closer to that. -/
theorem OpenParams.exists_accept? (read : OpenParams) :
    (∀ closing, ∃ params, read.finish? closing = some params) ∨
      ∃ kind, kind.isDocstring = false ∧ ∃ next,
        read.accept? ⟨kind, default⟩ = some next ∧ next.missing < read.missing := by
  cases read with
  | names | typed | result => exact .inl fun _ => ⟨_, rfl⟩
  | nextName read => exact .inr ⟨.identifier "x", rfl, _, rfl, Nat.lt_succ_self 2⟩
  | nextColon read name => exact .inr ⟨.colon, rfl, _, rfl, Nat.lt_succ_self 1⟩
  | typeFunction slot opened start =>
      exact .inr ⟨.identifier "x", rfl, _, rfl, Nat.lt_succ_self (opened.length + 2)⟩
  | type slot opened =>
      cases opened with
      | nil =>
          refine .inr ⟨.identifier "x", rfl, _, rfl, ?_⟩
          cases slot <;> exact Nat.one_pos
      | cons innermost outer =>
          refine .inr ⟨.closeParen, rfl, _, rfl, ?_⟩
          cases outer with
          | nil => cases slot <;> exact Nat.two_pos
          | cons next outer => exact Nat.lt_succ_self _

namespace Progress

/-- The forms that are open belong to a program, and none of them has too many values. -/
def Open : Progress → Prop
  | waiting (.values _ heading read outer) => heading.Holds read.length ∧ outer.Open
  | waiting context => context.Open
  | opened _ context => context.Open
  | opening _ context => context.Open
  | finished _ => False

section

variable {place : Place} {context : Context place} {arrival paren : Arrival} {next : Progress}

theorem open_deliver (h : context.Open) (content : place.Content) :
    (context.deliver content).Open := by
  cases context with
  | program | topValue | topDefinition => trivial
  | alone => exact h.elim
  | definitions | bindings => exact h
  | arms => cases content <;> exact h
  | values start heading read outer =>
      obtain ⟨hwants, houter⟩ := h
      refine ⟨?_, houter⟩
      rw [List.length_append]
      exact .succ hwants

theorem open_resume {owner : ParamsOwner place} (params : Params) (h : context.Open) :
    (owner.resume params context).Open := by
  cases owner with
  | lambda | function => exact ⟨.of_wants rfl, h⟩
  | struct => exact h

theorem open_value? {context : Context .value} (haccept : value? context arrival = some next)
    (h : context.Open) : next.Open := by
  simp only [value?] at haccept
  split at haccept <;> simp only [Option.some.injEq, reduceCtorEq] at haccept <;> subst haccept
  · exact h
  · exact open_deliver h _
  · exact open_deliver h _

theorem open_openedValue? {context : Context .value} {start : Position}
    (haccept : openedValue? start context arrival = some next) (h : context.Open) : next.Open := by
  simp only [openedValue?] at haccept
  split at haccept
  case h_7 => exact open_value? haccept ⟨rfl, h⟩
  all_goals
    obtain rfl := Option.some.inj haccept
    first
      | exact h
      | exact ⟨.of_wants rfl, h⟩

theorem open_opened? (haccept : opened? paren context arrival = some next) (h : context.Open) :
    next.Open := by
  cases context <;> simp only [opened?] at haccept
  case topValue | alone | values => exact open_openedValue? haccept h
  case program =>
    split at haccept
    case h_3 => exact open_openedValue? haccept trivial
    all_goals
      obtain rfl := Option.some.inj haccept
      trivial
  case arms =>
    split at haccept
    · cases haccept
    · obtain rfl := Option.some.inj haccept
      exact ⟨.of_wants rfl, h⟩
    · exact open_value? haccept ⟨rfl, h⟩
  all_goals
    split at haccept
    · obtain rfl := Option.some.inj haccept
      first
        | exact h
        | exact ⟨.of_wants rfl, h⟩
    · cases haccept

theorem open_waiting? (haccept : waiting? context arrival = some next)
    (h : (waiting context).Open) : next.Open := by
  cases context <;> simp only [waiting?] at haccept
  case topValue => exact open_value? haccept trivial
  case alone => exact h.elim
  case program =>
    split at haccept
    · obtain rfl := Option.some.inj haccept
      trivial
    · exact open_value? haccept trivial
  case values =>
    split at haccept
    · obtain ⟨content, -, rfl⟩ := Option.map_eq_some_iff.mp haccept
      exact open_deliver h.2 _
    · split at haccept
      · rename_i hwants
        exact open_value? haccept ⟨hwants, h.2⟩
      · cases haccept
  case arms start clauses otherwise? outer =>
    have houter : outer.Open := h
    split at haccept
    · obtain rfl := Option.some.inj haccept
      exact h
    · split at haccept
      · cases haccept
      · obtain rfl := Option.some.inj haccept
        exact open_deliver houter _
    · cases haccept
  case topDefinition =>
    split at haccept
    · obtain rfl := Option.some.inj haccept
      trivial
    · cases haccept
  case definitions | bindings =>
    split at haccept
    · obtain rfl := Option.some.inj haccept
      exact h
    · obtain rfl := Option.some.inj haccept
      exact ⟨.of_wants rfl, h⟩
    · cases haccept

theorem open_opening? {head : Opening place} (haccept : opening? head context arrival = some next)
    (h : context.Open) : next.Open := by
  simp only [opening?] at haccept
  split at haccept
  case h_12 =>
    split at haccept
    · obtain rfl := Option.some.inj haccept
      exact open_resume _ h
    · obtain ⟨_, -, rfl⟩ := Option.map_eq_some_iff.mp haccept
      exact h
  case h_13 => cases haccept
  all_goals
    obtain rfl := Option.some.inj haccept
    first
      | exact h
      | exact open_deliver h _
      | exact ⟨.of_wants rfl, h⟩

theorem open_accept? {progress : Progress} (haccept : progress.accept? arrival = some next)
    (h : progress.Open) : next.Open := by
  cases progress with
  | waiting context => exact open_waiting? haccept h
  | opened paren context => exact open_opened? haccept h
  | opening head context => exact open_opening? haccept h
  | finished value => cases haccept

end

/-! ## One token closer -/

/-- There is a token that may come next and leaves fewer to come. -/
def Advances (p : Progress) : Prop :=
  ∃ kind, kind.isDocstring = false ∧ ∀ index docs, ∃ next,
    p.accept? ⟨⟨kind, default⟩, index, docs⟩ = some next ∧ next.missing < p.missing

theorem Advances.of_accept? {p : Progress} (kind : TokenKind) (hkind : kind.isDocstring = false)
    (next : Arrival → Progress)
    (haccept : ∀ arrival, arrival.token.kind = kind → p.accept? arrival = some (next arrival))
    (hmissing : ∀ arrival, (next arrival).missing < p.missing) : p.Advances :=
  ⟨kind, hkind, fun _ _ => ⟨_, haccept _ rfl, hmissing _⟩⟩

section

variable {place : Place} {context : Context place}

/-- Closing a form leaves what its place needs once the form stands there. -/
theorem Advances.of_close {p : Progress} (content : Arrival → place.Content)
    (htakes : ∀ arrival, context.Takes (content arrival))
    (haccept : ∀ arrival, arrival.token.kind = .closeParen →
      p.accept? arrival = some (context.deliver (content arrival)))
    (hlt : context.rest < p.missing) : p.Advances :=
  .of_accept? .closeParen rfl _ haccept fun arrival =>
    Nat.lt_of_le_of_lt (Context.missing_deliver (htakes arrival)) hlt

/-- A value may stand at a place for values. -/
theorem value?_literal {context : Context .value} {arrival : Arrival} {value : Literal}
    (h : arrival.token.kind = .literal value) :
    value? context arrival = some (context.deliver (.literal arrival.token.range value)) := by
  simp [value?, h]

theorem openedValue?_literal {start : Position} {context : Context .value} {arrival : Arrival}
    {value : Literal} (h : arrival.token.kind = .literal value) :
    openedValue? start context arrival =
      some (waiting (.values start .call [.literal arrival.token.range value] context)) := by
  simp only [openedValue?, h, value?_literal h]
  rfl

theorem advances_values {start : Position} {heading : Heading place} {read : List Value}
    {outer : Context place} (hholds : heading.Holds read.length)
    (htakes : ∀ range values content, heading.build? range values = some content →
      outer.Takes content) : (waiting (.values start heading read outer)).Advances := by
  by_cases hmissing : heading.missing read.length = 0
  · refine ⟨.closeParen, rfl, fun index docs => ?_⟩
    obtain ⟨content, hbuild⟩ := hholds.exists_build hmissing ⟨start, default⟩
    refine ⟨outer.deliver content, ?_, ?_⟩
    · exact congrArg (Option.map _) hbuild
    · have hrest := Context.missing_deliver (htakes _ _ _ hbuild)
      rw [missing]
      omega
  · have hpos := Nat.pos_of_ne_zero hmissing
    refine .of_accept? (.literal (.boolean true)) rfl
      (fun arrival => waiting (.values start heading
        (read ++ [.literal arrival.token.range (.boolean true)]) outer))
      (fun arrival hkind => ?_) fun arrival => ?_
    · simp only [accept?, waiting?, hkind, Heading.wants_of_missing hpos, if_true,
        value?_literal hkind]
      rfl
    · have hlt := Heading.missing_succ_lt hpos
      rw [missing, missing, List.length_append]
      exact Nat.add_lt_add_right (Nat.add_lt_add_right hlt 1) _

theorem advances_waiting (hp : context.Proper anyDoc) (ho : (waiting context).Open)
    (hne : ∀ read, waiting context ≠ waiting (.program read)) : (waiting context).Advances := by
  cases context with
  | program read => exact absurd rfl (hne read)
  | alone => exact ho.elim
  | values start heading read outer => exact advances_values ho.1 hp.2.2.2
  | topValue read =>
      exact .of_accept? (.literal (.boolean true)) rfl
        (fun arrival => (Context.topValue read).deliver (.literal arrival.token.range _))
        (fun arrival => value?_literal) fun arrival => Nat.zero_lt_one
  | topDefinition read =>
      exact .of_accept? .openParen rfl (fun arrival => opened arrival (.topDefinition read))
        (fun arrival hkind => by simp [accept?, waiting?, hkind]) fun arrival => Nat.lt_succ_self 4
  | definitions start read outer =>
      refine .of_accept? .closeParen rfl (fun _ => waiting (.values start (.locals read) [] outer))
        (fun arrival hkind => by simp [accept?, waiting?, hkind]) fun arrival => ?_
      simp [missing, Heading.missing, Heading.arity?]
  | bindings start kind read outer =>
      refine .of_accept? .closeParen rfl
        (fun _ => waiting (.values start (.lets kind read) [] outer))
        (fun arrival hkind => by simp [accept?, waiting?, hkind]) fun arrival => ?_
      simp [missing, Heading.missing, Heading.arity?]
  | arms start clauses otherwise? outer =>
      by_cases hclauses : clauses = []
      · subst hclauses
        cases otherwise? with
        | some value => exact absurd rfl hp.2.1
        | none =>
            refine .of_accept? .openParen rfl
              (fun arrival => opened arrival (.arms start [] none outer))
              (fun arrival hkind => by simp [accept?, waiting?, hkind]) fun arrival => ?_
            simp only [missing, Context.rest, if_true]
            omega
      · refine .of_close (fun arrival => Value.cond ⟨start, arrival.token.range.stop⟩ clauses
            otherwise?) (fun _ => outer.takes_value _)
          (fun arrival hkind => by simp [accept?, waiting?, hkind, hclauses]) ?_
        simp only [missing, if_neg hclauses]
        omega

theorem advances_opened (paren : Arrival) (ho : context.Open) :
    (opened paren context).Advances := by
  have hcall : ∀ outer : Context .value, outer.rest = context.rest →
      (∀ arrival value, arrival.token.kind = .literal value →
        opened? paren context arrival = openedValue? paren.start outer arrival) →
      (opened paren context).Advances := by
    intro outer hrest hopened
    refine .of_accept? (.literal (.boolean true)) rfl (fun arrival =>
      waiting (.values paren.start .call [.literal arrival.token.range (.boolean true)] outer))
      (fun arrival hkind => (hopened arrival _ hkind).trans (openedValue?_literal hkind))
      fun arrival => ?_
    simp only [missing, Heading.missing, Heading.arity?, List.length_singleton, hrest]
    omega
  cases context with
  | alone => exact ho.elim
  | program read =>
      exact hcall (.topValue read) rfl fun arrival value hkind => by simp only [opened?, hkind]
  | topValue read => exact hcall (.topValue read) rfl fun _ _ _ => rfl
  | values start heading read outer =>
      exact hcall (.values start heading read outer) rfl fun _ _ _ => rfl
  | topDefinition | definitions =>
      exact .of_accept? (.keyword .define) rfl (fun _ => opening (.define paren.start paren.docs) _)
        (fun arrival hkind => by simp only [accept?, opened?, hkind])
        fun _ => Nat.add_lt_add_right (Nat.lt_succ_self 3) _
  | bindings start kind read outer =>
      refine .of_accept? (.identifier "x") rfl (fun arrival => waiting (.values paren.start
          (.binding ⟨"x", arrival.token.range⟩) [] (.bindings start kind read outer)))
        (fun arrival hkind => by simp only [accept?, opened?, hkind]) fun arrival => ?_
      simp only [missing, Heading.missing, Heading.arity?, List.length_nil]
      omega
  | arms start clauses otherwise? outer =>
      refine .of_accept? (.literal (.boolean true)) rfl (fun arrival =>
          waiting (.values paren.start .clause [.literal arrival.token.range (.boolean true)]
            (.arms start clauses otherwise? outer)))
        (fun arrival hkind => ?_) fun arrival => ?_
      · simp only [accept?, opened?, hkind, value?_literal hkind]
        rfl
      · simp only [missing, Heading.missing, Heading.arity?, List.length_singleton]
        omega

theorem advances_params (owner : ParamsOwner place) (read : OpenParams) :
    (opening (.params owner read) context).Advances := by
  rcases read.exists_accept? with hfinish | ⟨kind, hkind, next, haccept, hlt⟩
  · refine ⟨.closeParen, rfl, fun index docs => ?_⟩
    obtain ⟨params, hparams⟩ := hfinish (default : Range).start
    refine ⟨owner.resume params context, ?_, ?_⟩
    · simp only [accept?, opening?, hparams]
    · refine Nat.lt_of_lt_of_le (owner.missing_resume params context) ?_
      exact Nat.add_le_add_right (Nat.le_add_left 3 _) _
  · refine ⟨kind, hkind, fun index docs => ⟨_, accept?_params haccept, ?_⟩⟩
    exact Nat.add_lt_add_right (Nat.add_lt_add_right hlt 3) _

theorem advances_opening (head : Opening place) : (opening head context).Advances := by
  cases head with
  | params owner read => exact advances_params owner read
  | lambda start =>
      exact .of_accept? .openParen rfl
        (fun _ => opening (.params (.lambda start) (.names [])) context)
        (fun arrival hkind => by simp only [accept?, opening?, hkind])
        fun _ => Nat.add_lt_add_right (Nat.lt_succ_self 3) _
  | locals start =>
      exact .of_accept? .openParen rfl (fun _ => waiting (.definitions start [] context))
        (fun arrival hkind => by simp only [accept?, opening?, hkind])
        fun _ => Nat.add_lt_add_right (Nat.lt_succ_self 3) _
  | lets start kind =>
      exact .of_accept? .openParen rfl (fun _ => waiting (.bindings start kind [] context))
        (fun arrival hkind => by simp only [accept?, opening?, hkind])
        fun _ => Nat.add_lt_add_right (Nat.lt_succ_self 3) _
  | require start =>
      exact .of_accept? (.identifier "x") rfl
        (fun arrival => opening (.required start ⟨"x", arrival.token.range⟩) context)
        (fun arrival hkind => by simp only [accept?, opening?, hkind])
        fun _ => Nat.add_lt_add_right (Nat.lt_succ_self 1) _
  | required start library =>
      exact .of_close (fun arrival => Value.require ⟨start, arrival.token.range.stop⟩ library)
        (fun _ => context.takes_value _)
        (fun arrival hkind => by simp only [accept?, opening?, hkind])
        (Nat.lt_add_of_pos_left Nat.one_pos)
  | define start docs =>
      exact .of_accept? (.identifier "x") rfl (fun arrival =>
          waiting (.values start (.constant docs ⟨"x", arrival.token.range⟩) [] context))
        (fun arrival hkind => by simp only [accept?, opening?, hkind])
        fun _ => Nat.add_lt_add_right (Nat.lt_succ_self 2) _
  | function start docs =>
      exact .of_accept? (.identifier "x") rfl (fun arrival =>
          opening (.params (.function start docs ⟨"x", arrival.token.range⟩) (.names [])) context)
        (fun arrival hkind => by simp only [accept?, opening?, hkind])
        fun _ => Nat.add_lt_add_right (Nat.lt_succ_self 3) _
  | struct start docs =>
      exact .of_accept? (.identifier "x") rfl
        (fun arrival => opening (.structName start docs ⟨"x", arrival.token.range⟩) context)
        (fun arrival hkind => by simp only [accept?, opening?, hkind])
        fun _ => Nat.add_lt_add_right (Nat.lt_succ_self 4) _
  | structName start docs name =>
      exact .of_accept? .openParen rfl
        (fun _ => opening (.params (.struct start docs name) (.names [])) context)
        (fun arrival hkind => by simp only [accept?, opening?, hkind])
        fun _ => Nat.add_lt_add_right (Nat.lt_succ_self 3) _
  | structFields start docs name fields =>
      exact .of_close
        (fun arrival => TopLevel.struct ⟨⟨start, arrival.token.range.stop⟩, docs, name, fields⟩)
        (fun _ => context.takes_topLevel _)
        (fun arrival hkind => by simp only [accept?, opening?, hkind])
        (Nat.lt_add_of_pos_left Nat.one_pos)

end

/-- Unless all forms of a program are closed, one more token brings them closer to it. -/
theorem advances {p : Progress} (hp : p.Proper anyDoc) (ho : p.Open)
    (hne : ∀ read, p ≠ waiting (.program read)) : p.Advances := by
  cases p with
  | waiting context => exact advances_waiting hp ho hne
  | opened paren context => exact advances_opened paren ho
  | opening head context => exact advances_opening head
  | finished value => exact ho.elim

/-- All open forms can be closed. -/
theorem exists_completion {p : Progress} (hp : p.Proper anyDoc) (ho : p.Open) (index : Nat)
    (docs : List String) :
    ∃ tokens read, p.run index docs tokens = .ok (waiting (.program read)) := by
  induction hmissing : p.missing using Nat.strongRecOn generalizing p index docs with
  | ind count ih =>
      subst hmissing
      by_cases hdone : ∃ read, p = waiting (.program read)
      · obtain ⟨read, rfl⟩ := hdone
        exact ⟨[], read, rfl⟩
      · obtain ⟨kind, hkind, haccept⟩ := advances hp ho fun read h => hdone ⟨read, h⟩
        obtain ⟨next, hnext, hlt⟩ := haccept index docs
        have hproper := (accept?_spec hnext (fun _ _ => trivial) hp).2
        obtain ⟨tokens, read, hrun⟩ :=
          ih next.missing hlt hproper (open_accept? hnext ho) (index + 1) [] rfl
        have hspoken : ∀ text, kind ≠ .docstring text := by
          rintro text rfl
          exact absurd hkind (by simp [TokenKind.isDocstring])
        refine ⟨⟨kind, default⟩ :: tokens, read, ?_⟩
        rw [run_cons hspoken, hnext]
        exact hrun

end Progress

end TypedIsl
