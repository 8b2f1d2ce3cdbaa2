import Mathlib.Data.String.Basic
import TypedIsl.Proofs.Token.Lexing

/-!
# Stretches of a text between tokens

A text without a fault can be cut before one of its tokens and after another one. The stretch in
between lexes to the tokens that stand there, with positions counted from its own start.
-/

namespace TypedIsl

/-! ## Counting positions anew -/

/-- The position, counted from `p` on. -/
def Position.since (p q : Position) : Position :=
  ⟨q.line - p.line + 1, if q.line = p.line then q.column - p.column + 1 else q.column,
    q.index - p.index⟩

/-- `q` stands as far from `p` as `r` does from the start of a text. -/
structure Position.Shifted (p q r : Position) : Prop where
  line : q.line + 1 = p.line + r.line
  column : if q.line = p.line then q.column + 1 = p.column + r.column else q.column = r.column
  index : q.index = p.index + r.index
  pos : 1 ≤ r.line ∧ 1 ≤ r.column

namespace Position

variable {p q r : Position}

theorem index_afterAll (p : Position) (cs : List Char) :
    (p.afterAll cs).index = p.index + String.utf8Len cs := by
  induction cs generalizing p with
  | nil => rfl
  | cons c cs ih =>
      have hafter : (p.after c).index = p.index + c.utf8Size := by
        unfold after
        split <;> rfl
      rw [afterAll_cons, ih, hafter, String.utf8Len_cons]
      omega

theorem shifted_first (p : Position) : p.Shifted p first :=
  ⟨rfl, by simp [first], rfl, by simp [first]⟩

theorem Shifted.after (h : p.Shifted q r) (c : Char) : p.Shifted (q.after c) (r.after c) := by
  obtain ⟨hline, hcolumn, hindex, hpos⟩ := h
  unfold Position.after
  by_cases hc : c = '\n'
  · rw [if_pos hc, if_pos hc]
    refine ⟨by dsimp only; omega, ?_, by dsimp only; omega, by simp⟩
    dsimp only
    rw [if_neg (by omega)]
  · rw [if_neg hc, if_neg hc]
    refine ⟨hline, ?_, by dsimp only; omega, hpos.1, by simp⟩
    dsimp only
    split at hcolumn
    · rw [if_pos ‹_›]
      omega
    · rw [if_neg ‹_›, hcolumn]

theorem Shifted.afterAll (h : p.Shifted q r) (cs : List Char) :
    p.Shifted (q.afterAll cs) (r.afterAll cs) := by
  induction cs generalizing q r with
  | nil => exact h
  | cons c cs ih => exact ih (h.after c)

theorem Shifted.since_eq (h : p.Shifted q r) : p.since q = r := by
  obtain ⟨hline, hcolumn, hindex, hpos⟩ := h
  rw [since, Position.mk.injEq]
  refine ⟨by omega, ?_, by omega⟩
  split at hcolumn
  · rw [if_pos ‹_›]
    omega
  · rw [if_neg ‹_›, hcolumn]

theorem since_afterAll (p : Position) (cs : List Char) :
    p.since (p.afterAll cs) = first.afterAll cs :=
  ((shifted_first p).afterAll cs).since_eq

end Position

/-! ## Texts and their tokens -/

/-- The text, which stands at `p`, lexes to these tokens without a fault. -/
inductive Lexes : Position → List Char → List Token → Prop
  | nil {p : Position} : Lexes p [] []
  | blank {p : Position} {c : Char} {cs rest : List Char} {tokens : List Token}
      (hscan : scan c (cs ++ rest) = .blank cs.length)
      (hrest : Lexes (p.afterAll (c :: cs)) rest tokens) : Lexes p (c :: cs ++ rest) tokens
  | token {p : Position} {c : Char} {cs rest : List Char} {kind : TokenKind} {tokens : List Token}
      (hscan : scan c (cs ++ rest) = .token kind cs.length)
      (hrest : Lexes (p.afterAll (c :: cs)) rest tokens) :
      Lexes p (c :: cs ++ rest) (⟨kind, ⟨p, p.afterAll (c :: cs)⟩⟩ :: tokens)

variable {p q : Position} {text : List Char} {tokens before own after : List Token} {token : Token}

theorem Lexes.lexFrom_eq (h : Lexes p text tokens) : lexFrom 0 p text = ⟨tokens, none⟩ := by
  induction h with
  | nil => rfl
  | blank hscan _ ih =>
      rw [List.cons_append, lexFrom]
      dsimp only
      rw [hscan]
      dsimp only
      rw [lexFrom_skip]
      exact ih
  | token hscan _ ih =>
      rw [List.cons_append, lexFrom]
      dsimp only
      rw [hscan]
      dsimp only
      rw [lexFrom_skip, List.take_left, ← Position.afterAll_cons, ih]

/-- What is skipped is a piece of the text. -/
theorem exists_piece {extra : Nat} {cs : List Char} (h : extra ≤ cs.length) :
    ∃ piece rest, cs = piece ++ rest ∧ piece.length = extra :=
  ⟨cs.take extra, cs.drop extra, (List.take_append_drop extra cs).symm, List.length_take_of_le h⟩

theorem lexes_of_lexFrom {p : Position} {text : List Char} {tokens : List Token}
    (h : lexFrom 0 p text = ⟨tokens, none⟩) : Lexes p text tokens := by
  match text with
  | [] =>
      obtain rfl : [] = tokens := congrArg Lexed.tokens h
      exact .nil
  | c :: rest =>
      have hextra : (scan c rest).extra ≤ rest.length := scan_extra_le
      rw [lexFrom] at h
      dsimp only at h
      cases hscan : scan c rest with
      | fault fault extra =>
          rw [hscan] at h
          exact absurd (congrArg Lexed.error? h) (by simp)
      | blank extra =>
          rw [hscan] at h hextra
          obtain ⟨cs, rest, rfl, rfl⟩ := exists_piece hextra
          dsimp only at h
          rw [lexFrom_skip] at h
          exact .blank hscan (lexes_of_lexFrom h)
      | token kind extra =>
          rw [hscan] at h hextra
          obtain ⟨cs, rest, rfl, rfl⟩ := exists_piece hextra
          dsimp only at h
          rw [lexFrom_skip, List.take_left] at h
          obtain ⟨rfl, herror⟩ := Lexed.mk.inj h
          refine .token hscan (lexes_of_lexFrom ?_)
          rw [← herror]
          rfl
termination_by text.length

/-! ## The order of tokens -/

/-- The tokens are not empty, and none starts before the one before it has ended. -/
structure InOrder (tokens : List Token) : Prop where
  nonempty : ∀ token ∈ tokens, token.range.start.index < token.range.stop.index
  pairwise : tokens.Pairwise fun token next => token.range.stop.index ≤ next.range.start.index

theorem InOrder.sublist (h : InOrder tokens) (hsub : own.Sublist tokens) : InOrder own :=
  ⟨fun token htoken => h.nonempty token (hsub.subset htoken), h.pairwise.sublist hsub⟩

theorem Lexes.le_start (h : Lexes p text tokens) :
    ∀ token ∈ tokens, p.index ≤ token.range.start.index := by
  induction h with
  | nil => simp
  | @blank p c cs _ _ _ _ ih =>
      intro token htoken
      have hle := ih token htoken
      rw [Position.index_afterAll] at hle
      omega
  | @token p c cs _ _ _ _ _ ih =>
      intro token htoken
      rcases List.mem_cons.mp htoken with rfl | htoken
      · exact Nat.le_refl _
      · have hle := ih token htoken
        rw [Position.index_afterAll] at hle
        omega

theorem Lexes.inOrder (h : Lexes p text tokens) : InOrder tokens := by
  induction h with
  | nil => exact ⟨by simp, .nil⟩
  | blank _ _ ih => exact ih
  | @token p c cs rest kind tokens _ hrest ih =>
      refine ⟨List.forall_mem_cons.mpr ⟨?_, ih.nonempty⟩, .cons hrest.le_start ih.pairwise⟩
      have hsize := Char.utf8Size_pos c
      have hstop := Position.index_afterAll p (c :: cs)
      rw [String.utf8Len_cons] at hstop
      dsimp only
      omega

/-! ## Cutting -/

/-- The text from a token on. -/
theorem Lexes.drop (h : Lexes p text (before ++ token :: after)) :
    ∃ front back, text = front ++ back ∧ token.range.start = p.afterAll front ∧
      Lexes (p.afterAll front) back (token :: after) := by
  generalize htokens : before ++ token :: after = tokens at h
  induction h generalizing before with
  | nil => exact absurd htokens (by simp)
  | @blank p c cs _ _ _ _ ih =>
      obtain ⟨front, back, rfl, hstart, hback⟩ := ih htokens
      rw [← Position.afterAll_append] at hstart hback
      exact ⟨c :: cs ++ front, back, by simp, hstart, hback⟩
  | @token p c cs _ _ _ hscan hrest ih =>
      cases before with
      | nil =>
          obtain ⟨rfl, rfl⟩ := List.cons.inj htokens
          exact ⟨[], _, rfl, rfl, .token hscan hrest⟩
      | cons first before =>
          obtain ⟨front, back, rfl, hstart, hback⟩ := ih (List.cons.inj htokens).2
          rw [← Position.afterAll_append] at hstart hback
          exact ⟨c :: cs ++ front, back, by simp, hstart, hback⟩

theorem Scan.EndsWithin.mono {result : Scan} {n m : Nat} (h : result.EndsWithin n) (hle : n ≤ m) :
    result.EndsWithin m := by
  cases result with
  | fault => exact h
  | blank extra => exact Nat.le_trans h hle
  | token kind extra => exact Nat.le_trans h hle

/-- A lexeme is also found if the text stops somewhere after it. -/
theorem scan_front {c : Char} {cs front back : List Char} {result : Scan}
    (h : scan c (cs ++ (front ++ back)) = result) (hends : result.EndsWithin cs.length) :
    scan c (cs ++ front) = result := by
  rw [← List.append_assoc] at h
  rw [scan_append, h]
  rw [h]
  exact hends.mono (by simp)

/-- The text up to the end of a token. -/
theorem Lexes.take (h : Lexes p text (own ++ after)) (hne : own ≠ []) :
    ∃ front back, text = front ++ back ∧ Lexes p front own ∧
      ∀ last ∈ own.getLast?, last.range.stop = p.afterAll front := by
  generalize htokens : own ++ after = tokens at h
  induction h generalizing own with
  | nil => exact absurd (List.append_eq_nil_iff.mp htokens).1 hne
  | @blank p c cs _ _ hscan _ ih =>
      obtain ⟨front, back, rfl, hfront, hlast⟩ := ih hne htokens
      rw [← Position.afterAll_append] at hlast
      exact ⟨c :: cs ++ front, back, by simp, .blank (scan_front hscan (Nat.le_refl _)) hfront,
        hlast⟩
  | @token p c cs rest kind _ hscan hrest ih =>
      obtain ⟨first, own, rfl⟩ := List.exists_cons_of_ne_nil hne
      obtain ⟨rfl, hafter⟩ := List.cons.inj htokens
      by_cases hown : own = []
      · -- The last token may look at characters after it, which are cut off here.
        have hscan : scan c (cs ++ ([] ++ rest)) = .token kind cs.length := hscan
        rw [hown]
        exact ⟨c :: cs ++ [], rest, by simp, .token (scan_front hscan (Nat.le_refl _)) .nil,
          by simp⟩
      · obtain ⟨front, back, rfl, hfront, hlast⟩ := ih hown hafter
        rw [← Position.afterAll_append] at hlast
        refine ⟨c :: cs ++ front, back, by simp,
          .token (scan_front hscan (Nat.le_refl _)) hfront, ?_⟩
        rw [List.getLast?_cons_of_ne_nil hown]
        exact hlast

/-! ## Stretches of a text -/

def Range.move (f : Position → Position) (range : Range) : Range :=
  ⟨f range.start, f range.stop⟩

def Token.move (f : Position → Position) (token : Token) : Token :=
  ⟨token.kind, token.range.move f⟩

/-- The same text in another place. -/
theorem Lexes.move {f : Position → Position} (h : Lexes p text tokens)
    (hf : ∀ cs, f (p.afterAll cs) = q.afterAll cs) :
    Lexes q text (tokens.map (Token.move f)) := by
  induction h generalizing q with
  | nil => exact .nil
  | @blank p c cs _ _ hscan _ ih =>
      refine .blank hscan (ih fun ds => ?_)
      rw [← Position.afterAll_append, hf, Position.afterAll_append]
  | @token p c cs _ kind _ hscan _ ih =>
      have hrest := ih (q := q.afterAll (c :: cs)) fun ds => by
        rw [← Position.afterAll_append, hf, Position.afterAll_append]
      have htoken : Token.move f ⟨kind, ⟨p, p.afterAll (c :: cs)⟩⟩ =
          ⟨kind, ⟨q, q.afterAll (c :: cs)⟩⟩ := by
        rw [Token.move, Range.move, hf, show f p = q from hf []]
      rw [List.map_cons, htoken]
      exact .token hscan hrest

/-- The stretch of a text from one token to another. -/
theorem Lexes.between {first last : Token} (h : Lexes p text (before ++ own ++ after))
    (hfirst : own.head? = some first) (hlast : own.getLast? = some last) :
    ∃ front middle back, text = front ++ middle ++ back ∧ first.range.start = p.afterAll front ∧
      last.range.stop = p.afterAll (front ++ middle) ∧ Lexes (p.afterAll front) middle own := by
  obtain ⟨own, rfl⟩ := List.head?_eq_some_iff.mp hfirst
  rw [List.append_assoc, List.cons_append] at h
  obtain ⟨front, rest, rfl, hstart, hrest⟩ := h.drop
  rw [← List.cons_append] at hrest
  obtain ⟨middle, back, rfl, hmiddle, hstop⟩ := hrest.take (by simp)
  refine ⟨front, middle, back, by simp, hstart, ?_, hmiddle⟩
  rw [hstop last hlast, Position.afterAll_append]

/-- The stretch from one token to another lexes to the tokens in between. -/
theorem Lexes.cut {first last : Token} (h : Lexes .first text (before ++ own ++ after))
    (hfirst : own.head? = some first) (hlast : own.getLast? = some last) :
    ∃ front middle back, text = front ++ middle ++ back ∧
      first.range.start.index = String.utf8Len front ∧
      last.range.stop.index = String.utf8Len front + String.utf8Len middle ∧
      Lexes .first middle (own.map (Token.move first.range.start.since)) := by
  obtain ⟨front, middle, back, htext, hstart, hstop, hmiddle⟩ := h.between hfirst hlast
  refine ⟨front, middle, back, htext, ?_, ?_, ?_⟩
  · rw [hstart, Position.index_afterAll]
    exact Nat.zero_add _
  · rw [hstop, Position.index_afterAll, String.utf8Len_append]
    exact Nat.zero_add _
  · rw [hstart]
    exact hmiddle.move (Position.since_afterAll _)

end TypedIsl
