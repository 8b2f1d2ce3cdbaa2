import Mathlib.Data.List.Induction
import TypedIsl.Proofs.Token.Cutting

/-!
# Where tokens and faults stand

The positions that the lexer attaches are those of the text: they count the bytes, the lines and
the characters before them. This holds for the tokens before a fault and for the fault too.
-/

namespace TypedIsl

/-! ## Points of a text -/

/-- The position of the point of a text that comes after the characters `before`. Its column counts
the characters after the last newline among them. -/
def Position.beyond (before : List Char) : Position where
  line := 1 + before.count '\n'
  column := 1 + (before.reverse.takeWhile (· ≠ '\n')).length
  index := String.utf8Len before

/-- The position is that of a point between characters of the text, or at one of its ends. -/
def Position.PointsInto (position : Position) (source : String) : Prop :=
  ∃ before after, source.toList = before ++ after ∧ position = .beyond before

theorem utf8ByteSize_eq (source : String) : source.utf8ByteSize = String.utf8Len source.toList := by
  rw [← String.utf8ByteSize_ofList, String.ofList_toList]

/-- Reading a text from its start leads to the point beyond it. -/
theorem Position.afterAll_first (cs : List Char) : first.afterAll cs = beyond cs := by
  induction cs using List.reverseRecOn with
  | nil => rfl
  | append_singleton cs c ih =>
      rw [afterAll_append, ih, afterAll_cons, afterAll_nil, after]
      by_cases hc : c = '\n'
      · subst hc
        simp [beyond, List.count_append, String.utf8Len_append, Nat.add_assoc]
      · have hcount : [c].count '\n' = 0 := by simp [hc]
        simp [beyond, hc, hcount, List.count_append, String.utf8Len_append]
        omega

/-! ## What the lexer visits -/

/-- The ranges of the tokens, and that of the fault if there is one. -/
def Lexed.ranges (lexed : Lexed) : List Range :=
  lexed.tokens.map (·.range) ++ lexed.error?.toList.map (·.range)

/-- The position is met when the text is read from `p` on. -/
def Position.Meets (p : Position) (text : List Char) (q : Position) : Prop :=
  ∃ front back, text = front ++ back ∧ q = p.afterAll front

theorem Position.Meets.cons {p q : Position} {c : Char} {rest : List Char}
    (h : (p.after c).Meets rest q) : p.Meets (c :: rest) q := by
  obtain ⟨front, back, rfl, rfl⟩ := h
  exact ⟨c :: front, back, rfl, rfl⟩

theorem Position.PointsInto.index_le {position : Position} {source : String}
    (h : position.PointsInto source) : position.index ≤ source.utf8ByteSize := by
  obtain ⟨before, after, hsource, rfl⟩ := h
  rw [utf8ByteSize_eq, hsource, String.utf8Len_append]
  exact Nat.le_add_right _ _

end TypedIsl
