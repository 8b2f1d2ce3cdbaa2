import TypedIsl.Proofs.Token.Positions

/-!
# The text before a fault

A fault cuts the text off where the lexeme starts that is at fault. What stands before it is a text
without a fault, and its tokens are those that the lexer has kept.
-/

namespace TypedIsl

variable {p : Position} {text : List Char} {tokens : List Token} {e : LexicalError}

/-- A token ends within the text. -/
theorem Lexes.stop_le (h : Lexes p text tokens) :
    ∀ token ∈ tokens, token.range.stop.index ≤ (p.afterAll text).index := by
  induction h with
  | nil => exact fun _ htoken => absurd htoken List.not_mem_nil
  | blank _ _ ih =>
      rw [Position.afterAll_append]
      exact ih
  | @token p c cs rest kind tokens _ _ ih =>
      rw [Position.afterAll_append]
      refine List.forall_mem_cons.mpr ⟨?_, ih⟩
      dsimp only
      rw [Position.index_afterAll (p.afterAll (c :: cs))]
      exact Nat.le_add_right _ _

/-- The text up to a fault lexes to the tokens before the fault. No lexeme before it needs to see
what comes after: neither the faulty one nor anything else. -/
theorem lexes_before_fault {p : Position} {text : List Char} {tokens : List Token}
    (h : lexFrom 0 p text = ⟨tokens, some e⟩) :
    ∃ front back, text = front ++ back ∧ e.range.start = p.afterAll front ∧
      Lexes p front tokens := by
  match text with
  | [] => exact absurd (congrArg Lexed.error? h) (by simp [lexFrom])
  | c :: rest =>
      have hextra : (scan c rest).extra ≤ rest.length := scan_extra_le
      rw [lexFrom] at h
      dsimp only at h
      cases hscan : scan c rest with
      | fault fault extra =>
          rw [hscan] at h
          obtain ⟨rfl, herror⟩ := Lexed.mk.inj h
          obtain rfl := Option.some.inj herror
          exact ⟨[], c :: rest, rfl, rfl, .nil⟩
      | blank extra =>
          rw [hscan] at h hextra
          obtain ⟨cs, rest, rfl, rfl⟩ := exists_piece hextra
          dsimp only at h
          rw [lexFrom_skip] at h
          obtain ⟨front, back, rfl, hstart, hfront⟩ := lexes_before_fault h
          rw [← Position.afterAll_cons, ← Position.afterAll_append] at hstart
          exact ⟨c :: cs ++ front, back, by simp, hstart,
            .blank (scan_front hscan (Nat.le_refl _)) hfront⟩
      | token kind extra =>
          rw [hscan] at h hextra
          obtain ⟨cs, rest, rfl, rfl⟩ := exists_piece hextra
          dsimp only at h
          rw [lexFrom_skip, List.take_left] at h
          obtain ⟨rfl, herror⟩ := Lexed.mk.inj h
          have hrest : lexFrom 0 ((p.after c).afterAll cs) rest =
              ⟨(lexFrom 0 ((p.after c).afterAll cs) rest).tokens, some e⟩ := by
            rw [← herror]
          obtain ⟨front, back, rfl, hstart, hfront⟩ := lexes_before_fault hrest
          rw [← Position.afterAll_cons, ← Position.afterAll_append] at hstart
          exact ⟨c :: cs ++ front, back, by simp, hstart,
            .token (scan_front hscan (Nat.le_refl _)) hfront⟩
termination_by text.length

/-- The tokens that are kept when there is a fault are those of the text before the lexeme at fault:
that text has no fault, is as long as the fault says, and no token reaches beyond it. -/
theorem lex_before_fault {source : String} (h : (lex source).error? = some e) :
    ∃ front back, source = front ++ back ∧ front.utf8ByteSize = e.range.start.index ∧
      lex front = ⟨(lex source).tokens, none⟩ ∧
      ∀ token ∈ (lex source).tokens, token.range.stop.index ≤ e.range.start.index := by
  have hlex : lexFrom 0 .first source.toList = ⟨(lex source).tokens, some e⟩ := by
    rw [← h]
    rfl
  obtain ⟨front, back, hsource, hstart, hfront⟩ := lexes_before_fault hlex
  refine ⟨String.ofList front, String.ofList back, ?_, ?_, ?_, ?_⟩
  · rw [← String.ofList_append, ← hsource, String.ofList_toList]
  · rw [hstart, Position.index_afterAll, String.utf8ByteSize_ofList]
    exact (Nat.zero_add _).symm
  · rw [lex, String.toList_ofList, hfront.lexFrom_eq]
  · rw [hstart]
    exact hfront.stop_le

/-- The fault follows the last token closely, and is found only when the string has been read up to
an escape on the next line. -/
theorem lex_before_fault_string :
    let source := "(f #| note |# 12\"a\n\\q\" b)"
    (lex source).error? = some ⟨.invalidEscape 'q', ⟨⟨1, 17, 16⟩, ⟨2, 2, 20⟩⟩⟩ ∧
      ∃ front back, source = front ++ back ∧ front.utf8ByteSize = 16 ∧
        lex front = ⟨(lex source).tokens, none⟩ ∧
        ∀ token ∈ (lex source).tokens, token.range.stop.index ≤ 16 := by
  intro source
  have h : (lex source).error? = some ⟨.invalidEscape 'q', ⟨⟨1, 17, 16⟩, ⟨2, 2, 20⟩⟩⟩ := by
    decide +kernel
  exact ⟨h, lex_before_fault h⟩

end TypedIsl
