import TypedIsl.Token.Lexer

/-!
# What scanned tokens hold

Identifiers are words that are not reserved, numbers are in range, docstrings stay on one line.
-/

namespace TypedIsl

/-- A word begins with the start of an identifier, goes on with characters of identifiers and is
not cut by an arrow. -/
def IsWord (word : String) : Prop :=
  ∃ c cs, word.toList = c :: cs ∧ isIdentifierStart c = true ∧
    (∀ d ∈ cs, isIdentifierChar d = true) ∧ ¬(c = '-' ∧ cs.head? = some '>')

/-- What is known of a token that has been scanned. -/
def TokenKind.Scanned : TokenKind → Prop
  | identifier name => IsWord name ∧ wordKind name = .identifier name
  | literal (.integer value) => 0 ≤ value ∧ value ≤ maxInteger
  | literal (.fraction numerator denominator) =>
      (0 ≤ numerator ∧ numerator ≤ maxInteger) ∧ 0 < denominator ∧ denominator ≤ maxInteger
  | literal (.decimal value) => (∃ m, value = .finite false m) ∨ value = .infinite false
  | literal (.symbol name) => ∀ c ∈ name.toList, isIdentifierChar c = true
  | docstring text => ∀ c ∈ text.toList, c ≠ '\n' ∧ c ≠ '\x00'
  | _ => True

theorem wordKind_cases (word : String) :
    (∃ keyword, wordKind word = .keyword keyword) ∨
      (∃ value, wordKind word = .literal (.boolean value)) ∨ wordKind word = .identifier word := by
  unfold wordKind
  split
  · exact .inl ⟨_, rfl⟩
  split
  · exact .inr (.inl ⟨true, rfl⟩)
  split
  · exact .inr (.inl ⟨false, rfl⟩)
  · exact .inr (.inr rfl)

theorem scanned_wordKind {word : String} (h : IsWord word) : (wordKind word).Scanned := by
  rcases wordKind_cases word with ⟨keyword, hkind⟩ | ⟨value, hkind⟩ | hkind
  · rw [hkind]
    trivial
  · rw [hkind]
    trivial
  · rw [hkind]
    exact ⟨h, hkind⟩

theorem mem_dropEndWhile {p : Char → Bool} {cs : List Char} {c : Char}
    (h : c ∈ dropEndWhile p cs) : c ∈ cs := by
  unfold dropEndWhile at h
  rw [List.mem_reverse] at h
  exact List.mem_reverse.mp (List.dropWhile_subset _ h)

theorem mem_commentText {rest : List Char} {c : Char} (h : c ∈ commentText rest) :
    c ≠ '\n' ∧ c ≠ '\x00' := by
  have hc := List.all_eq_true.mp List.all_takeWhile c h
  simpa using hc

theorem scanned_docstring (rest : List Char) :
    (TokenKind.docstring (String.ofList (dropCarriageReturns (commentText rest)))).Scanned := by
  intro c hc
  rw [String.toList_ofList] at hc
  exact mem_commentText (mem_dropEndWhile hc)

theorem scanned_ofDecimal (d : Decimal) :
    (TokenKind.literal (.decimal (Double.ofDecimal false d))).Scanned := by
  unfold Double.ofDecimal
  split
  · rename_i m _
    exact .inl ⟨m, rfl⟩
  · exact .inr rfl

theorem scanned_scanNumber {c : Char} {rest : List Char} {kind : TokenKind} {extra : Nat}
    (h : scanNumber c rest = .token kind extra) : kind.Scanned := by
  unfold scanNumber at h
  dsimp only at h
  have hsingle : ∀ {n : Nat} {extra' : Nat},
      (if n ≤ maxInteger then Scan.token (.literal (.integer n)) extra'
        else .fault .invalidNumber extra') = .token kind extra → kind.Scanned := by
    intro n extra' h
    split at h
    · rename_i hn
      simp only [Scan.token.injEq] at h
      rw [← h.1]
      exact ⟨Int.natCast_nonneg n, Int.ofNat_le.mpr hn⟩
    · exact absurd h (by simp)
  split at h
  · split at h
    · exact hsingle h
    · split at h
      · simp only [Scan.token.injEq] at h
        rw [← h.1]
        exact scanned_ofDecimal _
      · split at h
        · split at h
          · rename_i hbounds
            simp only [Scan.token.injEq] at h
            rw [← h.1]
            obtain ⟨hn, hd, hne⟩ := hbounds
            exact ⟨⟨Int.natCast_nonneg _, Int.ofNat_le.mpr hn⟩,
              Int.natCast_pos.mpr (Nat.pos_of_ne_zero hne), Int.ofNat_le.mpr hd⟩
          · exact absurd h (by simp)
        · exact hsingle h
  · exact hsingle h

theorem scanned_scanString {rest : List Char} {kind : TokenKind} {extra : Nat}
    (h : scanString rest = .token kind extra) : kind.Scanned := by
  unfold scanString at h
  split at h <;> simp only [Scan.token.injEq, reduceCtorEq] at h
  rw [← h.1]
  trivial

theorem scanned_scanComment {rest : List Char} {kind : TokenKind} {extra : Nat}
    (h : scanComment rest = .token kind extra) : kind.Scanned := by
  unfold scanComment at h
  split at h <;> simp only [Scan.token.injEq, reduceCtorEq] at h <;> rw [← h.1]
  · exact scanned_docstring _
  · exact scanned_docstring _

theorem scanned_scanHash {rest : List Char} {kind : TokenKind} {extra : Nat}
    (h : scanHash rest = .token kind extra) : kind.Scanned := by
  unfold scanHash at h
  split at h
  · split at h <;> exact absurd h (by simp)
  · simp only [Scan.token.injEq] at h
    rw [← h.1]
    trivial
  · simp only [Scan.token.injEq] at h
    rw [← h.1]
    trivial
  · exact absurd h (by simp)

theorem isWord_ofList {c : Char} {rest : List Char} (hc : isIdentifierStart c = true)
    (harrow : ∀ tail, c = '-' → rest = '>' :: tail → False) :
    IsWord (String.ofList (c :: rest.takeWhile isIdentifierChar)) := by
  refine ⟨c, rest.takeWhile isIdentifierChar, String.toList_ofList, hc, ?_, ?_⟩
  · exact List.all_eq_true.mp List.all_takeWhile
  · intro ⟨hminus, hhead⟩
    rw [List.head?_takeWhile] at hhead
    cases rest with
    | nil => exact absurd hhead (by simp)
    | cons d tail =>
        have hd : d = '>' := by
          rw [List.head?_cons, Option.filter_eq_some_iff] at hhead
          exact Option.some.inj hhead.1
        exact harrow tail hminus (by rw [hd])

/-- A token that has been scanned. -/
theorem scanned_of_scan {c : Char} {rest : List Char} {kind : TokenKind} {extra : Nat}
    (h : scan c rest = .token kind extra) : kind.Scanned := by
  unfold scan at h
  split at h
  case h_8 => exact scanned_scanString h
  case h_9 =>
      unfold scanSymbol at h
      simp only [Scan.token.injEq] at h
      rw [← h.1]
      intro c hc
      rw [String.toList_ofList] at hc
      exact List.all_eq_true.mp List.all_takeWhile c hc
  case h_10 => exact scanned_scanComment h
  case h_11 => exact scanned_scanHash h
  case h_12 =>
      rename_i harrow
      split at h
      · exact scanned_scanNumber h
      · split at h
        · rename_i hstart
          unfold scanWord at h
          simp only [Scan.token.injEq] at h
          rw [← h.1]
          exact scanned_wordKind (isWord_ofList hstart harrow)
        · exact absurd h (by simp)
  all_goals
    simp only [Scan.token.injEq] at h
    rw [← h.1]
    trivial

theorem scanned_lexFrom {text : List Char} {skip : Nat} {p : Position} :
    ∀ token ∈ (lexFrom skip p text).tokens, token.kind.Scanned := by
  induction text generalizing skip p with
  | nil =>
      intro token htoken
      exact absurd htoken List.not_mem_nil
  | cons c rest ih =>
      unfold lexFrom
      split
      · exact ih
      · dsimp only
        split
        · exact ih
        · rename_i kind extra hscan
          intro token htoken
          rcases List.mem_cons.mp htoken with htoken | htoken
          · rw [htoken]
            exact scanned_of_scan hscan
          · exact ih token htoken
        · intro token htoken
          exact absurd htoken List.not_mem_nil

end TypedIsl
