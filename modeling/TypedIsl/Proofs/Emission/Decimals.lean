import TypedIsl.Proofs.Double.Overflow
import TypedIsl.Proofs.Syntax.Slices

/-!
# Emitted decimals

A decimal literal is emitted with as few digits as needed, and the emitted text is read as the same
double again. Only literals that are rounded to infinity are lost: no literal spells an infinite
number, so that its emitted text is read as a name.
-/

namespace TypedIsl

/-! ## The text of a literal -/

/-- A token is the lexeme that was scanned where its range begins. -/
theorem Lexes.exists_lexeme {p : Position} {text : List Char} {tokens : List Token}
    (h : Lexes p text tokens) {token : Token} (htoken : token ∈ tokens) :
    ∃ front c cs back, text = front ++ c :: cs ++ back ∧
      scan c (cs ++ back) = .token token.kind cs.length ∧
      token.range.start = p.afterAll front ∧ token.range.stop = p.afterAll (front ++ c :: cs) := by
  induction h with
  | nil => exact absurd htoken List.not_mem_nil
  | @blank p d ds _ _ _ _ ih =>
      obtain ⟨front, c, cs, back, rfl, hscan, hstart, hstop⟩ := ih htoken
      rw [← Position.afterAll_append] at hstart hstop
      exact ⟨d :: ds ++ front, c, cs, back, by simp, hscan, hstart, by simpa using hstop⟩
  | @token p d ds rest _ _ hscan _ ih =>
      rcases List.mem_cons.mp htoken with rfl | htoken
      · exact ⟨[], d, ds, rest, rfl, hscan, rfl, rfl⟩
      · obtain ⟨front, c, cs, back, rfl, hscan, hstart, hstop⟩ := ih htoken
        rw [← Position.afterAll_append] at hstart hstop
        exact ⟨d :: ds ++ front, c, cs, back, by simp, hscan, hstart, by simpa using hstop⟩

/-- A decimal begins with a digit. -/
theorem scanNumber_of_scan_decimal {c : Char} {rest : List Char} {value : Double} {extra : Nat}
    (h : scan c rest = .token (.literal (.decimal value)) extra) :
    c.isDigit = true ∧ scanNumber c rest = .token (.literal (.decimal value)) extra := by
  unfold scan at h
  split at h
  case h_8 =>
      unfold scanString at h
      split at h <;> simp at h
  case h_10 =>
      unfold scanComment at h
      split at h <;> simp at h
  case h_11 =>
      unfold scanHash at h
      split at h
      · split at h <;> simp at h
      all_goals simp at h
  case h_12 =>
      split at h
      · exact ⟨‹_›, h⟩
      split at h
      · simp only [scanWord, Scan.token.injEq] at h
        rcases wordKind_cases _ with ⟨keyword, hkind⟩ | ⟨truth, hkind⟩ | hkind <;>
          exact absurd (hkind.symm.trans h.1) (by simp)
      · simp at h
  all_goals simp [scanSymbol] at h

theorem scanDigits_ne_decimal {c : Char} {digits : List Char} {value : Double} {extra : Nat} :
    scanDigits c digits ≠ .token (.literal (.decimal value)) extra := by
  unfold scanDigits
  dsimp only
  split <;> simp

theorem scanMarked_eq_decimal {c mark : Char} {digits second : List Char} {value : Double}
    {extra : Nat}
    (h : scanMarked c digits mark second = .token (.literal (.decimal value)) extra) :
    second ≠ [] ∧ mark = '.' ∧ extra = digits.length + 1 + second.length ∧
      value = Double.ofDecimal false (Decimal.ofDigits (c :: digits) second) := by
  unfold scanMarked at h
  dsimp only at h
  split at h
  · exact absurd h scanDigits_ne_decimal
  split at h
  · rename_i hsecond hmark
    simp only [Scan.token.injEq, TokenKind.literal.injEq, Literal.decimal.injEq] at h
    exact ⟨hsecond, hmark, h.2.symm, h.1.symm⟩
  split at h
  · split at h <;> simp at h
  · exact absurd h scanDigits_ne_decimal

/-- A scanned decimal is spelled by its digits around a point, and rounded to a double. -/
theorem spelledBy_of_scan {c : Char} {cs back : List Char} {value : Double}
    (h : scan c (cs ++ back) = .token (.literal (.decimal value)) cs.length) :
    ∃ d : Decimal, d.SpelledBy (c :: cs) ∧ d.exponent ≤ 0 ∧ value = Double.ofDecimal false d := by
  obtain ⟨hc, hnumber⟩ := scanNumber_of_scan_decimal h
  have hsplit := List.takeWhile_append_dropWhile (p := Char.isDigit) (l := cs ++ back)
  cases hdrop : (cs ++ back).dropWhile Char.isDigit with
  | nil =>
      rw [scanNumber_eq_digits hdrop] at hnumber
      exact absurd hnumber scanDigits_ne_decimal
  | cons mark tail =>
      rw [scanNumber_eq_marked hdrop] at hnumber
      obtain ⟨hsecond, rfl, hlength, hvalue⟩ := scanMarked_eq_decimal hnumber
      have hdigits : ∀ d ∈ (cs ++ back).takeWhile Char.isDigit, d.isDigit = true :=
        List.all_eq_true.mp List.all_takeWhile
      have hfraction : ∀ d ∈ tail.takeWhile Char.isDigit, d.isDigit = true :=
        List.all_eq_true.mp List.all_takeWhile
      rw [hdrop, ← List.takeWhile_append_dropWhile (p := Char.isDigit) (l := tail),
        ← List.cons_append, ← List.append_assoc] at hsplit
      generalize (cs ++ back).takeWhile Char.isDigit = digits at *
      generalize tail.takeWhile Char.isDigit = fraction at *
      have hcs : cs = digits ++ '.' :: fraction := by
        refine (List.append_inj_left hsplit ?_).symm
        rw [hlength, List.length_append, List.length_cons]
        omega
      refine ⟨_, ⟨c :: digits, fraction, ?_, by simp, hsecond, ?_, rfl⟩, ?_, hvalue⟩
      · rw [hcs, List.cons_append]
      · rw [List.cons_append]
        exact List.forall_mem_cons.mpr ⟨hc, List.forall_mem_append.mpr ⟨hdigits, hfraction⟩⟩
      · simp [Decimal.ofDigits]

/-! ## Emitted and read again -/

/-- The decimal is rounded to infinity. -/
def Decimal.TooLarge (d : Decimal) : Prop :=
  Double.overflow * Nat.pow 10 (-d.exponent).toNat ≤ d.digits

/-- A text that spells one token is that token. -/
theorem Spells.tokens_eq {piece : List Char} {kind : TokenKind} (h : Spells piece [kind]) :
    ∃ range, tokens (String.ofList piece) = .ok [⟨kind, range⟩] := by
  have hdelimited : Delimited [] := fun c hc => absurd hc (by simp)
  have hlexes := h [] [] hdelimited .nil
  rw [List.append_nil, List.append_nil] at hlexes
  obtain ⟨herror, hkinds⟩ := hlexes .first
  obtain ⟨token, htokens, hkind⟩ := List.map_eq_singleton_iff.mp hkinds
  refine ⟨token.range, ?_⟩
  rw [tokens, lex, String.toList_ofList]
  generalize lexFrom 0 .first piece = lexed at herror htokens
  obtain ⟨read, error?⟩ := lexed
  obtain rfl : error? = none := herror
  obtain rfl : read = [token] := htokens
  rw [← hkind]

/-- A decimal literal is emitted as a text that is read as the same decimal, unless it is so large
that it is rounded to infinity. Then it is emitted as a text that is read as a name. -/
theorem decimal_read_again {source : String} (h : (lex source).error? = none) {token : Token}
    (htoken : token ∈ (lex source).tokens) {value : Double}
    (hkind : token.kind = .literal (.decimal value)) :
    ∃ d : Decimal, d.SpelledBy (token.range.slice source).toList ∧
      value = Double.ofDecimal false d ∧
      (¬d.TooLarge → (∃ m, value = .finite false m) ∧ ∃ range,
        tokens (String.ofList (Literal.decimal value).code) =
          .ok [⟨.literal (.decimal value), range⟩]) ∧
      (d.TooLarge → value = .infinite false ∧ ∃ range,
        tokens (String.ofList (Literal.decimal value).code) =
          .ok [⟨.identifier "inf", range⟩]) := by
  have hlexes : Lexes .first source.toList (lex source).tokens :=
    lexes_of_lexFrom (by rw [← h]; rfl)
  obtain ⟨front, c, cs, back, hsource, hscan, hstart, hstop⟩ := hlexes.exists_lexeme htoken
  rw [hkind] at hscan
  obtain ⟨d, hspelled, hexponent, hvalue⟩ := spelledBy_of_scan hscan
  have hslice : token.range.slice source = String.ofList (c :: cs) := by
    apply Range.slice_eq hsource
    · rw [hstart, Position.index_afterAll]
      exact Nat.zero_add _
    · rw [hstop, Position.index_afterAll, String.utf8Len_append]
      exact Nat.zero_add _
  have hround := Magnitude.ofDecimal?_eq_none_iff hexponent
  refine ⟨d, by rwa [hslice, String.toList_ofList], hvalue, fun hsmall => ?_, fun hlarge => ?_⟩
  · obtain ⟨m, hm⟩ := Option.ne_none_iff_exists'.mp (mt hround.mp hsmall)
    have hfinite : value = .finite false m := by rw [hvalue, Double.ofDecimal, hm]
    have hscanned : (TokenKind.literal (.decimal value)).Scanned := .inl ⟨m, hfinite⟩
    refine ⟨⟨m, hfinite⟩, (spells_literal hscanned fun negative hinfinite => ?_).tokens_eq⟩
    rw [hfinite] at hinfinite
    cases hinfinite
  · have hinfinite : value = .infinite false := by rw [hvalue, Double.ofDecimal, hround.mpr hlarge]
    rw [hinfinite]
    exact ⟨rfl, _, rfl⟩

/-- A literal that is halfway between two doubles. -/
def halfwaySource : String :=
  "(f 100000000000000000000000.0)"

theorem decimal_read_again_halfway :
    let value := Double.ofDecimal false ⟨1, 23⟩
    (lex halfwaySource).error? = none ∧
      (⟨.literal (.decimal value), ⟨⟨1, 4, 3⟩, ⟨1, 30, 29⟩⟩⟩ : Token) ∈ (lex halfwaySource).tokens ∧
      (Literal.decimal value).code = "99999999999999991611392.0".toList ∧
      ∃ range, tokens (String.ofList (Literal.decimal value).code) =
        .ok [⟨.literal (.decimal value), range⟩] := by
  intro value
  have h : (lex halfwaySource).error? = none := by decide +kernel
  have htoken : (⟨.literal (.decimal value), ⟨⟨1, 4, 3⟩, ⟨1, 30, 29⟩⟩⟩ : Token) ∈
      (lex halfwaySource).tokens := by decide +kernel
  refine ⟨h, htoken, by decide +kernel, ?_⟩
  obtain ⟨d, -, -, hsmall, hlarge⟩ := decimal_read_again h htoken rfl
  by_cases hd : d.TooLarge
  · exact absurd (hlarge hd).1 (by decide +kernel)
  · exact (hsmall hd).2

/-- A literal that is rounded to infinity. -/
def hugeLiteral : List Char :=
  '1' :: List.replicate 309 '0' ++ ['.', '0']

/-- The text that is emitted for a literal of 310 digits before the point is read as a name. -/
theorem decimal_lost :
    let source := String.ofList hugeLiteral
    (lex source).error? = none ∧
      (lex source).tokens.map (·.kind) = [.literal (.decimal (.infinite false))] ∧
      (tokens (String.ofList (Literal.decimal (.infinite false)).code)).toOption.map
        (·.map (·.kind)) = some [.identifier "inf"] ∧
      ¬∀ source, (lex source).error? = none → ∀ token ∈ (lex source).tokens, ∀ value,
        token.kind = .literal (.decimal value) → ∃ range,
          tokens (String.ofList (Literal.decimal value).code) =
            .ok [⟨.literal (.decimal value), range⟩] := by
  intro source
  have h : (lex source).error? = none := by
    rw [lex, String.toList_ofList]
    decide +kernel
  have hkinds : (lex source).tokens.map (·.kind) = [.literal (.decimal (.infinite false))] := by
    rw [lex, String.toList_ofList]
    decide +kernel
  have hname : (tokens (String.ofList (Literal.decimal (.infinite false)).code)).toOption.map
      (·.map (·.kind)) = some [.identifier "inf"] := by decide +kernel
  refine ⟨h, hkinds, hname, fun hall => ?_⟩
  obtain ⟨token, htokens, hkind⟩ := List.map_eq_singleton_iff.mp hkinds
  obtain ⟨range, hread⟩ := hall _ h token (by simp [htokens]) _ hkind
  rw [hread] at hname
  exact absurd hname (by simp [Except.toOption])

end TypedIsl
