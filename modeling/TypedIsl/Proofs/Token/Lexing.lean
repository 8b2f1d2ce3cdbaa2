import TypedIsl.Emission.Code
import TypedIsl.Proofs.Double.Written
import TypedIsl.Proofs.Token.Locality
import TypedIsl.Proofs.Token.Scanned

/-!
# Texts that lex to given tokens

`LexesTo text kinds` says what a whole text lexes to. A piece of a text `Spells` tokens if it adds
them in front of whatever a delimited rest of the text lexes to. The emitted form of every scanned
atom spells the atom again.
-/

namespace TypedIsl

/-- The text has no lexical fault, and these are its tokens. -/
def LexesTo (text : List Char) (kinds : List TokenKind) : Prop :=
  ∀ p, (lexFrom 0 p text).error? = none ∧ (lexFrom 0 p text).tokens.map (·.kind) = kinds

theorem lexFrom_skip (cs rest : List Char) (p : Position) :
    lexFrom cs.length p (cs ++ rest) = lexFrom 0 (p.afterAll cs) rest := by
  induction cs generalizing p with
  | nil => rfl
  | cons c cs ih =>
      rw [List.cons_append, List.length_cons, lexFrom, ih]
      rfl

namespace LexesTo

variable {c : Char} {cs rest : List Char} {kind : TokenKind} {kinds : List TokenKind}

theorem nil : LexesTo [] [] :=
  fun _ => ⟨rfl, rfl⟩

theorem token (hscan : scan c (cs ++ rest) = .token kind cs.length) (h : LexesTo rest kinds) :
    LexesTo (c :: cs ++ rest) (kind :: kinds) := by
  intro p
  obtain ⟨herror, htokens⟩ := h ((p.after c).afterAll cs)
  rw [List.cons_append, lexFrom]
  dsimp only
  rw [hscan]
  dsimp only
  rw [lexFrom_skip, List.map_cons, htokens]
  exact ⟨herror, rfl⟩

theorem blank (hscan : scan c (cs ++ rest) = .blank cs.length) (h : LexesTo rest kinds) :
    LexesTo (c :: cs ++ rest) kinds := by
  intro p
  rw [List.cons_append, lexFrom]
  dsimp only
  rw [hscan]
  dsimp only
  rw [lexFrom_skip]
  exact h _

theorem char (hscan : scan c rest = .token kind 0) (h : LexesTo rest kinds) :
    LexesTo (c :: rest) (kind :: kinds) :=
  @token c [] rest kind kinds hscan h

theorem blankChar (hscan : scan c rest = .blank 0) (h : LexesTo rest kinds) :
    LexesTo (c :: rest) kinds :=
  @blank c [] rest kinds hscan h

end LexesTo

/-! ## Pieces of texts -/

/-- What may follow an atom: nothing, a blank or a closing bracket. -/
def Delimited (rest : List Char) : Prop :=
  ∀ c ∈ rest.head?, c ∈ [' ', '\n', ')', ']']

theorem delimited_cons {c : Char} (hc : c ∈ [' ', '\n', ')', ']']) (rest : List Char) :
    Delimited (c :: rest) := by
  intro d hd
  rw [List.head?_cons, Option.mem_some_iff] at hd
  exact hd ▸ hc

/-- Before a delimited rest of a text, the piece adds these tokens to those of the rest. -/
def Spells (piece : List Char) (kinds : List TokenKind) : Prop :=
  ∀ rest more, Delimited rest → LexesTo rest more → LexesTo (piece ++ rest) (kinds ++ more)

section Delimiters

variable {p : Char → Bool} {cs rest : List Char} (hrest : Delimited rest)
  (hp : ∀ c ∈ [' ', '\n', ')', ']'], p c = false)

include hrest hp

theorem takeWhile_delimited : rest.takeWhile p = [] := by
  cases rest with
  | nil => rfl
  | cons c rest =>
      have hc : p c = false := hp c (hrest c (by simp))
      rw [List.takeWhile_cons, hc]
      rfl

theorem takeWhile_append_delimited (hcs : ∀ c ∈ cs, p c = true) :
    (cs ++ rest).takeWhile p = cs := by
  rw [List.takeWhile_append_of_pos hcs, takeWhile_delimited hrest hp, List.append_nil]

theorem dropWhile_append_delimited (hcs : ∀ c ∈ cs, p c = true) :
    (cs ++ rest).dropWhile p = rest := by
  rw [List.dropWhile_append_of_pos hcs]
  have hsplit := List.takeWhile_append_dropWhile (p := p) (l := rest)
  rwa [takeWhile_delimited hrest hp] at hsplit

end Delimiters

theorem isIdentifierChar_delimiter :
    ∀ c ∈ [' ', '\n', ')', ']'], isIdentifierChar c = false := by
  intro c hc
  have hall : [' ', '\n', ')', ']'].all (fun c => !isIdentifierChar c) = true := by decide
  simpa using List.all_eq_true.mp hall c hc

theorem isDigit_delimiter : ∀ c ∈ [' ', '\n', ')', ']'], c.isDigit = false := by
  intro c hc
  have hall : [' ', '\n', ')', ']'].all (fun c => !c.isDigit) = true := by decide
  simpa using List.all_eq_true.mp hall c hc

/-! ## Words -/

theorem isDigit_eq_false_of_isAlpha {c : Char} (hc : c.isAlpha = true) : c.isDigit = false := by
  have hletter : 'A'.val ≤ c.val ∧ c.val ≤ 'Z'.val ∨ 'a'.val ≤ c.val ∧ c.val ≤ 'z'.val := by
    refine (Bool.or_eq_true_iff.mp hc).imp of_decide_eq_true fun h => ?_
    exact (Bool.and_eq_true_iff.mp h).imp of_decide_eq_true of_decide_eq_true
  simp only [Char.isDigit, Bool.and_eq_false_iff, decide_eq_false_iff_not,
    UInt32.le_iff_toNat_le, ge_iff_le] at hletter ⊢
  have hnine : '9'.val.toNat = 57 := rfl
  have hupper : 'A'.val.toNat = 65 := rfl
  have hlower : 'a'.val.toNat = 97 := rfl
  omega

theorem isDigit_eq_false_of_isIdentifierStart {c : Char} (hc : isIdentifierStart c = true) :
    c.isDigit = false := by
  rw [isIdentifierStart, Bool.or_eq_true, List.contains_iff_mem] at hc
  rcases hc with hc | hc
  · exact isDigit_eq_false_of_isAlpha hc
  · have hall : "-_?!=<>+*/".toList.all (fun d => !d.isDigit) = true := by decide
    simpa only [Bool.not_eq_true'] using List.all_eq_true.mp hall c hc

theorem scan_of_isIdentifierStart {c : Char} {rest : List Char} (hc : isIdentifierStart c = true)
    (harrow : ¬(c = '-' ∧ rest.head? = some '>')) : scan c rest = scanWord c rest := by
  have hdigit := isDigit_eq_false_of_isIdentifierStart hc
  unfold scan
  split
  case h_7 => exact absurd ⟨rfl, rfl⟩ harrow
  case h_12 => simp [hdigit, hc]
  all_goals exact absurd hc (by decide)

theorem IsWord.spells {word : String} (h : IsWord word) : Spells word.toList [wordKind word] := by
  obtain ⟨c, cs, hword, hc, hcs, harrow⟩ := h
  intro rest more hrest hmore
  have hnext : ¬(c = '-' ∧ (cs ++ rest).head? = some '>') := by
    intro ⟨hminus, hhead⟩
    cases cs with
    | nil =>
        have hgreater := hrest '>' hhead
        exact absurd hgreater (by decide)
    | cons d cs => exact harrow ⟨hminus, hhead⟩
  rw [hword]
  refine .token ?_ hmore
  rw [scan_of_isIdentifierStart hc hnext, scanWord,
    takeWhile_append_delimited hrest isIdentifierChar_delimiter hcs, ← hword, String.ofList_toList]

theorem spells_identifier {name : String} (h : (TokenKind.identifier name).Scanned) :
    Spells name.toList [.identifier name] := by
  obtain ⟨hword, hkind⟩ := h
  have hspells := hword.spells
  rwa [hkind] at hspells

theorem LetKind.isWord (kind : LetKind) : IsWord kind.text := by
  cases kind
  all_goals exact ⟨_, _, rfl, by decide, List.all_eq_true.mp (by decide), by decide⟩

theorem Keyword.isWord (word : Keyword) : IsWord word.text := by
  cases word
  case lets kind => exact kind.isWord
  all_goals exact ⟨_, _, rfl, by decide, List.all_eq_true.mp (by decide), by decide⟩

theorem spells_keyword (word : Keyword) : Spells word.text.toList [.keyword word] := by
  have hspells := word.isWord.spells
  have hkind : wordKind word.text = .keyword word := by
    cases word
    case lets kind => cases kind <;> decide
    all_goals decide
  rwa [hkind] at hspells

/-! ## Numbers -/

theorem scan_of_isDigit {c : Char} {rest : List Char} (hc : c.isDigit = true) :
    scan c rest = scanNumber c rest := by
  unfold scan
  split
  case h_12 => rw [if_pos hc]
  all_goals exact absurd hc (by decide)

/-- A run of digits is an integer if nothing that continues a number comes next. -/
theorem spells_digits {digits : List Char} (hne : digits ≠ [])
    (hall : ∀ c ∈ digits, c.isDigit = true) (hn : natOfDigits digits ≤ maxInteger) :
    Spells digits [.literal (.integer (natOfDigits digits))] := by
  intro rest more hrest hmore
  obtain ⟨c, cs, rfl⟩ := List.exists_cons_of_ne_nil hne
  obtain ⟨hc, hcs⟩ := List.forall_mem_cons.mp hall
  refine .token ?_ hmore
  rw [scan_of_isDigit hc, scanNumber, takeWhile_append_delimited hrest isDigit_delimiter hcs,
    dropWhile_append_delimited hrest isDigit_delimiter hcs, if_pos hn]
  cases rest with
  | nil => rfl
  | cons mark tail =>
      have hmark : mark ∈ [' ', '\n', ')', ']'] := hrest mark rfl
      have hpoint : mark ≠ '.' := by
        intro h
        exact absurd (h ▸ hmark) (by decide)
      have hslash : mark ≠ '/' := by
        intro h
        exact absurd (h ▸ hmark) (by decide)
      simp [hpoint, hslash]

/-- Where two runs of digits with a mark between them are cut. -/
theorem digits_marked {mark : Char} {cs second rest : List Char}
    (hcs : ∀ d ∈ cs, d.isDigit = true) (hmark : mark.isDigit = false)
    (hsecond : ∀ d ∈ second, d.isDigit = true) (hrest : Delimited rest) :
    (cs ++ mark :: second ++ rest).takeWhile Char.isDigit = cs ∧
      (cs ++ mark :: second ++ rest).dropWhile Char.isDigit = mark :: (second ++ rest) ∧
      (second ++ rest).takeWhile Char.isDigit = second ∧
      (cs ++ mark :: second).length = cs.length + 1 + second.length := by
  have hnot : ¬mark.isDigit = true := by simp [hmark]
  rw [List.append_assoc, List.cons_append]
  refine ⟨?_, ?_, takeWhile_append_delimited hrest isDigit_delimiter hsecond, ?_⟩
  · rw [List.takeWhile_append_of_pos hcs, List.takeWhile_cons_of_neg hnot, List.append_nil]
  · rw [List.dropWhile_append_of_pos hcs, List.dropWhile_cons_of_neg hnot]
  · rw [List.length_append, List.length_cons]
    omega

theorem spells_decimal {whole fraction : List Char} (hwhole : whole ≠ [])
    (hfraction : fraction ≠ [])
    (hall : ∀ c ∈ whole ++ fraction, c.isDigit = true) :
    Spells (whole ++ '.' :: fraction)
      [.literal (.decimal (Double.ofDecimal false (Decimal.ofDigits whole fraction)))] := by
  intro rest more hrest hmore
  obtain ⟨c, cs, rfl⟩ := List.exists_cons_of_ne_nil hwhole
  obtain ⟨hdigits, hsecond⟩ := List.forall_mem_append.mp hall
  obtain ⟨hc, hcs⟩ := List.forall_mem_cons.mp hdigits
  have hmark : '.'.isDigit = false := by decide
  obtain ⟨hmore', hdrop, htake, hlength⟩ := digits_marked hcs hmark hsecond hrest
  rw [List.cons_append]
  refine .token ?_ hmore
  rw [scan_of_isDigit hc, scanNumber, hmore', hdrop, hlength]
  dsimp only
  rw [htake, if_neg hfraction, if_pos rfl]

theorem spells_fraction {numerator denominator : List Char} (hne : numerator ≠ [])
    (hne' : denominator ≠ []) (hall : ∀ c ∈ numerator ++ denominator, c.isDigit = true)
    (hn : natOfDigits numerator ≤ maxInteger) (hd : natOfDigits denominator ≤ maxInteger)
    (hpos : natOfDigits denominator ≠ 0) :
    Spells (numerator ++ '/' :: denominator)
      [.literal (.fraction (natOfDigits numerator) (natOfDigits denominator))] := by
  intro rest more hrest hmore
  obtain ⟨c, cs, rfl⟩ := List.exists_cons_of_ne_nil hne
  obtain ⟨hdigits, hsecond⟩ := List.forall_mem_append.mp hall
  obtain ⟨hc, hcs⟩ := List.forall_mem_cons.mp hdigits
  have hmark : '/'.isDigit = false := by decide
  obtain ⟨hmore', hdrop, htake, hlength⟩ := digits_marked hcs hmark hsecond hrest
  rw [List.cons_append]
  refine .token ?_ hmore
  rw [scan_of_isDigit hc, scanNumber, hmore', hdrop, hlength]
  dsimp only
  rw [htake, if_neg hne', if_neg (by decide), if_pos rfl, if_pos ⟨hn, hd, hpos⟩]

/-! ## Strings, symbols and truth values -/

/-- One character of a string in emitted code. -/
def quotedChar (c : Char) : List Char :=
  if c = '"' ∨ c = '\\' then ['\\', c] else [c]

theorem quotedString_eq (value : String) :
    quotedString value = '"' :: (value.toList.flatMap quotedChar ++ ['"']) := rfl

theorem stringTail_quoted (cs rest : List Char) :
    stringTail (cs.flatMap quotedChar ++ '"' :: rest) =
      .value cs (cs.flatMap quotedChar ++ ['"']).length := by
  induction cs with
  | nil => rfl
  | cons c cs ih =>
      rw [List.flatMap_cons, List.append_assoc]
      by_cases hquote : c = '"'
      · rw [hquote]
        change stringTail ('\\' :: '"' :: (cs.flatMap quotedChar ++ '"' :: rest)) = _
        rw [stringTail, ih]
        simp [StringTail.push, quotedChar]
        omega
      · by_cases hslash : c = '\\'
        · rw [hslash]
          change stringTail ('\\' :: '\\' :: (cs.flatMap quotedChar ++ '"' :: rest)) = _
          rw [stringTail, ih]
          simp [StringTail.push, quotedChar]
          omega
        · have hplain : quotedChar c = [c] := by simp [quotedChar, hquote, hslash]
          rw [hplain, List.singleton_append, stringTail_cons hquote hslash (by simp), ih]
          simp [StringTail.push]
          omega

theorem spells_string (value : String) :
    Spells (quotedString value) [.literal (.string value)] := by
  intro rest more _ hmore
  rw [quotedString_eq]
  refine .token ?_ hmore
  change scanString _ = _
  rw [scanString, List.append_assoc, List.singleton_append, stringTail_quoted]
  dsimp only
  rw [String.ofList_toList]

theorem spells_symbol {name : String} (h : (TokenKind.literal (.symbol name)).Scanned) :
    Spells ('\'' :: name.toList) [.literal (.symbol name)] := by
  intro rest more hrest hmore
  refine .token ?_ hmore
  change scanSymbol (name.toList ++ rest) = _
  rw [scanSymbol, takeWhile_append_delimited hrest isIdentifierChar_delimiter h,
    String.ofList_toList]

theorem spells_boolean (value : Bool) :
    Spells (Literal.boolean value).code [.literal (.boolean value)] := by
  intro rest more _ hmore
  cases value
  all_goals
    unfold Literal.code
    exact LexesTo.token rfl hmore

theorem Literal.code_integer (n : Nat) : (Literal.integer n).code = Nat.toDigits 10 n :=
  Nat.toList_repr

theorem Literal.code_fraction (n d : Nat) :
    (Literal.fraction n d).code = Nat.toDigits 10 n ++ '/' :: Nat.toDigits 10 d := by
  have hn : (n : Int).repr.toList = Nat.toDigits 10 n := Nat.toList_repr
  have hd : (d : Int).repr.toList = Nat.toDigits 10 d := Nat.toList_repr
  simp only [code, toString, String.toList_append, hn, hd, List.append_assoc]
  rfl

theorem Literal.code_finite (m : Magnitude) :
    (Literal.decimal (.finite false m)).code = m.code.toList := by
  simp [code, Double.code, Double.sign]

/-- The emitted form of a scanned literal spells it, unless it is an infinite number. -/
theorem spells_literal {value : Literal} (h : (TokenKind.literal value).Scanned)
    (hfinite : ∀ negative, value ≠ .decimal (.infinite negative)) :
    Spells value.code [.literal value] := by
  cases value with
  | integer value =>
      obtain ⟨hnonneg, hle⟩ := h
      obtain ⟨n, rfl⟩ := Int.eq_ofNat_of_zero_le hnonneg
      have hn : natOfDigits (Nat.toDigits 10 n) ≤ maxInteger := by
        rw [natOfDigits_toDigits]
        exact Int.ofNat_le.mp hle
      have hspells := spells_digits Nat.toDigits_ne_nil (fun _ => isDigit_of_mem_toDigits) hn
      rw [natOfDigits_toDigits] at hspells
      rwa [Literal.code_integer]
  | fraction numerator denominator =>
      obtain ⟨⟨hnonneg, hn⟩, hpos, hd⟩ := h
      obtain ⟨n, rfl⟩ := Int.eq_ofNat_of_zero_le hnonneg
      obtain ⟨d, rfl⟩ := Int.eq_ofNat_of_zero_le (Int.le_of_lt hpos)
      have hall : ∀ c ∈ Nat.toDigits 10 n ++ Nat.toDigits 10 d, c.isDigit = true := by
        intro c hc
        rcases List.mem_append.mp hc with hc | hc
        · exact isDigit_of_mem_toDigits hc
        · exact isDigit_of_mem_toDigits hc
      have hspells : Spells (Nat.toDigits 10 n ++ '/' :: Nat.toDigits 10 d)
          [.literal (.fraction (natOfDigits (Nat.toDigits 10 n))
            (natOfDigits (Nat.toDigits 10 d)))] := by
        apply spells_fraction Nat.toDigits_ne_nil Nat.toDigits_ne_nil hall
        all_goals
          rw [natOfDigits_toDigits]
          omega
      rw [natOfDigits_toDigits, natOfDigits_toDigits] at hspells
      rwa [Literal.code_fraction]
  | decimal value =>
      have hvalue : ∃ m, value = .finite false m := by
        rcases h with hvalue | hvalue
        · exact hvalue
        · exact absurd (congrArg Literal.decimal hvalue) (hfinite false)
      obtain ⟨m, rfl⟩ := hvalue
      obtain ⟨d, ⟨whole, fraction, htext, hwhole, hfraction, hall, hd⟩, hround⟩ := m.code_spelled
      have hspells := spells_decimal hwhole hfraction hall
      have hread : Double.ofDecimal false d = .finite false m := by simp [Double.ofDecimal, hround]
      rw [hd, hread, ← htext] at hspells
      rwa [Literal.code_finite]
  | string value => exact spells_string value
  | boolean value => exact spells_boolean value
  | symbol name => exact spells_symbol h

/-! ## Brackets, blanks and comments -/

namespace LexesTo

variable {rest : List Char} {kinds : List TokenKind}

theorem opening (brackets : Brackets) (h : LexesTo rest kinds) :
    LexesTo (brackets.opening :: rest) (.openParen :: kinds) := by
  cases brackets
  all_goals exact char rfl h

theorem closing (brackets : Brackets) (h : LexesTo rest kinds) :
    LexesTo (brackets.closing :: rest) (.closeParen :: kinds) := by
  cases brackets
  all_goals exact char rfl h

theorem blanks {cs : List Char} (hcs : ∀ c ∈ cs, c = ' ' ∨ c = '\t' ∨ c = '\n')
    (h : LexesTo rest kinds) : LexesTo (cs ++ rest) kinds := by
  induction cs with
  | nil => exact h
  | cons c cs ih =>
      obtain ⟨hc, hblank⟩ := List.forall_mem_cons.mp hcs
      rcases hc with rfl | rfl | rfl
      all_goals exact blankChar rfl (ih hblank)

/-- A comment that is not a docstring, with the newline that ends it. -/
theorem comment {text : List Char} (htext : ∀ c ∈ text, c ≠ '\n' ∧ c ≠ '\x00')
    (h : LexesTo rest kinds) : LexesTo (';' :: ';' :: ' ' :: text ++ '\n' :: rest) kinds := by
  have hnewline : LexesTo ('\n' :: rest) kinds := blankChar rfl h
  refine blank ?_ hnewline
  have hline : commentText (';' :: ' ' :: text ++ '\n' :: rest) = ';' :: ' ' :: text := by
    unfold commentText
    rw [List.takeWhile_append_of_pos, List.takeWhile_cons_of_neg (by simp), List.append_nil]
    intro c hc
    rcases List.mem_cons.mp hc with rfl | hc
    · decide
    · rcases List.mem_cons.mp hc with rfl | hc
      · decide
      · simpa using htext c hc
  change Scan.blank (commentText (';' :: ' ' :: text ++ '\n' :: rest)).length = _
  rw [hline]

end LexesTo

end TypedIsl
