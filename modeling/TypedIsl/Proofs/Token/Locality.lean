import TypedIsl.Token.Lexer

/-!
# What a scanned lexeme depends on

Scanning a lexeme looks past its end, but what it finds does not depend on the text after the
lexeme: a lexeme that ends within a piece of a text is also found in that piece alone.
-/

namespace TypedIsl

/-- A lexeme was found that ends within the next `n` characters. -/
def Scan.EndsWithin (n : Nat) : Scan → Prop
  | blank extra => extra ≤ n
  | token _ extra => extra ≤ n
  | fault _ _ => False

section

variable {p : Char → Bool} {cs more : List Char}

theorem takeWhile_append_of_le (h : ((cs ++ more).takeWhile p).length ≤ cs.length) :
    cs.takeWhile p = (cs ++ more).takeWhile p := by
  induction cs with
  | nil => exact (List.length_eq_zero_iff.mp (Nat.le_zero.mp h)).symm
  | cons c cs ih =>
      rw [List.cons_append] at h ⊢
      by_cases hc : p c = true
      · rw [List.takeWhile_cons_of_pos hc] at h ⊢
        rw [List.takeWhile_cons_of_pos hc, ih (Nat.le_of_succ_le_succ h)]
      · rw [List.takeWhile_cons_of_neg hc, List.takeWhile_cons_of_neg hc]

end

section

variable {c : Char} {cs more : List Char}

theorem scanWord_append (h : (scanWord c (cs ++ more)).EndsWithin cs.length) :
    scanWord c cs = scanWord c (cs ++ more) := by
  rw [scanWord, scanWord, takeWhile_append_of_le h]

theorem scanSymbol_append (h : (scanSymbol (cs ++ more)).EndsWithin cs.length) :
    scanSymbol cs = scanSymbol (cs ++ more) := by
  rw [scanSymbol, scanSymbol, takeWhile_append_of_le h]

/-! ## Numbers -/

/-- A number of one run of digits, the first of which is `c`. -/
def scanDigits (c : Char) (digits : List Char) : Scan :=
  let n := natOfDigits (c :: digits)
  if n ≤ maxInteger then .token (.literal (.integer n)) digits.length
  else .fault .invalidNumber digits.length

/-- A run of digits, a mark and the run of digits after it. -/
def scanMarked (c : Char) (digits : List Char) (mark : Char) (second : List Char) : Scan :=
  let extra := digits.length + 1 + second.length
  if second = [] then scanDigits c digits
  else if mark = '.' then
    .token (.literal (.decimal (Double.ofDecimal false (Decimal.ofDigits (c :: digits) second))))
      extra
  else if mark = '/' then
    let n := natOfDigits (c :: digits)
    let d := natOfDigits second
    if n ≤ maxInteger ∧ d ≤ maxInteger ∧ d ≠ 0 then .token (.literal (.fraction n d)) extra
    else .fault .invalidFraction extra
  else scanDigits c digits

theorem scanNumber_eq_digits (h : cs.dropWhile Char.isDigit = []) :
    scanNumber c cs = scanDigits c (cs.takeWhile Char.isDigit) := by
  unfold scanNumber
  rw [h]
  rfl

theorem scanNumber_eq_marked {mark : Char} {tail : List Char}
    (h : cs.dropWhile Char.isDigit = mark :: tail) :
    scanNumber c cs =
      scanMarked c (cs.takeWhile Char.isDigit) mark (tail.takeWhile Char.isDigit) := by
  unfold scanNumber
  rw [h]
  rfl

theorem scanDigits_endsWithin {digits : List Char} {n : Nat}
    (h : (scanDigits c digits).EndsWithin n) : digits.length ≤ n := by
  unfold scanDigits at h
  dsimp only at h
  split at h
  · exact h
  · exact h.elim

/-- The second run of digits belongs to the number, or it does not matter. -/
theorem scanMarked_endsWithin {digits second : List Char} {mark : Char} {n : Nat}
    (h : (scanMarked c digits mark second).EndsWithin n) :
    digits.length + 1 + second.length ≤ n ∨
      digits.length ≤ n ∧
        (second = [] ∨ ∀ other, scanMarked c digits mark other = scanDigits c digits) := by
  unfold scanMarked at h
  dsimp only at h
  split at h
  · exact .inr ⟨scanDigits_endsWithin h, .inl ‹_›⟩
  split at h
  · exact .inl h
  split at h
  · split at h
    · exact .inl h
    · exact h.elim
  · refine .inr ⟨scanDigits_endsWithin h, .inr fun other => ?_⟩
    simp [scanMarked, *]

theorem scanMarked_nil {digits : List Char} {mark : Char} :
    scanMarked c digits mark [] = scanDigits c digits := by
  simp [scanMarked]

theorem scanNumber_append (h : (scanNumber c (cs ++ more)).EndsWithin cs.length) :
    scanNumber c cs = scanNumber c (cs ++ more) := by
  have hsplit := congrArg List.length
    (List.takeWhile_append_dropWhile (p := Char.isDigit) (l := cs))
  rw [List.length_append] at hsplit
  cases hdrop : cs.dropWhile Char.isDigit with
  | nil =>
      -- The digits may go on in `more`, but then the number would not end within `cs`.
      have hall : cs.takeWhile Char.isDigit = cs := by
        have hsplit := List.takeWhile_append_dropWhile (p := Char.isDigit) (l := cs)
        rwa [hdrop, List.append_nil] at hsplit
      have htake : (cs ++ more).takeWhile Char.isDigit = cs ++ more.takeWhile Char.isDigit := by
        simp [List.takeWhile_append, hall]
      have hdrop' : (cs ++ more).dropWhile Char.isDigit = more.dropWhile Char.isDigit := by
        simp [List.dropWhile_append, hdrop]
      rw [scanNumber_eq_digits hdrop, hall]
      cases hmore : more.dropWhile Char.isDigit with
      | nil =>
          rw [hmore] at hdrop'
          rw [scanNumber_eq_digits hdrop', htake] at h ⊢
          have hle := scanDigits_endsWithin h
          have hnil : more.takeWhile Char.isDigit = [] := by
            rw [List.length_append] at hle
            exact List.length_eq_zero_iff.mp (by omega)
          rw [hnil, List.append_nil]
      | cons mark tail =>
          rw [hmore] at hdrop'
          rw [scanNumber_eq_marked hdrop', htake] at h ⊢
          have hends := scanMarked_endsWithin h
          rw [List.length_append] at hends
          obtain hlong | ⟨hle, hsecond⟩ := hends
          · omega
          have hnil : more.takeWhile Char.isDigit = [] := List.length_eq_zero_iff.mp (by omega)
          rw [hnil, List.append_nil] at hsecond ⊢
          rcases hsecond with hsecond | hsecond
          · rw [hsecond, scanMarked_nil]
          · rw [hsecond]
  | cons mark tail =>
      have hne : (cs.takeWhile Char.isDigit).length ≠ cs.length := by
        rw [hdrop, List.length_cons] at hsplit
        omega
      have htake : (cs ++ more).takeWhile Char.isDigit = cs.takeWhile Char.isDigit := by
        rw [List.takeWhile_append, if_neg hne]
      have hdrop' : (cs ++ more).dropWhile Char.isDigit = mark :: (tail ++ more) := by
        simp [List.dropWhile_append, hdrop]
      rw [scanNumber_eq_marked hdrop', htake] at h ⊢
      rw [scanNumber_eq_marked hdrop]
      rw [hdrop, List.length_cons] at hsplit
      rcases scanMarked_endsWithin h with hlong | ⟨-, hnil | hsame⟩
      · have hsecond : tail.takeWhile Char.isDigit = (tail ++ more).takeWhile Char.isDigit :=
          takeWhile_append_of_le (by omega)
        rw [hsecond]
      · have hsecond : tail.takeWhile Char.isDigit = (tail ++ more).takeWhile Char.isDigit :=
          takeWhile_append_of_le (by simp [hnil])
        rw [hsecond]
      · rw [hsame, hsame]

/-! ## Strings -/

/-- A string that ends within the next `n` characters. -/
def StringTail.EndsWithin (n : Nat) : StringTail → Prop
  | value _ length => length ≤ n
  | badEscape _ _ => False

theorem StringTail.endsWithin_push {tail : StringTail} {n length : Nat} :
    (tail.push c length).EndsWithin n ↔ ∃ k, n = k + length ∧ tail.EndsWithin k := by
  cases tail with
  | value chars k =>
      constructor
      · intro h
        replace h : length + k ≤ n := h
        exact ⟨n - length, by omega, show k ≤ n - length by omega⟩
      · rintro ⟨m, rfl, h⟩
        replace h : k ≤ m := h
        exact show length + k ≤ m + length by omega
  | badEscape escaped k =>
      constructor
      · exact False.elim
      · rintro ⟨_, _, h⟩
        exact h

theorem StringTail.EndsWithin.of_push {tail : StringTail} {n length : Nat}
    (h : (tail.push c length).EndsWithin (n + length)) : tail.EndsWithin n := by
  obtain ⟨k, hk, hends⟩ := endsWithin_push.mp h
  rwa [Nat.add_right_cancel hk]

/-- Only the end of the text ends a string without a further character. -/
theorem eq_nil_of_stringTail_endsWithin (h : (stringTail cs).EndsWithin 0) : cs = [] := by
  unfold stringTail at h
  split at h
  case h_1 => rfl
  case h_2 => exact absurd h (by simp [StringTail.EndsWithin])
  case h_3 => exact absurd h (by simp [StringTail.EndsWithin])
  case h_6 => exact h.elim
  case h_7 => exact h.elim
  all_goals
    obtain ⟨k, hk, -⟩ := StringTail.endsWithin_push.mp h
    omega

theorem stringTail_cons (hquote : c ≠ '"') (hslash : c ≠ '\\') (hnull : ¬(c = '\x00' ∧ cs = [])) :
    stringTail (c :: cs) = (stringTail cs).push c 1 := by
  rw [stringTail]
  · exact hquote
  · exact fun hc hcs => hnull ⟨hc, hcs⟩
  all_goals
    intros
    exact hslash ‹_›

theorem stringTail_badEscape (hquote : c ≠ '"') (hslash : c ≠ '\\') :
    stringTail ('\\' :: c :: cs) = .badEscape c 1 := by
  rw [stringTail]
  · exact hquote
  · exact hslash

/-- What comes neither before another character of a string nor last is no backslash. -/
theorem ne_backslash (hescape : ∀ d later, c = '\\' → cs = d :: later → False)
    (hlast : c = '\\' → cs = [] → False) : c ≠ '\\' := by
  intro hc
  cases cs with
  | nil => exact hlast hc rfl
  | cons d later => exact hescape d later hc rfl

theorem not_endsWithin_backslash : ¬(stringTail ('\\' :: cs)).EndsWithin 1 := by
  intro h
  match cs with
  | [] => exact h.elim
  | c :: cs =>
      by_cases hquote : c = '"'
      · rw [hquote] at h
        obtain ⟨k, hk, -⟩ := StringTail.endsWithin_push.mp h
        omega
      by_cases hslash : c = '\\'
      · rw [hslash] at h
        obtain ⟨k, hk, -⟩ := StringTail.endsWithin_push.mp h
        omega
      rw [stringTail_badEscape hquote hslash] at h
      exact h.elim

theorem stringTail_append (h : (stringTail (cs ++ more)).EndsWithin cs.length) :
    stringTail cs = stringTail (cs ++ more) := by
  induction cs using stringTail.induct with
  | case1 => rw [eq_nil_of_stringTail_endsWithin h]
  | case2 rest => rfl
  | case3 =>
      by_cases hmore : more = []
      · rw [hmore, List.append_nil]
      · rw [List.singleton_append, stringTail_cons (by decide) (by decide) (by simp [hmore])] at h
        exact absurd (eq_nil_of_stringTail_endsWithin h.of_push) hmore
  | case4 rest ih | case5 rest ih =>
      exact congrArg (StringTail.push _ 2) (ih (StringTail.EndsWithin.of_push h))
  | case6 c rest hquote hslash =>
      rw [List.cons_append, List.cons_append, stringTail_badEscape hquote hslash] at h
      exact h.elim
  | case7 => exact absurd h not_endsWithin_backslash
  | case8 c rest hquote hnull _ _ hescape hlast ih =>
      have hslash : c ≠ '\\' := ne_backslash hescape hlast
      have hmore : ¬(c = '\x00' ∧ rest ++ more = []) :=
        fun ⟨hc, hnil⟩ => hnull hc (List.append_eq_nil_iff.mp hnil).1
      rw [List.cons_append, stringTail_cons hquote hslash hmore] at h ⊢
      rw [stringTail_cons hquote hslash fun ⟨hc, hnil⟩ => hnull hc hnil, ih h.of_push]

theorem stringTail_endsWithin {n : Nat} (h : (scanString cs).EndsWithin n) :
    (stringTail cs).EndsWithin n := by
  unfold scanString at h
  split at h
  · rename_i chars length hvalue
    rw [hvalue]
    exact h
  · exact h.elim

theorem scanString_append (h : (scanString (cs ++ more)).EndsWithin cs.length) :
    scanString cs = scanString (cs ++ more) := by
  rw [scanString, scanString, stringTail_append (stringTail_endsWithin h)]

/-! ## Comments and truth values -/

/-- What the text starts with stands in its first piece if that is long enough. -/
theorem exists_front (start : List Char) {rest : List Char} (h : cs ++ more = start ++ rest)
    (hle : start.length ≤ cs.length) : ∃ front, cs = start ++ front ∧ rest = front ++ more := by
  rcases List.append_eq_append_iff.mp h with ⟨front, rfl, rfl⟩ | ⟨front, rfl, rfl⟩
  · rw [List.length_append] at hle
    have hnil : front = [] := List.length_eq_zero_iff.mp (by omega)
    exact ⟨[], by simp [hnil], by simp [hnil]⟩
  · exact ⟨front, rfl, rfl⟩

theorem commentText_append (h : (commentText (cs ++ more)).length ≤ cs.length) :
    commentText cs = commentText (cs ++ more) :=
  takeWhile_append_of_le h

theorem scanComment_append (h : (scanComment (cs ++ more)).EndsWithin cs.length) :
    scanComment cs = scanComment (cs ++ more) := by
  generalize htext : cs ++ more = text at h ⊢
  unfold scanComment at h
  split at h
  · rename_i rest
    replace h : 3 + (commentText rest).length ≤ cs.length := h
    obtain ⟨front, rfl, rfl⟩ := exists_front [';', '@', ' '] htext (by simp; omega)
    have hfront : commentText front = commentText (front ++ more) :=
      commentText_append (by simp at h; omega)
    simp [scanComment, hfront]
  · rename_i rest hspace
    replace h : 2 + (commentText rest).length ≤ cs.length := h
    obtain ⟨front, rfl, rfl⟩ := exists_front [';', '@'] htext (by simp; omega)
    have hfront : commentText front = commentText (front ++ more) :=
      commentText_append (by simp at h; omega)
    have hspace' : ∀ rest, front = ' ' :: rest → False := by
      rintro rest rfl
      exact hspace _ rfl
    change scanComment (';' :: '@' :: front) = scanComment (';' :: '@' :: (front ++ more))
    rw [scanComment, scanComment, hfront]
    · exact hspace
    · exact hspace'
  · rename_i hspace hmark
    subst htext
    have hplain : scanComment cs = .blank (commentText cs).length := by
      rw [scanComment]
      · rintro rest rfl
        exact hspace _ rfl
      · rintro rest rfl
        exact hmark _ rfl
    rw [hplain, scanComment, commentText_append h]
    · exact hspace
    · exact hmark

theorem blockCommentLength?_cons (h : ¬(c = '|' ∧ cs.head? = some '#')) :
    blockCommentLength? (c :: cs) = (blockCommentLength? cs).map (· + 1) := by
  rw [blockCommentLength?]
  · rfl
  · rintro rest hc rfl
    exact h ⟨hc, rfl⟩

theorem two_le_blockCommentLength {n : Nat} (h : blockCommentLength? cs = some n) : 2 ≤ n := by
  induction cs using blockCommentLength?.induct generalizing n with
  | case1 => exact absurd h (by simp [blockCommentLength?])
  | case2 => exact Nat.le_of_eq (Option.some.inj h)
  | case3 c rest hmark ih =>
      have hstep : ¬(c = '|' ∧ rest.head? = some '#') := by
        rintro ⟨hc, hhead⟩
        exact hmark _ hc (List.head?_eq_some_iff.mp hhead).choose_spec
      rw [blockCommentLength?_cons hstep] at h
      obtain ⟨m, hm, rfl⟩ := Option.map_eq_some_iff.mp h
      exact Nat.le_succ_of_le (ih hm)

theorem blockCommentLength?_append {n : Nat} (h : blockCommentLength? (cs ++ more) = some n)
    (hn : n ≤ cs.length) : blockCommentLength? cs = some n := by
  induction cs generalizing n with
  | nil =>
      have hpos := two_le_blockCommentLength h
      exact absurd hn (by simp; omega)
  | cons c cs ih =>
      rw [List.cons_append] at h
      by_cases hmark : c = '|' ∧ (cs ++ more).head? = some '#'
      · obtain ⟨rfl, hhead⟩ := hmark
        have hpos := two_le_blockCommentLength h
        cases cs with
        | nil => exact absurd hn (by simp; omega)
        | cons d cs =>
            obtain rfl : d = '#' := by simpa using hhead
            exact h
      · have hmark' : ¬(c = '|' ∧ cs.head? = some '#') := by
          rintro ⟨hc, hhead⟩
          exact hmark ⟨hc, by rw [List.head?_append, hhead]; rfl⟩
        rw [blockCommentLength?_cons hmark] at h
        obtain ⟨m, hm, rfl⟩ := Option.map_eq_some_iff.mp h
        rw [blockCommentLength?_cons hmark', ih hm (Nat.le_of_succ_le_succ hn)]
        rfl

theorem scanHash_append (h : (scanHash (cs ++ more)).EndsWithin cs.length) :
    scanHash cs = scanHash (cs ++ more) := by
  generalize htext : cs ++ more = text at h ⊢
  unfold scanHash at h
  split at h
  · rename_i rest
    split at h
    · rename_i n hlength
      replace h : n + 1 ≤ cs.length := h
      obtain ⟨front, rfl, rfl⟩ := exists_front ['|'] htext (by simp; omega)
      have hfront := blockCommentLength?_append hlength (Nat.le_of_succ_le_succ h)
      simp [scanHash, hlength, hfront]
    · exact h.elim
  · obtain ⟨front, rfl, rfl⟩ := exists_front ['t', 'r', 'u', 'e'] htext h
    rfl
  · obtain ⟨front, rfl, rfl⟩ := exists_front ['f', 'a', 'l', 's', 'e'] htext h
    rfl
  · exact h.elim

/-! ## Any lexeme -/

/-- The rules for lexemes. Which one applies is decided by the first character `c`; a rule says what
is found of the characters after it. -/
inductive Scanner : Char → (List Char → Scan) → Prop
  | char {c : Char} (kind : TokenKind)
      (hkind : kind ∈ [.openParen, .closeParen, .colon, .ampersand]) :
      Scanner c fun _ => .token kind 0
  | string : Scanner '"' scanString
  | symbol : Scanner '\'' scanSymbol
  | comment : Scanner ';' scanComment
  | hash : Scanner '#' scanHash
  | number {c : Char} : Scanner c (scanNumber c)
  | word {c : Char} : Scanner c fun rest =>
      if c = '-' ∧ rest.head? = some '>' then .token .arrow 1 else scanWord c rest
  | blank {c : Char} : Scanner c fun _ => .blank 0

theorem scan_of_no_mark (hc : c ∉ ['(', '[', ')', ']', ':', '&', '"', '\'', ';', '#'])
    (harrow : ¬(c = '-' ∧ cs.head? = some '>')) :
    scan c cs = if c.isDigit then scanNumber c cs
      else if isIdentifierStart c then scanWord c cs else .blank 0 := by
  unfold scan
  split
  case h_7 => exact absurd ⟨rfl, rfl⟩ harrow
  case h_12 => rfl
  all_goals exact absurd hc (by decide)

/-- A lexeme is found by one of the rules. -/
theorem scanner (c : Char) : Scanner c (scan c) := by
  by_cases hc : c ∈ ['(', '[', ')', ']', ':', '&', '"', '\'', ';', '#']
  · simp only [List.mem_cons, List.not_mem_nil, or_false] at hc
    rcases hc with rfl | rfl | rfl | rfl | rfl | rfl | rfl | rfl | rfl | rfl
    · exact .char .openParen (by decide)
    · exact .char .openParen (by decide)
    · exact .char .closeParen (by decide)
    · exact .char .closeParen (by decide)
    · exact .char .colon (by decide)
    · exact .char .ampersand (by decide)
    · exact .string
    · exact .symbol
    · exact .comment
    · exact .hash
  have hscan (rest : List Char) (harrow : ¬(c = '-' ∧ rest.head? = some '>')) :=
    scan_of_no_mark hc harrow
  by_cases hdigit : c.isDigit = true
  · have hrule : scan c = scanNumber c := by
      funext rest
      rw [hscan rest (by rintro ⟨rfl, -⟩; exact absurd hdigit (by decide)), if_pos hdigit]
    rw [hrule]
    exact .number
  by_cases hstart : isIdentifierStart c = true
  · have hrule : scan c = fun rest =>
        if c = '-' ∧ rest.head? = some '>' then .token .arrow 1 else scanWord c rest := by
      funext rest
      split
      · rename_i harrow
        obtain ⟨rfl, hhead⟩ := harrow
        obtain ⟨tail, rfl⟩ := List.head?_eq_some_iff.mp hhead
        rfl
      · rw [hscan rest ‹_›, if_neg hdigit, if_pos hstart]
    rw [hrule]
    exact .word
  · have hrule : scan c = fun _ => .blank 0 := by
      funext rest
      rw [hscan rest (by rintro ⟨rfl, -⟩; exact hstart (by decide)), if_neg hdigit, if_neg hstart]
    rw [hrule]
    exact .blank

/-- What is found does not depend on the text after it. -/
theorem scan_append (h : (scan c (cs ++ more)).EndsWithin cs.length) :
    scan c cs = scan c (cs ++ more) := by
  have hrule := scanner c
  generalize scan c = rule at h hrule ⊢
  cases hrule with
  | char kind => rfl
  | string => exact scanString_append h
  | symbol => exact scanSymbol_append h
  | comment => exact scanComment_append h
  | hash => exact scanHash_append h
  | number => exact scanNumber_append h
  | word =>
      dsimp only at h ⊢
      cases cs with
      | nil =>
          have hlonger : ¬(c = '-' ∧ ([] ++ more).head? = some '>') := by
            intro harrow
            rw [if_pos harrow] at h
            exact Nat.not_succ_le_zero 0 h
          rw [if_neg hlonger] at h
          rw [if_neg hlonger, if_neg (by simp), scanWord_append h]
      | cons d cs =>
          rw [List.cons_append, List.head?_cons] at h
          rw [List.cons_append, List.head?_cons, List.head?_cons]
          split
          · rfl
          · rw [if_neg ‹_›] at h
            exact scanWord_append h
  | blank => rfl

/-! ## The end of a lexeme -/

/-- The characters of a lexeme after the first one. -/
def Scan.extra : Scan → Nat
  | blank extra => extra
  | token _ extra => extra
  | fault _ extra => extra

def StringTail.length : StringTail → Nat
  | value _ length => length
  | badEscape _ length => length

theorem StringTail.length_push (tail : StringTail) (n : Nat) :
    (tail.push c n).length = n + tail.length := by
  cases tail <;> rfl

theorem stringTail_length_le : (stringTail cs).length ≤ cs.length := by
  fun_induction stringTail cs with
  | case1 => exact Nat.le_refl 0
  | case4 rest ih | case5 rest ih =>
      rw [StringTail.length_push, List.length_cons, List.length_cons]
      omega
  | case8 c rest _ _ _ _ _ _ ih =>
      rw [StringTail.length_push, List.length_cons]
      omega
  | _ => simp [StringTail.length]

theorem scanString_extra : (scanString cs).extra = (stringTail cs).length := by
  unfold scanString
  split <;> simp [Scan.extra, StringTail.length, *]

theorem blockCommentLength?_le {n : Nat} (h : blockCommentLength? cs = some n) :
    n ≤ cs.length := by
  fun_induction blockCommentLength? cs generalizing n with
  | case1 => exact absurd h (by simp)
  | case2 rest =>
      obtain rfl := Option.some.inj h
      simp
  | case3 c rest _ ih =>
      obtain ⟨m, hm, rfl⟩ := Option.map_eq_some_iff.mp h
      exact Nat.succ_le_succ (ih hm)

theorem scanDigits_extra (c : Char) (digits : List Char) :
    (scanDigits c digits).extra = digits.length := by
  unfold scanDigits
  dsimp only
  split <;> rfl

theorem scanNumber_extra_le : (scanNumber c cs).extra ≤ cs.length := by
  have hsplit := congrArg List.length
    (List.takeWhile_append_dropWhile (p := Char.isDigit) (l := cs))
  rw [List.length_append] at hsplit
  cases hdrop : cs.dropWhile Char.isDigit with
  | nil =>
      rw [scanNumber_eq_digits hdrop, scanDigits_extra]
      omega
  | cons mark tail =>
      rw [hdrop, List.length_cons] at hsplit
      have htail := (List.takeWhile_prefix (l := tail) Char.isDigit).length_le
      rw [scanNumber_eq_marked hdrop]
      unfold scanMarked
      dsimp only
      split
      · rw [scanDigits_extra]
        omega
      split
      · simp only [Scan.extra]
        omega
      split
      · split <;> simp only [Scan.extra] <;> omega
      · rw [scanDigits_extra]
        omega

theorem scanComment_extra_le : (scanComment cs).extra ≤ cs.length := by
  have htext : ∀ rest, (commentText rest).length ≤ rest.length :=
    fun _ => (List.takeWhile_prefix _).length_le
  unfold scanComment
  split
  · rename_i rest
    have hle := htext rest
    simp only [Scan.extra, List.length_cons]
    omega
  · rename_i rest _
    have hle := htext rest
    simp only [Scan.extra, List.length_cons]
    omega
  · exact htext cs

theorem scanHash_extra_le : (scanHash cs).extra ≤ cs.length := by
  unfold scanHash
  split
  · split
    · have hle := blockCommentLength?_le ‹_›
      simpa [Scan.extra] using hle
    · simp [Scan.extra]
  all_goals simp [Scan.extra]

/-- A lexeme ends within the text. -/
theorem scan_extra_le : (scan c cs).extra ≤ cs.length := by
  have hrule := scanner c
  generalize scan c = rule at hrule ⊢
  cases hrule with
  | char kind => exact Nat.zero_le _
  | string =>
      rw [scanString_extra]
      exact stringTail_length_le
  | symbol => exact (List.takeWhile_prefix _).length_le
  | comment => exact scanComment_extra_le
  | hash => exact scanHash_extra_le
  | number => exact scanNumber_extra_le
  | word =>
      dsimp only
      split
      · obtain ⟨tail, rfl⟩ := List.head?_eq_some_iff.mp (And.right ‹_›)
        exact Nat.succ_le_succ (Nat.zero_le _)
      · exact (List.takeWhile_prefix _).length_le
  | blank => exact Nat.zero_le _

end

end TypedIsl
