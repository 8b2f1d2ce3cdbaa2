import TypedIsl.Proofs.Token.LineEndings
import TypedIsl.Proofs.Token.Positions

/-!
# Lexing line by line

A text whose last newline belongs to no token can be followed by any other text: the tokens of the
two are found one after the other, and the second text starts over in the first column.
-/

namespace TypedIsl

section

variable {p : Char → Bool} {c : Char} {cs more : List Char}

theorem takeWhile_line (hnewline : p '\n' = false) (cs more : List Char) :
    (cs ++ '\n' :: more).takeWhile p = cs.takeWhile p := by
  induction cs with
  | nil => simp [hnewline]
  | cons c cs ih => rw [List.cons_append, List.takeWhile_cons, ih, List.takeWhile_cons]

theorem dropWhile_line (hnewline : p '\n' = false) (cs more : List Char) :
    (cs ++ '\n' :: more).dropWhile p = cs.dropWhile p ++ '\n' :: more := by
  induction cs with
  | nil => simp [hnewline]
  | cons c cs ih =>
      rw [List.cons_append, List.dropWhile_cons, ih, List.dropWhile_cons]
      split <;> rfl

/-- What a line starts with, no newline, it also starts with if more text follows. -/
theorem line_eq_cons_iff (hc : c ≠ '\n') :
    (∃ tail, cs ++ '\n' :: more = c :: tail) ↔ ∃ tail, cs = c :: tail := by
  cases cs with
  | nil => simp [Ne.symm hc]
  | cons d cs => simp

/-! ## Lexemes that end on the line -/

theorem scanWord_line (c : Char) (cs more : List Char) :
    scanWord c (cs ++ '\n' :: more) = scanWord c cs := by
  rw [scanWord, scanWord, takeWhile_line isIdentifierChar_newline]

theorem scanSymbol_line (cs more : List Char) :
    scanSymbol (cs ++ '\n' :: more) = scanSymbol cs := by
  rw [scanSymbol, scanSymbol, takeWhile_line isIdentifierChar_newline]

theorem scanNumber_line (c : Char) (cs more : List Char) :
    scanNumber c (cs ++ '\n' :: more) = scanNumber c cs := by
  have hnewline : Char.isDigit '\n' = false := by decide
  have hdrop := dropWhile_line hnewline cs more
  cases hmore : cs.dropWhile Char.isDigit with
  | nil =>
      rw [hmore, List.nil_append] at hdrop
      rw [scanNumber_eq_marked hdrop, scanNumber_eq_digits hmore, takeWhile_line hnewline,
        scanMarked_of_ne (by decide) (by decide)]
  | cons mark tail =>
      rw [hmore, List.cons_append] at hdrop
      rw [scanNumber_eq_marked hdrop, scanNumber_eq_marked hmore, takeWhile_line hnewline,
        takeWhile_line hnewline]

theorem commentText_line (cs more : List Char) :
    commentText (cs ++ '\n' :: more) = commentText cs :=
  takeWhile_line rfl cs more

theorem scanComment_line (cs more : List Char) :
    scanComment (cs ++ '\n' :: more) = scanComment cs := by
  rcases comment_cases cs with ⟨text, rfl⟩ | ⟨text, rfl, hplain⟩ | hplain
  · simp only [List.cons_append, scanComment, commentText_line]
  · have hlonger : ∀ later, text ++ '\n' :: more ≠ ' ' :: later := by
      intro later heq
      obtain ⟨last, rfl⟩ := (line_eq_cons_iff (by decide)).mp ⟨later, heq⟩
      exact hplain last rfl
    rw [List.cons_append, List.cons_append, scanComment_docstring hlonger,
      scanComment_docstring hplain, commentText_line]
  · have hlonger : ∀ tail, cs ++ '\n' :: more ≠ ';' :: '@' :: tail := by
      intro tail heq
      obtain ⟨rest, rfl⟩ := (line_eq_cons_iff (by decide)).mp ⟨_, heq⟩
      obtain ⟨last, rfl⟩ := (line_eq_cons_iff (by decide)).mp ⟨_, (List.cons.inj heq).2⟩
      exact hplain last rfl
    rw [scanComment_blank hlonger, scanComment_blank hplain, commentText_line]

/-- A string that is closed before the newline. -/
theorem stringTail_line (h : (stringTail (cs ++ ['\n'])).EndsWithin cs.length)
    (more : List Char) : stringTail (cs ++ '\n' :: more) = stringTail (cs ++ ['\n']) := by
  induction cs using stringTail.induct with
  | case1 => exact absurd (eq_nil_of_stringTail_endsWithin h) (List.cons_ne_nil _ _)
  | case2 rest => rfl
  | case3 =>
      rw [List.singleton_append, stringTail_cons (by decide) (by decide) (by simp)] at h
      exact absurd (eq_nil_of_stringTail_endsWithin h.of_push) (List.cons_ne_nil _ _)
  | case4 rest ih | case5 rest ih =>
      exact congrArg (StringTail.push _ 2) (ih (StringTail.EndsWithin.of_push h))
  | case6 c rest hquote hslash =>
      rw [List.cons_append, List.cons_append, stringTail_badEscape hquote hslash] at h
      exact h.elim
  | case7 => exact h.elim
  | case8 c rest hquote hnull _ _ hescape hlast ih =>
      have hslash : c ≠ '\\' := ne_backslash hescape hlast
      have hpush : ∀ later, stringTail (c :: (rest ++ '\n' :: later)) =
          (stringTail (rest ++ '\n' :: later)).push c 1 :=
        fun later => stringTail_cons hquote hslash (by simp)
      rw [List.cons_append, hpush] at h
      rw [List.cons_append, List.cons_append, hpush, hpush, ih h.of_push]

theorem scanString_line (h : (scanString (cs ++ ['\n'])).EndsWithin cs.length)
    (more : List Char) : scanString (cs ++ '\n' :: more) = scanString (cs ++ ['\n']) := by
  rw [scanString, scanString, stringTail_line (stringTail_endsWithin h)]

/-- Whatever follows a block comment does not matter. -/
theorem blockCommentLength?_more {n : Nat} (h : blockCommentLength? cs = some n)
    (more : List Char) : blockCommentLength? (cs ++ more) = some n := by
  fun_induction blockCommentLength? cs generalizing n with
  | case1 => exact absurd h (by simp)
  | case2 rest => exact h
  | case3 c rest hmark ih =>
      obtain ⟨m, hm, rfl⟩ := Option.map_eq_some_iff.mp h
      have hstep : ¬(c = '|' ∧ (rest ++ more).head? = some '#') := by
        rintro ⟨rfl, hhead⟩
        cases rest with
        | nil => exact absurd hm (by simp [blockCommentLength?])
        | cons d rest =>
            obtain rfl : d = '#' := by simpa using hhead
            exact hmark _ rfl rfl
      rw [List.cons_append, blockCommentLength?_cons hstep, ih hm]
      rfl

/-- A block comment does not end with a newline. -/
theorem blockCommentLength?_line {n : Nat} (h : blockCommentLength? (cs ++ ['\n']) = some n) :
    blockCommentLength? cs = some n := by
  induction cs generalizing n with
  | nil => exact absurd h (by simp [blockCommentLength?])
  | cons c cs ih =>
      rw [List.cons_append] at h
      by_cases hmark : c = '|' ∧ cs.head? = some '#'
      · obtain ⟨rfl, hhead⟩ := hmark
        obtain ⟨tail, rfl⟩ := List.head?_eq_some_iff.mp hhead
        exact h
      · have hlonger : ¬(c = '|' ∧ (cs ++ ['\n']).head? = some '#') := by
          rintro ⟨hc, hhead⟩
          cases cs with
          | nil => exact absurd hhead (by decide)
          | cons d cs => exact hmark ⟨hc, hhead⟩
        rw [blockCommentLength?_cons hlonger] at h
        obtain ⟨m, hm, rfl⟩ := Option.map_eq_some_iff.mp h
        rw [blockCommentLength?_cons hmark, ih hm]
        rfl

theorem scanHash_line (h : (scanHash (cs ++ ['\n'])).EndsWithin cs.length) (more : List Char) :
    scanHash (cs ++ '\n' :: more) = scanHash (cs ++ ['\n']) := by
  generalize htext : cs ++ ['\n'] = text at h
  unfold scanHash at h
  split at h
  · rename_i rest
    split at h
    · rename_i n hlength
      replace h : n + 1 ≤ cs.length := h
      obtain ⟨front, rfl, rfl⟩ := exists_front ['|'] htext (by simp; omega)
      have hmore := blockCommentLength?_more hlength more
      rw [List.append_assoc, List.singleton_append] at hmore
      simp [scanHash, hlength, hmore]
    · exact h.elim
  · obtain ⟨front, rfl, rfl⟩ := exists_front ['t', 'r', 'u', 'e'] htext h
    rfl
  · obtain ⟨front, rfl, rfl⟩ := exists_front ['f', 'a', 'l', 's', 'e'] htext h
    rfl
  · exact h.elim

/-! ## Any lexeme -/

/-- A lexeme that ends before a newline is also found if more text follows the newline. -/
theorem scan_line (h : (scan c (cs ++ ['\n'])).EndsWithin cs.length) (more : List Char) :
    scan c (cs ++ '\n' :: more) = scan c (cs ++ ['\n']) := by
  have hrule := scanner c
  generalize scan c = rule at h hrule ⊢
  cases hrule with
  | char kind => rfl
  | string => exact scanString_line h more
  | symbol => rw [scanSymbol_line, scanSymbol_line]
  | comment => rw [scanComment_line, scanComment_line]
  | hash => exact scanHash_line h more
  | number => rw [scanNumber_line, scanNumber_line]
  | word =>
      have hhead : (cs ++ '\n' :: more).head? = (cs ++ ['\n']).head? := by cases cs <;> rfl
      dsimp only
      rw [hhead, scanWord_line, scanWord_line]
  | blank => rfl

/-- No blank but the newline itself ends with a newline. -/
theorem blank_line {n : Nat} (h : scan c (cs ++ ['\n']) = .blank n) : n ≤ cs.length := by
  have hrule := scanner c
  generalize scan c = rule at h hrule
  cases hrule with
  | char kind => cases h
  | string =>
      rw [scanString] at h
      split at h <;> cases h
  | symbol => cases h
  | comment =>
      have hextra : (scanComment cs).extra ≤ cs.length := scanComment_extra_le
      rw [← scanComment_line cs [], h] at hextra
      exact hextra
  | hash =>
      generalize htext : cs ++ ['\n'] = text at h
      unfold scanHash at h
      split at h
      · split at h
        · rename_i m hlength
          obtain rfl : m + 1 = n := Scan.blank.inj h
          cases cs with
          | nil => exact absurd (List.cons.inj htext).1 (by decide)
          | cons d cs =>
              obtain ⟨rfl, rfl⟩ := List.cons.inj htext
              exact Nat.succ_le_succ (blockCommentLength?_le (blockCommentLength?_line hlength))
        · cases h
      all_goals cases h
  | number =>
      have hextra : (scanNumber c cs).extra ≤ cs.length := scanNumber_extra_le
      rw [← scanNumber_line c cs [], h] at hextra
      exact hextra
  | word =>
      dsimp only at h
      split at h <;> cases h
  | blank =>
      obtain rfl := Scan.blank.inj h
      exact Nat.zero_le _

end

/-! ## Texts -/

section

variable {p : Position} {front : List Char} {tokens : List Token}

/-- A piece of a line leaves nothing, or the end of the line. -/
theorem rest_of_line {cs rest : List Char} (h : front ++ ['\n'] = cs ++ rest) :
    rest = [] ∨ ∃ middle, front = cs ++ middle ∧ rest = middle ++ ['\n'] := by
  rcases List.append_eq_append_iff.mp h with ⟨piece, rfl, hpiece⟩ | ⟨middle, rfl, rfl⟩
  · rcases List.append_eq_singleton_iff.mp hpiece.symm with ⟨rfl, rfl⟩ | ⟨rfl, rfl⟩
    · exact .inr ⟨[], by simp, rfl⟩
    · exact .inl rfl
  · exact .inr ⟨middle, rfl, rfl⟩

/-- Before a last newline that belongs to no token, a lexeme is found as if nothing came after. -/
theorem scan_line_piece {c : Char} {cs rest : List Char} {found : Scan}
    (h : scan c (cs ++ (rest ++ ['\n'])) = found) (hends : found.EndsWithin cs.length)
    (more : List Char) : scan c (cs ++ (rest ++ '\n' :: more)) = found := by
  rw [← List.append_assoc] at h ⊢
  have hwithin : found.EndsWithin (cs ++ rest).length := hends.mono (by simp)
  rw [scan_line (h ▸ hwithin), h]

/-- The tokens of a text whose last newline belongs to none of them, followed by those of any
other text. -/
theorem Lexes.lexFrom_append (h : Lexes p (front ++ ['\n']) tokens)
    (hlast : ∀ token ∈ tokens, token.range.stop ≠ p.afterAll (front ++ ['\n']))
    (more : List Char) :
    lexFrom 0 p (front ++ '\n' :: more) =
      ⟨tokens ++ (lexFrom 0 (p.afterAll (front ++ ['\n'])) more).tokens,
        (lexFrom 0 (p.afterAll (front ++ ['\n'])) more).error?⟩ := by
  generalize htext : front ++ ['\n'] = text at h hlast ⊢
  induction h generalizing front with
  | nil => exact absurd htext (by simp)
  | @blank p c cs rest tokens hscan hrest ih =>
      rcases rest_of_line htext with rfl | ⟨rest, rfl, rfl⟩
      · cases front with
        | nil =>
            obtain ⟨rfl, hnil⟩ := List.cons.inj htext
            obtain ⟨rfl, -⟩ := List.append_eq_nil_iff.mp hnil.symm
            cases hrest
            rfl
        | cons d front =>
            obtain ⟨rfl, rfl⟩ := List.cons.inj (htext.trans (List.append_nil _))
            rw [List.append_nil] at hscan
            exact absurd (blank_line hscan) (by simp)
      · rw [Position.afterAll_append] at hlast ⊢
        rw [List.append_assoc, List.cons_append, lexFrom]
        dsimp only
        rw [scan_line_piece hscan (Nat.le_refl _)]
        dsimp only
        rw [lexFrom_skip, ← Position.afterAll_cons, ih rfl hlast]
  | @token p c cs rest kind tokens hscan hrest ih =>
      obtain ⟨hfirst, hlater⟩ := List.forall_mem_cons.mp hlast
      rcases rest_of_line htext with rfl | ⟨rest, rfl, rfl⟩
      · rw [List.append_nil] at hfirst
        exact absurd rfl hfirst
      · rw [Position.afterAll_append] at hlater ⊢
        rw [List.append_assoc, List.cons_append, lexFrom]
        dsimp only
        rw [scan_line_piece hscan (Nat.le_refl _)]
        dsimp only
        rw [lexFrom_skip, List.take_left, ← Position.afterAll_cons, ih rfl hlater]
        rfl

end

/-! ## The text after a line -/

/-- The position in a text that comes after the lines of `before`. -/
def Position.below (before : String) (p : Position) : Position :=
  ⟨p.line + before.toList.count '\n', p.column, p.index + before.utf8ByteSize⟩

def LexicalError.move (f : Position → Position) (e : LexicalError) : LexicalError :=
  ⟨e.fault, e.range.move f⟩

def Lexed.move (f : Position → Position) (lexed : Lexed) : Lexed :=
  ⟨lexed.tokens.map (Token.move f), lexed.error?.map (LexicalError.move f)⟩

namespace Position

theorem below_after (before : String) (p : Position) (c : Char) :
    (p.after c).below before = (p.below before).after c := by
  unfold after
  split
  · simp only [below, Position.mk.injEq, true_and]
    omega
  · simp only [below, Position.mk.injEq, true_and]
    omega

/-- Behind a last newline the first column comes next. -/
theorem below_first {before : String} (h : before.toList.getLast? = some '\n') :
    first.below before = first.afterAll before.toList := by
  obtain ⟨front, hfront⟩ := List.getLast?_eq_some_iff.mp h
  rw [afterAll_first, below, beyond, utf8ByteSize_eq, hfront]
  simp [first]

end Position

/-- Lexing counts positions from where it starts. -/
theorem lexFrom_move {f : Position → Position} (hf : ∀ p c, f (p.after c) = (f p).after c)
    (skip : Nat) (p : Position) (text : List Char) :
    lexFrom skip (f p) text = (lexFrom skip p text).move f := by
  have hall : ∀ cs p, f (p.afterAll cs) = (f p).afterAll cs := by
    intro cs
    induction cs with
    | nil => exact fun _ => rfl
    | cons c cs ih => exact fun p => (ih (p.after c)).trans (congrArg (·.afterAll cs) (hf p c))
  induction text generalizing skip p with
  | nil => rfl
  | cons c rest ih =>
      cases skip with
      | succ skip =>
          rw [lexFrom, lexFrom, ← hf]
          exact ih skip (p.after c)
      | zero =>
          rw [lexFrom, lexFrom]
          dsimp only
          cases scan c rest with
          | blank extra =>
              dsimp only
              rw [← hf]
              exact ih extra (p.after c)
          | token kind extra =>
              dsimp only
              rw [← hf, ← hall, ih extra (p.after c)]
              rfl
          | fault fault extra =>
              dsimp only
              rw [← hf, ← hall]
              rfl

/-- Lexing is compositional at line boundaries. If a text has no fault and ends with a newline that
belongs to none of its tokens, any other text may follow: then its tokens are followed by those of
the other text, and there is a fault only if the other text has it, all of them in the same columns
and as much further down and behind as the first text is long. -/
theorem lex_append_line {before : String} (h : (lex before).error? = none)
    (hline : before.toList.getLast? = some '\n')
    (hlast : ∀ token ∈ (lex before).tokens, token.range.stop.index < before.utf8ByteSize)
    (text : String) :
    (lex (before ++ text)).tokens =
        (lex before).tokens ++ (lex text).tokens.map (Token.move (.below before)) ∧
      (lex (before ++ text)).error? =
        (lex text).error?.map (LexicalError.move (.below before)) := by
  obtain ⟨front, hfront⟩ := List.getLast?_eq_some_iff.mp hline
  have hlexes : Lexes .first (front ++ ['\n']) (lex before).tokens := by
    rw [← hfront]
    exact lexes_of_lexFrom (by rw [← h]; rfl)
  have hstop : ∀ token ∈ (lex before).tokens,
      token.range.stop ≠ Position.first.afterAll (front ++ ['\n']) := by
    intro token htoken heq
    have hlt := hlast token htoken
    rw [heq, ← hfront, Position.index_afterAll, utf8ByteSize_eq] at hlt
    exact absurd hlt (by simp [Position.first])
  have hwhole := hlexes.lexFrom_append hstop text.toList
  rw [← hfront, ← Position.below_first hline, lexFrom_move (Position.below_after before)] at hwhole
  have htext : (before ++ text).toList = front ++ '\n' :: text.toList := by
    rw [String.toList_append, hfront, List.append_assoc, List.singleton_append]
  rw [lex, htext, hwhole]
  exact ⟨rfl, rfl⟩

/-- Two lines with comments, before a string that goes over a newline and an invalid fraction. -/
theorem lex_append_line_commented :
    let before := "(f #| two\nlines |# \"x\") ;;@ doc\n"
    let text := "\"y\nz\" 2/0"
    (lex before).error? = none ∧ before.toList.getLast? = some '\n' ∧
      (∀ token ∈ (lex before).tokens, token.range.stop.index < before.utf8ByteSize) ∧
      (lex (before ++ text)).tokens =
        (lex before).tokens ++ (lex text).tokens.map (Token.move (.below before)) ∧
      (lex (before ++ text)).error? = some ⟨.invalidFraction, ⟨⟨4, 4, 38⟩, ⟨4, 7, 41⟩⟩⟩ := by
  intro before text
  have h : (lex before).error? = none := by decide +kernel
  have hline : before.toList.getLast? = some '\n' := by decide
  have hlast : ∀ token ∈ (lex before).tokens, token.range.stop.index < before.utf8ByteSize := by
    decide +kernel
  obtain ⟨htokens, herror⟩ := lex_append_line h hline hlast text
  refine ⟨h, hline, hlast, htokens, herror.trans ?_⟩
  decide +kernel

end TypedIsl
