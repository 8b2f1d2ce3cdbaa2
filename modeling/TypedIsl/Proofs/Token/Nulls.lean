import TypedIsl.Proofs.Token.LineEndings
import TypedIsl.Proofs.Token.Positions

/-!
# Null characters

The character U+0000 stands for the end of the text where a comment or a string literal runs. If no
comment stops in front of one, and no string that is not closed ends with one, it is a character
like any other: with U+0001 in its place the same tokens are found at the same ranges.
-/

namespace TypedIsl

/-- U+0001 in place of U+0000. -/
def withoutNull (c : Char) : Char :=
  if c = '\x00' then '\x01' else c

def withoutNulls (text : String) : String :=
  String.ofList (text.toList.map withoutNull)

/-- The token with its text changed likewise. -/
def TokenKind.withoutNulls : TokenKind → TokenKind
  | literal (.string value) => literal (.string (TypedIsl.withoutNulls value))
  | literal (.symbol name) => literal (.symbol (TypedIsl.withoutNulls name))
  | identifier name => identifier (TypedIsl.withoutNulls name)
  | docstring text => docstring (TypedIsl.withoutNulls text)
  | kind => kind

def Token.withoutNulls (token : Token) : Token :=
  ⟨token.kind.withoutNulls, token.range⟩

def LexicalFault.withoutNulls : LexicalFault → LexicalFault
  | invalidEscape escaped => invalidEscape (withoutNull escaped)
  | fault => fault

/-- A fault at the end of a text of the given size stays as it is, as the null character that it may
name is the end of the text. -/
def LexicalError.withoutNulls (size : Nat) (e : LexicalError) : LexicalError :=
  ⟨if e.range.stop.index = size then e.fault else e.fault.withoutNulls, e.range⟩

/-! ## Lexemes -/

/-- Where lexemes start in a text up to its first fault, without the first `skip` characters: their
first characters and the texts after these. -/
def lexemes (skip : Nat) : List Char → List (Char × List Char)
  | [] => []
  | c :: rest =>
      match skip with
      | skip + 1 => lexemes skip rest
      | 0 => (c, rest) :: match scan c rest with
          | .blank extra => lexemes extra rest
          | .token _ extra => lexemes extra rest
          | .fault _ _ => []

/-- The next `n` characters are all that there are, and the last one is a null character. -/
def RunsToNull (n : Nat) (cs : List Char) : Prop :=
  n = cs.length ∧ cs.getLast? = some '\x00'

instance (n : Nat) (cs : List Char) : Decidable (RunsToNull n cs) :=
  inferInstanceAs (Decidable (_ ∧ _))

/-- A null character is taken for the end of the text: it comes after the comment that starts here,
or it is the last character of the string literal that starts here and runs to the end. -/
def EndsAtNull (c : Char) (rest : List Char) : Prop :=
  c = ';' ∧ (rest.drop (scan c rest).extra).head? = some '\x00' ∨
    c = '"' ∧ RunsToNull (scan c rest).extra rest

instance (c : Char) (rest : List Char) : Decidable (EndsAtNull c rest) :=
  inferInstanceAs (Decidable (_ ∧ _ ∨ _ ∧ _))

namespace Scan

/-- What is found in a text of which `length` characters come after the first one, with texts and
the escape that is not allowed changed likewise. -/
def withoutNulls (length : Nat) : Scan → Scan
  | blank extra => blank extra
  | token kind extra => token kind.withoutNulls extra
  | fault problem extra => fault (if extra = length then problem else problem.withoutNulls) extra

end Scan

def StringTail.withoutNulls (size : Nat) : StringTail → StringTail
  | value chars n => value (chars.map withoutNull) n
  | badEscape escaped n => badEscape (if n = size then escaped else withoutNull escaped) n

section

variable {p : Char → Bool} {c d : Char} {cs rest : List Char}

/-! ## Characters -/

theorem withoutNull_of_ne (h : c ≠ '\x00') : withoutNull c = c :=
  if_neg h

theorem withoutNull_ne (c : Char) : withoutNull c ≠ '\x00' := by
  unfold withoutNull
  split
  · decide
  · assumption

theorem withoutNull_eq_iff (hnull : d ≠ '\x00') (hother : d ≠ '\x01') :
    withoutNull c = d ↔ c = d := by
  unfold withoutNull
  split
  · rename_i hc
    rw [hc]
    exact iff_of_false (Ne.symm hother) (Ne.symm hnull)
  · exact Iff.rfl

theorem map_withoutNull_eq_self (h : ∀ c ∈ cs, c ≠ '\x00') : cs.map withoutNull = cs := by
  rw [List.map_congr_left fun c hc => withoutNull_of_ne (h c hc), List.map_id']

theorem withoutNulls_eq_self (h : ∀ c ∈ cs, c ≠ '\x00') :
    withoutNulls (String.ofList cs) = String.ofList cs := by
  rw [withoutNulls, String.toList_ofList, map_withoutNull_eq_self h]

/-- The changed text starts with nothing that the text did not start with before. -/
theorem map_ne_append (start : List Char) (hstart : '\x01' ∉ start)
    (h : ∀ later, cs ≠ start ++ later) (later : List Char) :
    cs.map withoutNull ≠ start ++ later := by
  intro heq
  obtain ⟨front, tail, rfl, hfront, -⟩ := List.map_eq_append_iff.mp heq
  have hsame : ∀ c ∈ front, c ≠ '\x00' := by
    rintro c hc rfl
    exact hstart (hfront ▸ List.mem_map_of_mem hc)
  rw [map_withoutNull_eq_self hsame] at hfront
  exact h tail (congrArg (· ++ tail) hfront)

theorem head?_map_withoutNull (hnull : d ≠ '\x00') (hother : d ≠ '\x01') :
    (cs.map withoutNull).head? = some d ↔ cs.head? = some d := by
  cases cs with
  | nil => exact Iff.rfl
  | cons c cs => simp [withoutNull_eq_iff hnull hother]

theorem takeWhile_withoutNull (hnull : p '\x00' = false) (hother : p '\x01' = false)
    (cs : List Char) : (cs.map withoutNull).takeWhile p = cs.takeWhile p := by
  induction cs with
  | nil => rfl
  | cons c cs ih =>
      rw [List.map_cons]
      by_cases hc : c = '\x00'
      · rw [hc, List.takeWhile_cons_of_neg (by simp [withoutNull, hother]),
          List.takeWhile_cons_of_neg (by simp [hnull])]
      · rw [withoutNull_of_ne hc, List.takeWhile_cons, List.takeWhile_cons, ih]

theorem dropWhile_withoutNull (hnull : p '\x00' = false) (hother : p '\x01' = false)
    (cs : List Char) :
    (cs.map withoutNull).dropWhile p = (cs.dropWhile p).map withoutNull := by
  have hp : p ∘ withoutNull = p := by
    funext c
    by_cases hc : c = '\x00'
    · simp [hc, withoutNull, hnull, hother]
    · rw [Function.comp_apply, withoutNull_of_ne hc]
  rw [List.dropWhile_map, hp]

theorem ne_null_of_mem_takeWhile (hnull : p '\x00' = false) :
    ∀ c ∈ cs.takeWhile p, c ≠ '\x00' := by
  rintro c hc rfl
  have hp := List.all_eq_true.mp (List.all_takeWhile (l := cs) (p := p)) _ hc
  rw [hnull] at hp
  cases hp

/-! ## Words and numbers -/

theorem wordKind_withoutNulls (h : ∀ c ∈ cs, c ≠ '\x00') :
    (wordKind (String.ofList cs)).withoutNulls = wordKind (String.ofList cs) := by
  rcases wordKind_cases (String.ofList cs) with ⟨keyword, hkind⟩ | ⟨value, hkind⟩ | hkind
  · rw [hkind]
    rfl
  · rw [hkind]
    rfl
  · rw [hkind, TokenKind.withoutNulls, withoutNulls_eq_self h]

theorem scanWord_withoutNulls (hc : c ≠ '\x00') (rest : List Char) (length : Nat) :
    scanWord c (rest.map withoutNull) = (scanWord c rest).withoutNulls length := by
  have hnull : isIdentifierChar '\x00' = false := by decide
  have hword : ∀ d ∈ c :: rest.takeWhile isIdentifierChar, d ≠ '\x00' :=
    List.forall_mem_cons.mpr ⟨hc, ne_null_of_mem_takeWhile hnull⟩
  rw [scanWord, takeWhile_withoutNull hnull (by decide), scanWord,
    Scan.withoutNulls, wordKind_withoutNulls hword]

theorem scanSymbol_withoutNulls (rest : List Char) (length : Nat) :
    scanSymbol (rest.map withoutNull) = (scanSymbol rest).withoutNulls length := by
  have hnull : isIdentifierChar '\x00' = false := by decide
  rw [scanSymbol, takeWhile_withoutNull hnull (by decide), scanSymbol, Scan.withoutNulls,
    TokenKind.withoutNulls, withoutNulls_eq_self (ne_null_of_mem_takeWhile hnull)]

theorem scanDigits_withoutNulls (c : Char) (digits : List Char) (length : Nat) :
    (scanDigits c digits).withoutNulls length = scanDigits c digits := by
  unfold scanDigits
  dsimp only
  split
  · rfl
  · simp [Scan.withoutNulls, LexicalFault.withoutNulls]

theorem scanMarked_withoutNulls (c : Char) (digits : List Char) (mark : Char)
    (second : List Char) (length : Nat) :
    (scanMarked c digits mark second).withoutNulls length = scanMarked c digits mark second := by
  unfold scanMarked
  dsimp only
  split
  · exact scanDigits_withoutNulls c digits length
  split
  · rfl
  split
  · split
    · rfl
    · simp [Scan.withoutNulls, LexicalFault.withoutNulls]
  · exact scanDigits_withoutNulls c digits length

theorem scanMarked_withoutNull_mark (c : Char) (digits : List Char) (mark : Char)
    (second : List Char) :
    scanMarked c digits (withoutNull mark) second = scanMarked c digits mark second := by
  by_cases hmark : mark = '\x00'
  · rw [hmark, scanMarked_of_ne (by decide) (by decide), scanMarked_of_ne (by decide) (by decide)]
  · rw [withoutNull_of_ne hmark]

theorem scanNumber_withoutNulls (c : Char) (rest : List Char) (length : Nat) :
    scanNumber c (rest.map withoutNull) = (scanNumber c rest).withoutNulls length := by
  have hnull : Char.isDigit '\x00' = false := by decide
  have hother : Char.isDigit '\x01' = false := by decide
  have hdrop := dropWhile_withoutNull hnull hother rest
  cases hmore : rest.dropWhile Char.isDigit with
  | nil =>
      rw [hmore] at hdrop
      rw [scanNumber_eq_digits hdrop, scanNumber_eq_digits hmore, scanDigits_withoutNulls,
        takeWhile_withoutNull hnull hother]
  | cons mark tail =>
      rw [hmore] at hdrop
      rw [scanNumber_eq_marked hdrop, scanNumber_eq_marked hmore, scanMarked_withoutNulls,
        takeWhile_withoutNull hnull hother, takeWhile_withoutNull hnull hother,
        scanMarked_withoutNull_mark]

/-! ## Strings -/

theorem StringTail.withoutNulls_push (tail : StringTail) (c : Char) (length size : Nat) :
    (tail.push c length).withoutNulls (length + size) =
      (tail.withoutNulls size).push (withoutNull c) length := by
  cases tail with
  | value chars n => rfl
  | badEscape escaped n => simp [withoutNulls, push]

theorem RunsToNull.append {n : Nat} (h : RunsToNull n cs) (front : List Char) :
    RunsToNull (front.length + n) (front ++ cs) :=
  ⟨by rw [h.1, List.length_append], by rw [List.getLast?_append, h.2]; rfl⟩

theorem stringTail_withoutNulls (h : ¬RunsToNull (stringTail cs).length cs) :
    stringTail (cs.map withoutNull) = (stringTail cs).withoutNulls cs.length := by
  induction cs using stringTail.induct with
  | case1 => rfl
  | case2 rest => rfl
  | case3 => exact absurd ⟨rfl, rfl⟩ h
  | case4 rest ih | case5 rest ih =>
      rw [stringTail, StringTail.length_push] at h
      have hrest : ¬RunsToNull (stringTail rest).length rest :=
        fun hend => h (hend.append ['\\', _])
      rw [stringTail, List.length_cons, List.length_cons, Nat.add_assoc, Nat.add_comm,
        StringTail.withoutNulls_push, ← ih hrest]
      rfl
  | case6 c rest hquote hslash =>
      have hquote' : withoutNull c ≠ '"' :=
        mt (withoutNull_eq_iff (by decide) (by decide)).mp hquote
      have hslash' : withoutNull c ≠ '\\' :=
        mt (withoutNull_eq_iff (by decide) (by decide)).mp hslash
      rw [stringTail_badEscape hquote hslash]
      exact (stringTail_badEscape hquote' hslash').trans (by simp [StringTail.withoutNulls])
  | case7 => rfl
  | case8 c rest hquote hnull _ _ hescape hlast ih =>
      have hslash : c ≠ '\\' := ne_backslash hescape hlast
      have hquote' : withoutNull c ≠ '"' :=
        mt (withoutNull_eq_iff (by decide) (by decide)).mp hquote
      have hslash' : withoutNull c ≠ '\\' :=
        mt (withoutNull_eq_iff (by decide) (by decide)).mp hslash
      have hpush := stringTail_cons hquote hslash fun hend => hnull hend.1 hend.2
      rw [hpush, StringTail.length_push] at h
      have hrest : ¬RunsToNull (stringTail rest).length rest := fun hend => h (hend.append [c])
      rw [hpush, List.map_cons, List.length_cons, Nat.add_comm, StringTail.withoutNulls_push,
        ← ih hrest, stringTail_cons hquote' hslash' fun hend => withoutNull_ne c hend.1]

theorem scanString_withoutNulls (h : ¬RunsToNull (scanString rest).extra rest) :
    scanString (rest.map withoutNull) = (scanString rest).withoutNulls rest.length := by
  rw [scanString_extra] at h
  rw [scanString, stringTail_withoutNulls h, scanString]
  cases stringTail rest with
  | value chars n => simp [StringTail.withoutNulls, Scan.withoutNulls, TokenKind.withoutNulls,
      withoutNulls]
  | badEscape escaped n =>
      simp only [StringTail.withoutNulls, Scan.withoutNulls]
      split <;> rfl

/-! ## Comments and truth values -/

theorem commentText_cons (hline : c ≠ '\n') (hnull : c ≠ '\x00') (cs : List Char) :
    commentText (c :: cs) = c :: commentText cs :=
  List.takeWhile_cons_of_pos (by simp [hline, hnull])

theorem commentText_withoutNulls
    (h : (cs.drop (commentText cs).length).head? ≠ some '\x00') :
    commentText (cs.map withoutNull) = commentText cs := by
  induction cs with
  | nil => rfl
  | cons c cs ih =>
      by_cases hline : c = '\n'
      · rw [hline]
        rfl
      by_cases hnull : c = '\x00'
      · rw [hnull] at h
        exact absurd rfl h
      rw [commentText_cons hline hnull] at h
      rw [List.map_cons, withoutNull_of_ne hnull, commentText_cons hline hnull,
        commentText_cons hline hnull, ih h]

theorem docstring_withoutNulls (cs : List Char) :
    (TokenKind.docstring (String.ofList (dropCarriageReturns (commentText cs)))).withoutNulls =
      .docstring (String.ofList (dropCarriageReturns (commentText cs))) := by
  have hnull : ∀ c ∈ dropCarriageReturns (commentText cs), c ≠ '\x00' :=
    fun c hc => (mem_commentText (mem_dropEndWhile hc)).2
  rw [TokenKind.withoutNulls, withoutNulls_eq_self hnull]

theorem scanComment_withoutNulls (h : (rest.drop (scanComment rest).extra).head? ≠ some '\x00')
    (length : Nat) :
    scanComment (rest.map withoutNull) = (scanComment rest).withoutNulls length := by
  rcases comment_cases rest with ⟨text, rfl⟩ | ⟨text, rfl, hplain⟩ | hplain
  · rw [scanComment, Scan.extra, Nat.add_comm] at h
    rw [scanComment, Scan.withoutNulls, docstring_withoutNulls, ← commentText_withoutNulls h]
    rfl
  · have hplain' : ∀ later, text.map withoutNull ≠ ' ' :: later :=
      map_ne_append [' '] (by decide) hplain
    rw [scanComment_docstring hplain, Scan.extra, Nat.add_comm] at h
    rw [scanComment_docstring hplain, Scan.withoutNulls, docstring_withoutNulls,
      ← commentText_withoutNulls h]
    exact scanComment_docstring hplain'
  · have hplain' : ∀ tail, rest.map withoutNull ≠ ';' :: '@' :: tail :=
      map_ne_append [';', '@'] (by decide) hplain
    rw [scanComment_blank hplain] at h
    rw [scanComment_blank hplain, scanComment_blank hplain', commentText_withoutNulls h]
    rfl

theorem blockCommentLength?_withoutNulls (cs : List Char) :
    blockCommentLength? (cs.map withoutNull) = blockCommentLength? cs := by
  induction cs with
  | nil => rfl
  | cons c cs ih =>
      by_cases hmark : c = '|' ∧ cs.head? = some '#'
      · obtain ⟨rfl, hhead⟩ := hmark
        obtain ⟨tail, rfl⟩ := List.head?_eq_some_iff.mp hhead
        rfl
      · have hmark' : ¬(withoutNull c = '|' ∧ (cs.map withoutNull).head? = some '#') := by
          rwa [withoutNull_eq_iff (by decide) (by decide),
            head?_map_withoutNull (by decide) (by decide)]
        rw [List.map_cons, blockCommentLength?_cons hmark, blockCommentLength?_cons hmark', ih]

theorem scanHash_withoutNulls (rest : List Char) :
    scanHash (rest.map withoutNull) = (scanHash rest).withoutNulls rest.length := by
  generalize hfound : scanHash rest = found
  unfold scanHash at hfound
  split at hfound
  · rename_i tail
    rw [List.map_cons, withoutNull_of_ne (by decide), scanHash,
      blockCommentLength?_withoutNulls]
    split at hfound
    · rw [← hfound]
      rfl
    · rw [← hfound]
      simp [Scan.withoutNulls]
  · rw [← hfound]
    rfl
  · rw [← hfound]
    rfl
  · rename_i hbar htrue hfalse
    have hfault : scanHash (rest.map withoutNull) = .fault .invalidHashLiteral 0 := by
      rw [scanHash]
      · exact map_ne_append ['|'] (by decide) hbar
      · exact map_ne_append ['t', 'r', 'u', 'e'] (by decide) htrue
      · exact map_ne_append ['f', 'a', 'l', 's', 'e'] (by decide) hfalse
    rw [← hfound, hfault, Scan.withoutNulls]
    exact congrArg (Scan.fault · 0) (ite_self _).symm

/-! ## Any lexeme -/

theorem scan_withoutNulls (h : ¬EndsAtNull c rest) :
    scan (withoutNull c) (rest.map withoutNull) = (scan c rest).withoutNulls rest.length := by
  by_cases hc : c = '\x00'
  · rw [hc]
    rfl
  rw [withoutNull_of_ne hc]
  unfold EndsAtNull at h
  obtain ⟨hcomment, hstring⟩ := not_or.mp h
  have hrule := scanner c
  generalize scan c = rule at hcomment hstring hrule ⊢
  cases hrule with
  | char kind hkind =>
      simp only [List.mem_cons, List.not_mem_nil, or_false] at hkind
      rcases hkind with rfl | rfl | rfl | rfl <;> rfl
  | string => exact scanString_withoutNulls fun hend => hstring ⟨rfl, hend⟩
  | symbol => exact scanSymbol_withoutNulls rest rest.length
  | comment => exact scanComment_withoutNulls (fun hend => hcomment ⟨rfl, hend⟩) rest.length
  | hash => exact scanHash_withoutNulls rest
  | number => exact scanNumber_withoutNulls c rest rest.length
  | word =>
      have hhead : (rest.map withoutNull).head? = some '>' ↔ rest.head? = some '>' :=
        head?_map_withoutNull (by decide) (by decide)
      simp only [hhead, scanWord_withoutNulls hc rest rest.length]
      split <;> rfl
  | blank => rfl

/-! ## What comments and strings hold -/

/-- A comment that starts here goes on to the end of its line, and a string literal that starts
here has all of its text as its value. -/
def HoldsText (c : Char) (rest : List Char) : Prop :=
  (c = ';' → ∀ next ∈ (rest.drop (scan c rest).extra).head?, next = '\n') ∧
    ∀ value extra, c = '"' → scan c rest = .token (.literal (.string value)) extra →
      '"' :: rest.take extra = quotedString value ∨
        extra = rest.length ∧ '"' :: rest ++ ['"'] = quotedString value

theorem commentText_next (cs : List Char) :
    ∀ next ∈ (cs.drop (commentText cs).length).head?, next = '\n' ∨ next = '\x00' := by
  induction cs with
  | nil => exact fun _ hnext => absurd hnext (by simp)
  | cons c cs ih =>
      by_cases hend : c = '\n' ∨ c = '\x00'
      · intro next hnext
        have hnone : commentText (c :: cs) = [] :=
          List.takeWhile_cons_of_neg (by simpa [Decidable.or_iff_not_imp_left] using hend)
        rw [hnone] at hnext
        obtain rfl : c = next := Option.some.inj hnext
        exact hend
      · obtain ⟨hline, hnull⟩ := not_or.mp hend
        rw [commentText_cons hline hnull]
        exact ih

theorem scanComment_next (cs : List Char) :
    ∀ next ∈ (cs.drop (scanComment cs).extra).head?, next = '\n' ∨ next = '\x00' := by
  rcases comment_cases cs with ⟨text, rfl⟩ | ⟨text, rfl, hplain⟩ | hplain
  · rw [scanComment, Scan.extra, Nat.add_comm]
    exact commentText_next text
  · rw [scanComment_docstring hplain, Scan.extra, Nat.add_comm]
    exact commentText_next text
  · rw [scanComment_blank hplain]
    exact commentText_next cs

/-- The text of a string, up to its closing quote or the end of the text. -/
theorem stringTail_text {chars : List Char} {n : Nat} (h : stringTail cs = .value chars n)
    (hend : ¬RunsToNull n cs) :
    cs.take n = chars.flatMap quotedChar ++ ['"'] ∨
      n = cs.length ∧ cs = chars.flatMap quotedChar := by
  induction cs using stringTail.induct generalizing chars n with
  | case1 =>
      obtain ⟨rfl, rfl⟩ := StringTail.value.inj h
      exact .inr ⟨rfl, rfl⟩
  | case2 rest =>
      obtain ⟨rfl, rfl⟩ := StringTail.value.inj h
      exact .inl rfl
  | case3 =>
      obtain ⟨rfl, rfl⟩ := StringTail.value.inj h
      exact absurd ⟨rfl, rfl⟩ hend
  | case4 rest ih | case5 rest ih =>
      obtain ⟨more, k, hmore, rfl, rfl⟩ := StringTail.eq_value_of_push h
      have hrest : ¬RunsToNull k rest := fun hnull => hend (hnull.append ['\\', _])
      rw [Nat.add_comm]
      rcases ih hmore hrest with htake | ⟨hk, hcs⟩
      · refine .inl ?_
        rw [List.take_succ_cons, List.take_succ_cons, htake]
        rfl
      · refine .inr ⟨congrArg (· + 2) hk, ?_⟩
        rw [List.flatMap_cons, ← hcs]
        rfl
  | case6 c rest hquote hslash =>
      rw [stringTail_badEscape hquote hslash] at h
      cases h
  | case7 => cases h
  | case8 c rest hquote hnull _ _ hescape hlast ih =>
      have hslash : c ≠ '\\' := ne_backslash hescape hlast
      rw [stringTail_cons hquote hslash fun h => hnull h.1 h.2] at h
      obtain ⟨more, k, hmore, rfl, rfl⟩ := StringTail.eq_value_of_push h
      have hrest : ¬RunsToNull k rest := fun hnull => hend (hnull.append [c])
      have hplain : quotedChar c = [c] := if_neg (not_or.mpr ⟨hquote, hslash⟩)
      rw [Nat.add_comm, List.flatMap_cons, hplain]
      rcases ih hmore hrest with htake | ⟨hk, hcs⟩
      · refine .inl ?_
        rw [List.take_succ_cons, htake]
        rfl
      · refine .inr ⟨congrArg (· + 1) hk, ?_⟩
        rw [← hcs]
        rfl

theorem holdsText_of_not_endsAtNull (h : ¬EndsAtNull c rest) : HoldsText c rest := by
  obtain ⟨hcomment, hstring⟩ := not_or.mp h
  refine ⟨?_, ?_⟩
  · rintro rfl next hnext
    refine (scanComment_next rest next hnext).resolve_right ?_
    rintro rfl
    exact hcomment ⟨rfl, hnext⟩
  · rintro value extra rfl hscan
    rw [hscan] at hstring
    replace hscan : scanString rest = .token (.literal (.string value)) extra := hscan
    unfold scanString at hscan
    split at hscan
    · rename_i chars n htail
      simp only [Scan.token.injEq, TokenKind.literal.injEq, Literal.string.injEq] at hscan
      obtain ⟨rfl, rfl⟩ := hscan
      rw [quotedString_eq, String.toList_ofList]
      rcases stringTail_text htail fun hend => hstring ⟨rfl, hend⟩ with htake | ⟨hn, hrest⟩
      · exact .inl (congrArg _ htake)
      · refine .inr ⟨hn, ?_⟩
        rw [← hrest]
        rfl
    · cases hscan

end

/-! ## Texts -/

def Lexed.withoutNulls (size : Nat) (lexed : Lexed) : Lexed :=
  ⟨lexed.tokens.map Token.withoutNulls, lexed.error?.map (LexicalError.withoutNulls size)⟩

namespace Position

theorem after_withoutNull (p : Position) (c : Char) : p.after (withoutNull c) = p.after c := by
  by_cases hc : c = '\x00'
  · rw [hc]
    rfl
  · rw [withoutNull_of_ne hc]

theorem afterAll_withoutNull (p : Position) (cs : List Char) :
    p.afterAll (cs.map withoutNull) = p.afterAll cs := by
  induction cs generalizing p with
  | nil => rfl
  | cons c cs ih => rw [List.map_cons, afterAll_cons, after_withoutNull, ih, afterAll_cons]

/-- Only the whole text ends at the size of the text. -/
theorem index_afterAll_take (p : Position) {cs : List Char} {n : Nat} (h : n ≤ cs.length) :
    (p.afterAll (cs.take n)).index = (p.afterAll cs).index ↔ n = cs.length := by
  have hsplit := congrArg String.utf8Len (List.take_append_drop n cs)
  rw [String.utf8Len_append] at hsplit
  have hdrop : String.utf8Len (cs.drop n) = 0 ↔ n = cs.length := by
    rw [String.utf8Len_eq_zero, List.drop_eq_nil_iff]
    omega
  rw [index_afterAll, index_afterAll]
  omega

end Position

theorem lexFrom_withoutNulls {skip : Nat} {p : Position} {text : List Char}
    (h : ∀ lexeme ∈ lexemes skip text, ¬EndsAtNull lexeme.1 lexeme.2) :
    lexFrom skip p (text.map withoutNull) =
      (lexFrom skip p text).withoutNulls (p.afterAll text).index := by
  induction text generalizing skip p with
  | nil => rfl
  | cons c rest ih =>
      rw [List.map_cons, Position.afterAll_cons]
      cases skip with
      | succ skip =>
          rw [lexFrom, lexFrom, Position.after_withoutNull]
          exact ih h
      | zero =>
          obtain ⟨hfirst, hlater⟩ := List.forall_mem_cons.mp h
          have hextra : (scan c rest).extra ≤ rest.length := scan_extra_le
          rw [lexFrom, lexFrom]
          dsimp only
          rw [scan_withoutNulls hfirst, Position.after_withoutNull]
          cases hscan : scan c rest with
          | blank extra =>
              rw [hscan] at hlater
              exact ih hlater
          | token kind extra =>
              rw [hscan] at hlater
              dsimp only [Scan.withoutNulls]
              rw [ih hlater, ← List.map_take, Position.afterAll_withoutNull]
              rfl
          | fault problem extra =>
              replace hextra : extra ≤ rest.length := by
                rw [hscan] at hextra
                exact hextra
              dsimp only [Scan.withoutNulls]
              rw [← List.map_take, Position.afterAll_withoutNull]
              simp [Lexed.withoutNulls, LexicalError.withoutNulls,
                Position.index_afterAll_take _ hextra]

/-- If no null character is taken for the end of the text, the text lexes as it does with U+0001 in
place of U+0000: the same tokens and the same fault are found at the same ranges, with their texts
changed likewise. Comments then go on to the ends of their lines, and strings hold all of their
texts. -/
theorem lex_withoutNulls {source : String}
    (h : ∀ lexeme ∈ lexemes 0 source.toList, ¬EndsAtNull lexeme.1 lexeme.2) :
    lex (withoutNulls source) = (lex source).withoutNulls source.utf8ByteSize ∧
      ∀ lexeme ∈ lexemes 0 source.toList, HoldsText lexeme.1 lexeme.2 := by
  refine ⟨?_, fun lexeme hlexeme => holdsText_of_not_endsAtNull (h lexeme hlexeme)⟩
  have hsize : source.utf8ByteSize = (Position.first.afterAll source.toList).index := by
    rw [Position.index_afterAll, utf8ByteSize_eq]
    exact (Nat.zero_add _).symm
  rw [lex, withoutNulls, String.toList_ofList, lexFrom_withoutNulls h, hsize]
  rfl

/-- Null characters in a string, in a block comment, between lexemes and behind a backslash. -/
theorem lex_withoutNulls_escape :
    let source := "\"a\x00b\" #|\x00|# \x00'x\x00 ; c\n\"d\x00\\\x00"
    (∀ lexeme ∈ lexemes 0 source.toList, ¬EndsAtNull lexeme.1 lexeme.2) ∧
      lex (withoutNulls source) = (lex source).withoutNulls source.utf8ByteSize ∧
      (lex source).error?.map (·.fault) = some (.invalidEscape '\x00') ∧
      (lex (withoutNulls source)).error?.map (·.fault) = some (.invalidEscape '\x01') := by
  intro source
  have h : ∀ lexeme ∈ lexemes 0 source.toList, ¬EndsAtNull lexeme.1 lexeme.2 := by
    decide +kernel
  obtain ⟨hlex, -⟩ := lex_withoutNulls h
  refine ⟨h, hlex, by decide +kernel, ?_⟩
  rw [hlex]
  decide +kernel

/-- A comment stops in front of a null character, so the rest of its line is read, and a string
that is not closed loses a null character at its end. -/
theorem lex_null_ends :
    let source := "; a\x00 b\n\"c\x00"
    (lex source).tokens.map (·.kind) = [.identifier "b", .literal (.string "c")] ∧
      (lex (withoutNulls source)).tokens.map (·.kind) = [.literal (.string "c\x01")] ∧
      ¬∀ source, lex (withoutNulls source) = (lex source).withoutNulls source.utf8ByteSize := by
  intro source
  have htokens : (lex source).tokens.map (·.kind) = [.identifier "b", .literal (.string "c")] := by
    decide +kernel
  have hother : (lex (withoutNulls source)).tokens.map (·.kind) =
      [.literal (.string "c\x01")] := by
    decide +kernel
  refine ⟨htokens, hother, fun hall => ?_⟩
  have hlength := congrArg (·.tokens.length) (hall source)
  exact absurd hlength (by decide +kernel)

end TypedIsl
