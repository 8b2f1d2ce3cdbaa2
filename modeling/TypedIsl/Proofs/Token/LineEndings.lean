import TypedIsl.Proofs.Token.Cutting

/-!
# Line endings

If every newline of a text gets a carriage return in front of it, the text lexes to the same tokens,
on the same lines and in the same columns, as long as no string literal goes over a newline. Only
the ranges of docstrings may differ, as the carriage return after a docstring belongs to it.
-/

namespace TypedIsl

/-- The text with a carriage return before every newline. -/
def crlf (cs : List Char) : List Char :=
  cs.flatMap fun c => if c = '\n' then ['\r', '\n'] else [c]

section

variable {p : Char → Bool} {c d : Char} {cs rest : List Char}

@[simp] theorem crlf_nil : crlf [] = [] := rfl

@[simp] theorem crlf_newline (cs : List Char) : crlf ('\n' :: cs) = '\r' :: '\n' :: crlf cs := rfl

theorem crlf_cons (h : c ≠ '\n') (cs : List Char) : crlf (c :: cs) = c :: crlf cs := by
  rw [crlf, List.flatMap_cons, if_neg h]
  rfl

@[simp] theorem crlf_append (cs rest : List Char) : crlf (cs ++ rest) = crlf cs ++ crlf rest :=
  List.flatMap_append

theorem crlf_eq_self (h : '\n' ∉ cs) : crlf cs = cs := by
  induction cs with
  | nil => rfl
  | cons c cs ih =>
      have hc : c ≠ '\n' := fun hc => h (hc ▸ List.mem_cons_self)
      rw [crlf_cons hc, ih fun hmem => h (List.mem_cons_of_mem c hmem)]

/-- No character but a carriage return comes first anew. -/
theorem cons_of_crlf (h : crlf cs = c :: rest) (hc : c ≠ '\r') :
    ∃ later, cs = c :: later ∧ rest = crlf later := by
  cases cs with
  | nil => cases h
  | cons d cs =>
      by_cases hd : d = '\n'
      · subst hd
        exact absurd (List.cons.inj h).1.symm hc
      · rw [crlf_cons hd] at h
        obtain ⟨rfl, rfl⟩ := List.cons.inj h
        exact ⟨cs, rfl, rfl⟩

theorem takeWhile_crlf (hreturn : p '\r' = false) (hnewline : p '\n' = false) (cs : List Char) :
    (crlf cs).takeWhile p = cs.takeWhile p := by
  induction cs with
  | nil => rfl
  | cons c cs ih =>
      by_cases hc : c = '\n'
      · subst hc
        rw [crlf_newline, List.takeWhile_cons_of_neg (by simp [hreturn]),
          List.takeWhile_cons_of_neg (by simp [hnewline])]
      · rw [crlf_cons hc, List.takeWhile_cons, List.takeWhile_cons, ih]

theorem dropWhile_crlf (hreturn : p '\r' = false) (hnewline : p '\n' = false) (cs : List Char) :
    (crlf cs).dropWhile p = crlf (cs.dropWhile p) := by
  induction cs with
  | nil => rfl
  | cons c cs ih =>
      by_cases hc : c = '\n'
      · subst hc
        rw [crlf_newline, List.dropWhile_cons_of_neg (by simp [hreturn]),
          List.dropWhile_cons_of_neg (by simp [hnewline]), crlf_newline]
      · rw [crlf_cons hc, List.dropWhile_cons, List.dropWhile_cons, ih]
        split
        · rfl
        · rw [crlf_cons hc]

theorem newline_not_mem_takeWhile (hnewline : p '\n' = false) (cs : List Char) :
    '\n' ∉ cs.takeWhile p := by
  intro hmem
  have hp := List.all_eq_true.mp (List.all_takeWhile (l := cs) (p := p)) _ hmem
  rw [hnewline] at hp
  cases hp

end

/-! ## Lexemes -/

/-- String literals have no newlines. -/
def TokenKind.OnOneLine : TokenKind → Prop
  | literal (.string text) => '\n' ∉ text.toList
  | _ => True

instance : (kind : TokenKind) → Decidable kind.OnOneLine
  | .literal (.string text) => inferInstanceAs (Decidable ('\n' ∉ text.toList))
  | .literal (.integer _) | .literal (.fraction _ _) | .literal (.decimal _)
  | .literal (.boolean _) | .literal (.symbol _) | .openParen | .closeParen | .keyword _
  | .identifier _ | .colon | .ampersand | .arrow | .docstring _ => .isTrue trivial

namespace Scan

/-- A lexeme was found that is no string literal with newlines. -/
def OnOneLine : Scan → Prop
  | blank _ => True
  | token kind _ => kind.OnOneLine
  | fault _ _ => False

/-- The same with another number of characters. -/
def resize (extra : Nat) : Scan → Scan
  | .blank _ => .blank extra
  | .token kind _ => .token kind extra
  | .fault problem _ => .fault problem extra

theorem resize_extra {result : Scan} {n : Nat} (h : result.extra = n) :
    result.resize n = result := by
  cases result <;> exact congrArg _ h.symm

/-- Nothing was found but a comment or blanks. -/
def Silent : Scan → Prop
  | token (.docstring _) _ => True
  | blank _ => True
  | _ => False

/-- With carriage returns, the same is found of the lexeme `cs` before `rest`. A carriage return
directly after a comment becomes a part of it. -/
def Returns (scan : List Char → Scan) (cs rest : List Char) : Prop :=
  scan (crlf (cs ++ rest)) = (scan (cs ++ rest)).resize (crlf cs).length ∨
    rest.head? = some '\n' ∧ (scan (cs ++ rest)).Silent ∧
      scan (crlf (cs ++ rest)) = (scan (cs ++ rest)).resize ((crlf cs).length + 1)

theorem Returns.of_eq {scan : List Char → Scan} {cs rest : List Char}
    (hextra : (scan (cs ++ rest)).extra = cs.length)
    (h : scan (crlf (cs ++ rest)) = scan (cs ++ rest)) (hcs : '\n' ∉ cs) :
    Returns scan cs rest := by
  rw [Returns, crlf_eq_self hcs, h, resize_extra hextra]
  exact .inl rfl

theorem Returns.congr {scan other : List Char → Scan} {cs rest : List Char}
    (h : Returns other cs rest) (hwhole : scan (cs ++ rest) = other (cs ++ rest))
    (hcrlf : scan (crlf (cs ++ rest)) = other (crlf (cs ++ rest))) : Returns scan cs rest := by
  rw [Returns, hwhole, hcrlf]
  exact h

end Scan

section

variable {c : Char} {cs rest text : List Char}

theorem isIdentifierChar_newline : isIdentifierChar '\n' = false := by decide

theorem isIdentifierChar_return : isIdentifierChar '\r' = false := by decide

/-- The longest start of a certain kind is what stands before the rest if it has that length. -/
theorem takeWhile_eq_of_length {p : Char → Bool}
    (h : ((cs ++ rest).takeWhile p).length = cs.length) : (cs ++ rest).takeWhile p = cs :=
  List.append_inj_left List.takeWhile_append_dropWhile h

theorem scanWord_crlf (hextra : (scanWord c (cs ++ rest)).extra = cs.length) :
    Scan.Returns (scanWord c) cs rest := by
  refine .of_eq hextra ?_ ?_
  · rw [scanWord, scanWord, takeWhile_crlf isIdentifierChar_return isIdentifierChar_newline]
  · rw [← takeWhile_eq_of_length hextra]
    exact newline_not_mem_takeWhile isIdentifierChar_newline _

theorem scanSymbol_crlf (hextra : (scanSymbol (cs ++ rest)).extra = cs.length) :
    Scan.Returns scanSymbol cs rest := by
  refine .of_eq hextra ?_ ?_
  · rw [scanSymbol, scanSymbol, takeWhile_crlf isIdentifierChar_return isIdentifierChar_newline]
  · rw [← takeWhile_eq_of_length hextra]
    exact newline_not_mem_takeWhile isIdentifierChar_newline _

/-! ## Numbers -/

/-- The mark belongs to the number only if it is a point or a slash. -/
theorem scanMarked_cases (c : Char) (digits : List Char) (mark : Char) (second : List Char) :
    scanMarked c digits mark second = scanDigits c digits ∨
      (mark = '.' ∨ mark = '/') ∧
        (scanMarked c digits mark second).extra = digits.length + 1 + second.length := by
  unfold scanMarked
  dsimp only
  split
  · exact .inl rfl
  split
  · exact .inr ⟨.inl ‹_›, rfl⟩
  split
  · refine .inr ⟨.inr ‹_›, ?_⟩
    split <;> rfl
  · exact .inl rfl

theorem scanMarked_of_ne {mark : Char} (hpoint : mark ≠ '.') (hslash : mark ≠ '/')
    (digits second : List Char) : scanMarked c digits mark second = scanDigits c digits := by
  simp [scanMarked, hpoint, hslash]

/-- The lexeme of a number is a run of digits, or two of them and the mark between them. -/
theorem newline_not_mem_number (hextra : (scanNumber c (cs ++ rest)).extra = cs.length) :
    '\n' ∉ cs := by
  have hdigits := newline_not_mem_takeWhile (p := Char.isDigit) (by decide)
  have hsingle : (scanDigits c ((cs ++ rest).takeWhile Char.isDigit)).extra = cs.length →
      '\n' ∉ cs := by
    intro hextra
    rw [scanDigits_extra] at hextra
    rw [← takeWhile_eq_of_length hextra]
    exact hdigits _
  cases hmore : (cs ++ rest).dropWhile Char.isDigit with
  | nil =>
      rw [scanNumber_eq_digits hmore] at hextra
      exact hsingle hextra
  | cons mark tail =>
      rw [scanNumber_eq_marked hmore] at hextra
      rcases scanMarked_cases c ((cs ++ rest).takeWhile Char.isDigit) mark
        (tail.takeWhile Char.isDigit) with hplain | ⟨hmark, hboth⟩
      · rw [hplain] at hextra
        exact hsingle hextra
      · have hwhole : (cs ++ rest).takeWhile Char.isDigit ++ mark :: tail.takeWhile Char.isDigit ++
            tail.dropWhile Char.isDigit = cs ++ rest := by
          rw [List.append_assoc, List.cons_append, List.takeWhile_append_dropWhile, ← hmore,
            List.takeWhile_append_dropWhile]
        have hcs := List.append_inj_left hwhole (by
          rw [← hextra, hboth, List.length_append, List.length_cons]
          omega)
        rw [← hcs, List.mem_append, List.mem_cons]
        rintro (hmem | rfl | hmem)
        · exact hdigits _ hmem
        · exact absurd hmark (by decide)
        · exact hdigits _ hmem

theorem scanNumber_crlf (hextra : (scanNumber c (cs ++ rest)).extra = cs.length) :
    Scan.Returns (scanNumber c) cs rest := by
  have hreturn : Char.isDigit '\r' = false := by decide
  have hnewline : Char.isDigit '\n' = false := by decide
  have htake := takeWhile_crlf hreturn hnewline
  have hdrop := dropWhile_crlf hreturn hnewline (cs ++ rest)
  refine .of_eq hextra ?_ (newline_not_mem_number hextra)
  cases hmore : (cs ++ rest).dropWhile Char.isDigit with
  | nil =>
      rw [hmore] at hdrop
      rw [scanNumber_eq_digits hdrop, scanNumber_eq_digits hmore, htake]
  | cons mark tail =>
      rw [hmore] at hdrop
      by_cases hmark : mark = '\n'
      · subst hmark
        rw [scanNumber_eq_marked hdrop, scanNumber_eq_marked hmore,
          scanMarked_of_ne (by decide) (by decide), scanMarked_of_ne (by decide) (by decide), htake]
      · rw [crlf_cons hmark] at hdrop
        rw [scanNumber_eq_marked hdrop, scanNumber_eq_marked hmore, htake, htake]

/-! ## Strings -/

theorem StringTail.eq_value_of_push {tail : StringTail} {length n : Nat} {chars : List Char}
    (h : tail.push c length = .value chars n) :
    ∃ more k, tail = .value more k ∧ chars = c :: more ∧ n = length + k := by
  cases tail with
  | value more k =>
      obtain ⟨rfl, rfl⟩ := StringTail.value.inj h
      exact ⟨more, k, rfl, rfl, rfl⟩
  | badEscape escaped k => cases h

/-- A string without newlines stays as it is. -/
theorem stringTail_crlf {chars : List Char} {n : Nat} (h : stringTail text = .value chars n)
    (hchars : '\n' ∉ chars) :
    stringTail (crlf text) = .value chars n ∧ '\n' ∉ text.take n := by
  induction text using stringTail.induct generalizing chars n with
  | case1 =>
      obtain ⟨rfl, rfl⟩ := StringTail.value.inj h
      exact ⟨rfl, List.not_mem_nil⟩
  | case2 rest =>
      obtain ⟨rfl, rfl⟩ := StringTail.value.inj h
      exact ⟨rfl, by simp⟩
  | case3 =>
      obtain ⟨rfl, rfl⟩ := StringTail.value.inj h
      exact ⟨rfl, by decide⟩
  | case4 rest ih | case5 rest ih =>
      obtain ⟨more, k, hmore, rfl, rfl⟩ := StringTail.eq_value_of_push h
      obtain ⟨htail, htake⟩ := ih hmore fun hmem => hchars (List.mem_cons_of_mem _ hmem)
      refine ⟨?_, ?_⟩
      · rw [crlf_cons (by decide), crlf_cons (by decide), stringTail, htail]
        rfl
      · rw [Nat.add_comm 2 k, List.take_succ_cons, List.take_succ_cons]
        simp [htake]
  | case6 c rest hquote hslash =>
      rw [stringTail_badEscape hquote hslash] at h
      cases h
  | case7 => cases h
  | case8 c rest hquote hnull _ _ hescape hlast ih =>
      have hslash : c ≠ '\\' := ne_backslash hescape hlast
      rw [stringTail_cons hquote hslash fun h => hnull h.1 h.2] at h
      obtain ⟨more, k, hmore, rfl, rfl⟩ := StringTail.eq_value_of_push h
      obtain ⟨hc, hmem⟩ := not_or.mp fun hmem => hchars (List.mem_cons.mpr hmem)
      obtain ⟨htail, htake⟩ := ih hmore hmem
      refine ⟨?_, ?_⟩
      · have hnull : ¬(c = '\x00' ∧ crlf rest = []) := by
          rintro ⟨hc, hnil⟩
          refine hnull hc ?_
          cases rest with
          | nil => rfl
          | cons d rest =>
              by_cases hd : d = '\n'
              · rw [hd] at hnil
                cases hnil
              · rw [crlf_cons hd] at hnil
                cases hnil
        rw [crlf_cons (Ne.symm hc), stringTail_cons hquote hslash hnull, htail]
        rfl
      · rw [Nat.add_comm 1 k, List.take_succ_cons, List.mem_cons]
        exact not_or.mpr ⟨hc, htake⟩

theorem scanString_crlf (hextra : (scanString (cs ++ rest)).extra = cs.length)
    (hline : (scanString (cs ++ rest)).OnOneLine) : Scan.Returns scanString cs rest := by
  cases htail : stringTail (cs ++ rest) with
  | badEscape escaped n =>
      rw [scanString, htail] at hline
      exact hline.elim
  | value chars n =>
      have hwhole : scanString (cs ++ rest) =
          .token (.literal (.string (String.ofList chars))) n := by
        rw [scanString, htail]
      rw [hwhole] at hline hextra
      have hchars : '\n' ∉ (String.ofList chars).toList := hline
      rw [String.toList_ofList] at hchars
      obtain ⟨hcrlf, htake⟩ := stringTail_crlf htail hchars
      refine .of_eq (by rw [hwhole]; exact hextra) ?_ ?_
      · rw [hwhole, scanString, hcrlf]
      · have hn : n = cs.length := hextra
        rwa [hn, List.take_left] at htake

/-! ## Comments and truth values -/

/-- The text of a comment takes in the carriage return that is put at the end of its line. -/
theorem commentText_crlf (h : (commentText (cs ++ rest)).length = cs.length) :
    '\n' ∉ cs ∧ (commentText (cs ++ crlf rest) = cs ∨
      rest.head? = some '\n' ∧ commentText (cs ++ crlf rest) = cs ++ ['\r']) := by
  have hcs := takeWhile_eq_of_length h
  have hall : ∀ c ∈ cs, (c != '\n' && c != '\x00') = true := by
    rw [← hcs]
    exact List.all_eq_true.mp List.all_takeWhile
  refine ⟨fun hmem => ?_, ?_⟩
  · simpa using hall _ hmem
  · rw [List.takeWhile_append_of_pos hall] at hcs
    have hrest := List.append_right_eq_self.mp hcs
    rw [commentText, List.takeWhile_append_of_pos hall]
    cases rest with
    | nil => exact .inl (List.append_nil cs)
    | cons c rest =>
        by_cases hc : c = '\n'
        · subst hc
          exact .inr ⟨rfl, by simp⟩
        · rw [crlf_cons hc]
          refine .inl ?_
          by_cases hnull : c = '\x00'
          · simp [hnull]
          · simp [hc, hnull] at hrest

theorem dropCarriageReturns_append (cs : List Char) :
    dropCarriageReturns (cs ++ ['\r']) = dropCarriageReturns cs := by
  simp [dropCarriageReturns, dropEndWhile]

theorem scanComment_blank (h : ∀ rest, text ≠ ';' :: '@' :: rest) :
    scanComment text = .blank (commentText text).length := by
  rw [scanComment]
  · exact fun rest => h _
  · exact h

theorem scanComment_docstring (h : ∀ rest, text ≠ ' ' :: rest) :
    scanComment (';' :: '@' :: text) =
      .token (.docstring (String.ofList (dropCarriageReturns (commentText text))))
        (2 + (commentText text).length) := by
  rw [scanComment]
  exact h

/-- A comment is a docstring with or without a space after its mark, or it is blank. -/
theorem comment_cases (text : List Char) :
    (∃ tail, text = ';' :: '@' :: ' ' :: tail) ∨
      (∃ tail, text = ';' :: '@' :: tail ∧ ∀ later, tail ≠ ' ' :: later) ∨
        ∀ tail, text ≠ ';' :: '@' :: tail := by
  by_cases hdoc : ∃ tail, text = ';' :: '@' :: tail
  · obtain ⟨tail, rfl⟩ := hdoc
    by_cases hspace : ∃ later, tail = ' ' :: later
    · obtain ⟨later, rfl⟩ := hspace
      exact .inl ⟨later, rfl⟩
    · exact .inr (.inl ⟨tail, rfl, not_exists.mp hspace⟩)
  · exact .inr (.inr (not_exists.mp hdoc))

/-- A comment that begins with `start`, of whose text `found` is made. -/
theorem returns_comment (start front : List Char) (found : List Char → Scan)
    (hstart : '\n' ∉ start) (hlength : (commentText (front ++ rest)).length = front.length)
    (hscan : ∀ later, later = rest ∨ later = crlf rest →
      scanComment (start ++ (front ++ later)) = found (commentText (front ++ later)))
    (hsilent : ∀ text, (found text).Silent)
    (hextra : ∀ text, (found text).extra = start.length + text.length)
    (hreturn : ∀ text, found (text ++ ['\r']) =
      (found text).resize (start.length + text.length + 1)) :
    Scan.Returns scanComment (start ++ front) rest := by
  have hfront : commentText (front ++ rest) = front := takeWhile_eq_of_length hlength
  obtain ⟨hnewline, htext⟩ := commentText_crlf hlength
  have hself : crlf (start ++ front) = start ++ front :=
    crlf_eq_self fun hmem => (List.mem_append.mp hmem).elim hstart hnewline
  rw [Scan.Returns, crlf_append, hself, List.append_assoc, List.append_assoc, hscan _ (.inl rfl),
    hfront, hscan _ (.inr rfl), List.length_append]
  rcases htext with htext | ⟨hhead, htext⟩
  · rw [htext, Scan.resize_extra (hextra front)]
    exact .inl rfl
  · rw [htext]
    exact .inr ⟨hhead, hsilent front, hreturn front⟩

theorem scanComment_crlf (hextra : (scanComment (cs ++ rest)).extra = cs.length) :
    Scan.Returns scanComment cs rest := by
  rcases comment_cases (cs ++ rest) with ⟨text, htext⟩ | ⟨text, htext, hplain⟩ | hplain
  · rw [htext] at hextra
    replace hextra : 3 + (commentText text).length = cs.length := hextra
    obtain ⟨front, rfl, rfl⟩ := exists_front [';', '@', ' '] htext (by simp; omega)
    refine returns_comment _ front (fun text => .token (.docstring (String.ofList
      (dropCarriageReturns text))) (3 + text.length)) (by decide) (by simp at hextra; omega)
      (fun _ _ => rfl) (fun _ => trivial) (fun _ => rfl) fun text => ?_
    rw [dropCarriageReturns_append, List.length_append]
    rfl
  · rw [htext, scanComment_docstring hplain] at hextra
    replace hextra : 2 + (commentText text).length = cs.length := hextra
    obtain ⟨front, rfl, rfl⟩ := exists_front [';', '@'] htext (by simp; omega)
    have hlength : (commentText (front ++ rest)).length = front.length := by
      simp at hextra
      omega
    refine returns_comment _ front (fun text => .token (.docstring (String.ofList
      (dropCarriageReturns text))) (2 + text.length)) (by decide) hlength ?_
      (fun _ => trivial) (fun _ => rfl) fun text => ?_
    · rintro later (rfl | rfl)
      · exact scanComment_docstring hplain
      · refine scanComment_docstring fun text heq => ?_
        rw [← crlf_eq_self (commentText_crlf hlength).1, ← crlf_append] at heq
        obtain ⟨later, hlater, -⟩ := cons_of_crlf heq (by decide)
        exact hplain _ hlater
    · rw [dropCarriageReturns_append, List.length_append]
      rfl
  · rw [scanComment_blank hplain] at hextra
    refine returns_comment [] cs (fun text => .blank text.length) (by decide) hextra ?_
      (fun _ => trivial) (fun text => (Nat.zero_add text.length).symm) fun text => ?_
    · rintro later (rfl | rfl)
      · exact scanComment_blank hplain
      · refine scanComment_blank fun tail heq => ?_
        rw [List.nil_append, ← crlf_eq_self (commentText_crlf hextra).1, ← crlf_append] at heq
        obtain ⟨later, hlater, htail⟩ := cons_of_crlf heq (by decide)
        obtain ⟨last, rfl, -⟩ := cons_of_crlf htail.symm (by decide)
        exact hplain last hlater
    · rw [List.length_append, List.length_nil, Nat.zero_add]
      rfl

theorem blockCommentLength?_crlf (h : blockCommentLength? (cs ++ rest) = some cs.length) :
    blockCommentLength? (crlf cs ++ crlf rest) = some (crlf cs).length := by
  induction cs with
  | nil => exact absurd (two_le_blockCommentLength h) (by simp)
  | cons c cs ih =>
      rw [List.cons_append] at h
      by_cases hmark : c = '|' ∧ (cs ++ rest).head? = some '#'
      · obtain ⟨rfl, hhead⟩ := hmark
        obtain ⟨tail, htail⟩ := List.head?_eq_some_iff.mp hhead
        rw [htail] at h
        have hlength : 2 = cs.length + 1 := Option.some.inj h
        obtain ⟨d, rfl⟩ := List.length_eq_one_iff.mp (Nat.succ.inj hlength).symm
        obtain rfl : d = '#' := (List.cons.inj htail).1
        rfl
      · rw [blockCommentLength?_cons hmark] at h
        obtain ⟨n, hn, hlength⟩ := Option.map_eq_some_iff.mp h
        have hrest := ih (hn.trans (congrArg some (Nat.succ.inj hlength)))
        by_cases hc : c = '\n'
        · subst hc
          rw [crlf_newline, List.cons_append, List.cons_append,
            blockCommentLength?_cons (by simp), blockCommentLength?_cons (by simp), hrest]
          rfl
        · have hmark' : ¬(c = '|' ∧ (crlf cs ++ crlf rest).head? = some '#') := by
            rintro ⟨hbar, hhead⟩
            obtain ⟨tail, htail⟩ := List.head?_eq_some_iff.mp hhead
            rw [← crlf_append] at htail
            obtain ⟨later, hlater, -⟩ := cons_of_crlf htail (by decide)
            exact hmark ⟨hbar, by rw [hlater]; rfl⟩
          rw [crlf_cons hc, List.cons_append, blockCommentLength?_cons hmark', hrest]
          rfl

theorem scanHash_crlf (hextra : (scanHash (cs ++ rest)).extra = cs.length)
    (hline : (scanHash (cs ++ rest)).OnOneLine) : Scan.Returns scanHash cs rest := by
  generalize htext : cs ++ rest = text at hextra hline
  have hwhole : scanHash (cs ++ rest) = scanHash text := congrArg scanHash htext
  unfold scanHash at hextra
  split at hextra
  · rename_i tail
    split at hextra
    · rename_i n hlength
      replace hextra : n + 1 = cs.length := hextra
      obtain ⟨front, rfl, rfl⟩ := exists_front ['|'] htext (by simp; omega)
      have hfront : n = front.length := by
        simp at hextra
        omega
      have hcrlf := blockCommentLength?_crlf (hlength.trans (congrArg some hfront))
      have hcons : crlf (['|'] ++ front) = '|' :: crlf front := crlf_cons (by decide) front
      rw [Scan.Returns, hwhole, crlf_append, hcons]
      refine .inl ?_
      simp [scanHash, hlength, hcrlf, Scan.resize]
    · rename_i hlength
      rw [scanHash, hlength] at hline
      exact hline.elim
  · obtain ⟨front, rfl, rfl⟩ := exists_front ['t', 'r', 'u', 'e'] htext (Nat.le_of_eq hextra)
    obtain rfl : front = [] := by simpa [Scan.extra] using hextra
    exact .inl rfl
  · obtain ⟨front, rfl, rfl⟩ := exists_front ['f', 'a', 'l', 's', 'e'] htext (Nat.le_of_eq hextra)
    obtain rfl : front = [] := by simpa [Scan.extra] using hextra
    exact .inl rfl
  · rw [scanHash] at hline
    · exact hline.elim
    all_goals assumption

/-! ## Any lexeme -/

theorem returns_char {found : Scan} (hextra : found.extra = 0) (hcs : found.extra = cs.length) :
    Scan.Returns (fun _ => found) cs rest := by
  obtain rfl : cs = [] := List.length_eq_zero_iff.mp (hcs.symm.trans hextra)
  exact .of_eq (by rw [hextra]; rfl) rfl List.not_mem_nil

theorem head?_crlf (hc : c ≠ '\r') : (crlf text).head? = some c → text.head? = some c := by
  intro hhead
  obtain ⟨tail, htail⟩ := List.head?_eq_some_iff.mp hhead
  obtain ⟨later, rfl, -⟩ := cons_of_crlf htail hc
  rfl

theorem scan_crlf (hextra : (scan c (cs ++ rest)).extra = cs.length)
    (hline : (scan c (cs ++ rest)).OnOneLine) : Scan.Returns (scan c) cs rest := by
  have hrule := scanner c
  generalize scan c = rule at hextra hline hrule ⊢
  cases hrule with
  | char kind => exact returns_char rfl hextra
  | string => exact scanString_crlf hextra hline
  | symbol => exact scanSymbol_crlf hextra
  | comment => exact scanComment_crlf hextra
  | hash => exact scanHash_crlf hextra hline
  | number => exact scanNumber_crlf hextra
  | word =>
      dsimp only at hextra
      by_cases harrow : c = '-' ∧ (cs ++ rest).head? = some '>'
      · rw [if_pos harrow] at hextra
        obtain ⟨d, rfl⟩ := List.length_eq_one_iff.mp hextra.symm
        obtain ⟨rfl, hhead⟩ := harrow
        obtain rfl : d = '>' := by simpa using hhead
        exact .inl rfl
      · have hcrlf : ¬(c = '-' ∧ (crlf (cs ++ rest)).head? = some '>') :=
          fun h => harrow ⟨h.1, head?_crlf (by decide) h.2⟩
        rw [if_neg harrow] at hextra
        exact (scanWord_crlf hextra).congr (if_neg harrow) (if_neg hcrlf)
  | blank => exact returns_char rfl hextra

end

/-! ## Positions -/

/-- The position in the text with carriage returns. Every newline before it adds a byte. -/
def Position.returned (p : Position) : Position :=
  ⟨p.line, p.column, p.index + (p.line - 1)⟩

namespace Position

theorem returned_injective : Function.Injective returned := by
  rintro ⟨line, column, index⟩ ⟨line', column', index'⟩ h
  simp only [returned, Position.mk.injEq] at h ⊢
  omega

theorem after_newline (p : Position) :
    p.after '\n' = ⟨p.line + 1, 1, p.index + '\n'.utf8Size⟩ :=
  if_pos rfl

theorem after_of_ne {c : Char} (hc : c ≠ '\n') (p : Position) :
    p.after c = ⟨p.line, p.column + 1, p.index + c.utf8Size⟩ :=
  if_neg hc

theorem one_le_line_afterAll {p : Position} (hp : 1 ≤ p.line) (cs : List Char) :
    1 ≤ (p.afterAll cs).line := by
  induction cs generalizing p with
  | nil => exact hp
  | cons c cs ih =>
      refine ih ?_
      unfold after
      split
      · exact Nat.le_add_left 1 p.line
      · exact hp

theorem returned_afterAll {p : Position} (hp : 1 ≤ p.line) (cs : List Char) :
    p.returned.afterAll (crlf cs) = (p.afterAll cs).returned := by
  induction cs generalizing p with
  | nil => rfl
  | cons c cs ih =>
      by_cases hc : c = '\n'
      · subst hc
        have hnext : (p.returned.after '\r').after '\n' = (p.after '\n').returned := by
          have hsize : Char.utf8Size '\r' = 1 ∧ Char.utf8Size '\n' = 1 := by decide
          rw [after_newline, after_newline, after_of_ne (by decide), hsize.1, hsize.2]
          simp only [returned, Position.mk.injEq, true_and]
          omega
        rw [crlf_newline, afterAll_cons, afterAll_cons, hnext]
        exact ih (Nat.le_add_left 1 p.line)
      · have hnext : p.returned.after c = (p.after c).returned := by
          rw [after_of_ne hc, after_of_ne hc]
          simp only [returned, Position.mk.injEq, true_and]
          omega
        rw [crlf_cons hc, afterAll_cons, afterAll_cons, hnext]
        refine ih ?_
        rwa [after_of_ne hc]

end Position

/-! ## Texts -/

/-- The token in the text with carriage returns. Nothing is said of the range of a docstring. -/
structure Token.Returned (token other : Token) : Prop where
  kind : other.kind = token.kind
  range : (∀ text, token.kind ≠ .docstring text) → other.range = token.range.move .returned

theorem Lexes.blankChar {p : Position} {c : Char} {rest : List Char} {tokens : List Token}
    (hscan : scan c rest = .blank 0) (h : Lexes (p.after c) rest tokens) :
    Lexes p (c :: rest) tokens :=
  @Lexes.blank p c [] rest tokens hscan h

/-- A carriage return is blank. -/
theorem Lexes.of_return {p : Position} {text : List Char} {tokens : List Token}
    (h : Lexes p ('\r' :: text) tokens) : Lexes (p.after '\r') text tokens := by
  generalize hwhole : '\r' :: text = whole at h
  cases h with
  | nil => cases hwhole
  | @blank _ c cs rest _ hscan hrest =>
      obtain ⟨rfl, rfl⟩ := List.cons.inj hwhole
      obtain rfl : cs = [] := List.length_eq_zero_iff.mp (Scan.blank.inj hscan).symm
      exact hrest
  | @token _ c cs rest kind _ hscan hrest =>
      obtain ⟨rfl, rfl⟩ := List.cons.inj hwhole
      cases hscan

section

variable {p : Position} {c : Char} {cs rest text : List Char} {tokens : List Token}

/-- The lexeme with which a text with carriage returns starts, and the text after it. -/
theorem Lexes.exists_returned {others : List Token} (hp : 1 ≤ p.line) (hc : c ≠ '\n')
    (hextra : (scan c (cs ++ rest)).extra = cs.length) (hline : (scan c (cs ++ rest)).OnOneLine)
    (h : Lexes (p.afterAll (c :: cs)).returned (crlf rest) others) :
    ∃ own later, crlf (c :: cs ++ rest) = c :: own ++ later ∧
      scan c (own ++ later) = (scan c (cs ++ rest)).resize own.length ∧
      Lexes (p.returned.afterAll (c :: own)) later others ∧
      (own = crlf cs ∨ (scan c (cs ++ rest)).Silent) := by
  rw [← Position.returned_afterAll hp, crlf_cons hc] at h
  rcases scan_crlf hextra hline with hscan | ⟨hhead, hsilent, hscan⟩
  · refine ⟨crlf cs, crlf rest, ?_, ?_, h, .inl rfl⟩
    · rw [crlf_append, crlf_cons hc]
    · rwa [← crlf_append]
  · obtain ⟨more, rfl⟩ := List.head?_eq_some_iff.mp hhead
    have htext : crlf (cs ++ '\n' :: more) = crlf cs ++ ['\r'] ++ '\n' :: crlf more := by simp
    refine ⟨crlf cs ++ ['\r'], '\n' :: crlf more, ?_, ?_, ?_, .inr hsilent⟩
    · rw [List.cons_append, crlf_cons hc, htext, List.cons_append]
    · rw [← htext, hscan, List.length_append, List.length_singleton]
    · have hreturn := h.of_return
      rwa [← List.cons_append, Position.afterAll_append]

theorem Lexes.crlf (h : Lexes p text tokens) (hp : 1 ≤ p.line)
    (hlines : ∀ token ∈ tokens, token.kind.OnOneLine) :
    ∃ others, Lexes p.returned (crlf text) others ∧ List.Forall₂ Token.Returned tokens others := by
  induction h with
  | nil => exact ⟨[], .nil, .nil⟩
  | @blank p c cs rest tokens hscan hrest ih =>
      obtain ⟨others, hothers, htokens⟩ := ih (Position.one_le_line_afterAll hp _) hlines
      refine ⟨others, ?_, htokens⟩
      by_cases hc : c = '\n'
      · subst hc
        obtain rfl : cs = [] := List.length_eq_zero_iff.mp (Scan.blank.inj hscan).symm
        rw [← Position.returned_afterAll hp] at hothers
        exact .blankChar rfl (.blankChar rfl hothers)
      · obtain ⟨own, later, htext, hown, hlater, -⟩ :=
          exists_returned hp hc (by rw [hscan]; rfl) (by rw [hscan]; trivial) hothers
        rw [htext]
        rw [hscan] at hown
        exact .blank hown hlater
  | @token p c cs rest kind tokens hscan hrest ih =>
      obtain ⟨hkind, hlines⟩ := List.forall_mem_cons.mp hlines
      obtain ⟨others, hothers, htokens⟩ := ih (Position.one_le_line_afterAll hp _) hlines
      have hc : c ≠ '\n' := by
        rintro rfl
        cases hscan
      obtain ⟨own, later, htext, hown, hlater, hsame⟩ :=
        exists_returned hp hc (by rw [hscan]; rfl) (by rw [hscan]; exact hkind) hothers
      rw [htext]
      rw [hscan] at hown
      refine ⟨_, .token hown hlater, .cons ⟨rfl, fun hdoc => ?_⟩ htokens⟩
      rcases hsame with rfl | hsilent
      · rw [Range.move, ← Position.returned_afterAll hp, crlf_cons hc]
      · rw [hscan] at hsilent
        cases kind with
        | docstring text => exact absurd rfl (hdoc text)
        | _ => exact hsilent.elim

end

end TypedIsl
