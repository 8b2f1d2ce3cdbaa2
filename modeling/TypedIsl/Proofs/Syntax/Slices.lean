import TypedIsl.Proofs.Syntax.Moving
import TypedIsl.Proofs.Syntax.Ranges

/-!
# The text of a value

The range of a value cuts a stretch out of the source text. Read alone, this stretch is the value
again: its tokens do not depend on the text around them, and neither does reading them.
-/

namespace TypedIsl

/-- The stretch of a text from one byte index to another. -/
def Range.slice (range : Range) (source : String) : String :=
  String.Pos.Raw.extract source ⟨range.start.index⟩ ⟨range.stop.index⟩

/-! ## Tokens and docstrings -/

section

variable {index : Nat} {docs : List String} {tokens : List Token} {before own after : List Arrival}

/-- The tokens from one that has arrived on. -/
theorem arrivals_drop {first : Arrival}
    (h : arrivals index docs tokens = before ++ first :: after) :
    ∃ front back, tokens = front ++ first.token :: back ∧
      (∀ text, first.token.kind = .docstring text → False) ∧
      arrivals (first.index + 1) [] back = after := by
  induction tokens generalizing index docs before with
  | nil => exact absurd h (by simp [arrivals])
  | cons token rest ih =>
      rcases token.kind.docstring_or_spoken with ⟨text, htext⟩ | hspoken
      · rw [arrivals_docstring htext] at h
        obtain ⟨front, back, rfl, hback⟩ := ih h
        exact ⟨token :: front, back, rfl, hback⟩
      · rw [arrivals_spoken hspoken] at h
        cases before with
        | nil =>
            obtain ⟨rfl, rfl⟩ := List.cons.inj h
            exact ⟨[], rest, rfl, hspoken, rfl⟩
        | cons other before =>
            obtain ⟨front, back, rfl, hback⟩ := ih (List.cons.inj h).2
            exact ⟨token :: front, back, rfl, hback⟩

/-- The tokens up to one that has arrived. -/
theorem arrivals_take (h : arrivals index docs tokens = own ++ after) :
    ∃ front back, tokens = front ++ back ∧ arrivals index docs front = own ∧
      front.getLast? = own.getLast?.map (·.token) := by
  induction tokens generalizing index docs own with
  | nil =>
      obtain ⟨rfl, -⟩ := List.append_eq_nil_iff.mp h.symm
      exact ⟨[], [], rfl, rfl, rfl⟩
  | cons token rest ih =>
      by_cases hown : own = []
      · rw [hown]
        exact ⟨[], token :: rest, rfl, rfl, rfl⟩
      rcases token.kind.docstring_or_spoken with ⟨text, htext⟩ | hspoken
      · rw [arrivals_docstring htext] at h
        obtain ⟨front, back, rfl, hfront, hlast⟩ := ih h
        refine ⟨token :: front, back, rfl, ?_, ?_⟩
        · rw [arrivals_docstring htext, hfront]
        · have hne : front ≠ [] := by
            rintro rfl
            exact hown hfront.symm
          rw [List.getLast?_cons_of_ne_nil hne, hlast]
      · rw [arrivals_spoken hspoken] at h
        obtain ⟨first, own, rfl⟩ := List.exists_cons_of_ne_nil hown
        obtain ⟨rfl, hrest⟩ := List.cons.inj h
        obtain ⟨front, back, rfl, hfront, hlast⟩ := ih hrest
        refine ⟨token :: front, back, rfl, ?_, ?_⟩
        · rw [arrivals_spoken hspoken, hfront]
        · rw [List.getLast?_cons, List.getLast?_cons, hlast]
          cases own.getLast? <;> rfl

/-- The tokens between two that have arrived, without the docstrings directly before them. -/
theorem arrivals_between {first : Arrival}
    (h : arrivals index docs tokens = before ++ first :: own ++ after) :
    ∃ front middle back, tokens = front ++ middle ++ back ∧
      middle.head? = some first.token ∧
      middle.getLast? = (tokensOf (first :: own)).getLast? ∧
      arrivals first.index [] middle = ⟨first.token, first.index, []⟩ :: own := by
  rw [List.append_assoc, List.cons_append] at h
  obtain ⟨front, rest, rfl, hspoken, hrest⟩ := arrivals_drop h
  have hmiddle : arrivals first.index [] (first.token :: rest) =
      (⟨first.token, first.index, []⟩ :: own) ++ after := by
    rw [arrivals_spoken hspoken, hrest, List.cons_append]
  obtain ⟨middle, back, htokens, hmiddle, hlast⟩ := arrivals_take hmiddle
  rw [← List.getLast?_map] at hlast
  refine ⟨front, middle, back, by rw [htokens, List.append_assoc], ?_, hlast, hmiddle⟩
  cases middle with
  | nil => exact absurd hmiddle (by simp [arrivals])
  | cons token middle => rw [(List.cons.inj htokens).1, List.head?_cons]

end

section

variable {first : Arrival} {own : List Arrival}

theorem Covers.enclosed_without_docs {range : Range} {parts : List Part}
    (h : Covers (Part.enclosed range none parts) (first :: own)) :
    Covers (Part.enclosed range none parts) (⟨first.token, first.index, []⟩ :: own) := by
  obtain ⟨paren, inner, close, harrivals, ⟨hparen, hstart, -⟩, hinner, hclose, hstop⟩ :=
    covers_enclosed.mp h
  obtain ⟨rfl, rfl⟩ := List.cons.inj harrivals
  exact covers_enclosed.mpr
    ⟨_, inner, close, rfl, ⟨hparen, hstart, by simp⟩, hinner, hclose, hstop⟩

/-- A value does not keep the docstrings before it. -/
theorem Covers.value_without_docs {value : Value} (h : Covers value.parts (first :: own)) :
    Covers value.parts (⟨first.token, first.index, []⟩ :: own) := by
  match value with
  | .literal .. =>
      obtain ⟨arrival, rest, harrivals, harrival, hrest⟩ := covers_word.mp h
      obtain ⟨rfl, rfl⟩ := List.cons.inj harrivals
      exact covers_word.mpr ⟨_, _, rfl, harrival, hrest⟩
  | .name .. =>
      obtain ⟨arrival, rest, harrivals, harrival, hrest⟩ := covers_ident.mp h
      obtain ⟨rfl, rfl⟩ := List.cons.inj harrivals
      exact covers_ident.mpr ⟨_, _, rfl, harrival, hrest⟩
  | .cond _ _ none | .cond _ _ (some _) => exact h.enclosed_without_docs
  | .branch .. | .lambda .. | .locals .. | .lets .. | .require .. | .call .. =>
      exact h.enclosed_without_docs

end

/-! ## Reading the text of a value -/

/-- The tokens from the first one of a value to the last one are read as that value, wherever they
are moved. -/
theorem parseValue_between {tokens : List Token} {before own after : List Arrival}
    {first : Arrival} {value : Value} {doc : String → Prop} (hproper : value.Proper doc)
    (h : arrivals 0 [] tokens = before ++ first :: own ++ after)
    (hcovers : Covers value.parts (first :: own)) :
    ∃ front middle back, tokens = front ++ middle ++ back ∧
      middle.head? = some first.token ∧
      middle.getLast? = (tokensOf (first :: own)).getLast? ∧
      ∀ f, parseValue (middle.map (Token.move f)) = .ok (value.edit (.moving f)) := by
  obtain ⟨front, middle, back, htokens, hhead, hlast, hmiddle⟩ := arrivals_between h
  refine ⟨front, middle, back, htokens, hhead, hlast, fun f => ?_⟩
  have hmoved := hcovers.value_without_docs.move f first.index
  have harrivals := arrivals_move f 0 first.index [] middle
  rw [Nat.zero_add, hmiddle] at harrivals
  rw [← value.parts_move, ← harrivals] at hmoved
  exact parseValue_of_covers (Value.proper_edit (keepsProper_moving f doc) hproper) hmoved

theorem tokens_ofList {text : List Char} {read : List Token} (h : Lexes .first text read) :
    tokens (String.ofList text) = .ok read := by
  rw [tokens, lex, String.toList_ofList, h.lexFrom_eq]

/-- The tokens of a value lie in a stretch of the text that its range cuts out. -/
theorem Range.slice_eq {source : String} {range : Range} {front middle back : List Char}
    (h : source.toList = front ++ middle ++ back)
    (hstart : range.start.index = String.utf8Len front)
    (hstop : range.stop.index = String.utf8Len front + String.utf8Len middle) :
    range.slice source = String.ofList middle := by
  rw [Range.slice, hstart, hstop, ← String.ofList_toList (s := source), h]
  exact String.extract_of_valid front middle back

/-- The text in the range of a value has no lexical fault, and its tokens are read as that value,
up to positions. -/
theorem value_slice_read {source : String} {program : Program}
    (h : programOfSource source = .ok program) {form : TopLevel} (hform : form ∈ program)
    {value : Value} (hvalue : form.node.Contains (.value value)) :
    ∃ slice read, tokens (value.range.slice source) = .ok slice ∧
      parseValue slice = .ok read ∧ read.unranged = value.unranged := by
  obtain ⟨hlexes, hread⟩ := lexes_of_programOfSource h
  obtain ⟨hproper, before, own, after, harrivals, hstands⟩ := node_stands hread hform hvalue
  obtain ⟨_, last, hfirst, hlast, hrange⟩ := hstands.spans hproper (by simp)
  replace hrange : value.range = Range.through _ last.range := hrange
  cases own with
  | nil => exact absurd hfirst (by simp)
  | cons first own =>
      obtain rfl := Option.some.inj hfirst
      obtain ⟨front, middle, back, htokens, hhead, hend, hparse⟩ :=
        parseValue_between hproper harrivals hstands.covers
      rw [htokens] at hlexes
      obtain ⟨left, text, right, hsource, hstart, hstop, htext⟩ :=
        hlexes.cut hhead (hend.trans hlast)
      have hslice : value.range.slice source = String.ofList text := by
        apply Range.slice_eq hsource
        all_goals rwa [hrange]
      refine ⟨_, _, ?_, hparse first.token.range.start.since, value.unranged_move _⟩
      rw [hslice]
      exact tokens_ofList htext

/-- The body of a function. -/
theorem value_slice_read_body :
    ∃ slice read,
      tokens (Range.slice ⟨⟨1, 15, 14⟩, ⟨1, 20, 19⟩⟩ "(define (g x) [f x])") = .ok slice ∧
        parseValue slice = .ok read ∧
        read.unranged = .call default (.name ⟨"f", default⟩) [.name ⟨"x", default⟩] := by
  have h : programOfSource "(define (g x) [f x])" = .ok _ := rfl
  exact @value_slice_read _ _ h _ (List.mem_cons_self ..)
    (.call ⟨⟨1, 15, 14⟩, ⟨1, 20, 19⟩⟩ (.name ⟨"f", ⟨⟨1, 16, 15⟩, ⟨1, 17, 16⟩⟩⟩)
      [.name ⟨"x", ⟨⟨1, 18, 17⟩, ⟨1, 19, 18⟩⟩⟩])
    (.child .refl (.tail _ (.tail _ (.head _))))

end TypedIsl
