import TypedIsl.Text.GraphemeExtend
import TypedIsl.Text.NonPrinting

/-!
# Quoted text with escapes

Text in double quotes in which every character can be seen: characters that are shown as a part of
another one or have no visible form are written by their code points.
-/

namespace TypedIsl

/-- The code point of a character in hexadecimal, as in `\u{e9}`. -/
def codePointEscape (c : Char) : List Char :=
  "\\u\x7b".toList ++ Nat.toDigits 16 c.toNat ++ ['\x7d']

/-- The voicing marks of halfwidth katakana. They extend a grapheme, but each is shown in a place of
its own. -/
def isHalfwidthVoicingMark (c : Char) : Bool :=
  c = '\uff9e' || c = '\uff9f'

/-- Whether the character is not shown, or only as a part of the character before it. -/
def isHidden (c : Char) : Bool :=
  isNonPrinting c || (isGraphemeExtend c && !isHalfwidthVoicingMark c)

def escapedChar (c : Char) : List Char :=
  if c = '\x00' then ['\\', '0']
  else if c = '\t' then ['\\', 't']
  else if c = '\r' then ['\\', 'r']
  else if c = '\n' then ['\\', 'n']
  else if c = '\\' then ['\\', '\\']
  else if c = '"' then ['\\', '"']
  else if isHidden c then codePointEscape c
  else [c]

/-- The text in double quotes, with escapes. -/
def escaped (s : String) : String :=
  String.ofList ('"' :: s.toList.flatMap escapedChar ++ ['"'])

end TypedIsl
