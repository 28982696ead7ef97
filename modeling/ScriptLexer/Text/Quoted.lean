import ScriptLexer.Text.Invisible

/-!
# Quoted text

A text between double quotes, as listings show it: the quote and the backslash are escaped, the
common controls have short escapes, every other control and every invisible character is shown by
its code point in hexadecimal, and all else stands as it is.
-/

namespace ScriptLexer

/-- the controls with a short escape -/
def shortEscapes : List (Char × Char) :=
  [ ('"', '"'), ('\\', '\\'), ('\t', 't'), ('\n', 'n'), ('\r', 'r'), ('\x00', '0')]

/-- one character of a quoted text -/
def quotedChar (c : Char) : List Char :=
  match shortEscapes.lookup c with
  | some e => ['\\', e]
  | none =>
    if c.toNat < 0x20 ∨ c.toNat = 0x7f ∨ isInvisible c then
      ['\\', 'u', '{'] ++ Nat.toDigits 16 c.toNat ++ ['}']
    else [c]

/-- a text between double quotes -/
def quotedText (text : String) : String :=
  String.ofList ('"' :: text.toList.flatMap quotedChar ++ ['"'])

end ScriptLexer
