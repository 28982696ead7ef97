import ScriptLexer.Cursor
import ScriptLexer.Machine.Checks
import ScriptLexer.Text.Escape

/-!
# Escape sequences decoded by byte offsets

The text between two backslashes is copied as a slice, the letter behind a backslash and the digits
behind that are sliced off, and hexadecimal digits are counted among the bytes.
-/

namespace ScriptLexer.Machine

/-- a byte that is a hexadecimal digit -/
def isHexByte (b : UInt8) : Bool := isHexDigit (.ofNat b.toNat)

/-- the value of digits in base sixteen, read on from `n`; what is no digit is passed over -/
def addDigits (n : Nat) : List Char → Run EscapeError Nat
  | [] => .ok n
  | c :: cs =>
    match digitValue? c with
    | none => addDigits n cs
    | some d => do addDigits (← Run.count (n * 16 + d)) cs

/-- the character that exactly `count` hexadecimal digits name, behind `out`, and the number of bytes
that they take -/
def pushHex (out digits : List Char) (escape : Char) (count offset : Nat) :
    Run EscapeError (List Char × Nat) := do
  let found := ((Cursor.utf8 digits).take count |>.takeWhile isHexByte).length
  if found < count then Run.fail ⟨.notEnoughDigits escape count found, offset⟩
  else
    let value ← addDigits 0 (← Run.slice digits 0 found)
    if value.isValidChar then return (out ++ [Char.ofNat value], found)
    else Run.fail ⟨.invalidCodePoint value, offset⟩

/-- the letters that stand for control characters -/
def controlEscapes : List (Char × Char) :=
  [ ('r', '\r'), ('n', '\n'), ('b', '\x08'), ('f', '\x0c'), ('t', '\t'), ('v', '\x0b'),
    ('a', '\x07')]

/-- the sequence that begins with `esc` at the front of `after`: its character behind `out`, and the
number of bytes that it takes -/
def pushEscape (out after : List Char) (esc : Char) (offset : Nat) :
    Run EscapeError (List Char × Nat) := do
  if esc = '\\' ∨ esc = '"' ∨ esc = '\'' then return (out ++ [esc], 1)
  else if esc = 'u' then
    let (out, consumed) ← pushHex out (← Run.slice after 1 (byteLength after)) 'u' 4 offset
    return (out, 1 + consumed)
  else if esc = 'x' then
    let (out, consumed) ← pushHex out (← Run.slice after 1 (byteLength after)) 'x' 2 offset
    return (out, 1 + consumed)
  else if '0' ≤ esc ∧ esc ≤ '7' then
    return (out ++ [Char.ofNat (← Run.subtract esc.toNat '0'.toNat)], 1)
  else
    match controlEscapes.lookup esc with
    | some c => return (out ++ [c], 1)
    | none => Run.fail ⟨.unknown esc, offset⟩

/-- the byte offset of the first backslash -/
def findBackslash (text : List Char) : Option Nat :=
  if text.contains '\\' then some (byteLength (text.takeWhile (· != '\\'))) else none

/-- the body decoded, of which `rest` is left and `out` is what came in front of it -/
def decodeLoop (body : List Char) : Nat → List Char → List Char → Run EscapeError (List Char)
  | 0, _, _ => Run.fault .turns
  | n + 1, out, rest => do
    match findBackslash rest with
    | none => return out ++ rest
    | some slash =>
      let out := out ++ (← Run.slice rest 0 slash)
      let offset := (← Run.subtract (byteLength body) (byteLength rest)) + slash
      let after ← Run.slice rest (slash + 1) (byteLength rest)
      match after.head? with
      | none => Run.fail ⟨.empty, offset⟩
      | some esc =>
        let (out, consumed) ← pushEscape out after esc offset
        decodeLoop body n out (← Run.slice after consumed (byteLength after))

/-- the text that a body stands for -/
def decode (body : List Char) : Run EscapeError (List Char) :=
  if body.contains '\\' then decodeLoop body (body.length + 1) [] body else .ok body

end ScriptLexer.Machine
