import ScriptLexer.Machine.Escapes
import ScriptLexer.Machine.State
import ScriptLexer.Scan.Dispatch

/-!
# Lexemes by byte offsets

What reads one token, or a part of one, that holds no list of tokens.  The loops read one character a
turn and slice the text out of the source when they have found its end.  A quote is one byte, so the body
of a string ends one byte in front of the place behind the closing quote.

A line break is read in one step and counted in another, because what ends with the line, such as a
macro body, ends in front of its break: `finishLine` reads the break behind a line comment or a region
marker, and counts it unless it ends the body of a macro.
-/

namespace ScriptLexer

/-- a number with a point -/
def Kind.isFloat : Kind → Bool
  | .atom (.number n) => n.radix == .float
  | _ => false

namespace Machine

/-! ## line breaks -/

/-- the token of a line break that was read but not counted -/
def pushBreak (start : Position) (m : Machine) : Run LexError Machine := do
  (← m.push (.atom .newline) start).newLine

/-- behind a comment or a marker that has taken its line -/
def finishLine (m : Machine) : Run LexError (Option Exit × Machine) := do
  let (taken, m) ← m.reading (Reader.eatIf (· == '\n'))
  if taken then
    if m.mode = .macroBody then return (some .newline, m) else return (none, ← m.newLine)
  else return (none, m)

/-- a backslash joins the lines of a macro body and belongs nowhere else -/
def continuation (start : Position) (m : Machine) : Run LexError Machine := do
  if m.mode = .macroBody then
    let (taken, m) ← m.reading (Reader.eatIf (· == '\n'))
    if taken then pushBreak start m
    else Run.fail (.report .continuationWithoutNewline start m.scopeStart)
  else
    -- the error suggests an edit of the byte at its position
    let _ ← Run.increment start.offset
    Run.fail ((LexError.report .unexpectedContinuation start start.offset).withContext
      m.scope.context)

/-! ## words and comments -/

/-- a word, none of which has been read -/
def identifier (start : Position) (m : Machine) : Run LexError Machine := do
  let (text, m) ← m.reading (Reader.eatWhile isWordPart)
  m.push (.atom (.ofWord (String.ofList text))) start

/-- a comment to the end of the line, its slashes read -/
def lineComment (start : Position) (m : Machine) : Run LexError Machine := do
  let (text, m) ← m.reading Reader.eatLine
  m.push (.atom (.comment .line (String.ofList text))) start

def blockLoop (start : Position) : Nat → Nat → Machine → Run LexError Machine
  | 0, _, _ => Run.fault .turns
  | n + 1, depth, m => do
    let here := m.position
    let (c, m) ← m.reading Reader.read
    match c with
    | none => Run.fail (.report .unterminatedBlockComment here start.offset)
    | some c =>
      if c = '\n' then blockLoop start n depth (← m.newLine)
      else if c = '/' then
        let (taken, m) ← m.reading (Reader.eatIf (· == '*'))
        if taken then blockLoop start n (← Run.increment depth) m else blockLoop start n depth m
      else if c = '*' then
        let (taken, m) ← m.reading (Reader.eatIf (· == '/'))
        if taken then
          if depth = 0 then return m else blockLoop start n (← Run.subtract depth 1) m
        else blockLoop start n depth m
      else blockLoop start n depth m

/-- a comment between delimiters, the opening one read -/
def blockComment (start : Position) (m : Machine) : Run LexError Machine := do
  let bodyStart := m.reader.pos
  let m ← blockLoop start m.reader.turns 0 m
  let text ← m.sliceBack bodyStart 2
  m.push (.atom (.comment .block (String.ofList text))) start

/-! ## directives -/

/-- the marker with the rest of its line, the word behind `#` read -/
def region (start : Position) (atom : String → Atom) (m : Machine) : Run LexError Machine := do
  let m ← m.eatBlanks
  let (text, m) ← m.reading Reader.eatLine
  m.push (.atom (atom (String.ofList text))) start

/-- a colour, its digits read; an error holds the number of digits as far as it is a count -/
def colour (start : Position) (digits : List Char) (m : Machine) : Run LexError Machine :=
  let count := digitCount digits
  let reported := min count countLimit
  if count < Lexeme.colourDigits then
    Run.fail (.report (.notEnoughColourDigits reported) start start.offset)
  else if Lexeme.colourDigits < count then
    Run.fail (.report (.tooManyColourDigits reported) start start.offset)
  else
    match readDigits? Base.hexadecimal.value digits with
    | some n => m.push (.atom (.number (.integer (.ofNat (swapColour n)) .colour))) start
    | none => Run.fail (.report .integerOverflow start start.offset)

/-- a name of a header -/
def macroName (m : Machine) : Run LexError (List Char × Machine) := do
  let here := m.position
  match ← m.reader.peek with
  | none => Run.fail (.report .macroNameExpected here here.offset)
  | some c =>
    if c = '\n' then Run.fail (.report .macroNameExpected here here.offset)
    else if isWordStart c then m.reading (Reader.eatWhile isWordPart)
    else Run.fail (.report (.malformedMacroName c) here here.offset)

/-- the names of a macro definition with their places -/
structure Names where
  name : String
  configuration : Option String
  start : Position
  stop : Position

/-- the header of a macro definition, the word behind `#` read -/
def names (m : Machine) : Run LexError (Names × Machine) := do
  let m ← m.eatBlanks
  let start := m.position
  let (first, m) ← m.macroName
  let (joined, m) ← m.reading (Reader.eatIf (· == ':'))
  if joined then
    let (name, m) ← m.macroName
    return (⟨String.ofList name, some (String.ofList first), start, m.position⟩, m)
  else return (⟨String.ofList first, none, start, m.position⟩, m)

/-! ## strings -/

/-- the character behind a backslash, unless that is a line break -/
def skipEscaped (m : Machine) : Run LexError Machine := do
  match ← m.reader.peek with
  | none => return m
  | some c => if c = '\n' then return m else return (← m.reading Reader.read).2

def quotedLoop (start : Position) : Nat → Machine → Run LexError Machine
  | 0, _ => Run.fault .turns
  | n + 1, m => do
    let here := m.position
    let (c, m) ← m.reading Reader.read
    match c with
    | none => Run.fail (.report .unterminatedString here start.offset)
    | some c =>
      if c = '\n' then
        -- the error suggests an edit of the byte at its position
        let _ ← Run.increment here.offset
        Run.fail (.report .newlineInString here start.offset)
      else if c = '"' then return m
      else if c = '\\' then quotedLoop start n (← m.skipEscaped)
      else quotedLoop start n m

/-- a string between double quotes, the opening one read -/
def quotedString (start : Position) (m : Machine) : Run LexError Machine := do
  let bodyStart := m.reader.pos
  let m ← quotedLoop start m.reader.turns m
  let body ← m.sliceBack bodyStart 1
  let text ← Run.withError (fun e => .ofEscape e.cause
    (m.positionAt (toCount (bodyStart + e.offset))) (.insideString start.offset)) (decode body)
  m.push (.atom (.string (String.ofList text))) start

def rawLoop (start : Position) (quote : Char) : Nat → Machine → Run LexError Machine
  | 0, _ => Run.fault .turns
  | n + 1, m => do
    let here := m.position
    let (c, m) ← m.reading Reader.read
    match c with
    | none => Run.fail (.report (.unterminatedRawString quote) here start.offset)
    | some c =>
      if c = '\n' then rawLoop start quote n (← m.newLine)
      else if c = quote then return m
      else rawLoop start quote n m

/-- a string between two quotes that `@`, which was read, announces -/
def rawString (start : Position) (m : Machine) : Run LexError Machine := do
  let (quote, m) ← m.reading Reader.read
  match quote with
  | none => Run.fail (.report (.unterminatedRawString '"') start start.offset)
  | some quote =>
    let bodyStart := m.reader.pos
    let m ← rawLoop start quote m.reader.turns m
    let body ← m.sliceBack bodyStart 1
    m.push (.atom (.string (String.ofList body))) start

/-! ## numbers -/

/-- the float that a text of digits with a point in it stands for, if there is a digit -/
def parseFloat? (text : List Char) : Option Number :=
  if text.any Char.isDigit then
    some (Lexeme.floatOf (text.takeWhile (· != '.')) ((text.dropWhile (· != '.')).drop 1))
  else none

/-- a decimal number, none of which has been read -/
def decimalNumber (start : Position) (m : Machine) : Run LexError Machine := do
  let textStart := m.reader.pos
  let (_, m) ← m.reading (Reader.eatWhile isDecimalPart)
  let (isFloat, m) ← m.reading (Reader.eatIf (· == '.'))
  if isFloat then
    let (_, m) ← m.reading (Reader.eatWhile isDecimalPart)
    match parseFloat? (← m.sliceBack textStart 0) with
    | some x => m.push (.atom (.number x)) start
    | none => Run.fail (.report (.missingDigits .decimal) start start.offset)
  else
    match readDigits? Base.decimal.value (← m.sliceBack textStart 0) with
    | some x => m.push (.atom (.number (.integer (.ofNat x) .int))) start
    | none => Run.fail (.report .integerOverflow start start.offset)

/-- the digits behind a prefix that announces their base -/
def radixNumber (start : Position) (base : Base) (radix : Radix) (m : Machine) :
    Run LexError Machine := do
  let (digits, m) ← m.reading (Reader.eatWhile base.isPart)
  if digitCount digits = 0 then Run.fail (.report (.missingDigits base) start start.offset)
  else
    match readDigits? base.value digits with
    | some x => m.push (.atom (.number (.integer (.ofNat x) radix))) start
    | none => Run.fail (.report .integerOverflow start start.offset)

/-! ## signs

An operator is read character by character: behind its first one it is asked whether another one
follows. -/

/-- a sign, or a longer one if `c` follows -/
def pushJoined (start : Position) (c : Char) (joined plain : Atom) (m : Machine) :
    Run LexError Machine := do
  let (taken, m) ← m.reading (Reader.eatIf (· == c))
  if taken then m.push (.atom joined) start else m.push (.atom plain) start

/-- an operator, or its in-place form -/
def operator (start : Position) (op : InPlaceOp) (plain : Atom) (m : Machine) :
    Run LexError Machine := pushJoined start '=' (.inPlace op) plain m

/-- an operator, its in-place form, or another one if its character `c` follows again -/
def doubled (start : Position) (c : Char) (twice : Atom) (op : InPlaceOp) (plain : Atom)
    (m : Machine) : Run LexError Machine := do
  let (taken, m) ← m.reading (Reader.eatIf (· == c))
  if taken then m.push (.atom twice) start else operator start op plain m

def less (start : Position) (m : Machine) : Run LexError Machine := do
  let (taken, m) ← m.reading (Reader.eatIf (· == '<'))
  if taken then operator start .shiftLeft (.sign .shiftLeft) m
  else
    let (taken, m) ← m.reading (Reader.eatIf (· == '='))
    if taken then m.push (.atom (.sign .lessEqual)) start
    else pushJoined start '>' (.sign .unequal) (.sign .less) m

def greater (start : Position) (m : Machine) : Run LexError Machine := do
  let (taken, m) ← m.reading (Reader.eatIf (· == '>'))
  if taken then operator start .shiftRight (.sign .shiftRight) m
  else pushJoined start '=' (.sign .greaterEqual) (.sign .greater) m

def question (start : Position) (m : Machine) : Run LexError Machine := do
  let (taken, m) ← m.reading (Reader.eatIf (· == '?'))
  if taken then operator start .nullish (.sign .nullish) m
  else m.push (.atom (.sign .question)) start

/-- the first accessor of a list whose marker comes next -/
def eatMarker : List Accessor → Machine → Run LexError (Option Accessor × Machine)
  | [], m => .ok (none, m)
  | x :: xs, m => do
    let (taken, m) ← m.reading (Reader.eatText x.marker.toList)
    if taken then return (some x, m) else eatMarker xs m

def bracket (start : Position) (m : Machine) : Run LexError Machine := do
  let (x, m) ← eatMarker Accessor.all m
  match x with
  | some x => m.push (.atom (.accessor x)) start
  | none => m.push (.atom (.sign .leftBracket)) start

/-- the sign that begins with `c`, which was read; other characters are passed over -/
def sign (start : Position) (c : Char) (m : Machine) : Run LexError Machine :=
  match c with
  | ',' => m.push (.atom (.sign .comma)) start
  | ';' => m.push (.atom (.sign .semicolon)) start
  | ':' => m.push (.atom (.sign .colon)) start
  | '(' => m.push (.atom (.sign .leftParen)) start
  | ')' => m.push (.atom (.sign .rightParen)) start
  | '[' => bracket start m
  | ']' => m.push (.atom (.sign .rightBracket)) start
  | '~' => m.push (.atom (.sign .bitNot)) start
  | '?' => question start m
  | '&' => doubled start '&' (.dual .logicAnd .symbol) .bitAnd (.sign .bitAnd) m
  | '|' => doubled start '|' (.dual .logicOr .symbol) .bitOr (.sign .bitOr) m
  | '^' => doubled start '^' (.dual .logicXor .symbol) .bitXor (.sign .bitXor) m
  | '+' => doubled start '+' (.sign .increment) .plus (.sign .plus) m
  | '-' => doubled start '-' (.sign .decrement) .minus (.sign .minus) m
  | '*' => operator start .times (.sign .times) m
  | '%' => operator start .remainder (.sign .remainder) m
  | '=' => pushJoined start '=' (.sign .equal) (.sign .assign) m
  | '!' => pushJoined start '=' (.sign .unequal) (.dual .logicNot .symbol) m
  | '<' => less start m
  | '>' => greater start m
  | _ => .ok m

/-! ## by the first character -/

/-- the last token is a float that ends at a place -/
def followsFloat (m : Machine) (start : Position) : Bool :=
  match m.tokens with
  | [] => false
  | t :: _ => t.kind.isFloat && t.stop.offset == start.offset

/-- behind `@`: a raw string, if a quote follows -/
def atSign (start : Position) (m : Machine) : Run LexError Machine := do
  if (← m.reader.peek).any (fun q => q == '"' || q == '\'') then rawString start m else return m

/-- behind a point: a float without whole digits, unless a float ends in front of the point -/
def point (start : Position) (m : Machine) : Run LexError Machine := do
  if (← m.reader.peek).any Char.isDigit && !m.followsFloat start then
    decimalNumber start (← m.rewind)
  else m.push (.atom (.sign .dot)) start

/-- behind the digit `c`, which may announce another base together with a letter -/
def number (start : Position) (c : Char) (m : Machine) : Run LexError Machine := do
  let (hex, m) ← m.reading (Reader.eatIf fun d => c == '0' && (d == 'x' || d == 'X'))
  if hex then radixNumber start .hexadecimal .hex m
  else
    let (binary, m) ← m.reading (Reader.eatIf fun d => c == '0' && (d == 'b' || d == 'B'))
    if binary then radixNumber start .binary .binary m else decimalNumber start (← m.rewind)

/-- what the character `c`, which was read, begins on its own -/
def lexeme (start : Position) (c : Char) (m : Machine) : Run LexError Machine := do
  if c = '@' then atSign start m
  else if c = '.' then point start m
  else if isWordStart c then identifier start (← m.rewind)
  else if c.isDigit then number start c m
  else sign start c m

end Machine

end ScriptLexer
