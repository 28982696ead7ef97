import ScriptLexer.Machine.Lexemes

/-!
# The scan by byte offsets

The machine takes turns until a list of tokens ends.  A turn passes over blanks, reads one character and
does what that character begins: one token, an error, or the end of the list.

The sections of a template and the body of a macro are lists of tokens of their own.  The machine puts
the tokens that it has made aside, scans the inner list with fewer turns left, and takes them up again.

The scan is written once, for every `Stage` that it may be carried out on.  A stage says what becomes of
an operation of the machine and how an inner list is scanned; everything else is the same on all of
them.  On the stage `Run LexError` an operation is only what it comes to.
-/

namespace ScriptLexer

/-- a scan by byte offsets that is carried out in `μ` -/
abbrev ScannerOn (μ : Type → Type) : Type := Machine → μ (Exit × Machine)

/-- where a scan is carried out -/
class Stage (μ : Type → Type) where
  /-- the result of a computation that has no machine -/
  settle {α : Type} : Run LexError α → μ α
  /-- an operation of the machine; `out` takes the machine out of what it comes to -/
  perform {α : Type} (out : α → Machine) (f : Machine → Run LexError α) (m : Machine) : μ α
  /-- an inner list, in a mode and with the start of a scope -/
  scanNested (scan : ScannerOn μ) (mode : Mode) (scopeStart : Nat) (m : Machine) :
    μ ((List Token × Exit) × Machine)
  /-- the body of a macro whose name begins at an offset, which is an inner list with a mark -/
  macroBody (scan : ScannerOn μ) (nameStart : Nat) (m : Machine) : μ ((List Token × Exit) × Machine)

namespace Machine

open Stage (settle perform)

abbrev Scanner : Type := ScannerOn (Run LexError)

/-! ## operations as they are -/

/-- scans an inner list in another mode; the tokens of the outer list are kept aside -/
def scanNested (scan : Scanner) (mode : Mode) (scopeStart : Nat) (m : Machine) :
    Run LexError ((List Token × Exit) × Machine) := do
  let (exit, inner) ← scan (m.enter mode scopeStart)
  return ((inner.tokens.reverse, exit), inner.resume m.mode m.scopeStart)

/-- scans the body of a macro, inside of which the machine is marked -/
def macroBody (scan : Scanner) (nameStart : Nat) (m : Machine) :
    Run LexError ((List Token × Exit) × Machine) := do
  let (body, m) ← (m.setMacro true).scanNested scan .macroBody nameStart
  return (body, m.setMacro false)

instance : Stage (Run LexError) where
  settle r := r
  perform _ f m := f m
  scanNested := scanNested
  macroBody := macroBody

section

variable {α : Type} (out : α → Machine) (f : Machine → Run LexError α) (scan : Scanner)
  (mode : Mode) (n : Nat) (m : Machine)

@[simp] theorem settle_run (r : Run LexError α) : (settle r : Run LexError α) = r := rfl

@[simp] theorem perform_run : (perform out f m : Run LexError α) = f m := rfl

@[simp] theorem scanNested_run :
    (Stage.scanNested scan mode n m : Run LexError _) = m.scanNested scan mode n := rfl

@[simp] theorem macroBody_run :
    (Stage.macroBody scan n m : Run LexError _) = m.macroBody scan n := rfl

end

variable {μ : Type → Type} [Monad μ] [Stage μ]

/-! ## templates -/

/-- one more section of a template, its opening brace read at `here` -/
def eatSection (scan : ScannerOn μ) (here : Position) (bodyStart : Nat)
    (sections : List (Section Token)) (m : Machine) : μ (List (Section Token) × Machine) := do
  let ((tokens, _), m) ← Stage.scanNested scan .interpolation here.offset m
  let absolute : Span := ⟨here.offset, m.offset⟩
  let relative ← settle (Run.relativeTo absolute (toCount bodyStart))
  return (⟨absolute, relative, tokens⟩ :: sections, m)

def templateLoop (scan : ScannerOn μ) (start : Position) (bodyStart : Nat) :
    Nat → List (Section Token) → Machine → μ (List (Section Token) × Machine)
  | 0, _, _ => settle (Run.fault .turns)
  | n + 1, sections, m => do
    let here := m.position
    let (c, m) ← perform Prod.snd (reading Reader.read) m
    match c with
    | none => settle (Run.fail (.report .unterminatedTemplate here start.offset))
    | some c =>
      if c = '\n' then settle (Run.fail (.report .newlineInTemplate here start.offset))
      else if c = '"' then return (sections, m)
      else if c = '\\' then
        let (_, m) ← perform Prod.snd (reading (Reader.eatIf fun c => c == '"' || c == '\\')) m
        templateLoop scan start bodyStart n sections m
      else if c = '{' then
        let (sections, m) ← eatSection scan here bodyStart sections m
        templateLoop scan start bodyStart n sections m
      else templateLoop scan start bodyStart n sections m

/-- the closing quote was read -/
def closeTemplate (start : Position) (bodyStart : Nat) (sections : List (Section Token)) (m : Machine) :
    Run LexError Machine := do
  let body ← m.sliceBack bodyStart 1
  let numbered ← Run.replaceBackward body (sections.reverse.map Section.relative)
  let text ← Run.withError (fun e => .ofEscape e.cause start (.insideTemplate start.offset))
    (decode numbered)
  m.push (.template ⟨String.ofList body, String.ofList text, sections.reverse⟩) start

/-- a template, its opening read -/
def templateLiteral (scan : ScannerOn μ) (start : Position) (m : Machine) : μ Machine := do
  let bodyStart := m.reader.pos
  let (sections, m) ← templateLoop scan start bodyStart m.reader.turns [] m
  perform id (closeTemplate start bodyStart sections) m

/-! ## macro definitions -/

/-- one more token, a macro definition whose body was scanned; it stops in front of the line break that
ended the body -/
def define (start : Position) (names : Names) (body : List Token) (exit : Exit) (m : Machine) :
    Run LexError Machine := do
  let bodyStop ← if exit = .newline then Run.subtract m.offset 1 else pure m.offset
  let text ← Run.slice m.reader.text names.start.offset bodyStop
  let token ← Run.token (.macroDef ⟨names.name, names.configuration, String.ofList text, names.start,
    names.stop, body⟩) start (m.positionAt bodyStop)
  let m := { m with tokens := token :: m.tokens }
  if exit = .newline then m.newLine else return m

/-- a macro definition, the word behind `#` read -/
def macroDirective (scan : ScannerOn μ) (start : Position) (m : Machine) : μ Machine := do
  if m.inMacro then settle (Run.fail (.report .nestedMacro start m.scopeStart))
  else
    let (names, m) ← perform Prod.snd names m
    let ((body, exit), m) ← Stage.macroBody scan names.start.offset m
    perform id (define start names body exit) m

/-! ## turns -/

/-- what a turn leads to: another turn, with a number of open braces, or the end of the list -/
inductive Next where
  | turn (depth : Nat) (m : Machine)
  | exit (e : Exit) (m : Machine)

/-- the machine behind a turn -/
def Next.machine : Next → Machine
  | .turn _ m => m
  | .exit _ m => m

/-- the next turn behind a token that has taken its line -/
def endLine (depth : Nat) (m : Machine) : Run LexError Next := do
  match ← m.finishLine with
  | (some e, m) => return .exit e m
  | (none, m) => return .turn depth m

/-- behind `/`: a comment or an operator -/
def slash (depth : Nat) (start : Position) (m : Machine) : Run LexError Next := do
  let (line, m) ← m.reading (Reader.eatIf (· == '/'))
  if line then endLine depth (← lineComment start m)
  else
    let (block, m) ← m.reading (Reader.eatIf (· == '*'))
    if block then return .turn depth (← blockComment start m)
    else return .turn depth (← operator start .divide (.sign .divide) m)

/-- an opening brace, which is counted in a section -/
def openBrace (depth : Nat) (start : Position) (m : Machine) : Run LexError Next := do
  let depth ← if m.mode = .interpolation then Run.increment depth else pure depth
  return .turn depth (← m.push (.atom (.dual .openBrace .symbol)) start)

/-- a closing brace, which ends a section unless one was opened in it -/
def closeBrace (depth : Nat) (start : Position) (m : Machine) : Run LexError Next := do
  if m.mode = .interpolation ∧ depth = 0 then return .exit .brace m
  else
    let depth ← if m.mode = .interpolation then Run.subtract depth 1 else pure depth
    return .turn depth (← m.push (.atom (.dual .closeBrace .symbol)) start)

/-- behind `$`: a template or a hexadecimal number -/
def dollar (scan : ScannerOn μ) (start : Position) (m : Machine) : μ Machine := do
  let (quote, m) ← perform Prod.snd (reading (Reader.eatIf (· == '"'))) m
  if quote then templateLiteral scan start m
  else
    let next ← settle m.reader.peek
    if next.any isHexPart then perform id (radixNumber start .hexadecimal .hex) m else return m

/-- behind `#`: a marker, a macro definition or a colour -/
def directive (scan : ScannerOn μ) (depth : Nat) (start : Position) (m : Machine) : μ Next := do
  let (word, m) ← perform Prod.snd (reading (Reader.eatWhile isWordPart)) m
  if word = "region".toList then
    let m ← perform id (region start .region) m
    perform Next.machine (endLine depth) m
  else if word = "endregion".toList then
    let m ← perform id (region start .endRegion) m
    perform Next.machine (endLine depth) m
  else if word = "macro".toList then return .turn depth (← macroDirective scan start m)
  else if word.all isHexPart then return .turn depth (← perform id (colour start word) m)
  else settle (Run.fail (.report (.unknownDirective (String.ofList word)) start start.offset))

/-- what a turn does with its first character, which is neither a blank nor a line break -/
def act (scan : ScannerOn μ) (depth : Nat) (start : Position) (c : Char) (m : Machine) : μ Next := do
  if c = '\\' then return .turn depth (← perform id (continuation start) m)
  else if c = '"' then
    if m.mode = .interpolation ∧ depth = 0 then
      settle (Run.fail (.report .quoteInInterpolation start m.scopeStart))
    else return .turn depth (← perform id (quotedString start) m)
  else if c = '$' then return .turn depth (← dollar scan start m)
  else if c = '#' then directive scan depth start m
  else if c = '{' then perform Next.machine (openBrace depth start) m
  else if c = '}' then perform Next.machine (closeBrace depth start) m
  else if c = '/' then perform Next.machine (slash depth start) m
  else return .turn depth (← perform id (lexeme start c) m)

/-- one turn; `scan` scans inner lists -/
def turn (scan : ScannerOn μ) (depth : Nat) (m : Machine) : μ Next := do
  let m ← perform id eatBlanks m
  let start := m.position
  let (c, m) ← perform Prod.snd (reading Reader.read) m
  match c with
  | none =>
    if m.mode = .interpolation then
      settle (Run.fail (.report .unclosedInterpolation start m.scopeStart))
    else return .exit .endOfInput m
  | some c =>
    if c = '\n' then
      if m.mode = .macroBody then return .exit .newline m
      else return .turn depth (← perform id (pushBreak start) m)
    else act scan depth start c m

/-! ## lists -/

/-- a list of tokens to its end, in at most so many turns, with `depth` open braces -/
def scanBody : Nat → Nat → Machine → μ (Exit × Machine)
  | 0, _, _ => settle (Run.fault .turns)
  | n + 1, depth, m => do
    match ← turn (scanBody n 0) depth m with
    | .turn depth m => scanBody n depth m
    | .exit e m => return (e, m)

/-- the machine at the end of its text, unless that is too large -/
def toEnd (m : Machine) : μ Machine := do
  if countLimit < m.reader.length then settle (Run.fail .ofSourceSize)
  else
    let (_, m) ← scanBody m.reader.turns 0 m
    return m

/-! ## sources -/

/-- the machine at the end of a source -/
def run (source : String) (mode : Mode) : Run LexError Machine := toEnd (start source.toList mode)

/-- the tokens of a source -/
def scan (source : String) (mode : Mode) : Run LexError (List Token) := do
  return (← run source mode).tokens.reverse

/-- the tokens of a source, with one more that marks the end of input -/
def scanToEnd (source : String) (mode : Mode) : Run LexError (List Token) := do
  let m ← run source mode
  let stop := m.position
  let token ← Run.token (.atom .endOfInput) stop stop
  return (token :: m.tokens).reverse

end Machine

end ScriptLexer
