import ScriptLexer.Number.Basic
import ScriptLexer.Token.Symbol
import ScriptLexer.Token.Word

/-!
# Atoms and tags

An atom is a token kind that holds no further tokens.  A tag is a token kind without its payload:
what two tokens share that differ in a name or in a value only.

`Tag.all` lists the tags in their order, which is the order of listings; `Tag.index` is the place in
that list.
-/

namespace ScriptLexer

/-! ## atoms -/

/-- the two forms of a comment -/
inductive CommentStyle where
  | line
  | block
deriving DecidableEq, Repr

/-- a token kind that holds no further tokens -/
inductive Atom where
  | sign (s : Sign)
  | dual (d : Dual) (spelling : Spelling)
  | inPlace (op : InPlaceOp)
  | accessor (a : Accessor)
  | number (n : Number)
  | string (text : String)
  | constant (c : Constant)
  | identifier (name : String)
  | keyword (k : Keyword)
  | comment (style : CommentStyle) (text : String)
  | region (text : String)
  | endRegion (text : String)
  | newline
  | endOfInput
deriving DecidableEq, Repr

/-! ## tags -/

/-- a token kind without its payload -/
inductive Tag where
  | sign (s : Sign)
  | dual (d : Dual)
  | inPlace
  | accessor
  | literal
  | identifier
  | keyword
  | comment
  | region
  | endRegion
  | macroDef
  | newline
  | endOfInput
deriving DecidableEq, Repr

/-- the tag of an atom; every literal has the same one -/
def Atom.tag : Atom → Tag
  | .sign s => .sign s
  | .dual d _ => .dual d
  | .inPlace _ => .inPlace
  | .accessor _ => .accessor
  | .number _ => .literal
  | .string _ => .literal
  | .constant _ => .literal
  | .identifier _ => .identifier
  | .keyword _ => .keyword
  | .comment _ _ => .comment
  | .region _ => .region
  | .endRegion _ => .endRegion
  | .newline => .newline
  | .endOfInput => .endOfInput

namespace Tag

/-- the tags in their order -/
def all : List Tag :=
  [.dual .openBrace, .dual .closeBrace, .sign .leftBracket, .sign .rightBracket, .sign .leftParen,
    .sign .rightParen, .sign .plus, .sign .minus, .sign .times, .sign .divide, .sign .remainder,
    .sign .wholeDivide, .sign .wholeRemainder, .sign .increment, .sign .decrement, .sign .assign,
    .sign .dot, .sign .comma, .sign .semicolon, .sign .colon, .sign .question, .sign .equal,
    .sign .unequal, .sign .less, .sign .lessEqual, .sign .greater, .sign .greaterEqual,
    .dual .logicNot, .dual .logicAnd, .dual .logicOr, .dual .logicXor, .sign .nullish,
    .sign .bitNot, .sign .bitAnd, .sign .bitOr, .sign .bitXor, .sign .shiftLeft, .sign .shiftRight,
    .inPlace, .accessor, .literal, .identifier, .keyword, .comment, .region, .endRegion, .macroDef,
    .newline, .endOfInput]

/-- the place of a tag in the order -/
def index (t : Tag) : Nat := all.idxOf t

/-- a spelling between backquotes, or what the tag is called -/
def name : Tag → String
  | .sign s => "`" ++ s.text ++ "`"
  | .dual d => "`" ++ d.symbolText ++ "`"
  | .inPlace => "in-place assignment"
  | .accessor => "accessor"
  | .literal => "literal"
  | .identifier => "identifier"
  | .keyword => "keyword"
  | .comment => "comment"
  | .region => "#region"
  | .endRegion => "#endregion"
  | .macroDef => "#macro"
  | .newline => "newline"
  | .endOfInput => "end of input"

/-- a token that a parser may skip without a change of meaning -/
def isTrivia (t : Tag) : Bool := t ∈ [comment, region, endRegion, newline]

/-- an operator that can be joined to `=` -/
def hasInPlaceForm (t : Tag) : Bool := t ∈ InPlaceOp.all.map fun op => sign op.base

/-- tags sorted by their order, with every repetition kept -/
def sorted (ts : List Tag) : List Tag := ts.mergeSort fun a b => a.index ≤ b.index

end Tag

end ScriptLexer
