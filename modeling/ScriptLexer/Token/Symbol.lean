/-!
# Signs, operators and accessors

The tokens without a payload of text, grouped by how they may be written:

* `Sign`        one token, one meaning: brackets, separators and most operators;
* `Dual`        braces and logical operators, which have a word form as well (`{` or `begin`);
* `InPlaceOp`   an operator joined to `=`, such as `+=`;
* `Accessor`    `[` joined to a marker that selects a kind of indexing, such as `[|`.

Each enumeration has its `all` list, in the order in which listings show it.
-/

namespace ScriptLexer

/-! ## signs -/

/-- a token that is one fixed sign -/
inductive Sign where
  | leftBracket
  | rightBracket
  | leftParen
  | rightParen
  | plus
  | minus
  | times
  | divide
  | remainder
  | wholeDivide
  | wholeRemainder
  | increment
  | decrement
  | assign
  | dot
  | comma
  | semicolon
  | colon
  | question
  | equal
  | unequal
  | less
  | lessEqual
  | greater
  | greaterEqual
  | nullish
  | bitNot
  | bitAnd
  | bitOr
  | bitXor
  | shiftLeft
  | shiftRight
deriving DecidableEq, Repr

/-- the usual spelling; `unequal` has a second one, `<>` -/
def Sign.text : Sign → String
  | .leftBracket => "["
  | .rightBracket => "]"
  | .leftParen => "("
  | .rightParen => ")"
  | .plus => "+"
  | .minus => "-"
  | .times => "*"
  | .divide => "/"
  | .remainder => "%"
  | .wholeDivide => "div"
  | .wholeRemainder => "mod"
  | .increment => "++"
  | .decrement => "--"
  | .assign => "="
  | .dot => "."
  | .comma => ","
  | .semicolon => ";"
  | .colon => ":"
  | .question => "?"
  | .equal => "=="
  | .unequal => "!="
  | .less => "<"
  | .lessEqual => "<="
  | .greater => ">"
  | .greaterEqual => ">="
  | .nullish => "??"
  | .bitNot => "~"
  | .bitAnd => "&"
  | .bitOr => "|"
  | .bitXor => "^"
  | .shiftLeft => "<<"
  | .shiftRight => ">>"

/-! ## braces and logical operators -/

/-- a token that may be written as a symbol or as a word -/
inductive Dual where
  | openBrace
  | closeBrace
  | logicNot
  | logicAnd
  | logicOr
  | logicXor
deriving DecidableEq, Repr

/-- which of its two forms a `Dual` was written in -/
inductive Spelling where
  | symbol
  | word
deriving DecidableEq, Repr

namespace Dual

def all : List Dual := [.openBrace, .closeBrace, .logicNot, .logicAnd, .logicOr, .logicXor]

def symbolText : Dual → String
  | .openBrace => "\x7b"
  | .closeBrace => "\x7d"
  | .logicNot => "!"
  | .logicAnd => "&&"
  | .logicOr => "||"
  | .logicXor => "^^"

def wordText : Dual → String
  | .openBrace => "begin"
  | .closeBrace => "end"
  | .logicNot => "not"
  | .logicAnd => "and"
  | .logicOr => "or"
  | .logicXor => "xor"

end Dual

/-! ## in-place assignment -/

/-- the operator of an in-place assignment -/
inductive InPlaceOp where
  | plus
  | minus
  | times
  | divide
  | remainder
  | bitAnd
  | bitOr
  | bitXor
  | shiftLeft
  | shiftRight
  | nullish
deriving DecidableEq, Repr

namespace InPlaceOp

def all : List InPlaceOp :=
  [.plus, .minus, .times, .divide, .remainder, .bitAnd, .bitOr, .bitXor, .shiftLeft, .shiftRight,
    .nullish]

/-- the operator on its own -/
def base : InPlaceOp → Sign
  | .plus => .plus
  | .minus => .minus
  | .times => .times
  | .divide => .divide
  | .remainder => .remainder
  | .bitAnd => .bitAnd
  | .bitOr => .bitOr
  | .bitXor => .bitXor
  | .shiftLeft => .shiftLeft
  | .shiftRight => .shiftRight
  | .nullish => .nullish

/-- the spelling without the `=` -/
def text (op : InPlaceOp) : String := op.base.text

end InPlaceOp

/-! ## accessors -/

/-- a kind of indexing, named for what is indexed -/
inductive Accessor where
  | list
  | map
  | grid
  | array
  | struct
  | u8
  | s8
  | u16
  | s16
  | u32
  | s32
  | f32
  | f64
deriving DecidableEq, Repr

namespace Accessor

/-- the views of a buffer, which have two-character markers, come first -/
def all : List Accessor :=
  [.u8, .s8, .u16, .s16, .u32, .s32, .f32, .f64, .list, .map, .grid, .array, .struct]

/-- what follows the `[` -/
def marker : Accessor → String
  | .list => "|"
  | .map => "?"
  | .grid => "#"
  | .array => "@"
  | .struct => "$"
  | .u8 => "B:"
  | .s8 => "b:"
  | .u16 => "X:"
  | .s16 => "x:"
  | .u32 => "I:"
  | .s32 => "i:"
  | .f32 => "f:"
  | .f64 => "d:"

end Accessor

end ScriptLexer
