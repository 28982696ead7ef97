/-!
# Words with a meaning of their own

`Keyword` holds the reserved words of statements and declarations, `Constant` the words that name a
value.  The words that stand for braces and operators are in `Token.Symbol`.
-/

namespace ScriptLexer

/-! ## keywords -/

/-- a reserved word that is neither an operator nor a value -/
inductive Keyword where
  | ifWord
  | thenWord
  | elseWord
  | switchWord
  | caseWord
  | defaultWord
  | doWord
  | forWord
  | withWord
  | whileWord
  | untilWord
  | repeatWord
  | breakWord
  | continueWord
  | exitWord
  | returnWord
  | varWord
  | globalVarWord
  | staticWord
  | enumWord
  | functionWord
  | constructorWord
  | deleteWord
  | tryWord
  | catchWord
  | finallyWord
  | throwWord
deriving DecidableEq, Repr

namespace Keyword

def all : List Keyword :=
  [.ifWord, .thenWord, .elseWord, .switchWord, .caseWord, .defaultWord, .doWord, .forWord,
    .withWord, .whileWord, .untilWord, .repeatWord, .breakWord, .continueWord, .exitWord,
    .returnWord, .varWord, .globalVarWord, .staticWord, .enumWord, .functionWord,
    .constructorWord, .deleteWord, .tryWord, .catchWord, .finallyWord, .throwWord]

def text : Keyword → String
  | .ifWord => "if"
  | .thenWord => "then"
  | .elseWord => "else"
  | .switchWord => "switch"
  | .caseWord => "case"
  | .defaultWord => "default"
  | .doWord => "do"
  | .forWord => "for"
  | .withWord => "with"
  | .whileWord => "while"
  | .untilWord => "until"
  | .repeatWord => "repeat"
  | .breakWord => "break"
  | .continueWord => "continue"
  | .exitWord => "exit"
  | .returnWord => "return"
  | .varWord => "var"
  | .globalVarWord => "globalvar"
  | .staticWord => "static"
  | .enumWord => "enum"
  | .functionWord => "function"
  | .constructorWord => "constructor"
  | .deleteWord => "delete"
  | .tryWord => "try"
  | .catchWord => "catch"
  | .finallyWord => "finally"
  | .throwWord => "throw"

end Keyword

/-! ## constants -/

/-- a word that names a value -/
inductive Constant where
  | boolean (b : Bool)
  | undefined
  | selfInstance
  | other
  | all
  | noone
  | global
deriving DecidableEq, Repr

namespace Constant

def every : List Constant :=
  [.boolean true, .boolean false, .undefined, .selfInstance, .other, .all, .noone, .global]

def text : Constant → String
  | .boolean true => "true"
  | .boolean false => "false"
  | .undefined => "undefined"
  | .selfInstance => "self"
  | .other => "other"
  | .all => "all"
  | .noone => "noone"
  | .global => "global"

end Constant

end ScriptLexer
