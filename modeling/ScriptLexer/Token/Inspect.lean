import ScriptLexer.Double.Shortest
import ScriptLexer.Text.Quoted
import ScriptLexer.Token.Basic

/-!
# Tokens in listings

The text of a token in a listing for developers: its kind with the payload, and its span.

Signs and operators are shown by the name of their tag, word forms by the word or by a mark.  A
literal is shown with all that is in it; a macro definition by its name alone.  Records are written
as a name with fields in braces, variants as a name with a value in parentheses.
-/

namespace ScriptLexer

/-! ## shapes -/

/-- a variant with the value that it holds -/
def variantText (name value : String) : String := name ++ "(" ++ value ++ ")"

/-- a record with its fields in order -/
def recordText (name : String) (fields : List (String × String)) : String :=
  name ++ " \x7b " ++ ", ".intercalate (fields.map fun (f, v) => f ++ ": " ++ v) ++ " \x7d"

/-- a list -/
def listText (items : List String) : String := "[" ++ ", ".intercalate items ++ "]"

/-! ## literals -/

def Radix.inspect : Radix → String
  | .int => "Int"
  | .float => "Float"
  | .hex => "Hex"
  | .binary => "Bin"
  | .colour => "Colour"

def NumberValue.inspect : NumberValue → String
  | .integer n => variantText "Int" (toString n.toNat)
  | .real x => variantText "Float" x.shortest

def Number.inspect (n : Number) : String :=
  recordText "NumberLiteral" [("value", n.value.inspect), ("radix", n.radix.inspect)]

def Constant.inspect : Constant → String
  | .boolean true => "Boolean(true)"
  | .boolean false => "Boolean(false)"
  | .undefined => "Undefined"
  | .selfInstance => "SelfInstance"
  | .other => "Other"
  | .all => "All"
  | .noone => "Noone"
  | .global => "Global"

/-! ## atoms -/

def CommentStyle.inspect : CommentStyle → String
  | .line => "Line"
  | .block => "Block"

/-- the word form of a brace names the word; that of an operator is marked -/
def Dual.inspectWord (d : Dual) : String :=
  match d with
  | .openBrace => variantText "LCurly" d.wordText
  | .closeBrace => variantText "RCurly" d.wordText
  | _ => variantText (Tag.dual d).name "word"

def Atom.inspect (a : Atom) : String :=
  match a with
  | .dual d .word => d.inspectWord
  | .inPlace op => variantText "InPlace" (op.text ++ "=")
  | .accessor x => variantText "Accessor" ("[" ++ x.marker)
  | .number n => variantText "Literal" (variantText "Number" n.inspect)
  | .string s => variantText "Literal" (variantText "String" (quotedText s))
  | .constant c => variantText "Literal" c.inspect
  | .identifier name => variantText "Identifier" (quotedText name)
  | .keyword k => variantText "Keyword" k.text
  | .comment style text => variantText "Comment" (style.inspect ++ ", " ++ quotedText text)
  | .region text => variantText "Region" (quotedText text)
  | .endRegion text => variantText "EndRegion" (quotedText text)
  | .sign _ => a.tag.name
  | .dual _ .symbol => a.tag.name
  | .newline => a.tag.name
  | .endOfInput => a.tag.name

/-! ## tokens -/

/-- the places of a section -/
def sectionSpanText (absolute relative : Span) : String :=
  recordText "SectionSpan" [("absolute", absolute.display), ("relative", relative.display)]

mutual

def Kind.inspect : Kind → String
  | .atom a => a.inspect
  | .template ⟨lexeme, decoded, ss⟩ =>
    variantText "Literal" (variantText "Template" (recordText "TemplateRecord"
      [("lexeme", quotedText lexeme), ("decoded", quotedText decoded),
        ("sections", listText (ss.map fun s => sectionSpanText s.absolute s.relative)),
        ("section_tokens", listText (inspectSections ss))]))
  | .macroDef m => variantText "Macro" (quotedText m.name)

/-- the token lists of sections -/
def inspectSections : List (Section Token) → List String
  | [] => []
  | ⟨_, _, ts⟩ :: ss => listText (inspectTokens ts) :: inspectSections ss

/-- the tokens of a list, each with its span -/
def inspectTokens : List Token → List String
  | [] => []
  | ⟨k, p, q⟩ :: ts =>
    (k.inspect ++ " @ " ++ (Span.mk p.offset q.offset).display) :: inspectTokens ts

end

end ScriptLexer
