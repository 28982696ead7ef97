import ScriptLexer.LexError
import ScriptLexer.Token.Spelling

/-!
# What stands at the front of a text

A scan looks at the front of the unread text and decides by it alone what comes next.  This module
holds the types of that decision; the modules of `ScriptLexer.Lexeme` make it for one family of
lexemes each, and `ScriptLexer.Scan.Dispatch` chooses between them.

* `Scope`    what a scan is inside of, which decides where it ends;
* `Behind`   what ends right where the front begins, as far as it matters;
* `Front`    the decision: a character without a token, an atom, the opening of a template, the
             header of a macro definition, the end of the scope, or an error.

`Front.Takes f cs` says that a decision splits the text `cs` in two: the characters that it takes,
at least one, and the rest.
-/

namespace ScriptLexer

/-! ## scopes -/

/-- what kind of text a scan is inside of -/
inductive Mode where
  | plain
  | macroBody
  | interpolation
deriving DecidableEq, Repr

/-- the way a scope ended: with the text, in front of a line break, or in front of a brace -/
inductive Exit where
  | endOfInput
  | newline
  | brace
deriving DecidableEq, Repr

/-- the innermost macro body or section that a scan is inside of: its kind, where it begins, and
whether it is a macro body or lies in one -/
structure Scope where
  mode : Mode
  start : Nat
  inMacro : Bool
deriving DecidableEq, Repr

namespace Scope

/-- the scope of a scan that begins in a mode -/
def initial (mode : Mode) : Scope := ⟨mode, 0, mode == .macroBody⟩

/-- the body of a macro whose header begins at `start` -/
def bodyAt (start : Nat) : Scope := ⟨.macroBody, start, true⟩

/-- a section, opened by the brace at `start`, of a template in this scope -/
def sectionAt (s : Scope) (start : Nat) : Scope := { s with mode := .interpolation, start }

/-- the context of an error that concerns the scope as a whole -/
def context (s : Scope) : Context :=
  match s.mode with
  | .plain => .topLevel
  | .macroBody => .macroBody s.start
  | .interpolation => .interpolation s.start

end Scope

/-! ## what lies behind -/

/-- what ends right where the front begins: a float, which makes a point an operator; a token that
reaches to the end of its line, which makes the line break no token; or neither -/
inductive Behind where
  | nothing
  | float
  | lineEnd
deriving DecidableEq, Repr

/-- what an atom leaves behind it -/
def Atom.behind : Atom → Behind
  | .number n => if n.radix = .float then .float else .nothing
  | .comment .line _ => .lineEnd
  | .region _ => .lineEnd
  | .endRegion _ => .lineEnd
  | _ => .nothing

/-- what a kind leaves behind it -/
def Kind.behind : Kind → Behind
  | .atom a => a.behind
  | .template _ => .nothing
  | .macroDef _ => .lineEnd

/-! ## the decision -/

/-- the header of a macro definition: the names and their places, with the text in front of the
names and that of the names themselves -/
structure MacroHeader where
  name : String
  configuration : Option String
  lead : List Char
  names : List Char
  nameStart : Position
  nameStop : Position
deriving DecidableEq, Repr

/-- what stands at the front of a text, with the text behind it -/
inductive Front where
  | blank (c : Char) (rest : List Char)
  | atom (a : Atom) (lexeme rest : List Char)
  | template (rest : List Char)
  | macroDef (header : MacroHeader) (rest : List Char)
  | exit (e : Exit)
  | fail (e : LexError)
deriving DecidableEq, Repr

namespace Front

/-- what opens a template -/
def templateOpening : List Char := ['$', '"']

/-- the decision takes at least one character from the front of `cs` and leaves the rest -/
def Takes (cs : List Char) : Front → Prop
  | blank c rest => c :: rest = cs
  | atom _ lexeme rest => lexeme ++ rest = cs ∧ lexeme ≠ []
  | template rest => templateOpening ++ rest = cs
  | macroDef header rest => (header.lead ++ header.names) ++ rest = cs ∧ header.lead ≠ []
  | exit _ => True
  | fail _ => True

/-- what is left is shorter -/
theorem Takes.blank_lt {cs rest : List Char} {c : Char} (h : Takes cs (.blank c rest)) :
    rest.length < cs.length := by
  have h' : c :: rest = cs := h
  subst h'
  simp

theorem Takes.atom_lt {cs lexeme rest : List Char} {a : Atom}
    (h : Takes cs (.atom a lexeme rest)) : rest.length < cs.length := by
  obtain ⟨rfl, hne⟩ := h
  have := List.length_pos_iff.mpr hne
  simp only [List.length_append]
  omega

theorem Takes.template_lt {cs rest : List Char} (h : Takes cs (.template rest)) :
    rest.length < cs.length := by
  have h' : templateOpening ++ rest = cs := h
  subst h'
  simp only [templateOpening, List.cons_append, List.length_cons, List.nil_append]
  omega

theorem Takes.macroDef_lt {cs rest : List Char} {header : MacroHeader}
    (h : Takes cs (.macroDef header rest)) : rest.length < cs.length := by
  obtain ⟨rfl, hne⟩ := h
  have := List.length_pos_iff.mpr hne
  simp only [List.length_append]
  omega

end Front

end ScriptLexer
