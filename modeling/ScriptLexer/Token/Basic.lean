import ScriptLexer.Span
import ScriptLexer.Token.Atom

/-!
# Tokens

A token is a kind with the positions where it starts and stops.  Two kinds hold tokens of their
own: a template string, which has a list of them for each of its sections, and a macro definition,
whose body is one list.  So the tokens of a source form a forest:

* `Kind.inner k`          the token lists directly inside a kind;
* `preorder depth ts`     every token of a list and of all lists below it, each in front of what it
                          holds, with its depth;
* `embedTokens base ts`   the tokens of a text that begins at `base` in a source, as tokens of that
                          source.

Equality of kinds is decidable, the positions of inner tokens included.
-/

namespace ScriptLexer

/-! ## the types -/

/-- something with the places where it starts and stops in a source -/
structure Located (α : Type) where
  kind : α
  start : Position
  stop : Position
deriving DecidableEq, Repr

/-- a section of a template: its extent, braces included, in the source and in the template's own
text, and its tokens -/
structure Section (τ : Type) where
  absolute : Span
  relative : Span
  tokens : List τ
deriving Repr

/-- a template string: its text between the quotes, and that text with each section replaced by
its number and then decoded -/
structure Template (τ : Type) where
  lexeme : String
  decoded : String
  sections : List (Section τ)
deriving Repr

/-- a macro definition: the names in its header and where they stand, the text from the first name
to the end of the body, and the tokens of the body -/
structure MacroDef (τ : Type) where
  name : String
  configuration : Option String
  lexeme : String
  nameStart : Position
  nameStop : Position
  body : List τ
deriving Repr

/-- what a token is -/
inductive Kind where
  | atom (a : Atom)
  | template (t : Template (Located Kind))
  | macroDef (m : MacroDef (Located Kind))

/-- a kind with its place in a source -/
abbrev Token := Located Kind

/-! ## extent -/

namespace Located

variable {α : Type}

/-- the byte range of a token -/
def span (t : Located α) : Span := ⟨t.start.offset, t.stop.offset⟩

/-- the characters of a token, if its range lies in the text and on character boundaries -/
def text? (t : Located α) (source : List Char) : Option (List Char) :=
  slice? source t.start.offset t.stop.offset

/-- both positions in display form -/
def place (t : Located α) : String := t.start.display ++ "-" ++ t.stop.display

end Located

/-- what the braces of a section enclose in the source -/
def Section.expression? {τ : Type} (s : Section τ) : Option Span := s.absolute.inner?

namespace MacroDef

variable {τ : Type}

/-- the length of `#macro ` in front of the header in its usual form -/
def keywordLength : Nat := 7

def hasConfiguration (m : MacroDef τ) : Bool := m.configuration.isSome

/-- the byte range of the names in the header -/
def nameSpan (m : MacroDef τ) : Span := ⟨m.nameStart.offset, m.nameStop.offset⟩

end MacroDef

/-! ## kinds -/

namespace Kind

/-- the kind without its payload -/
def tag : Kind → Tag
  | .atom a => a.tag
  | .template _ => .literal
  | .macroDef _ => .macroDef

/-- the token lists directly inside a kind -/
def inner : Kind → List (List Token)
  | .atom _ => []
  | .template t => t.sections.map Section.tokens
  | .macroDef m => [m.body]

end Kind

/-! ## the forest -/

mutual

/-- the tokens inside a kind, in front of what they hold -/
def Kind.preorder (depth : Nat) : Kind → List (Nat × Token)
  | .atom _ => []
  | .template ⟨_, _, ss⟩ => preorderSections depth ss
  | .macroDef ⟨_, _, _, _, _, body⟩ => preorder depth body

/-- the tokens of a list of sections -/
def preorderSections (depth : Nat) : List (Section Token) → List (Nat × Token)
  | [] => []
  | ⟨_, _, ts⟩ :: ss => preorder depth ts ++ preorderSections depth ss

/-- every token of a list and of the lists below it, each in front of what it holds, with its
depth -/
def preorder (depth : Nat) : List Token → List (Nat × Token)
  | [] => []
  | ⟨k, p, q⟩ :: ts => (depth, ⟨k, p, q⟩) :: (k.preorder (depth + 1) ++ preorder depth ts)

end

theorem preorder_cons (depth : Nat) (t : Token) (ts : List Token) :
    preorder depth (t :: ts) = (depth, t) :: (t.kind.preorder (depth + 1) ++ preorder depth ts) :=
  rfl

/-! ## embedding -/

mutual

/-- a kind of a text that begins at `base` in a source, as a kind of the source: texts and values
stay, places move -/
def Kind.embed (base : Position) : Kind → Kind
  | .atom a => .atom a
  | .template ⟨lexeme, decoded, ss⟩ => .template ⟨lexeme, decoded, embedSections base ss⟩
  | .macroDef ⟨name, configuration, lexeme, p, q, body⟩ =>
    .macroDef ⟨name, configuration, lexeme, base.embed p, base.embed q, embedTokens base body⟩

/-- sections likewise: their place in the template's own text stays -/
def embedSections (base : Position) : List (Section Token) → List (Section Token)
  | [] => []
  | ⟨absolute, relative, ts⟩ :: ss =>
    ⟨absolute.shift base.offset, relative, embedTokens base ts⟩ :: embedSections base ss

/-- the tokens of a text that begins at `base` in a source, as tokens of the source -/
def embedTokens (base : Position) : List Token → List Token
  | [] => []
  | ⟨k, p, q⟩ :: ts => ⟨k.embed base, base.embed p, base.embed q⟩ :: embedTokens base ts

end

/-- one token of a text that begins at `base` in a source, as a token of the source -/
def Located.embed (base : Position) (t : Token) : Token :=
  ⟨t.kind.embed base, base.embed t.start, base.embed t.stop⟩

theorem embedTokens_eq_map (base : Position) (ts : List Token) :
    embedTokens base ts = ts.map (Located.embed base) := by
  induction ts with
  | nil => rfl
  | cons t ts ih => rw [List.map_cons, ← ih]; rfl

/-! ## equality -/

mutual

/-- two kinds compared, their inner tokens included -/
def Kind.same : Kind → Kind → Bool
  | .atom a, .atom b => a == b
  | .template ⟨l, d, ss⟩, .template ⟨l', d', ss'⟩ => l == l' && d == d' && sameSections ss ss'
  | .macroDef ⟨n, c, l, p, q, ts⟩, .macroDef ⟨n', c', l', p', q', ts'⟩ =>
    n == n' && c == c' && l == l' && p == p' && q == q' && sameTokens ts ts'
  | _, _ => false

/-- two lists of sections compared -/
def sameSections : List (Section Token) → List (Section Token) → Bool
  | [], [] => true
  | ⟨a, r, ts⟩ :: ss, ⟨a', r', ts'⟩ :: ss' =>
    a == a' && r == r' && sameTokens ts ts' && sameSections ss ss'
  | _, _ => false

/-- two lists of tokens compared -/
def sameTokens : List Token → List Token → Bool
  | [], [] => true
  | ⟨k, p, q⟩ :: ts, ⟨k', p', q'⟩ :: ts' =>
    Kind.same k k' && p == p' && q == q' && sameTokens ts ts'
  | _, _ => false

end

mutual

theorem Kind.same_iff : (a b : Kind) → (a.same b = true ↔ a = b)
  | .atom a, .atom b => by simp [Kind.same]
  | .template ⟨l, d, ss⟩, .template ⟨l', d', ss'⟩ => by
    simp [Kind.same, sameSections_iff ss ss', and_assoc]
  | .macroDef ⟨n, c, l, p, q, ts⟩, .macroDef ⟨n', c', l', p', q', ts'⟩ => by
    simp [Kind.same, sameTokens_iff ts ts', and_assoc]
  | .atom _, .template _ => by simp [Kind.same]
  | .atom _, .macroDef _ => by simp [Kind.same]
  | .template _, .atom _ => by simp [Kind.same]
  | .template _, .macroDef _ => by simp [Kind.same]
  | .macroDef _, .atom _ => by simp [Kind.same]
  | .macroDef _, .template _ => by simp [Kind.same]

theorem sameSections_iff : (a b : List (Section Token)) → (sameSections a b = true ↔ a = b)
  | [], [] => by simp [sameSections]
  | [], _ :: _ => by simp [sameSections]
  | _ :: _, [] => by simp [sameSections]
  | ⟨a, r, ts⟩ :: ss, ⟨a', r', ts'⟩ :: ss' => by
    simp [sameSections, sameTokens_iff ts ts', sameSections_iff ss ss', and_assoc]

theorem sameTokens_iff : (a b : List Token) → (sameTokens a b = true ↔ a = b)
  | [], [] => by simp [sameTokens]
  | [], _ :: _ => by simp [sameTokens]
  | _ :: _, [] => by simp [sameTokens]
  | ⟨k, p, q⟩ :: ts, ⟨k', p', q'⟩ :: ts' => by
    simp [sameTokens, Kind.same_iff k k', sameTokens_iff ts ts', and_assoc]

end

instance : DecidableEq Kind := fun a b => decidable_of_iff _ (Kind.same_iff a b)

end ScriptLexer
