import ScriptLexer.Token.Basic

/-!
# How fixed tokens are spelled

* `reserved`        the words that are not identifiers, with the atoms they stand for;
                    `Atom.ofWord w` is the atom of any word;
* `symbolTable`     the spellings made of signs, with the atoms they stand for, the longer ones
                    first; `symbol? cs` is the first of them that `cs` begins with.

Because of the order of the table the first fit is the longest (`symbolTable_sorted`), and because
no spelling is listed twice (`symbolTable_nodup`) a spelling has one meaning.
-/

namespace ScriptLexer

/-! ## words -/

/-- the words that are not identifiers -/
def reserved : List (String × Atom) :=
  Dual.all.map (fun d => (d.wordText, .dual d .word))
    ++ [Sign.wholeDivide, Sign.wholeRemainder].map (fun s => (s.text, .sign s))
    ++ Constant.every.map (fun c => (c.text, .constant c))
    ++ Keyword.all.map (fun k => (k.text, .keyword k))

/-- no word is reserved twice -/
theorem reserved_nodup : (reserved.map Prod.fst).Nodup := by decide

/-- the atom that a word is reserved for -/
def reserved? (w : String) : Option Atom := reserved.lookup w

/-- the atom of a word: what it is reserved for, or else an identifier -/
def Atom.ofWord (w : String) : Atom := (reserved? w).getD (.identifier w)

/-- the reserved words in alphabetical order -/
def reservedSorted : List (String × Atom) := reserved.mergeSort fun a b => a.1 ≤ b.1

/-! ## symbols -/

/-- the spellings of three characters -/
def symbols3 : List (String × Atom) :=
  [("<<=", .inPlace .shiftLeft), (">>=", .inPlace .shiftRight), ("??=", .inPlace .nullish),
    ("[B:", .accessor .u8), ("[b:", .accessor .s8), ("[X:", .accessor .u16),
    ("[x:", .accessor .s16), ("[I:", .accessor .u32), ("[i:", .accessor .s32),
    ("[f:", .accessor .f32), ("[d:", .accessor .f64)]

/-- the spellings of two characters -/
def symbols2 : List (String × Atom) :=
  [("[|", .accessor .list), ("[?", .accessor .map), ("[#", .accessor .grid),
    ("[@", .accessor .array), ("[$", .accessor .struct),
    ("??", .sign .nullish), ("&&", .dual .logicAnd .symbol), ("||", .dual .logicOr .symbol),
    ("^^", .dual .logicXor .symbol), ("++", .sign .increment), ("--", .sign .decrement),
    ("==", .sign .equal), ("!=", .sign .unequal), ("<>", .sign .unequal),
    ("<<", .sign .shiftLeft), (">>", .sign .shiftRight), ("<=", .sign .lessEqual),
    (">=", .sign .greaterEqual),
    ("+=", .inPlace .plus), ("-=", .inPlace .minus), ("*=", .inPlace .times),
    ("/=", .inPlace .divide), ("%=", .inPlace .remainder), ("&=", .inPlace .bitAnd),
    ("|=", .inPlace .bitOr), ("^=", .inPlace .bitXor)]

/-- the spellings of one character -/
def symbols1 : List (String × Atom) :=
  [("\x7b", .dual .openBrace .symbol), ("\x7d", .dual .closeBrace .symbol),
    ("[", .sign .leftBracket), ("]", .sign .rightBracket), ("(", .sign .leftParen),
    (")", .sign .rightParen), (",", .sign .comma), (";", .sign .semicolon), (":", .sign .colon),
    (".", .sign .dot), ("~", .sign .bitNot), ("?", .sign .question), ("=", .sign .assign),
    ("!", .dual .logicNot .symbol), ("<", .sign .less), (">", .sign .greater),
    ("+", .sign .plus), ("-", .sign .minus), ("*", .sign .times), ("/", .sign .divide),
    ("%", .sign .remainder), ("&", .sign .bitAnd), ("|", .sign .bitOr), ("^", .sign .bitXor)]

/-- every spelling made of signs, the longer ones first -/
def symbolTable : List (List Char × Atom) :=
  (symbols3 ++ symbols2 ++ symbols1).map fun (s, a) => (s.toList, a)

theorem symbolTable_sorted :
    symbolTable.Pairwise fun a b => b.1.length ≤ a.1.length := by decide

theorem symbolTable_nodup : (symbolTable.map Prod.fst).Nodup := by decide

theorem symbolTable_ne_nil : ∀ e ∈ symbolTable, e.1 ≠ [] := by decide

/-- the longest spelling that `cs` begins with, and the atom it stands for -/
def symbol? (cs : List Char) : Option (List Char × Atom) :=
  symbolTable.find? fun e => e.1.isPrefixOf cs

theorem symbol?_mem {cs : List Char} {e : List Char × Atom} (h : symbol? cs = some e) :
    e ∈ symbolTable := List.mem_of_find?_eq_some h

/-- what is found is an initial part -/
theorem symbol?_append {cs : List Char} {e : List Char × Atom} (h : symbol? cs = some e) :
    e.1 ++ cs.drop e.1.length = cs := by
  have hp : e.1 <+: cs := by simpa using List.find?_some h
  obtain ⟨t, rfl⟩ := hp
  rw [List.drop_left]

theorem symbol?_ne_nil {cs : List Char} {e : List Char × Atom} (h : symbol? cs = some e) :
    e.1 ≠ [] := symbolTable_ne_nil e (symbol?_mem h)

/-- no longer spelling fits -/
theorem symbol?_longest {cs : List Char} {e f : List Char × Atom} (h : symbol? cs = some e)
    (hf : f ∈ symbolTable) (hp : f.1 <+: cs) : f.1.length ≤ e.1.length := by
  obtain ⟨_, as, bs, hab, has⟩ := List.find?_eq_some_iff_append.mp h
  have hsorted := hab ▸ symbolTable_sorted
  rw [hab] at hf
  rcases List.mem_append.mp hf with hf | hf
  · have hno : f.1.isPrefixOf cs = false := by simpa using has f hf
    rw [← List.isPrefixOf_iff_prefix, hno] at hp
    exact absurd hp Bool.false_ne_true
  · rcases List.mem_cons.mp hf with rfl | hf
    · exact Nat.le_refl _
    · exact (List.pairwise_cons.mp (List.pairwise_append.mp hsorted).2.1).1 f hf

end ScriptLexer
