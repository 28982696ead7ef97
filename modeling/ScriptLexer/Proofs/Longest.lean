import ScriptLexer.Proofs.Payloads

/-!
# Operators are longest matches

A token that is made of signs has the longest spelling that fits where it stands.  What is meant by a
spelling is said without the table that a scan looks into: `operators` takes it from the kinds
themselves, sign by sign, operator by operator and marker by marker, and `operators_perm` says that
this is that table, but for the point.  The openings of comments count as well (`commentOpenings`): a
slash in front of another one is no operator.

The point is left out because it may begin a number.  The characters that begin other operators begin
nothing else, but for the slash (`front_operator`).

`scan_longest` says so of every token of a tree.
-/

namespace ScriptLexer

open Position (after)

/-! ## the spellings -/

/-- the signs with a spelling of their own, but for the point -/
def punctuation : List Sign :=
  [.leftBracket, .rightBracket, .leftParen, .rightParen, .comma, .semicolon, .colon, .bitNot,
    .question, .nullish, .bitAnd, .bitOr, .bitXor, .plus, .increment, .minus, .decrement, .times,
    .divide, .remainder, .assign, .equal, .unequal, .less, .shiftLeft, .lessEqual, .greater,
    .shiftRight, .greaterEqual]

/-- the spellings made of signs with the atoms they stand for, but for the point -/
def operators : List (List Char × Atom) :=
  punctuation.map (fun s => (s.text.toList, .sign s))
    ++ [("<>".toList, .sign .unequal)]
    ++ Dual.all.map (fun d => (d.symbolText.toList, .dual d .symbol))
    ++ InPlaceOp.all.map (fun op => ((op.text ++ "=").toList, .inPlace op))
    ++ Accessor.all.map (fun a => (("[" ++ a.marker).toList, .accessor a))

example : operators.map (fun e => String.ofList e.1) =
    ["[", "]", "(", ")", ",", ";", ":", "~", "?", "??", "&", "|", "^", "+", "++", "-", "--", "*",
      "/", "%", "=", "==", "!=", "<", "<<", "<=", ">", ">>", ">=", "<>", "\x7b", "\x7d", "!", "&&",
      "||", "^^", "+=", "-=", "*=", "/=", "%=", "&=", "|=", "^=", "<<=", ">>=", "??=", "[B:", "[b:",
      "[X:", "[x:", "[I:", "[i:", "[f:", "[d:", "[|", "[?", "[#", "[@", "[$"] := by decide +kernel

/-- what opens a comment -/
def commentOpenings : List (List Char) := ["//".toList, "/*".toList]

/-- without the point, these are the spellings that a scan knows -/
theorem operators_perm : operators.Perm (symbolTable.filter fun e => e.2 ≠ .sign .dot) := by
  decide +kernel

theorem mem_operators {e : List Char × Atom} :
    e ∈ operators ↔ e ∈ symbolTable ∧ e.2 ≠ .sign .dot := by
  rw [operators_perm.mem_iff, List.mem_filter, decide_eq_true_eq]

theorem operators_unique {x : List Char} {a b : Atom} (ha : (x, a) ∈ operators)
    (hb : (x, b) ∈ operators) : b = a := by
  have heq := List.inj_on_of_nodup_map symbolTable_nodup (mem_operators.mp hb).1
    (mem_operators.mp ha).1 rfl
  exact (Prod.mk.inj heq).2

/-- the text begins with `x`, and no spelling or opening of a comment that it begins with is longer -/
structure IsLongest (x cs : List Char) : Prop where
  fits : x <+: cs
  longest : ∀ y ∈ operators.map Prod.fst ++ commentOpenings, y <+: cs → y.length ≤ x.length

/-! ## one lexeme -/

/-- the characters that an operator may begin with -/
def operatorStarts : List Char :=
  ['[', ']', '(', ')', ',', ';', ':', '~', '?', '&', '|', '^', '+', '-', '*', '/', '%', '=', '!', '<',
    '>', '{', '}']

/-- the characters that begin something else, neither a word nor a number -/
def otherStarts : List Char := ['\n', '\\', '"', '#', '.', '@', '$']

theorem operators_head {e : List Char × Atom} (he : e ∈ operators) :
    ∀ c ∈ e.1.head?, c ∈ operatorStarts := by
  have hall : (operators.all fun e => e.1.head?.all operatorStarts.contains) = true := by
    decide +kernel
  intro c hc
  have hstart := List.all_eq_true.mp hall e he
  rw [Option.mem_def.mp hc] at hstart
  simpa using hstart

theorem operatorStarts_other {c : Char} (h : c ∈ operatorStarts) : isBlank c = false ∧
    isWordStart c = false ∧ c.isDigit = false ∧ c ∉ otherStarts := by
  have hall : (operatorStarts.all fun c =>
      !isBlank c && !isWordStart c && !c.isDigit && !otherStarts.contains c) = true := by
    decide +kernel
  have hc := List.all_eq_true.mp hall c h
  simp only [Bool.and_eq_true, Bool.not_eq_true', List.contains_eq_mem, decide_eq_false_iff_not]
    at hc
  exact ⟨hc.1.1.1, hc.1.1.2, hc.1.2, hc.2⟩

theorem front_operator {scope : Scope} {depth : Nat} {behind : Behind} {start : Position} {c : Char}
    {cs : List Char} (hc : c ∈ operatorStarts) :
    front scope depth behind start (c :: cs) =
      if c = '}' ∧ scope.isBareSection depth then .exit .brace
      else if c = '/' then Lexeme.slash start cs else Lexeme.symbol c cs := by
  obtain ⟨hblank, hword, hdigit, hother⟩ := operatorStarts_other hc
  simp only [otherStarts, List.mem_cons, List.not_mem_nil, or_false, not_or] at hother
  simp only [front, lexeme, hother, hblank, hword, hdigit, if_false, false_and, Bool.false_eq_true]

namespace Lexeme

theorem symbol_atom {c : Char} {cs x rest : List Char} {a : Atom}
    (h : symbol c cs = .atom a x rest) : symbol? (c :: cs) = some (x, a) := by
  unfold symbol at h
  split at h
  · rename_i spelling b hsymbol
    obtain ⟨rfl, rfl, _⟩ := Front.atom.inj h
    exact hsymbol
  · cases h

theorem slash_symbol {start : Position} {cs x rest : List Char} {a : Atom}
    (h : slash start cs = .atom a x rest) (ha : a.isSymbol = true) :
    symbol '/' cs = .atom a x rest ∧ ∀ o ∈ commentOpenings, ¬o <+: '/' :: cs := by
  have hopening : ∀ o ∈ commentOpenings, o = ['/', '/'] ∨ o = ['/', '*'] := by decide
  unfold slash at h
  split at h
  · refine ⟨h, fun o ho hprefix => ?_⟩
    rcases hopening o ho with rfl | rfl <;> simp at hprefix
  · rename_i c cs
    split at h
    · cases h
      cases ha
    · rename_i hslash
      split at h
      · unfold block at h
        split at h
        · cases h
          cases ha
        · cases h
      · rename_i hstar
        refine ⟨h, fun o ho hprefix => ?_⟩
        rcases hopening o ho with rfl | rfl
        · simp [List.cons_prefix_cons, Ne.symm hslash] at hprefix
        · simp [List.cons_prefix_cons, Ne.symm hstar] at hprefix

end Lexeme

theorem Atom.SpelledBy.mem_symbolTable {x rest : List Char} {a : Atom} (h : a.SpelledBy x rest)
    (ha : a.isSymbol = true) : (x, a) ∈ symbolTable := by
  cases a with
  | sign s =>
    have hword : ¬s.isWord = true := by simpa [Atom.isSymbol] using ha
    rw [Atom.SpelledBy, if_neg hword] at h
    exact h
  | dual d spelling =>
    cases spelling with
    | symbol => exact h
    | word => cases ha
  | inPlace op => exact h
  | accessor a => exact h
  | _ => cases ha

theorem front_symbol {scope : Scope} {depth : Nat} {behind : Behind} {start : Position} {c : Char}
    {cs x rest : List Char} {a : Atom} (ha : a.isSymbol = true) (hmem : (c :: x, a) ∈ operators)
    (h : front scope depth behind start (c :: cs) = .atom a (c :: x) rest) :
    symbol? (c :: cs) = some (c :: x, a) ∧ ∀ o ∈ commentOpenings, ¬o <+: c :: cs := by
  rw [front_operator (operators_head hmem c rfl)] at h
  split at h
  · cases h
  split at h
  · rename_i hslash
    subst hslash
    obtain ⟨hsymbol, hcomment⟩ := Lexeme.slash_symbol h ha
    exact ⟨Lexeme.symbol_atom hsymbol, hcomment⟩
  · rename_i hslash
    have hopening : ∀ o ∈ commentOpenings, o.head? = some '/' := by decide
    refine ⟨Lexeme.symbol_atom h, fun o ho hprefix => hslash ?_⟩
    obtain ⟨o, rfl⟩ := List.head?_eq_some_iff.mp (hopening o ho)
    exact (List.cons_prefix_cons.mp hprefix).1.symm

/-- an operator is the longest spelling at the front of the text -/
theorem front_longest {scope : Scope} {depth : Nat} {behind : Behind} {start : Position}
    {cs x rest : List Char} {a : Atom} (h : front scope depth behind start cs = .atom a x rest)
    (ha : a.isSymbol = true) (hdot : a ≠ .sign .dot) : (x, a) ∈ operators ∧ IsLongest x cs := by
  have htakes := front_takes scope depth behind start cs
  have hspells := front_spells scope depth behind start cs
  rw [h] at htakes hspells
  have hmem : (x, a) ∈ operators :=
    mem_operators.mpr ⟨Atom.SpelledBy.mem_symbolTable hspells ha, hdot⟩
  obtain ⟨rfl, hne⟩ := htakes
  obtain ⟨c, x, rfl⟩ := List.exists_cons_of_ne_nil hne
  obtain ⟨hsymbol, hcomment⟩ := front_symbol ha hmem h
  refine ⟨hmem, List.prefix_append _ _, fun y hy hprefix => ?_⟩
  rcases List.mem_append.mp hy with hy | hy
  · obtain ⟨f, hf, rfl⟩ := List.mem_map.mp hy
    exact symbol?_longest hsymbol (mem_operators.mp hf).1 hprefix
  · exact absurd hprefix (hcomment y hy)

/-! ## the tokens of a tree -/

/-- Operators are longest matches: the text of a token that is made of signs, and not the point, is
the longest spelling that the source goes on with where the token begins, and its kind is the one that
the spelling stands for. -/
theorem scan_longest {source : String} {mode : Mode} {ts : List Token}
    (h : scan source mode = .ok ts) {t : Token} (ht : Occurs t ts) {a : Atom}
    (hk : t.kind = .atom a) (ha : a.isSymbol = true) (hdot : a ≠ .sign .dot) :
    ∃ pre rest x, source.toList = pre ++ rest ∧ t.start = after pre ∧
      t.text? source.toList = some x ∧ IsLongest x rest ∧ ∀ b, (x, b) ∈ operators ↔ b = a := by
  cases scan_arises h ht with
  | template _ _ _ => cases hk
  | macroDef _ _ _ _ => cases hk
  | @atom scope depth behind pre text rest b hsource hfront =>
    cases hk
    obtain ⟨hmem, hlongest⟩ := front_longest hfront ha hdot
    refine ⟨pre, text ++ rest, text, by rw [hsource, List.append_assoc], rfl, ?_, hlongest,
      fun b => ⟨operators_unique hmem, ?_⟩⟩
    · rw [hsource]
      exact Located.text?_append rfl rfl rest
    · rintro rfl
      exact hmem

/-- three of the four signs in a macro body are one operator, though two of them are an operator, and so
are the last two -/
theorem scan_longest_shiftLeft :
    ∃ ts t, scan "#macro m <<=>" = .ok ts ∧ Occurs t ts ∧ t.kind = .atom (.inPlace .shiftLeft) ∧
      ∃ pre rest x, "#macro m <<=>".toList = pre ++ rest ∧ t.start = after pre ∧
        t.text? "#macro m <<=>".toList = some x ∧ IsLongest x rest ∧
        ∀ b, (x, b) ∈ operators ↔ b = .inPlace .shiftLeft := by
  refine ⟨[⟨.macroDef ⟨"m", none, "m <<=>", ⟨7, 0, 0⟩, ⟨8, 0, 0⟩,
      [⟨.atom (.inPlace .shiftLeft), ⟨9, 0, 0⟩, ⟨12, 0, 0⟩⟩,
        ⟨.atom (.sign .greater), ⟨12, 0, 0⟩, ⟨13, 0, 0⟩⟩]⟩, ⟨0, 0, 0⟩, ⟨13, 0, 0⟩⟩],
    ⟨.atom (.inPlace .shiftLeft), ⟨9, 0, 0⟩, ⟨12, 0, 0⟩⟩, ?h, ?ht, rfl,
    scan_longest ?h ?ht rfl rfl (by decide)⟩
  case h => decide +kernel
  case ht => exact .inside List.mem_cons_self List.mem_cons_self (.here List.mem_cons_self)

end ScriptLexer
