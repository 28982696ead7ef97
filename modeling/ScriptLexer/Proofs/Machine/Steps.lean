import ScriptLexer.Proofs.Machine.Turn
import ScriptLexer.Proofs.Separators

/-!
# Turns and steps

`Agrees` relates the machine to a state of the library's scan, and `Leads` says what a turn may do:
fail as the scan of the remaining text does, end as it does, or come to a place from which the library
goes on to the same result.  A turn may be several steps of the library, because it takes the line
break behind a comment at once, and because each blank is a step.

* `Agrees.skip`, `Agrees.push`   the relation behind one more character or one more token;
* `leads_of_settles`             a turn that makes one token;
* `leads_pushLine`               a turn that makes a token up to the end of its line;
* `leads_turn`                   every turn leads on.
-/

namespace ScriptLexer

open Position (after)

/-! ## quiet atoms -/

/-- the atom neither counts as a brace nor takes the rest of its line -/
def Atom.isQuiet : Atom → Bool
  | .dual .openBrace .symbol => false
  | .dual .closeBrace .symbol => false
  | .comment .line _ => false
  | .region _ => false
  | .endRegion _ => false
  | _ => true

/-- an atom that is decided for is quiet -/
def Front.Quiet : Front → Prop
  | .atom x _ _ => x.isQuiet = true
  | _ => True

theorem Atom.isQuiet_behind {x : Atom} (h : x.isQuiet = true) : x.behind ≠ .lineEnd := by
  cases x with
  | number n =>
    rw [Atom.behind]
    split <;> simp
  | comment style text =>
    cases style with
    | line => cases h
    | block => simp [Atom.behind]
  | region text => cases h
  | endRegion text => cases h
  | _ => simp [Atom.behind]

theorem Atom.isQuiet_braceDepth {x : Atom} (h : x.isQuiet = true) (depth : Nat) :
    braceDepth depth (.atom x) = depth := by
  unfold braceDepth
  split
  · rename_i hx
    cases hx
    cases h
  · rename_i hx
    cases hx
    cases h
  · rfl

/-- what takes the rest of its line is no brace -/
theorem braceDepth_of_lineEnd {k : Kind} (h : k.behind = .lineEnd) (depth : Nat) :
    braceDepth depth k = depth := by
  unfold braceDepth
  split
  · cases h
  · cases h
  · rfl

namespace Lexeme

variable (start : Position)

theorem symbol_quiet {c : Char} (h : c ≠ '{' ∧ c ≠ '}') (cs : List Char) : (symbol c cs).Quiet := by
  have hall : ∀ e ∈ symbolTable, e.1.head? ≠ some '{' → e.1.head? ≠ some '}' → e.2.isQuiet = true := by
    decide
  unfold symbol
  split
  · rename_i spelling x hsymbol
    have hhead : spelling.head? = some c := by
      cases spelling with
      | nil => exact absurd rfl (symbol?_ne_nil hsymbol)
      | cons d t => rw [List.head?_cons, (List.cons.inj (symbol?_append hsymbol)).1]
    refine hall _ (symbol?_mem hsymbol) ?_ ?_
    · exact fun hopen => h.1 (Option.some.inj (hhead.symm.trans hopen))
    · exact fun hclose => h.2 (Option.some.inj (hhead.symm.trans hclose))
  · trivial

theorem word_quiet (c : Char) (cs : List Char) : (word c cs).Quiet := by
  have hall : ∀ e ∈ reserved, e.2.isQuiet = true := by decide
  show (Atom.ofWord (String.ofList (c :: cs.takeWhile isWordPart))).isQuiet = true
  rcases Atom.ofWord_eq (String.ofList (c :: cs.takeWhile isWordPart)) with h | ⟨e, he, h⟩
  · rw [h]
    rfl
  · rw [h]
    exact hall e he

theorem integer_quiet (base : Base) (radix : Radix) (lexeme digits rest : List Char) :
    (integer base radix start lexeme digits rest).Quiet := by
  unfold integer
  split <;> trivial

theorem inBase_quiet (base : Base) (radix : Radix) (lead cs : List Char) :
    (inBase base radix start lead cs).Quiet := by
  unfold inBase
  simp only
  split
  · trivial
  · exact integer_quiet start _ _ _ _ _

theorem decimal_quiet (c : Char) (cs : List Char) : (decimal start c cs).Quiet := by
  unfold decimal
  simp only
  split
  · rfl
  · exact integer_quiet start _ _ _ _ _

theorem numeral_quiet (c : Char) (cs : List Char) : (numeral start c cs).Quiet := by
  unfold numeral
  split
  · exact decimal_quiet start c []
  · split
    · exact inBase_quiet start _ _ _ _
    · split
      · exact inBase_quiet start _ _ _ _
      · exact decimal_quiet start c _

theorem quoted_quiet (cs : List Char) : (quoted start cs).Quiet := by
  unfold quoted
  split
  · trivial
  · trivial
  · split <;> trivial

theorem atSign_quiet (cs : List Char) : (atSign start cs).Quiet := by
  unfold atSign
  split
  · trivial
  · split
    · unfold raw
      simp only
      split <;> trivial
    · trivial

theorem dollar_quiet (cs : List Char) : (dollar start cs).Quiet := by
  unfold dollar
  split
  · trivial
  · split
    · trivial
    · split
      · exact inBase_quiet start _ _ _ _
      · trivial

theorem block_quiet (cs : List Char) : (block start cs).Quiet := by
  unfold block
  split <;> trivial

theorem point_quiet (behind : Behind) (cs : List Char) : (point behind cs).Quiet := by
  unfold point
  split
  · exact symbol_quiet (by decide) []
  · split
    · rfl
    · exact symbol_quiet (by decide) _

theorem colour_quiet (digits rest : List Char) : (colour start digits rest).Quiet := by
  unfold colour
  simp only
  split
  · trivial
  · split
    · trivial
    · split <;> trivial

end Lexeme

theorem atBackslash_quiet (scope : Scope) (start : Position) (cs : List Char) :
    (atBackslash scope start cs).Quiet := by
  unfold atBackslash
  split
  · trivial
  · split <;> trivial

theorem lexeme_quiet (behind : Behind) (start : Position) {c : Char} (hbrace : c ≠ '{' ∧ c ≠ '}')
    (hslash : c ≠ '/') (cs : List Char) : (lexeme behind start c cs).Quiet := by
  unfold lexeme
  split
  · trivial
  split
  · exact Lexeme.word_quiet c cs
  split
  · exact Lexeme.numeral_quiet start c cs
  split
  · exact Lexeme.point_quiet behind cs
  split
  · exact Lexeme.quoted_quiet start cs
  split
  · exact Lexeme.atSign_quiet start cs
  split
  · exact Lexeme.dollar_quiet start cs
  · exact Lexeme.symbol_quiet hbrace cs

namespace Machine

/-! ## the relation -/

variable {m : Machine} {depth : Nat} {st : State} {a b : List Char} {r : Run LexError Machine}

/-- the machine that stands behind `a` with the tokens of `st`, and with `depth` braces that it counts
as open, is where the library is in the state `st` -/
structure Agrees (m : Machine) (depth : Nat) (st : State) (a : List Char) : Prop where
  position : st.position = after a
  braces : m.mode = .interpolation → depth = st.depth
  /-- each of the open braces is a character of the text -/
  bound : depth ≤ byteLength a
  float : st.Recalls .float
  inMacro : m.mode = .macroBody → m.inMacro = true

theorem agrees_start (hinside : m.mode = .macroBody → m.inMacro = true) :
    Agrees m 0 (.start (after a)) a where
  position := rfl
  braces _ := rfl
  bound := Nat.zero_le _
  float := State.recalls_start (by decide) _
  inMacro := hinside

theorem Agrees.skip (h : Agrees m depth st a) (c : Char) : Agrees m depth (st.skip c) (a ++ [c]) where
  position := by
    rw [Position.after_append_singleton, ← h.position]
    rfl
  braces := h.braces
  bound := Nat.le_trans h.bound (byteLength_le_append a [c])
  float := h.float.skip (by decide) c
  inMacro := h.inMacro

theorem Agrees.skipAll (h : Agrees m depth st a) (w : List Char) :
    Agrees m depth (st.skipAll w) (a ++ w) := by
  induction w generalizing st a with
  | nil =>
    rw [List.append_nil]
    exact h
  | cons c w ih =>
    rw [List.append_cons]
    exact ih (h.skip c)

/-- one more token, behind which `depth'` braces are open -/
theorem Agrees.push (h : Agrees m depth st a) {depth' : Nat} {k : Kind} {text : List Char}
    (hdepth : m.mode = .interpolation → depth' = braceDepth st.depth k)
    (hbound : depth' ≤ byteLength (a ++ text)) : Agrees m depth' (st.push k text) (a ++ text) where
  position := by
    rw [← Position.advance_after, ← h.position]
    rfl
  braces := hdepth
  bound := hbound
  float := State.recalls_push .float st k text
  inMacro := h.inMacro

/-- what a turn may do with the text `b` in front of it -/
inductive Leads (m : Machine) (st : State) (a b : List Char) : Run LexError Next → Prop where
  | fails {e : LexError} (h : scanTokens m.scope st b = .error e) : Leads m st a b (Run.fail e)
  | ends {s : Scan} {x y : List Char} (h : scanTokens m.scope st b = .ok s)
      (hb : b = x ++ (s.exit.text ++ y)) (hcount : s.count = st.count + x.length)
      (hstop : s.stop = after (a ++ x)) (hend : s.exit = .endOfInput → y = []) :
      Leads m st a b (.ok (.exit s.exit (m.leave s.tokens.reverse (a ++ x) s.exit y)))
  | goes {st' : State} {depth : Nat} {x y : List Char}
      (h : scanTokens m.scope st b = scanTokens m.scope st' y) (hb : b = x ++ y) (hx : x ≠ [])
      (hcount : st'.count = st.count + x.length) (hagrees : Agrees m depth st' (a ++ x))
      (hline : st'.behind = .lineEnd → y = []) :
      Leads m st a b (.ok (.turn depth (m.stand st'.tokens (a ++ x) y)))

theorem leads_of_settles (h : Agrees m depth st a) {f : Front}
    (hfront : front m.scope st.depth st.behind st.position b = f) (hquiet : f.Quiet)
    (hr : m.Settles st.tokens a f r) : Leads m st a b (r >>= fun m => .ok (.turn depth m)) := by
  have htakes := front_takes m.scope st.depth st.behind st.position b
  have hstep := scanTokens_eq m.scope st b
  rw [hfront] at htakes hstep
  cases f with
  | blank c rest =>
    obtain rfl : c :: rest = b := htakes
    obtain rfl : r = .ok (m.stand st.tokens (a ++ [c]) rest) := hr
    replace hstep : scanTokens m.scope st (c :: rest) = scanTokens m.scope (st.skip c) rest := hstep
    have hline : (st.skip c).behind = .lineEnd → rest = [] := fun hb => by cases hb
    show Leads m st a (c :: rest) (.ok (.turn depth (m.stand (st.skip c).tokens (a ++ [c]) rest)))
    exact .goes hstep rfl (List.cons_ne_nil c []) rfl (h.skip c) hline
  | atom x text rest =>
    obtain ⟨rfl, hne⟩ := htakes
    obtain rfl : r = .ok (m.stand (⟨.atom x, after a, stopOf (.atom x) (after a) text⟩ :: st.tokens)
      (a ++ text) rest) := hr
    replace hstep : scanTokens m.scope st (text ++ rest)
        = scanTokens m.scope (st.push (.atom x) text) rest := hstep
    have hpush : Agrees m depth (st.push (.atom x) text) (a ++ text) := by
      refine h.push (fun hmode => ?_) (Nat.le_trans h.bound (byteLength_le_append a text))
      rw [Atom.isQuiet_braceDepth hquiet]
      exact h.braces hmode
    have hline : (st.push (.atom x) text).behind = .lineEnd → rest = [] := fun hb =>
      absurd hb (Atom.isQuiet_behind hquiet)
    rw [← h.position]
    show Leads m st a (text ++ rest) (.ok (.turn depth
      (m.stand (st.push (.atom x) text).tokens (a ++ text) rest)))
    exact .goes hstep rfl hne rfl hpush hline
  | fail e =>
    obtain rfl : r = Run.fail e := hr
    exact .fails hstep
  | template rest => exact hr.elim
  | macroDef header rest => exact hr.elim
  | exit e => exact hr.elim

/-! ## a token up to the end of its line -/

/-- behind a token that has taken its line the machine takes what ends the line, if that ends nothing
else -/
theorem leads_pushLine (h : Agrees m depth st a) {k : Kind} {text y : List Char} {e : Exit}
    (hk : k.behind = .lineEnd) (hne : text ≠ []) (hbrace : e ≠ .brace)
    (hend : e = .endOfInput → y = []) (hmode : e = .newline → m.mode ≠ .macroBody)
    (hstep : scanTokens m.scope st (text ++ (e.text ++ y))
      = scanTokens m.scope (st.push k text) (e.text ++ y)) :
    Leads m st a (text ++ (e.text ++ y)) (.ok (.turn depth
      (m.stand (⟨k, after a, stopOf k (after a) text⟩ :: st.tokens) (a ++ text ++ e.text) y))) := by
  have hpush : Agrees m depth (st.push k text) (a ++ text) := by
    refine h.push (fun hmode => ?_) (Nat.le_trans h.bound (byteLength_le_append a text))
    rw [braceDepth_of_lineEnd hk]
    exact h.braces hmode
  rw [← h.position]
  cases e with
  | brace => exact (hbrace rfl).elim
  | endOfInput =>
    rw [Exit.text, List.append_nil]
    show Leads m st a (text ++ y) (.ok (.turn depth (m.stand (st.push k text).tokens (a ++ text) y)))
    exact .goes hstep rfl hne rfl hpush fun _ => hend rfl
  | newline =>
    have hnewline : front m.scope (st.push k text).depth (st.push k text).behind
        (st.push k text).position ('\n' :: y) = .blank '\n' y := by
      have hb : (st.push k text).behind = .lineEnd := hk
      show atNewline m.scope (st.push k text).behind y = _
      exact (if_neg (hmode rfl)).trans (if_pos hb)
    have hskip : scanTokens m.scope (st.push k text) ('\n' :: y)
        = scanTokens m.scope ((st.push k text).skip '\n') y := by
      rw [scanTokens_eq, hnewline]
    have hline : ((st.push k text).skip '\n').behind = .lineEnd → y = [] := fun hb => by cases hb
    have hb : text ++ (Exit.newline.text ++ y) = text ++ ['\n'] ++ y := by simp [Exit.text]
    rw [hb, Exit.text, List.append_assoc a]
    rw [hb] at hstep
    show Leads m st a (text ++ ['\n'] ++ y) (.ok (.turn depth
      (m.stand ((st.push k text).skip '\n').tokens (a ++ (text ++ ['\n'])) y)))
    refine .goes (hstep.trans hskip) rfl (by simp) ?_ ?_ hline
    · rw [List.length_append, ← Nat.add_assoc]
      rfl
    · rw [← List.append_assoc]
      exact hpush.skip '\n'

theorem leads_endLine (h : Agrees m depth st a) {x : Atom} {text rest : List Char}
    (hfit : byteLength (a ++ b) ≤ countLimit)
    (hfront : front m.scope st.depth st.behind st.position b = .atom x text rest)
    (hx : x.behind = .lineEnd) (hrest : LineEnd rest)
    (hr : m.Settles st.tokens a (.atom x text rest) r) : Leads m st a b (r >>= endLine depth) := by
  have htakes := front_takes m.scope st.depth st.behind st.position b
  have hstep := scanTokens_eq m.scope st b
  rw [hfront] at htakes hstep
  obtain ⟨rfl, hne⟩ := htakes
  obtain rfl : r = .ok (m.stand (⟨.atom x, after a, stopOf (.atom x) (after a) text⟩ :: st.tokens)
    (a ++ text) rest) := hr
  replace hstep : scanTokens m.scope st (text ++ rest)
      = scanTokens m.scope (st.push (.atom x) text) rest := hstep
  have hk : (Kind.atom x).behind = .lineEnd := hx
  rw [Run.ok_bind, endLine]
  cases rest with
  | nil =>
    have hleads := leads_pushLine h (e := .endOfInput) (y := []) hk hne (by decide) (fun _ => rfl)
      Exit.noConfusion hstep
    simp only [Exit.text, List.append_nil] at hleads
    rw [finishLine_nil, List.append_nil]
    exact hleads
  | cons c y =>
    obtain rfl := lineEnd_cons.mp hrest
    by_cases hmode : m.mode = .macroBody
    · -- the line break ends the body
      have hexit : front m.scope (st.push (.atom x) text).depth (st.push (.atom x) text).behind
          (st.push (.atom x) text).position ('\n' :: y) = .exit .newline := if_pos hmode
      have hscan : scanTokens m.scope st (text ++ '\n' :: y)
          = .ok ((st.push (.atom x) text).finish .newline) :=
        hstep.trans (scanTokens_of_exit hexit)
      have hstop : ((st.push (.atom x) text).finish .newline).stop = after (a ++ text) := by
        rw [← Position.advance_after, ← h.position]
        rfl
      have hleads : Leads m st a (text ++ '\n' :: y) _ :=
        .ends hscan rfl rfl hstop Exit.noConfusion
      rw [State.finish, List.reverse_reverse] at hleads
      rw [finishLine_macroBody hmode, ← h.position]
      exact hleads
    · have hleads := leads_pushLine h (e := .newline) (y := y) hk hne (by decide) Exit.noConfusion
        (fun _ => hmode) hstep
      have hfit' : byteLength (a ++ text ++ ['\n']) ≤ countLimit := by
        rw [← List.append_assoc, List.append_cons] at hfit
        exact Nat.le_trans (byteLength_le_append _ y) hfit
      rw [finishLine_newline hmode hfit']
      exact hleads

theorem leads_macroDef (h : Agrees m depth st a) {header : MacroHeader} {rest : List Char}
    (hfront : front m.scope st.depth st.behind st.position b = .macroDef header rest)
    (hinside : m.inMacro = false) (hr : m.MakesMacro st.tokens a header rest r) :
    Leads m st a b (r >>= fun m => .ok (.turn depth m)) := by
  have htakes := front_takes m.scope st.depth st.behind st.position b
  have hstep := scanTokens_eq m.scope st b
  rw [hfront] at htakes hstep
  obtain ⟨hb, hne⟩ := htakes
  have hmode : m.mode ≠ .macroBody := fun hmode => by
    rw [h.inMacro hmode] at hinside
    cases hinside
  unfold MakesMacro at hr
  cases hs : scanTokens (.bodyAt header.nameStart.offset) (.start header.nameStop) rest with
  | error e =>
    simp only [hs] at hr hstep
    rw [hr]
    exact .fails hstep
  | ok s =>
    simp only [hs] at hr hstep
    obtain ⟨x, y, rfl, hcount, hbrace, hend, rfl⟩ := hr
    have hsplit : b = header.lead ++ (header.names ++ x) ++ (s.exit.text ++ y) := by
      rw [← hb]
      simp
    rw [hcount, List.take_left, List.drop_left] at hstep
    rw [hsplit] at hstep ⊢
    exact leads_pushLine h rfl (by simp [hne]) hbrace hend (fun _ => hmode) hstep

theorem leads_template (h : Agrees m depth st a) {rest : List Char}
    (hfront : front m.scope st.depth st.behind st.position b = .template rest)
    (hr : m.MakesTemplate st.tokens a rest
      (scanTemplate m.scope (after a) (.start ((after a).advance Front.templateOpening)) rest) r) :
    Leads m st a b (r >>= fun m => .ok (.turn depth m)) := by
  have htakes := front_takes m.scope st.depth st.behind st.position b
  have hstep := scanTokens_eq m.scope st b
  rw [hfront] at htakes hstep
  obtain rfl : Front.templateOpening ++ rest = b := htakes
  simp only [h.position] at hstep
  unfold MakesTemplate at hr
  cases ht : scanTemplate m.scope (after a) (.start ((after a).advance Front.templateOpening)) rest with
  | error e =>
    simp only [ht] at hr hstep
    rw [hr]
    exact .fails hstep
  | ok t =>
    simp only [ht] at hr hstep
    obtain ⟨y, rfl, rfl⟩ := hr
    have hdrop : (t.body ++ '"' :: y).drop (t.body.length + 1) = y :=
      List.drop_length_add_append 1
    have hsplit : Front.templateOpening ++ (t.body ++ '"' :: y)
        = Front.templateOpening ++ t.body ++ ['"'] ++ y := by simp
    have hpush : Agrees m depth (st.addTemplate t) (a ++ (Front.templateOpening ++ t.body ++ ['"'])) :=
      h.push h.braces (Nat.le_trans h.bound (byteLength_le_append a _))
    have hline : (st.addTemplate t).behind = .lineEnd → y = [] := fun hb => by cases hb
    rw [hdrop, hsplit] at hstep
    rw [hsplit, ← h.position]
    show Leads m st a (Front.templateOpening ++ t.body ++ ['"'] ++ y) (.ok (.turn depth
      (m.stand (st.addTemplate t).tokens (a ++ (Front.templateOpening ++ t.body ++ ['"'])) y)))
    exact .goes hstep rfl (by simp) rfl hpush hline

/-! ## the first character of a turn -/

/-- a float ends in front of the character exactly if the library remembers one -/
theorem Agrees.followsFloat_iff (h : Agrees m depth st a) (c : Char) :
    (m.stand st.tokens (a ++ [c]) b).followsFloat (after a) = true ↔ st.behind = .float := by
  have htokens : (m.stand st.tokens (a ++ [c]) b).tokens = st.tokens := rfl
  rw [h.float.behind, h.position, followsFloat, htokens]
  cases st.tokens with
  | nil => simp
  | cons t ts => simp [Kind.isFloat_iff]

/-- the library counts the same braces where they matter -/
theorem Agrees.isBareSection_iff (h : Agrees m depth st a) :
    m.scope.isBareSection st.depth = true ↔ m.mode = .interpolation ∧ depth = 0 := by
  rw [Scope.isBareSection, Bool.and_eq_true, beq_iff_eq, beq_iff_eq]
  refine and_congr_right fun hmode => ?_
  rw [h.braces hmode]

/-- a scan that ends in front of the text ends the turn there -/
theorem leads_exit (h : Agrees m depth st a) {e : Exit} {y : List Char}
    (hfront : front m.scope st.depth st.behind st.position (e.text ++ y) = .exit e)
    (hend : e = .endOfInput → y = []) :
    Leads m st a (e.text ++ y) (.ok (.exit e (m.leave st.tokens a e y))) := by
  have hstop : (st.finish e).stop = after (a ++ []) := by
    rw [List.append_nil]
    exact h.position
  have hleads : Leads m st a (e.text ++ y) _ :=
    .ends (x := []) (scanTokens_of_exit hfront) rfl rfl hstop hend
  rw [State.finish, List.reverse_reverse, List.append_nil] at hleads
  exact hleads

theorem leads_nil (h : Agrees m depth st a) :
    Leads m st a [] (if m.mode = .interpolation then
      Run.fail (.report .unclosedInterpolation (after a) m.scopeStart)
      else .ok (.exit .endOfInput (m.stand st.tokens a []))) := by
  have hstep := scanTokens_eq m.scope st []
  by_cases hmode : m.mode = .interpolation
  · have hfront : front m.scope st.depth st.behind st.position []
        = .fail (.report .unclosedInterpolation (after a) m.scopeStart) := by
      rw [h.position]
      exact if_pos hmode
    rw [hfront] at hstep
    rw [if_pos hmode]
    exact .fails hstep
  · have hfront : front m.scope st.depth st.behind st.position [] = .exit .endOfInput := if_neg hmode
    rw [if_neg hmode]
    exact leads_exit h (e := .endOfInput) hfront fun _ => rfl

theorem leads_newline (h : Agrees m depth st a) (hline : st.behind ≠ .lineEnd)
    (hfit : byteLength (a ++ '\n' :: b) ≤ countLimit) :
    Leads m st a ('\n' :: b) (if m.mode = .macroBody then
      .ok (.exit .newline (m.standAtBreak st.tokens a b))
      else pushBreak (after a) (m.standAtBreak st.tokens a b) >>= fun m => .ok (.turn depth m)) := by
  have hstep := scanTokens_eq m.scope st ('\n' :: b)
  by_cases hmode : m.mode = .macroBody
  · have hfront : front m.scope st.depth st.behind st.position ('\n' :: b) = .exit .newline :=
      if_pos hmode
    rw [if_pos hmode]
    exact leads_exit h (e := .newline) hfront Exit.noConfusion
  · have hfront : front m.scope st.depth st.behind st.position ('\n' :: b)
        = .atom .newline ['\n'] b := (if_neg hmode).trans (if_neg hline)
    have hfit' : byteLength (a ++ [] ++ ['\n']) ≤ countLimit := by
      rw [List.append_cons] at hfit
      rw [List.append_nil]
      exact Nat.le_trans (byteLength_le_append _ b) hfit
    have hpush : pushBreak (after a) (m.standAtBreak st.tokens (a ++ []) b) = _ :=
      pushBreak_stand List.not_mem_nil hfit'
    rw [List.append_nil] at hpush
    rw [if_neg hmode]
    exact leads_of_settles h hfront rfl hpush

theorem leads_quote (h : Agrees m depth st a) (hfit : byteLength (a ++ '"' :: b) ≤ countLimit) :
    Leads m st a ('"' :: b) (if m.mode = .interpolation ∧ depth = 0 then
      Run.fail (.report .quoteInInterpolation (after a) m.scopeStart)
      else quotedString (after a) (m.stand st.tokens (a ++ ['"']) b)
        >>= fun m => .ok (.turn depth m)) := by
  have hstep := scanTokens_eq m.scope st ('"' :: b)
  by_cases hbare : m.mode = .interpolation ∧ depth = 0
  · have hfront : front m.scope st.depth st.behind st.position ('"' :: b)
        = .fail (.report .quoteInInterpolation (after a) m.scopeStart) := by
      rw [h.position]
      exact if_pos ⟨rfl, h.isBareSection_iff.mpr hbare⟩
    rw [hfront] at hstep
    rw [if_pos hbare]
    exact .fails hstep
  · have hfront : front m.scope st.depth st.behind st.position ('"' :: b)
        = Lexeme.quoted (after a) b := by
      rw [h.position]
      exact if_neg fun e => hbare (h.isBareSection_iff.mp e.2)
    rw [if_neg hbare]
    exact leads_of_settles h hfront (Lexeme.quoted_quiet _ b) (quotedString_settles hfit)

theorem leads_dollar {scan : Scanner} {n : Nat} (hscan : Scans scan n) (h : Agrees m depth st a)
    (hb : b.length < n) (hfit : byteLength (a ++ '$' :: b) ≤ countLimit) :
    Leads m st a ('$' :: b) (dollar scan (after a) (m.stand st.tokens (a ++ ['$']) b)
      >>= fun m => .ok (.turn depth m)) := by
  have hfront : front m.scope st.depth st.behind st.position ('$' :: b) = Lexeme.dollar (after a) b := by
    rw [h.position]
    rfl
  rw [dollar]
  simp only [perform_run, settle_run]
  cases b with
  | nil =>
    rw [eatIf_stand_neg (by simp)]
    simp only [Run.ok_bind, Bool.false_eq_true, reduceIte, peek_stand]
    exact leads_of_settles h hfront trivial rfl
  | cons c cs =>
    rw [Lexeme.dollar] at hfront
    by_cases hquote : c = '"'
    · subst hquote
      have hopening : a ++ ['$'] ++ ['"'] = a ++ Front.templateOpening := by simp [Front.templateOpening]
      have hwhole : a ++ Front.templateOpening ++ cs = a ++ '$' :: '"' :: cs := by
        simp [Front.templateOpening]
      rw [if_pos rfl] at hfront
      rw [eatIf_stand_pos (by decide) rfl, Run.ok_bind, hopening]
      refine leads_template h hfront (templateLiteral_stand hscan m st.tokens ?_ ?_)
      · exact Nat.lt_of_succ_lt hb
      · rw [hwhole]
        exact hfit
    · rw [if_neg hquote] at hfront
      rw [eatIf_stand_neg (by simpa using hquote)]
      simp only [Run.ok_bind, Bool.false_eq_true, reduceIte, peek_stand, List.head?_cons,
        Option.any_some]
      by_cases hhex : isHexPart c = true
      · have hwhole : a ++ ['$'] ++ c :: cs = a ++ '$' :: c :: cs := by simp
        rw [if_pos hhex] at hfront ⊢
        exact leads_of_settles h hfront (Lexeme.inBase_quiet _ _ _ _ _)
          (radixNumber_settles .hexadecimal .hex ['$'] (by rw [hwhole]; exact hfit))
      · rw [if_neg hhex] at hfront ⊢
        exact leads_of_settles h hfront trivial rfl

theorem leads_directive {scan : Scanner} {n : Nat} (hscan : Scans scan n) (h : Agrees m depth st a)
    (hb : b.length < n) (hfit : byteLength (a ++ '#' :: b) ≤ countLimit) :
    Leads m st a ('#' :: b) (directive scan depth (after a) (m.stand st.tokens (a ++ ['#']) b)) := by
  have hfront : front m.scope st.depth st.behind st.position ('#' :: b)
      = Lexeme.directive m.scope (after a) b := by
    rw [h.position]
    rfl
  have hsplit : b.takeWhile isWordPart ++ b.dropWhile isWordPart = b := List.takeWhile_append_dropWhile
  have hlead : a ++ ['#'] ++ b.takeWhile isWordPart = a ++ '#' :: b.takeWhile isWordPart := by simp
  have hfit' :
      byteLength (a ++ '#' :: b.takeWhile isWordPart ++ b.dropWhile isWordPart) ≤ countLimit := by
    rw [List.append_assoc, List.cons_append, hsplit]
    exact hfit
  have hb' : ('#' :: b.takeWhile isWordPart ++ b.dropWhile isWordPart).length ≤ n := by
    rw [List.cons_append, hsplit]
    exact hb
  rw [directive]
  simp only [perform_run, settle_run]
  rw [eatWhile_stand (by decide), Run.ok_bind, hlead]
  unfold Lexeme.directive at hfront
  simp only at hfront ⊢
  generalize b.takeWhile isWordPart = word at hfront hfit' hb' ⊢
  generalize b.dropWhile isWordPart = rest at hfront hfit' hb' ⊢
  by_cases hregion : word = "region".toList
  · rw [if_pos hregion] at hfront ⊢
    exact leads_endLine h hfit hfront rfl (lineEnd_of_dropWhile rfl)
      (region_settles (fun _ => by simp) hfit')
  rw [if_neg hregion] at hfront ⊢
  by_cases hendRegion : word = "endregion".toList
  · rw [if_pos hendRegion] at hfront ⊢
    exact leads_endLine h hfit hfront rfl (lineEnd_of_dropWhile rfl)
      (region_settles (fun _ => by simp) hfit')
  rw [if_neg hendRegion] at hfront ⊢
  by_cases hdefine : word = "macro".toList
  · rw [if_pos hdefine] at hfront ⊢
    by_cases hin : m.inMacro = true
    · have hnested : front m.scope st.depth st.behind st.position ('#' :: b)
          = .fail (.report .nestedMacro (after a) m.scopeStart) := hfront.trans (if_pos hin)
      have hfails : macroDirective scan (after a) (m.stand st.tokens (a ++ '#' :: word) rest)
          = Run.fail (.report .nestedMacro (after a) m.scopeStart) := if_pos hin
      exact leads_of_settles h hnested trivial hfails
    · replace hfront := hfront.trans (if_neg hin)
      rcases macroDirective_stand hscan st.tokens (Bool.eq_false_iff.mpr hin)
        (List.cons_ne_nil '#' word) hb' hfit' with ⟨e, hheader, hr⟩ | ⟨header, body, hheader, hr⟩
      · exact leads_of_settles h (hfront.trans hheader) trivial hr
      · exact leads_macroDef h (hfront.trans hheader) (Bool.eq_false_iff.mpr hin) hr
  rw [if_neg hdefine] at hfront ⊢
  by_cases hcolour : word.all isHexPart = true
  · rw [if_pos hcolour] at hfront ⊢
    exact leads_of_settles h hfront (Lexeme.colour_quiet _ _ _)
      (colour_settles (Nat.le_trans (byteLength_le_append _ rest) hfit'))
  rw [if_neg hcolour] at hfront ⊢
  have hstep := scanTokens_eq m.scope st ('#' :: b)
  rw [hfront] at hstep
  exact .fails hstep

/-- a sign that is the only one with its first character, and that may count as a brace -/
theorem leads_brace (h : Agrees m depth st a) {c : Char} {x : Atom} {depth' : Nat}
    (hc : endings c = [([], x)]) (hx : x.behind ≠ .lineEnd)
    (hfront : front m.scope st.depth st.behind st.position (c :: b) = Lexeme.symbol c b)
    (hdepth : m.mode = .interpolation → depth' = braceDepth st.depth (.atom x))
    (hbound : depth' ≤ byteLength (a ++ [c])) (hfit : byteLength (a ++ c :: b) ≤ countLimit) :
    Leads m st a (c :: b) ((m.stand st.tokens (a ++ [c]) b).push (.atom x) (after a)
      >>= fun m => .ok (.turn depth' m)) := by
  have hsymbol : Lexeme.symbol c b = .atom x [c] b := symbol_eq (t := []) (by rw [hc]; rfl)
  have hsingle : m.Settles st.tokens a _ _ := single_settles hc hfit
  have hstep := scanTokens_eq m.scope st (c :: b)
  rw [hsymbol] at hfront hsingle
  rw [hfront] at hstep
  have hline : (st.push (.atom x) [c]).behind = .lineEnd → b = [] := fun hb => absurd hb hx
  have hleads : Leads m st a (c :: b) (.ok (.turn depth' _)) :=
    .goes (x := [c]) hstep rfl (List.cons_ne_nil c []) rfl (h.push hdepth hbound) hline
  rw [show (m.stand st.tokens (a ++ [c]) b).push (.atom x) (after a) = _ from hsingle, Run.ok_bind,
    ← h.position]
  exact hleads

theorem leads_openBrace (h : Agrees m depth st a) (hfit : byteLength (a ++ '{' :: b) ≤ countLimit) :
    Leads m st a ('{' :: b) (openBrace depth (after a) (m.stand st.tokens (a ++ ['{']) b)) := by
  have hsize : byteLength (a ++ ['{']) = byteLength a + 1 := byteLength_append a ['{']
  have hbound := h.bound
  have hcount : depth + 1 ≤ countLimit := by
    rw [List.append_cons] at hfit
    have hle := Nat.le_trans (byteLength_le_append _ b) hfit
    omega
  have hfront : front m.scope st.depth st.behind st.position ('{' :: b) = Lexeme.symbol '{' b := rfl
  rw [openBrace]
  show Leads m st a _ (if m.mode = .interpolation then _ else _)
  by_cases hmode : m.mode = .interpolation
  · rw [if_pos hmode, Run.increment_eq hcount, Run.ok_bind]
    refine leads_brace h (by decide) (by decide) hfront (fun _ => ?_) (by omega) hfit
    rw [h.braces hmode]
    rfl
  · rw [if_neg hmode]
    exact leads_brace h (by decide) (by decide) hfront (fun e => (hmode e).elim) (by omega) hfit

theorem leads_closeBrace (h : Agrees m depth st a) (hfit : byteLength (a ++ '}' :: b) ≤ countLimit) :
    Leads m st a ('}' :: b) (closeBrace depth (after a) (m.stand st.tokens (a ++ ['}']) b)) := by
  have hsize : byteLength (a ++ ['}']) = byteLength a + 1 := byteLength_append a ['}']
  have hbound := h.bound
  rw [closeBrace]
  show Leads m st a _ (if m.mode = .interpolation ∧ depth = 0 then _ else _)
  by_cases hbare : m.mode = .interpolation ∧ depth = 0
  · have hfront : front m.scope st.depth st.behind st.position ('}' :: b) = .exit .brace :=
      if_pos ⟨rfl, h.isBareSection_iff.mpr hbare⟩
    rw [if_pos hbare]
    exact leads_exit h (e := .brace) hfront Exit.noConfusion
  · have hfront : front m.scope st.depth st.behind st.position ('}' :: b) = Lexeme.symbol '}' b :=
      if_neg fun e => hbare (h.isBareSection_iff.mp e.2)
    rw [if_neg hbare]
    show Leads m st a _ (if m.mode = .interpolation then _ else _)
    by_cases hmode : m.mode = .interpolation
    · have hpos : 1 ≤ depth := Nat.pos_of_ne_zero fun e => hbare ⟨hmode, e⟩
      rw [if_pos hmode, Run.subtract_eq hpos, Run.ok_bind]
      refine leads_brace h (by decide) (by decide) hfront (fun _ => ?_) (by omega) hfit
      rw [h.braces hmode]
      rfl
    · rw [if_neg hmode]
      exact leads_brace h (by decide) (by decide) hfront (fun e => (hmode e).elim) (by omega) hfit

theorem leads_slash (h : Agrees m depth st a) (hfit : byteLength (a ++ '/' :: b) ≤ countLimit) :
    Leads m st a ('/' :: b) (slash depth (after a) (m.stand st.tokens (a ++ ['/']) b)) := by
  have hsign : endings '/' = [(['='], .inPlace .divide), ([], .sign .divide)] := by decide
  have hoperator : m.Settles st.tokens a (Lexeme.symbol '/' b)
      (operator (after a) .divide (.sign .divide) (m.stand st.tokens (a ++ ['/']) b)) :=
    joined_settles hsign (by decide) hfit
  have hquiet : (Lexeme.symbol '/' b).Quiet := Lexeme.symbol_quiet (by decide) b
  have hfront : front m.scope st.depth st.behind st.position ('/' :: b) = Lexeme.slash (after a) b := by
    rw [h.position]
    rfl
  rw [slash]
  cases b with
  | nil =>
    rw [eatIf_stand_neg (by simp)]
    simp only [Run.ok_bind, Bool.false_eq_true, reduceIte]
    rw [eatIf_stand_neg (by simp)]
    exact leads_of_settles h hfront hquiet hoperator
  | cons c cs =>
    rw [Lexeme.slash] at hfront
    by_cases hline : c = '/'
    · subst hline
      rw [if_pos rfl] at hfront
      rw [eatIf_stand_pos (by decide) rfl, Run.ok_bind, List.append_assoc]
      exact leads_endLine h hfit hfront rfl (lineEnd_of_dropWhile rfl) (lineComment_settles hfit)
    rw [if_neg hline] at hfront
    rw [eatIf_stand_neg (by simpa using hline)]
    simp only [Run.ok_bind, Bool.false_eq_true, reduceIte]
    by_cases hblock : c = '*'
    · subst hblock
      rw [if_pos rfl] at hfront
      rw [eatIf_stand_pos (by decide) rfl, Run.ok_bind, List.append_assoc]
      exact leads_of_settles h hfront (Lexeme.block_quiet _ cs) (blockComment_settles hfit)
    rw [if_neg hblock] at hfront
    rw [eatIf_stand_neg (by simpa using hblock)]
    exact leads_of_settles h hfront hquiet hoperator

theorem leads_act {scan : Scanner} {n : Nat} (hscan : Scans scan n) (h : Agrees m depth st a) {c : Char}
    (hblank : isBlank c = false) (hbreak : c ≠ '\n') (hb : b.length < n)
    (hfit : byteLength (a ++ c :: b) ≤ countLimit) :
    Leads m st a (c :: b) (act scan depth (after a) c (m.stand st.tokens (a ++ [c]) b)) := by
  unfold act
  simp only [perform_run, settle_run]
  by_cases hslash : c = '\\'
  · subst hslash
    have hfront : front m.scope st.depth st.behind st.position ('\\' :: b)
        = atBackslash m.scope (after a) b := by
      rw [h.position]
      rfl
    exact leads_of_settles h hfront (atBackslash_quiet _ _ _) (continuation_settles hfit)
  rw [if_neg hslash]
  by_cases hquote : c = '"'
  · subst hquote
    exact leads_quote h hfit
  rw [if_neg hquote]
  by_cases hdollar : c = '$'
  · subst hdollar
    exact leads_dollar hscan h hb hfit
  rw [if_neg hdollar]
  by_cases hhash : c = '#'
  · subst hhash
    exact leads_directive hscan h hb hfit
  rw [if_neg hhash]
  by_cases hopen : c = '{'
  · subst hopen
    exact leads_openBrace h hfit
  rw [if_neg hopen]
  by_cases hclose : c = '}'
  · subst hclose
    exact leads_closeBrace h hfit
  rw [if_neg hclose]
  by_cases hdivide : c = '/'
  · subst hdivide
    exact leads_slash h hfit
  rw [if_neg hdivide]
  have hfront : front m.scope st.depth st.behind st.position (c :: b)
      = ScriptLexer.lexeme st.behind (after a) c b := by
    rw [front, if_neg hbreak, if_neg hslash, if_neg fun e => hquote e.1, if_neg fun e => hclose e.1,
      if_neg hhash, h.position]
  exact leads_of_settles h hfront (lexeme_quiet _ _ ⟨hopen, hclose⟩ hdivide b)
    (lexeme_settles m hblank hquote hdollar hdivide ⟨hopen, hclose⟩ hbreak (h.followsFloat_iff c) hfit)

/-! ## the whole turn -/

/-- blanks lead to the same -/
theorem Leads.of_blanks {w : List Char} (hw : ∀ c ∈ w, isBlank c = true) {r : Run LexError Next}
    (h : Leads m (st.skipAll w) (a ++ w) b r) : Leads m st a (w ++ b) r := by
  have hblanks := scanTokens_blanks m.scope st hw b
  cases h with
  | fails h => exact .fails (hblanks.trans h)
  | @ends s x y h hb hcount hstop hend =>
    rw [List.append_assoc] at hstop ⊢
    refine .ends (hblanks.trans h) (by rw [hb, List.append_assoc]) ?_ hstop hend
    rw [hcount, State.skipAll_count, List.length_append, Nat.add_assoc]
  | @goes st' depth x y h hb hx hcount hagrees hline =>
    rw [List.append_assoc] at hagrees ⊢
    refine .goes (hblanks.trans h) (by rw [hb, List.append_assoc]) (by simp [hx]) ?_ hagrees hline
    rw [hcount, State.skipAll_count, List.length_append, Nat.add_assoc]

theorem leads_turn {scan : Scanner} {n : Nat} (hscan : Scans scan n) (h : Agrees m depth st a)
    (hline : st.behind = .lineEnd → b = []) (hb : b.length ≤ n)
    (hfit : byteLength (a ++ b) ≤ countLimit) :
    Leads m st a b (turn scan depth (m.stand st.tokens a b)) := by
  have hsplit : b.takeWhile isBlank ++ b.dropWhile isBlank = b := List.takeWhile_append_dropWhile
  have hw : ∀ c ∈ b.takeWhile isBlank, isBlank c = true := fun c hc => List.mem_takeWhile_imp hc
  have hrest := dropWhile_stops isBlank b
  have hblanks : (m.stand st.tokens a b).eatBlanks = _ := eatBlanks_stand b
  generalize b.takeWhile isBlank = w at hsplit hw hblanks
  generalize b.dropWhile isBlank = rest at hsplit hrest hblanks
  subst hsplit
  have hskip := h.skipAll w
  have hbehind : (st.skipAll w).behind = .lineEnd → rest = [] := by
    intro hb
    cases w with
    | nil => exact hline hb
    | cons c w =>
      rw [st.skipAll_behind (List.cons_ne_nil c w)] at hb
      cases hb
  rw [← List.append_assoc] at hfit
  refine Leads.of_blanks hw ?_
  rw [turn]
  simp only [perform_run, settle_run]
  rw [hblanks, Run.ok_bind, position_stand (Nat.le_trans (byteLength_le_append _ rest) hfit),
    ← st.skipAll_tokens w]
  cases rest with
  | nil =>
    rw [read_stand_nil]
    exact leads_nil hskip
  | cons c cs =>
    by_cases hbreak : c = '\n'
    · subst hbreak
      have hne : (st.skipAll w).behind ≠ .lineEnd := fun hb => by cases hbehind hb
      rw [read_stand_newline]
      exact leads_newline hskip hne hfit
    · have hshort : cs.length < n := by
        rw [List.length_append, List.length_cons] at hb
        omega
      rw [read_stand_cons hbreak, Run.ok_bind]
      simp only [if_neg hbreak]
      exact leads_act hscan hskip (hrest c rfl) hbreak hshort hfit

end Machine

end ScriptLexer
