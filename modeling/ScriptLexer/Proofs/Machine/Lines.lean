import ScriptLexer.Machine.Lexemes
import ScriptLexer.Proofs.Machine.State

/-!
# Lines, comments and directives by byte offsets

What reads a word, a comment, the text of a marker, a colour or the names of a macro is compared with
the decision that the library makes at the same place.
-/

namespace ScriptLexer

open Position (after)

theorem Atom.ofWord_eq (w : String) :
    Atom.ofWord w = .identifier w ∨ ∃ e ∈ reserved, Atom.ofWord w = e.2 := by
  unfold Atom.ofWord reserved?
  cases hfind : reserved.lookup w with
  | none => exact .inl rfl
  | some x =>
    obtain ⟨l, l', hl, _⟩ := List.lookup_eq_some_iff.mp hfind
    exact .inr ⟨(w, x), by rw [hl]; simp, rfl⟩

theorem Atom.ofWord_ne_newline (w : String) : Atom.ofWord w ≠ .newline := by
  have hall : ∀ e ∈ reserved, e.2 ≠ .newline := by decide
  rcases Atom.ofWord_eq w with h | ⟨e, he, h⟩
  · rw [h]
    exact Atom.noConfusion
  · rw [h]
    exact hall e he

namespace Machine

variable {m : Machine} {ts : List Token} {a b : List Char}

/-! ## line breaks -/

theorem position_standAtBreak (hfit : byteLength (a ++ ['\n']) ≤ countLimit) :
    (m.standAtBreak ts a b).position = (after a).along ['\n'] := by
  rw [position, offset_standAtBreak hfit]
  rfl

theorem pushBreak_stand {t : List Char} (ht : '\n' ∉ t)
    (hfit : byteLength (a ++ t ++ ['\n']) ≤ countLimit) :
    pushBreak (after a) (m.standAtBreak ts (a ++ t) b) =
      .ok (m.stand (⟨.atom .newline, after a, stopOf (.atom .newline) (after a) (t ++ ['\n'])⟩ :: ts)
        (a ++ (t ++ ['\n'])) b) := by
  have hline := Position.sameLine_advance (after a) ht
  rw [Position.advance_after] at hline
  have hstop : (after (a ++ t)).along ['\n'] = stopOf (.atom .newline) (after a) (t ++ ['\n']) := by
    show (⟨byteLength (a ++ t) + byteLength ['\n'], _, _⟩ : Position)
      = ⟨byteLength a + byteLength (t ++ ['\n']), _, _⟩
    rw [hline.1, hline.2, byteLength_append, byteLength_append, Nat.add_assoc]
  have hle : (after a).offset ≤ ((after (a ++ t)).along ['\n']).offset :=
    Nat.le_trans (byteLength_le_append a t) (Nat.le_add_right _ _)
  rw [pushBreak, push, position_standAtBreak hfit, Run.token_eq hle, hstop, ← List.append_assoc]
  exact newLine_stand hfit

theorem finishLine_nil : (m.stand ts a []).finishLine = .ok (none, m.stand ts a []) := by
  rw [finishLine, eatIf_stand_neg (by simp)]
  rfl

theorem finishLine_newline (hmode : m.mode ≠ .macroBody)
    (hfit : byteLength (a ++ ['\n']) ≤ countLimit) :
    (m.stand ts a ('\n' :: b)).finishLine = .ok (none, m.stand ts (a ++ ['\n']) b) := by
  rw [finishLine, eatIf_stand_newline (by decide), Run.ok_bind]
  show (if m.mode = .macroBody then _ else _) = _
  rw [if_neg hmode, newLine_stand hfit]
  rfl

theorem finishLine_macroBody (hmode : m.mode = .macroBody) :
    (m.stand ts a ('\n' :: b)).finishLine = .ok (some .newline, m.standAtBreak ts a b) := by
  rw [finishLine, eatIf_stand_newline (by decide), Run.ok_bind]
  exact if_pos hmode

theorem continuation_settles (hfit : byteLength (a ++ '\\' :: b) ≤ countLimit) :
    m.Settles ts a (atBackslash m.scope (after a) b)
      (continuation (after a) (m.stand ts (a ++ ['\\']) b)) := by
  unfold continuation atBackslash
  show m.Settles ts a (if m.mode ≠ .macroBody then _ else _) (if m.mode = .macroBody then _ else _)
  by_cases hmode : m.mode = .macroBody
  · rw [if_pos hmode, if_neg (not_not_intro hmode)]
    split
    · rename_i rest
      have hfit' : byteLength (a ++ ['\\'] ++ ['\n']) ≤ countLimit := by
        simp only [byteLength_append, byteLength_cons, byteLength_nil] at hfit ⊢
        omega
      rw [eatIf_stand_newline (by decide)]
      exact pushBreak_stand (t := ['\\']) (by decide) hfit'
    · rename_i hbreak
      have hno : ∀ c ∈ b.head?, (c == '\n') = false := by
        intro c hc
        refine beq_eq_false_iff_ne.mpr ?_
        rintro rfl
        obtain ⟨rest, hb⟩ := List.head?_eq_some_iff.mp hc
        exact hbreak rest hb
      rw [eatIf_stand_neg hno]
      rfl
  · have hnext : (after a).offset + 1 ≤ countLimit := by
      have hsize : ('\\' : Char).utf8Size = 1 := rfl
      show byteLength a + 1 ≤ countLimit
      rw [byteLength_append, byteLength_cons, hsize] at hfit
      omega
    rw [if_neg hmode, if_pos hmode, Run.increment_eq hnext]
    rfl

/-! ## words -/

theorem identifier_settles {c : Char} (hc : isWordStart c = true)
    (hfit : byteLength (a ++ c :: b) ≤ countLimit) :
    m.Settles ts a (Lexeme.word c b) (identifier (after a) (m.stand ts a (c :: b))) := by
  have hpart := isWordPart_of_isWordStart c hc
  have hb : b.takeWhile isWordPart ++ b.dropWhile isWordPart = b := List.takeWhile_append_dropWhile
  have hfit' : byteLength (a ++ c :: b.takeWhile isWordPart) ≤ countLimit := by
    rw [← hb] at hfit
    simp only [byteLength_append, byteLength_cons] at hfit ⊢
    omega
  rw [identifier, eatWhile_stand (by decide), Run.ok_bind, List.takeWhile_cons_of_pos hpart,
    List.dropWhile_cons_of_pos hpart]
  exact settles_push (Atom.ofWord_ne_newline _) hfit'

/-! ## comments -/

theorem lineComment_settles (hfit : byteLength (a ++ '/' :: '/' :: b) ≤ countLimit) :
    m.Settles ts a (Lexeme.line b) (lineComment (after a) (m.stand ts (a ++ ['/', '/']) b)) := by
  have hb : b.takeWhile (· != '\n') ++ b.dropWhile (· != '\n') = b :=
    List.takeWhile_append_dropWhile
  have hfit' : byteLength (a ++ '/' :: '/' :: b.takeWhile (· != '\n')) ≤ countLimit := by
    rw [← hb] at hfit
    simp only [byteLength_append, byteLength_cons] at hfit ⊢
    omega
  rw [lineComment, eatLine_stand, Run.ok_bind, List.append_assoc]
  exact settles_push (by simp) hfit'

theorem blockLoop_opening {start : Position} {n depth : Nat} (hdepth : depth + 1 ≤ countLimit) :
    blockLoop start (n + 1) depth (m.stand ts a ('/' :: '*' :: b))
      = blockLoop start n (depth + 1) (m.stand ts (a ++ ['/', '*']) b) := by
  rw [blockLoop, read_stand_cons (by decide), Run.ok_bind]
  simp only [reduceIte, Char.reduceEq, eatIf_stand_pos (p := (· == '*')) (c := '*') (by decide) rfl,
    Run.ok_bind, Run.increment_eq hdepth, List.append_assoc, List.cons_append, List.nil_append]

theorem blockLoop_closing {start : Position} {n depth : Nat} :
    blockLoop start (n + 1) depth (m.stand ts a ('*' :: '/' :: b)) =
      match depth with
      | 0 => .ok (m.stand ts (a ++ ['*', '/']) b)
      | depth + 1 => blockLoop start n depth (m.stand ts (a ++ ['*', '/']) b) := by
  rw [blockLoop, read_stand_cons (by decide), Run.ok_bind]
  simp only [reduceIte, Char.reduceEq, eatIf_stand_pos (p := (· == '/')) (c := '/') (by decide) rfl,
    Run.ok_bind, List.append_assoc, List.cons_append, List.nil_append]
  cases depth with
  | zero => rfl
  | succ depth =>
    rw [if_neg (Nat.succ_ne_zero depth), Run.subtract_eq (Nat.le_add_left 1 depth), Run.ok_bind,
      Nat.add_sub_cancel]

/-- one turn of the loop in front of a character that is not part of a delimiter -/
theorem blockLoop_step {start : Position} {n depth : Nat} {c : Char}
    (hopen : c = '/' → b.head? ≠ some '*') (hclose : c = '*' → b.head? ≠ some '/')
    (hfit : byteLength (a ++ [c]) ≤ countLimit) :
    blockLoop start (n + 1) depth (m.stand ts a (c :: b))
      = blockLoop start n depth (m.stand ts (a ++ [c]) b) := by
  rw [blockLoop]
  by_cases hbreak : c = '\n'
  · subst hbreak
    simp only [read_stand_newline, Run.ok_bind, reduceIte, newLine_stand hfit]
  by_cases hslash : c = '/'
  · subst hslash
    have hno : ∀ d ∈ b.head?, (d == '*') = false := fun d hd =>
      beq_eq_false_iff_ne.mpr fun e => hopen rfl (e ▸ hd)
    simp only [read_stand_cons hbreak, Run.ok_bind, reduceIte, Char.reduceEq, eatIf_stand_neg hno,
      Bool.false_eq_true]
  by_cases hstar : c = '*'
  · subst hstar
    have hno : ∀ d ∈ b.head?, (d == '/') = false := fun d hd =>
      beq_eq_false_iff_ne.mpr fun e => hclose rfl (e ▸ hd)
    simp only [read_stand_cons hbreak, Run.ok_bind, reduceIte, Char.reduceEq, eatIf_stand_neg hno,
      Bool.false_eq_true]
  · simp only [read_stand_cons hbreak, Run.ok_bind, if_neg hbreak, if_neg hslash, if_neg hstar]

/-- the loop finds the end of the body; `done` was read before, the last character first -/
theorem blockLoop_stand (m : Machine) (ts : List Token) (start : Position) {n depth : Nat}
    (a done b : List Char) (hn : b.length < n) (hdepth : depth ≤ byteLength (a ++ done.reverse))
    (hfit : byteLength (a ++ done.reverse ++ b) ≤ countLimit) :
    blockLoop start n depth (m.stand ts (a ++ done.reverse) b) =
      match Lexeme.blockBody depth done b with
      | some (text, rest) => .ok (m.stand ts (a ++ text ++ ['*', '/']) rest)
      | none => Run.fail
          (.report .unterminatedBlockComment (after (a ++ done.reverse ++ b)) start.offset) := by
  obtain ⟨n, rfl⟩ : ∃ k, n = k + 1 := ⟨n - 1, by omega⟩
  fun_induction Lexeme.blockBody depth done b generalizing n with
  | case1 depth done =>
    rw [List.append_nil] at hfit ⊢
    rw [blockLoop, position_stand hfit, read_stand_nil]
    rfl
  | case2 depth done cs ih =>
    obtain ⟨n, rfl⟩ : ∃ k, n = k + 1 := ⟨n - 1, by simp only [List.length_cons] at hn; omega⟩
    have htext : a ++ ('*' :: '/' :: done).reverse = a ++ done.reverse ++ ['/', '*'] := by simp
    have hwhole : a ++ ('*' :: '/' :: done).reverse ++ cs = a ++ done.reverse ++ '/' :: '*' :: cs := by
      simp
    have hsize : byteLength ['/', '*'] = 2 := rfl
    have hdepth' : depth + 1 ≤ byteLength (a ++ ('*' :: '/' :: done).reverse) := by
      rw [htext, byteLength_append _ ['/', '*'], hsize]
      omega
    have hcount : depth + 1 ≤ countLimit :=
      Nat.le_trans hdepth' (Nat.le_trans (byteLength_le_append _ cs) (by rw [hwhole]; exact hfit))
    have hloop := ih hdepth' (by rw [hwhole]; exact hfit) n
      (by simp only [List.length_cons] at hn; omega)
    rw [hwhole, htext] at hloop
    rw [blockLoop_opening hcount]
    exact hloop
  | case3 done cs =>
    rw [blockLoop_closing]
  | case4 done cs depth ih =>
    obtain ⟨n, rfl⟩ : ∃ k, n = k + 1 := ⟨n - 1, by simp only [List.length_cons] at hn; omega⟩
    have htext : a ++ ('/' :: '*' :: done).reverse = a ++ done.reverse ++ ['*', '/'] := by simp
    have hwhole : a ++ ('/' :: '*' :: done).reverse ++ cs = a ++ done.reverse ++ '*' :: '/' :: cs := by
      simp
    have hdepth' : depth ≤ byteLength (a ++ ('/' :: '*' :: done).reverse) := by
      rw [htext, byteLength_append _ ['*', '/']]
      omega
    have hloop := ih hdepth' (by rw [hwhole]; exact hfit) n
      (by simp only [List.length_cons] at hn; omega)
    rw [hwhole, htext] at hloop
    rw [blockLoop_closing]
    exact hloop
  | case5 depth done c cs hopen hclose ih =>
    obtain ⟨n, rfl⟩ : ∃ k, n = k + 1 := ⟨n - 1, by simp only [List.length_cons] at hn; omega⟩
    have htext : a ++ (c :: done).reverse = a ++ done.reverse ++ [c] := by simp
    have hwhole : a ++ (c :: done).reverse ++ cs = a ++ done.reverse ++ c :: cs := by simp
    have hloop := ih (by rw [htext, byteLength_append]; omega) (by rw [hwhole]; exact hfit) n
      (by simp only [List.length_cons] at hn; omega)
    rw [hwhole, htext] at hloop
    have hfit' : byteLength (a ++ done.reverse ++ [c]) ≤ countLimit := by
      simp only [byteLength_append, byteLength_cons, byteLength_nil] at hfit ⊢
      omega
    rw [blockLoop_step ?_ ?_ hfit']
    · exact hloop
    · rintro rfl hhead
      obtain ⟨rest, rfl⟩ := List.head?_eq_some_iff.mp hhead
      exact hopen rest rfl rfl
    · rintro rfl hhead
      obtain ⟨rest, rfl⟩ := List.head?_eq_some_iff.mp hhead
      exact hclose rest rfl rfl

theorem blockComment_settles (hfit : byteLength (a ++ '/' :: '*' :: b) ≤ countLimit) :
    m.Settles ts a (Lexeme.block (after a) b)
      (blockComment (after a) (m.stand ts (a ++ ['/', '*']) b)) := by
  have hwhole : a ++ ['/', '*'] ++ b = a ++ '/' :: '*' :: b := by simp
  have hloop := blockLoop_stand m ts (after a) (a ++ ['/', '*']) [] b
    (Reader.turns_between (a ++ ['/', '*']) b) (Nat.zero_le _) (by simpa using hfit)
  simp only [List.reverse_nil, List.append_nil, hwhole] at hloop
  rw [blockComment]
  show m.Settles ts a _ (blockLoop (after a) (Reader.turns (.between (a ++ ['/', '*']) b)) 0 _ >>= _)
  rw [hloop, Lexeme.block]
  cases hbody : Lexeme.blockBody 0 [] b with
  | none =>
    show Run.fail _ = Run.fail _
    rw [Position.advance_after]
  | some split =>
    obtain ⟨text, rest⟩ := split
    have happ := Lexeme.blockBody_append 0 [] b hbody
    have htext : a ++ ['/', '*'] ++ text ++ ['*', '/'] = a ++ ('/' :: '*' :: text ++ ['*', '/']) := by
      simp
    have hfit' : byteLength (a ++ ('/' :: '*' :: text ++ ['*', '/'])) ≤ countLimit := by
      rw [List.reverse_nil, List.nil_append] at happ
      rw [← happ] at hfit
      simp only [byteLength_append, byteLength_cons, List.cons_append, byteLength_nil] at hfit ⊢
      omega
    have hslice : ((m.stand ts (a ++ ['/', '*'] ++ text ++ ['*', '/']) rest).sliceBack
        (m.stand ts (a ++ ['/', '*']) b).reader.pos 2 : Run LexError _) = .ok text :=
      sliceBack_stand rfl (a ++ ['/', '*']) text
    simp only [Run.ok_bind, hslice]
    rw [htext]
    exact settles_push (by simp) hfit'

/-! ## directives -/

theorem region_settles {atom : String → Atom} (hatom : ∀ s, atom s ≠ .newline) {lead : List Char}
    (hfit : byteLength (a ++ lead ++ b) ≤ countLimit) :
    m.Settles ts a (Lexeme.region atom lead b)
      (region (after a) atom (m.stand ts (a ++ lead) b)) := by
  have hblanks : b.takeWhile isBlank ++ b.dropWhile isBlank = b := List.takeWhile_append_dropWhile
  have hline : (b.dropWhile isBlank).takeWhile (· != '\n')
      ++ (b.dropWhile isBlank).dropWhile (· != '\n') = b.dropWhile isBlank :=
    List.takeWhile_append_dropWhile
  have htext : a ++ lead ++ b.takeWhile isBlank ++ (b.dropWhile isBlank).takeWhile (· != '\n')
      = a ++ (lead ++ b.takeWhile isBlank ++ (b.dropWhile isBlank).takeWhile (· != '\n')) := by
    simp only [List.append_assoc]
  have hfit' : byteLength (a ++ (lead ++ b.takeWhile isBlank
      ++ (b.dropWhile isBlank).takeWhile (· != '\n'))) ≤ countLimit := by
    rw [← hblanks, ← hline] at hfit
    simp only [byteLength_append] at hfit ⊢
    omega
  rw [region, eatBlanks_stand, Run.ok_bind, eatLine_stand, Run.ok_bind, htext]
  exact settles_push (hatom _) hfit'

theorem length_le_byteLength (cs : List Char) : cs.length ≤ byteLength cs := by
  induction cs with
  | nil => exact Nat.le_refl 0
  | cons c cs ih =>
    have hc := c.utf8Size_pos
    rw [List.length_cons, byteLength_cons]
    omega

theorem digitCount_le (digits : List Char) : digitCount digits ≤ byteLength digits :=
  Nat.le_trans (List.length_filter_le _ digits) (length_le_byteLength digits)

theorem colour_settles {digits : List Char} (hfit : byteLength (a ++ '#' :: digits) ≤ countLimit) :
    m.Settles ts a (Lexeme.colour (after a) digits b)
      (colour (after a) digits (m.stand ts (a ++ '#' :: digits) b)) := by
  have hcount : min (digitCount digits) countLimit = digitCount digits := by
    have hle := digitCount_le digits
    rw [byteLength_append, byteLength_cons] at hfit
    omega
  unfold colour Lexeme.colour
  simp only [hcount]
  split
  · rfl
  split
  · rfl
  cases readDigits? Base.hexadecimal.value digits with
  | none => rfl
  | some n => exact settles_push (by simp) hfit

/-! ## the header of a macro -/

theorem macroName_stand (hfit : byteLength (a ++ b) ≤ countLimit) :
    (m.stand ts a b).macroName =
      match Lexeme.macroName (after a) b with
      | .error e => Run.fail e
      | .ok (name, rest) => .ok (name, m.stand ts (a ++ name) rest) := by
  rw [macroName, position_stand (Nat.le_trans (byteLength_le_append a b) hfit), peek_stand,
    Run.ok_bind]
  cases b with
  | nil => rfl
  | cons c b =>
    rw [Lexeme.macroName]
    by_cases hbreak : c = '\n'
    · simp only [List.head?_cons, if_pos hbreak]
    by_cases hc : isWordStart c = true
    · have hpart := isWordPart_of_isWordStart c hc
      simp only [List.head?_cons, if_neg hbreak, if_pos hc, eatWhile_stand (p := isWordPart) (by decide),
        List.takeWhile_cons_of_pos hpart, List.dropWhile_cons_of_pos hpart]
    · simp only [List.head?_cons, if_neg hbreak, if_neg hc]

/-- the names in a header that the library finds -/
def Names.ofHeader (h : MacroHeader) : Names := ⟨h.name, h.configuration, h.nameStart, h.nameStop⟩

theorem names_stand (m : Machine) (ts : List Token) {lead : List Char}
    (hfit : byteLength (a ++ lead ++ b) ≤ countLimit) :
    (∃ e, Lexeme.macroHeader (after a) lead b = .fail e ∧
      (m.stand ts (a ++ lead) b).names = Run.fail e) ∨
    (∃ header rest, Lexeme.macroHeader (after a) lead b = .macroDef header rest ∧
      (m.stand ts (a ++ lead) b).names = .ok
        (.ofHeader header, m.stand ts (a ++ (header.lead ++ header.names)) rest)) := by
  have hblanks : b.takeWhile isBlank ++ b.dropWhile isBlank = b := List.takeWhile_append_dropWhile
  have hbehind : a ++ lead ++ b.takeWhile isBlank = a ++ (lead ++ b.takeWhile isBlank) :=
    List.append_assoc _ _ _
  have hwhole : byteLength (a ++ (lead ++ b.takeWhile isBlank) ++ b.dropWhile isBlank) ≤ countLimit := by
    rw [← hbehind, List.append_assoc, hblanks]
    exact hfit
  unfold Lexeme.macroHeader
  rw [names, eatBlanks_stand, Run.ok_bind, hbehind]
  simp only [Position.advance_after]
  -- `p` is the text in front of the first name
  generalize hp : a ++ (lead ++ b.takeWhile isBlank) = p at hwhole ⊢
  rw [position_stand (Nat.le_trans (byteLength_le_append _ _) hwhole), macroName_stand hwhole]
  cases hfirst : Lexeme.macroName (after p) (b.dropWhile isBlank) with
  | error e => exact .inl ⟨e, rfl, rfl⟩
  | ok split =>
    obtain ⟨first, rest⟩ := split
    rw [← Lexeme.macroName_append hfirst, ← List.append_assoc] at hwhole
    rcases eatChar_stand (c := ':') (by decide) m ts (p ++ first) rest with
      ⟨rest', rfl, htaken⟩ | ⟨hcolon, hleft⟩
    · have hcolon : p ++ first ++ [':'] = p ++ (first ++ [':']) := List.append_assoc _ _ _
      rw [List.append_cons, hcolon] at hwhole
      simp only [Run.ok_bind, htaken, hcolon, macroName_stand hwhole, reduceIte]
      cases hname : Lexeme.macroName (after (p ++ (first ++ [':']))) rest' with
      | error e => exact .inl ⟨e, rfl, rfl⟩
      | ok split =>
        obtain ⟨name, rest⟩ := split
        rw [← Lexeme.macroName_append hname, ← List.append_assoc] at hwhole
        have htext : a ++ (lead ++ b.takeWhile isBlank ++ (first ++ ':' :: name))
            = p ++ (first ++ [':']) ++ name := by
          rw [← hp]
          simp
        refine .inr ⟨_, rest, rfl, ?_⟩
        rw [htext]
        simp only [Run.ok_bind, position_stand (Nat.le_trans (byteLength_le_append _ rest) hwhole)]
        rfl
    · have htext : a ++ (lead ++ b.takeWhile isBlank ++ first) = p ++ first := by
        rw [← hp]
        simp
      refine .inr ⟨⟨String.ofList first, none, lead ++ b.takeWhile isBlank, first, after p,
        after (p ++ first)⟩, rest, ?_, ?_⟩
      · split
        · rename_i h
          cases h
        · rename_i h
          cases h
          exact (hcolon rfl).elim
        · rename_i h
          cases h
          rfl
      · rw [htext]
        simp only [Run.ok_bind, hleft, Bool.false_eq_true, reduceIte,
          position_stand (Nat.le_trans (byteLength_le_append _ rest) hwhole)]
        rfl

end Machine

end ScriptLexer
