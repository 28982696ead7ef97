import ScriptLexer.Machine.Lexemes
import ScriptLexer.Proofs.Machine.Escapes
import ScriptLexer.Proofs.Machine.State

/-!
# Literals by byte offsets

The bodies of strings and numbers are slices of the source, and what reads them decides as the library
does:

* `quotedString`, `rawString`      compared with `Lexeme.quoted` and `Lexeme.raw`;
* `decimalNumber`, `radixNumber`   compared with `Lexeme.decimal`, `Lexeme.float` and `Lexeme.inBase`.
-/

namespace ScriptLexer

open Position (after)

namespace Machine

variable {m : Machine} {ts : List Token} {a b : List Char}

/-! ## quoted strings -/

theorem skipEscaped_nil : (m.stand ts a []).skipEscaped = .ok (m.stand ts a []) := by
  rw [skipEscaped, peek_stand]
  rfl

theorem skipEscaped_newline :
    (m.stand ts a ('\n' :: b)).skipEscaped = .ok (m.stand ts a ('\n' :: b)) := by
  rw [skipEscaped, peek_stand]
  rfl

theorem skipEscaped_cons {c : Char} (h : c ≠ '\n') :
    (m.stand ts a (c :: b)).skipEscaped = .ok (m.stand ts (a ++ [c]) b) := by
  rw [skipEscaped, peek_stand, Run.ok_bind, List.head?_cons]
  simp only [if_neg h, read_stand_cons h, Run.ok_bind, Run.pure_eq]

/-- one turn of the loop in front of a character that means nothing there -/
theorem quotedLoop_step {start : Position} {n : Nat} {c : Char} (hbreak : c ≠ '\n')
    (hquote : c ≠ '"') (hslash : c ≠ '\\') :
    quotedLoop start (n + 1) (m.stand ts a (c :: b)) = quotedLoop start n (m.stand ts (a ++ [c]) b) := by
  rw [quotedLoop]
  simp only [read_stand_cons hbreak, Run.ok_bind, if_neg hbreak, if_neg hquote, if_neg hslash]

theorem quotedLoop_backslash {start : Position} {n : Nat} :
    quotedLoop start (n + 1) (m.stand ts a ('\\' :: b))
      = (m.stand ts (a ++ ['\\']) b).skipEscaped >>= quotedLoop start n := by
  rw [quotedLoop, read_stand_cons (by decide)]
  rfl

theorem quotedLoop_newline {start : Position} {n : Nat}
    (hfit : byteLength (a ++ '\n' :: b) ≤ countLimit) :
    quotedLoop start (n + 1) (m.stand ts a ('\n' :: b))
      = Run.fail (.report .newlineInString (after a) start.offset) := by
  have hbreak : ('\n' : Char).utf8Size = 1 := rfl
  have hnext : (after a).offset + 1 ≤ countLimit := by
    rw [byteLength_append, byteLength_cons, hbreak] at hfit
    show byteLength a + 1 ≤ countLimit
    omega
  rw [quotedLoop, position_stand (Nat.le_trans (byteLength_le_append a _) hfit), read_stand_newline,
    Run.ok_bind]
  show (Run.increment (after a).offset >>= fun _ => _) = _
  rw [Run.increment_eq hnext]
  rfl

/-- the loop finds the end of the body; `done` was read before, the last character first -/
theorem quotedLoop_stand (m : Machine) (ts : List Token) (start : Position) {n : Nat}
    (a done b : List Char) (hn : b.length < n)
    (hfit : byteLength (a ++ done.reverse ++ b) ≤ countLimit) :
    quotedLoop start n (m.stand ts (a ++ done.reverse) b) =
      match Lexeme.quotedBody done b with
      | .closed body rest => .ok (m.stand ts (a ++ body ++ ['"']) rest)
      | .lineBreak before => Run.fail (.report .newlineInString (after (a ++ before)) start.offset)
      | .unterminated => Run.fail
          (.report .unterminatedString (after (a ++ done.reverse ++ b)) start.offset) := by
  obtain ⟨n, rfl⟩ : ∃ k, n = k + 1 := ⟨n - 1, by omega⟩
  fun_induction Lexeme.quotedBody done b generalizing n with
  | case1 done =>
    rw [List.append_nil] at hfit ⊢
    rw [quotedLoop, position_stand hfit, read_stand_nil]
    rfl
  | case2 done cs =>
    rw [quotedLoop, read_stand_cons (by decide)]
    rfl
  | case3 done cs => exact quotedLoop_newline hfit
  | case4 done cs =>
    obtain ⟨n, rfl⟩ : ∃ k, n = k + 1 := ⟨n - 1, by simp only [List.length_cons] at hn; omega⟩
    rw [quotedLoop_backslash, skipEscaped_newline, Run.ok_bind, quotedLoop_newline]
    · rw [List.reverse_cons, List.append_assoc]
    · rw [List.append_assoc]
      exact hfit
  | case5 done c cs hc ih =>
    obtain ⟨n, rfl⟩ : ∃ k, n = k + 1 := ⟨n - 1, by simp only [List.length_cons] at hn; omega⟩
    have htext : a ++ (c :: '\\' :: done).reverse = a ++ done.reverse ++ ['\\'] ++ [c] := by simp
    have hwhole : a ++ (c :: '\\' :: done).reverse ++ cs = a ++ done.reverse ++ '\\' :: c :: cs := by
      simp
    have hloop := ih (by rw [hwhole]; exact hfit) n (by simp only [List.length_cons] at hn; omega)
    rw [hwhole, htext] at hloop
    rw [quotedLoop_backslash, skipEscaped_cons hc, Run.ok_bind]
    exact hloop
  | case6 done c cs hquote hbreak hslash ih =>
    obtain ⟨n, rfl⟩ : ∃ k, n = k + 1 := ⟨n - 1, by simp only [List.length_cons] at hn; omega⟩
    have htext : a ++ (c :: done).reverse = a ++ done.reverse ++ [c] := by simp
    have hwhole : a ++ (c :: done).reverse ++ cs = a ++ done.reverse ++ c :: cs := by simp
    have hloop := ih (by rw [hwhole]; exact hfit) n (by simp only [List.length_cons] at hn; omega)
    rw [hwhole, htext] at hloop
    by_cases hc : c = '\\'
    · -- a backslash at the end of the text
      subst hc
      obtain rfl : cs = [] := by
        cases cs with
        | nil => rfl
        | cons d cs => exact (hslash d cs rfl rfl).elim
      rw [quotedLoop_backslash, skipEscaped_nil, Run.ok_bind]
      exact hloop
    · rw [quotedLoop_step hbreak hquote hc]
      exact hloop

theorem quotedString_settles (hfit : byteLength (a ++ '"' :: b) ≤ countLimit) :
    m.Settles ts a (Lexeme.quoted (after a) b)
      (quotedString (after a) (m.stand ts (a ++ ['"']) b)) := by
  have hquote : ('"' : Char).utf8Size = 1 := rfl
  have hwhole : a ++ ['"'] ++ b = a ++ '"' :: b := by simp
  have hloop := quotedLoop_stand m ts (after a) (a ++ ['"']) [] b
    (Reader.turns_between (a ++ ['"']) b) (by simpa using hfit)
  simp only [List.reverse_nil, List.append_nil, hwhole] at hloop
  rw [quotedString]
  show m.Settles ts a _ (quotedLoop (after a) (Reader.turns (.between (a ++ ['"']) b)) _ >>= _)
  rw [hloop, Lexeme.quoted]
  cases hbody : Lexeme.quotedBody [] b with
  | unterminated =>
    show Run.fail _ = Run.fail _
    rw [Position.advance_after]
  | lineBreak before =>
    show Run.fail _ = Run.fail _
    rw [Position.advance_after, List.append_assoc]
    rfl
  | closed body rest =>
    have happ := Lexeme.quotedBody_append [] b hbody
    have hline : '\n' ∉ '"' :: body ++ ['"'] := by
      have hbody := Lexeme.newline_notMem_quotedBody hbody List.not_mem_nil
      simpa using hbody
    have htext : a ++ ['"'] ++ body ++ ['"'] = a ++ ('"' :: body ++ ['"']) := by simp
    have hfit' : byteLength (a ++ ('"' :: body ++ ['"'])) ≤ countLimit := by
      rw [List.reverse_nil, List.nil_append] at happ
      rw [← happ] at hfit
      simp only [byteLength_append, byteLength_cons, List.cons_append, byteLength_nil] at hfit ⊢
      omega
    have hslice : ((m.stand ts (a ++ ['"'] ++ body ++ ['"']) rest).sliceBack
        (m.stand ts (a ++ ['"']) b).reader.pos 1 : Run LexError _) = .ok body :=
      sliceBack_stand rfl (a ++ ['"']) body
    simp only [Run.ok_bind, hslice, decode_eq]
    cases hdecode : decodeEscapes body with
    | ok text =>
      simp only [Run.ofExcept_ok, Run.withError_ok, Run.ok_bind]
      rw [htext]
      exact settles_push (by simp) hfit'
    | error e =>
      have hoffset : e.offset ≤ byteLength body := by
        obtain ⟨u, v, rfl, hoffset, _⟩ := decodeFrom_error hdecode
        rw [byteLength_append]
        omega
      have hstart : byteLength (a ++ ['"']) = byteLength a + 1 := byteLength_append a ['"']
      have hplace : byteLength (a ++ ['"']) + e.offset ≤ countLimit := by
        simp only [byteLength_append, byteLength_cons, List.cons_append, byteLength_nil]
          at hstart hfit' ⊢
        omega
      show Run.fail _ = Run.fail _
      rw [htext]
      show Run.fail (LexError.ofEscape e.cause ((m.stand ts (a ++ ('"' :: body ++ ['"'])) rest).positionAt
        (toCount (byteLength (a ++ ['"']) + e.offset))) _) = _
      rw [positionAt_stand hline hplace, hstart]
      rfl

/-! ## raw strings -/

theorem rawLoop_stand (m : Machine) (ts : List Token) (start : Position) {quote : Char}
    (hquote : quote ≠ '\n') {n : Nat} (a b : List Char) (hn : b.length < n)
    (hfit : byteLength (a ++ b) ≤ countLimit) :
    rawLoop start quote n (m.stand ts a b) =
      match b.dropWhile (· != quote) with
      | _ :: rest => .ok (m.stand ts (a ++ b.takeWhile (· != quote) ++ [quote]) rest)
      | [] => Run.fail (.report (.unterminatedRawString quote) (after (a ++ b)) start.offset) := by
  induction n generalizing a b with
  | zero => exact absurd hn (Nat.not_lt_zero _)
  | succ n ih =>
    have hhere : (m.stand ts a b).position = after a :=
      position_stand (Nat.le_trans (byteLength_le_append a b) hfit)
    rw [rawLoop]
    cases b with
    | nil =>
      rw [hhere, read_stand_nil, List.dropWhile_nil, List.append_nil]
      rfl
    | cons c b =>
      have hwhole : a ++ [c] ++ b = a ++ c :: b := by simp
      have hrest := ih (a ++ [c]) b (Nat.lt_of_succ_lt_succ hn) (by rw [hwhole]; exact hfit)
      rw [hwhole] at hrest
      by_cases hc : c = quote
      · subst hc
        rw [read_stand_cons hquote, List.dropWhile_cons_of_neg (by simp),
          List.takeWhile_cons_of_neg (by simp), List.append_nil]
        simp only [Run.ok_bind, if_neg hquote, if_pos, Run.pure_eq]
      · rw [List.dropWhile_cons_of_pos (by simpa using hc),
          List.takeWhile_cons_of_pos (by simpa using hc),
          show a ++ (c :: b.takeWhile (· != quote)) = a ++ [c] ++ b.takeWhile (· != quote) by simp,
          ← hrest]
        by_cases hbreak : c = '\n'
        · subst hbreak
          have hline : byteLength (a ++ ['\n']) ≤ countLimit :=
            Nat.le_trans (byteLength_le_append _ b) (by rw [hwhole]; exact hfit)
          simp only [read_stand_newline, Run.ok_bind, if_pos, newLine_stand hline]
        · simp only [read_stand_cons hbreak, Run.ok_bind, if_neg hbreak, if_neg hc]

theorem rawString_settles {quote : Char} (hquote : quote = '"' ∨ quote = '\'')
    (hfit : byteLength (a ++ '@' :: quote :: b) ≤ countLimit) :
    m.Settles ts a (Lexeme.raw (after a) quote b)
      (rawString (after a) (m.stand ts (a ++ ['@']) (quote :: b))) := by
  have hbreak : quote ≠ '\n' := by rcases hquote with rfl | rfl <;> decide
  have hsize : byteLength [quote] = 1 := by rcases hquote with rfl | rfl <;> rfl
  have hstart : a ++ ['@'] ++ [quote] = a ++ ['@', quote] := by simp
  have hwhole : a ++ ['@', quote] ++ b = a ++ '@' :: quote :: b := by simp
  have hloop := rawLoop_stand m ts (after a) hbreak (a ++ ['@', quote]) b
    (Reader.turns_between (a ++ ['@', quote]) b) (by rw [hwhole]; exact hfit)
  rw [hwhole] at hloop
  rw [rawString, read_stand_cons hbreak, Run.ok_bind, hstart]
  show m.Settles ts a _
    (rawLoop (after a) quote (Reader.turns (.between (a ++ ['@', quote]) b)) _ >>= _)
  have hb : b.takeWhile (· != quote) ++ b.dropWhile (· != quote) = b :=
    List.takeWhile_append_dropWhile
  rw [hloop, Lexeme.raw]
  cases hdrop : b.dropWhile (· != quote) with
  | nil =>
    show Run.fail _ = Run.fail _
    rw [Position.advance_after]
  | cons q rest =>
    have hq : q = quote := by
      simpa using dropWhile_stops (· != quote) b q (by rw [hdrop]; rfl)
    subst hq
    have htext : a ++ ['@', q] ++ b.takeWhile (· != q) ++ [q]
        = a ++ ('@' :: q :: b.takeWhile (· != q) ++ [q]) := by simp
    have hfit' : byteLength (a ++ ('@' :: q :: b.takeWhile (· != q) ++ [q])) ≤ countLimit := by
      rw [hdrop] at hb
      rw [← hb] at hfit
      simp only [byteLength_append, byteLength_cons, List.cons_append, byteLength_nil] at hfit ⊢
      omega
    have hslice : ((m.stand ts (a ++ ['@', q] ++ b.takeWhile (· != q) ++ [q]) rest).sliceBack
        (m.stand ts (a ++ ['@', q]) b).reader.pos 1 : Run LexError _)
        = .ok (b.takeWhile (· != q)) := sliceBack_stand hsize _ _
    simp only [Run.ok_bind, hslice]
    rw [htext]
    exact settles_push (by simp) hfit'

/-! ## numbers -/

theorem radixNumber_settles (base : Base) (radix : Radix) (lead : List Char)
    (hfit : byteLength (a ++ lead ++ b) ≤ countLimit) :
    m.Settles ts a (Lexeme.inBase base radix (after a) lead b)
      (radixNumber (after a) base radix (m.stand ts (a ++ lead) b)) := by
  have hbreak : base.isPart '\n' = false := by cases base <;> decide
  have hb : b.takeWhile base.isPart ++ b.dropWhile base.isPart = b :=
    List.takeWhile_append_dropWhile
  have hfit' : byteLength (a ++ (lead ++ b.takeWhile base.isPart)) ≤ countLimit := by
    rw [← hb] at hfit
    simp only [byteLength_append] at hfit ⊢
    omega
  rw [radixNumber, eatWhile_stand hbreak, Run.ok_bind, Lexeme.inBase]
  simp only
  split
  · rfl
  rw [Lexeme.integer, List.append_assoc]
  cases readDigits? base.value (b.takeWhile base.isPart) with
  | none => rfl
  | some x => exact settles_push (by simp) hfit'

/-- the text of a float is split at its point -/
theorem parseFloat?_eq {whole part : List Char} (hwhole : ∀ c ∈ whole, isDecimalPart c = true)
    (hdigit : ∃ c ∈ whole ++ part, c.isDigit = true) :
    parseFloat? (whole ++ '.' :: part) = some (Lexeme.floatOf whole part) := by
  have hpoint : ∀ c ∈ whole, (c != '.') = true := by
    intro c hc
    rw [bne_iff_ne]
    rintro rfl
    exact absurd (hwhole _ hc) (by decide)
  have htake : (whole ++ '.' :: part).takeWhile (· != '.') = whole := by
    rw [List.takeWhile_append_of_pos hpoint, List.takeWhile_cons_of_neg (by decide),
      List.append_nil]
  have hdrop : (whole ++ '.' :: part).dropWhile (· != '.') = '.' :: part := by
    rw [List.dropWhile_append_of_pos hpoint, List.dropWhile_cons_of_neg (by decide)]
  have hany : (whole ++ '.' :: part).any Char.isDigit = true := by
    obtain ⟨c, hc, hd⟩ := hdigit
    refine List.any_eq_true.mpr ⟨c, ?_, hd⟩
    rcases List.mem_append.mp hc with hc | hc
    · exact List.mem_append_left _ hc
    · exact List.mem_append_right _ (List.mem_cons_of_mem _ hc)
  rw [parseFloat?, if_pos hany, htake, hdrop]
  rfl

/-- a float whose point stands behind the digits `whole` -/
theorem decimalNumber_float {whole : List Char} (hwhole : ∀ c ∈ whole, isDecimalPart c = true)
    (hdigit : ∃ c ∈ whole ++ b.takeWhile isDecimalPart, c.isDigit = true)
    (hfit : byteLength (a ++ (whole ++ '.' :: b)) ≤ countLimit) :
    m.Settles ts a (Lexeme.float whole b)
      (decimalNumber (after a) (m.stand ts a (whole ++ '.' :: b))) := by
  have htake : (whole ++ '.' :: b).takeWhile isDecimalPart = whole := by
    rw [List.takeWhile_append_of_pos hwhole, List.takeWhile_cons_of_neg (by decide),
      List.append_nil]
  have hdrop : (whole ++ '.' :: b).dropWhile isDecimalPart = '.' :: b := by
    rw [List.dropWhile_append_of_pos hwhole, List.dropWhile_cons_of_neg (by decide)]
  have hb : b.takeWhile isDecimalPart ++ b.dropWhile isDecimalPart = b :=
    List.takeWhile_append_dropWhile
  have htext : a ++ whole ++ ['.'] ++ b.takeWhile isDecimalPart
      = a ++ (whole ++ '.' :: b.takeWhile isDecimalPart) := by simp
  have hfit' : byteLength (a ++ (whole ++ '.' :: b.takeWhile isDecimalPart)) ≤ countLimit := by
    rw [← hb] at hfit
    simp only [byteLength_append, byteLength_cons] at hfit ⊢
    omega
  have hslice : ((m.stand ts (a ++ whole ++ ['.'] ++ b.takeWhile isDecimalPart)
      (b.dropWhile isDecimalPart)).sliceBack (m.stand ts a (whole ++ '.' :: b)).reader.pos 0 :
      Run LexError _) = .ok (whole ++ '.' :: b.takeWhile isDecimalPart) := by
    rw [htext, ← List.append_nil (a ++ _)]
    exact sliceBack_stand rfl a _
  rw [decimalNumber, eatWhile_stand (by decide), htake, hdrop]
  simp only [Run.ok_bind, eatIf_stand_pos (p := (· == '.')) (c := '.') (by decide) (by decide),
    if_pos, eatWhile_stand (p := isDecimalPart) (by decide), hslice, parseFloat?_eq hwhole hdigit]
  rw [htext]
  exact settles_push (by simp) hfit'

/-- an integer, which no point follows -/
theorem decimalNumber_integer (hpoint : (b.dropWhile isDecimalPart).head? ≠ some '.')
    (hfit : byteLength (a ++ b) ≤ countLimit) :
    m.Settles ts a (Lexeme.integer .decimal .int (after a) (b.takeWhile isDecimalPart)
      (b.takeWhile isDecimalPart) (b.dropWhile isDecimalPart))
      (decimalNumber (after a) (m.stand ts a b)) := by
  have hb : b.takeWhile isDecimalPart ++ b.dropWhile isDecimalPart = b :=
    List.takeWhile_append_dropWhile
  have hfit' : byteLength (a ++ b.takeWhile isDecimalPart) ≤ countLimit := by
    rw [← hb] at hfit
    simp only [byteLength_append] at hfit ⊢
    omega
  have hslice : ((m.stand ts (a ++ b.takeWhile isDecimalPart) (b.dropWhile isDecimalPart)).sliceBack
      (m.stand ts a b).reader.pos 0 : Run LexError _) = .ok (b.takeWhile isDecimalPart) := by
    rw [← List.append_nil (a ++ _)]
    exact sliceBack_stand rfl a _
  have hno : ∀ c ∈ (b.dropWhile isDecimalPart).head?, (c == '.') = false := fun c hc =>
    beq_eq_false_iff_ne.mpr fun e => hpoint (e ▸ hc)
  rw [decimalNumber, eatWhile_stand (by decide)]
  simp only [Run.ok_bind, eatIf_stand_neg hno, Bool.false_eq_true, if_false, hslice]
  rw [Lexeme.integer]
  cases readDigits? Base.decimal.value (b.takeWhile isDecimalPart) with
  | none => rfl
  | some x => exact settles_push (by simp) hfit'

theorem decimalNumber_settles {c : Char} (hc : c.isDigit = true)
    (hfit : byteLength (a ++ c :: b) ≤ countLimit) :
    m.Settles ts a (Lexeme.decimal (after a) c b)
      (decimalNumber (after a) (m.stand ts a (c :: b))) := by
  have hpart : isDecimalPart c = true := by rw [isDecimalPart, hc]; rfl
  have htake : (c :: b).takeWhile isDecimalPart = c :: b.takeWhile isDecimalPart :=
    List.takeWhile_cons_of_pos hpart
  have hdrop : (c :: b).dropWhile isDecimalPart = b.dropWhile isDecimalPart :=
    List.dropWhile_cons_of_pos hpart
  have hsplit : c :: b = (c :: b.takeWhile isDecimalPart) ++ b.dropWhile isDecimalPart := by
    rw [List.cons_append, List.takeWhile_append_dropWhile]
  unfold Lexeme.decimal
  simp only
  split
  · rename_i rest hrest
    rw [hrest] at hsplit
    rw [hsplit] at hfit ⊢
    refine decimalNumber_float (fun x hx => ?_) ⟨c, by simp, hc⟩ hfit
    rw [← htake] at hx
    exact List.mem_takeWhile_imp hx
  · rename_i hpoint
    have hhead : ((c :: b).dropWhile isDecimalPart).head? ≠ some '.' := by
      rw [hdrop]
      intro hhead
      obtain ⟨rest, hrest⟩ := List.head?_eq_some_iff.mp hhead
      exact hpoint rest hrest
    have hinteger : m.Settles ts a _ (decimalNumber (after a) (m.stand ts a (c :: b))) :=
      decimalNumber_integer hhead hfit
    rw [htake, hdrop] at hinteger
    exact hinteger

end Machine

end ScriptLexer
