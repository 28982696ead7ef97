import ScriptLexer.Proofs.Pairs
import ScriptLexer.Proofs.Splice
import ScriptLexer.Proofs.Ways

/-!
# The edit that escapes a line break

A string that goes on behind the end of its line is an error, and the error suggests to write `\n` in place
of the line break.  The edit is made in the text, but what it means there is decided twice: by the hunt for
the closing quote and by the decoding of the body.

* `Passed cs`               the hunt for the closing quote passes over the text;
* `quotedBody_cutOff`       what was passed when a line break cut the hunt off: in front of the break one
                            backslash may stand that would have to hide it;
* `Mended before text`      what a string says that was cut off behind `before` and has been mended;
* `LineFix`                 the edit of an error, and what becomes of the string.

Where a backslash stands in front of the break, it hides the backslash of the edit, and the string has a
backslash and a letter in place of the line break: `scan_lineFix`, `scan_lineFix_backslash`.
-/

namespace ScriptLexer

open Position (after)

/-! ## the hunt for the closing quote -/

/-- no quote stands in the text but behind a backslash, and no line break -/
inductive Passed : List Char → Prop
  | nil : Passed []
  | plain {c : Char} {cs : List Char} : c ≠ '"' → c ≠ '\n' → c ≠ '\\' → Passed cs → Passed (c :: cs)
  | pair {c : Char} {cs : List Char} : c ≠ '\n' → Passed cs → Passed ('\\' :: c :: cs)

theorem Passed.append {a b : List Char} (ha : Passed a) (hb : Passed b) : Passed (a ++ b) := by
  induction ha with
  | nil => exact hb
  | plain hquote hbreak hslash _ ih => exact .plain hquote hbreak hslash ih
  | pair hbreak _ ih => exact .pair hbreak ih

theorem Passed.paired {cs : List Char} (h : Passed cs) : Paired cs := by
  induction h with
  | nil => exact .nil
  | plain _ _ hslash _ ih => exact .plain hslash ih
  | pair _ _ ih => exact .pair ih

namespace Lexeme

theorem quotedBody_of_passed {a : List Char} (h : Passed a) (done z : List Char) :
    quotedBody done (a ++ z) = quotedBody (a.reverse ++ done) z := by
  induction h generalizing done with
  | nil => rfl
  | @plain c cs hquote hbreak hslash _ ih =>
    rw [List.cons_append, quotedBody, ih]
    · simp
    · exact hquote
    · exact hbreak
    · exact fun _ _ hc _ => hslash hc
  | @pair c cs hbreak _ ih =>
    rw [List.cons_append, List.cons_append, quotedBody, if_neg hbreak, ih]
    simp

theorem exists_of_quotedBody_closed {done cs body rest : List Char}
    (h : quotedBody done cs = .closed body rest) : ∃ w, body = done.reverse ++ w := by
  fun_induction quotedBody done cs with
  | case1 => cases h
  | case2 done cs =>
    cases h
    exact ⟨[], (List.append_nil _).symm⟩
  | case3 => cases h
  | case4 => cases h
  | case5 done c cs _ ih =>
    obtain ⟨w, rfl⟩ := ih h
    exact ⟨'\\' :: c :: w, by simp⟩
  | case6 done c cs _ _ _ ih =>
    obtain ⟨w, rfl⟩ := ih h
    exact ⟨c :: w, by simp⟩

/-- a line break cuts the hunt off behind what was passed, and behind one more backslash if that would have
to hide the break -/
theorem quotedBody_cutOff {done cs before : List Char} (h : quotedBody done cs = .lineBreak before) :
    ∃ a hidden rest, Passed a ∧ (hidden = [] ∨ hidden = ['\\']) ∧
      before = done.reverse ++ (a ++ hidden) ∧ cs = a ++ hidden ++ '\n' :: rest := by
  fun_induction quotedBody done cs with
  | case1 => cases h
  | case2 => cases h
  | case3 done cs =>
    cases h
    exact ⟨[], [], cs, .nil, .inl rfl, by simp, rfl⟩
  | case4 done cs =>
    cases h
    exact ⟨[], ['\\'], cs, .nil, .inr rfl, by simp, rfl⟩
  | case5 done c cs hc ih =>
    obtain ⟨a, hidden, rest, ha, hhidden, rfl, rfl⟩ := ih h
    exact ⟨'\\' :: c :: a, hidden, rest, .pair hc ha, hhidden, by simp, rfl⟩
  | case6 done c cs hquote hbreak hslash ih =>
    obtain ⟨a, hidden, rest, ha, hhidden, rfl, rfl⟩ := ih h
    -- a backslash is read alone only at the end of the text, and there is a line break behind this one
    have hc : c ≠ '\\' := by
      rintro rfl
      cases hcs : a ++ hidden ++ '\n' :: rest with
      | nil => simp at hcs
      | cons d ds => exact hslash d ds rfl hcs
    exact ⟨c :: a, hidden, rest, .plain hquote hbreak hc ha, hhidden, by simp, rfl⟩

end Lexeme

/-! ## what the edit means -/

/-- what a string says that a line break cut off behind `before` and that has `\n` in its place: what was
cut off, decoded, and a line break; but if a lone backslash stands in front of the break it hides the
backslash of the edit -/
inductive Mended (before : List Char) : List Char → Prop
  | lineBreak {front rest : List Char} (hpaired : Paired before)
      (hdecode : decodeEscapes before = .ok front) : Mended before (front ++ '\n' :: rest)
  | backslash {body front rest : List Char} (hbefore : before = body ++ ['\\'])
      (hpaired : Paired body) (hempty : decodeEscapes before = .error ⟨.empty, byteLength body⟩)
      (hdecode : decodeEscapes body = .ok front) : Mended before (front ++ '\\' :: 'n' :: rest)

theorem factors_newline : Factors ['\\', 'n'] ['\n'] := .unit (.control (by decide)) .nil

theorem factors_backslash : Factors ['\\', '\\', 'n'] ['\\', 'n'] :=
  .unit (.itself (.inl rfl)) (.unit (.plain (by decide)) .nil)

theorem mended_of_decode {a hidden w text : List Char} (ha : Paired a)
    (hhidden : hidden = [] ∨ hidden = ['\\'])
    (h : decodeEscapes (a ++ hidden ++ '\\' :: 'n' :: w) = .ok text) : Mended (a ++ hidden) text := by
  rw [List.append_assoc] at h
  rcases hhidden with rfl | rfl
  · obtain ⟨front, rest, hfront, rfl⟩ := exists_factors_of_decode (w := w) ha factors_newline h
    rw [List.append_nil, List.append_assoc]
    exact .lineBreak ha hfront.decode
  · obtain ⟨front, rest, hfront, rfl⟩ := exists_factors_of_decode (w := w) ha factors_backslash h
    have hstops : StopsAt (a ++ ['\\']) ⟨.empty, byteLength a⟩ :=
      .mk hfront (fun _ _ _ hsplit => Blocked.empty.not_unit hsplit) .empty
    rw [List.append_assoc]
    exact .backslash rfl ha hstops.decode hfront.decode

/-- a string that was cut off and has been mended is read as what it has to say, if it is read -/
theorem Lexeme.quoted_mended {cs before : List Char} (h : quotedBody [] cs = .lineBreak before)
    (start : Position) (v : List Char) :
    (∃ e, quoted start (before ++ '\\' :: 'n' :: v) = .fail e) ∨
      ∃ text lexeme rest, Mended before text.toList ∧
        quoted start (before ++ '\\' :: 'n' :: v) = .atom (.string text) lexeme rest := by
  obtain ⟨a, hidden, z, ha, hhidden, rfl, -⟩ := quotedBody_cutOff h
  have hpassed : Passed (a ++ hidden ++ ['\\', 'n']) := by
    rw [List.append_assoc]
    refine ha.append ?_
    rcases hhidden with rfl | rfl
    · exact .pair (by decide) .nil
    · exact .pair (by decide) (.plain (by decide) (by decide) (by decide) .nil)
  have hhunt := quotedBody_of_passed hpassed [] v
  rw [List.append_assoc (a ++ hidden)] at hhunt
  replace hhunt : quotedBody [] (a ++ hidden ++ '\\' :: 'n' :: v) = _ := hhunt
  rw [List.reverse_nil, List.nil_append, quoted, hhunt]
  cases hbody : quotedBody ((a ++ hidden ++ ['\\', 'n']).reverse ++ []) v with
  | unterminated => exact .inl ⟨_, rfl⟩
  | lineBreak before => exact .inl ⟨_, rfl⟩
  | closed body rest =>
    obtain ⟨w, rfl⟩ := exists_of_quotedBody_closed hbody
    simp only [List.append_nil, List.reverse_reverse]
    cases hdecode : decodeEscapes (a ++ hidden ++ ['\\', 'n'] ++ w) with
    | error e => exact .inl ⟨_, rfl⟩
    | ok text =>
      refine .inr ⟨_, _, _, ?_, rfl⟩
      rw [String.toList_ofList]
      rw [List.append_assoc (a ++ hidden)] at hdecode
      exact mended_of_decode ha.paired hhidden hdecode

/-! ## the error and its edit -/

theorem front_quote {scope : Scope} {depth : Nat} (hbare : scope.isBareSection depth = false)
    (behind : Behind) (start : Position) (cs : List Char) :
    front scope depth behind start ('"' :: cs) = Lexeme.quoted start cs :=
  if_neg fun h => Bool.false_ne_true (hbare.symm.trans h.2)

theorem Job.Fails.cutOff {k : Job} {y : List Char} {e : LexError} (h : k.Fails y e)
    (hcause : e.cause = .newlineInString) :
    ∃ scope st cs before, k = .tokens scope st ∧ y = '"' :: cs ∧
      scope.isBareSection st.depth = false ∧ Lexeme.quotedBody [] cs = .lineBreak before ∧
      e = .report .newlineInString (st.position.advance ('"' :: before)) st.position.offset := by
  cases k with
  | template scope start d =>
    cases h.draft with
    | unterminated => cases hcause
    | lineBreak => cases hcause
    | escape _ => cases hcause
  | tokens scope st =>
    have hfront : front scope st.depth st.behind st.position y = .fail e := h
    cases front_failure hfront with
    | @lineBreak cs before hbody =>
      refine ⟨scope, st, cs, before, rfl, rfl, Bool.eq_false_iff.mpr fun hbare => ?_, hbody, rfl⟩
      have hquote : front scope st.depth st.behind st.position ('"' :: cs)
          = .fail (.report .quoteInInterpolation st.position scope.start) := if_pos ⟨rfl, hbare⟩
      have hsame := Front.fail.inj (hquote.symm.trans hfront)
      exact absurd (congrArg LexError.cause hsame) (by intro h; cases h)
    | _ => cases hcause

/-- the edit that is suggested for a line break in a string is of the line break -/
theorem lineBreak_edit {front : List Char} {p : Position} (hp : p.offset = byteLength front)
    (start : Nat) (v : List Char) :
    ∃ s r, (LexError.report .newlineInString p start).suggestions.head? = some s ∧
      s.replacement = some r ∧ r.span = ⟨p.offset, p.offset + 1⟩ ∧
      slice? (front ++ '\n' :: v) r.span.start r.span.stop = some ['\n'] ∧
      replaceRange? (front ++ '\n' :: v) r.span r.text.toList = some (front ++ '\\' :: 'n' :: v) := by
  have htext : front ++ '\n' :: v = front ++ ['\n'] ++ v := (List.append_cons front '\n' v)
  refine ⟨_, _, rfl, rfl, rfl, ?_, ?_⟩
  · rw [hp, htext]
    exact slice?_append front ['\n'] v
  · have hwritten : "\\n".toList = ['\\', 'n'] := by decide
    have hreplace : replaceRange? (front ++ ['\n'] ++ v) ⟨byteLength front, byteLength front + 1⟩
        "\\n".toList = some (front ++ "\\n".toList ++ v) := replaceRange?_eq _
    rw [hp, htext, hreplace, hwritten, List.append_assoc]
    rfl

/-- A line break cuts off the string behind `u`, which has come to `before`.  The error tells where the
string begins and points at the break; it first suggests to put `\n` in place of the break.  If the edited
source can be scanned, it has a string where the one was that was cut off, which has been mended. -/
structure LineFix (source : String) (mode : Mode) (e : LexError) (u before v : List Char) : Prop where
  text : source.toList = u ++ '"' :: before ++ '\n' :: v
  context : e.context = .insideString (byteLength u)
  position : e.position = after (u ++ '"' :: before)
  edit : ∃ s r, e.suggestions.head? = some s ∧ s.replacement = some r ∧
    r.span = ⟨e.position.offset, e.position.offset + 1⟩ ∧
    slice? source.toList r.span.start r.span.stop = some ['\n'] ∧
    replaceRange? source.toList r.span r.text.toList
      = some (u ++ '"' :: before ++ '\\' :: 'n' :: v)
  string : ∀ ts, scan (String.ofList (u ++ '"' :: before ++ '\\' :: 'n' :: v)) mode = .ok ts →
    ∃ t text, Occurs t ts ∧ t.start = after u ∧ t.kind = .atom (.string text) ∧
      Mended before text.toList

/-- Whatever the source and the mode, an error for a line break in a string suggests an edit of the line
break and of nothing else.  The string that the edit makes begins where the one began that was cut off, and
goes on with the text of that and a line break, unless a lone backslash stands in front of the break: then
with a backslash and a letter. -/
theorem scan_lineFix {source : String} {mode : Mode} {e : LexError}
    (h : scan source mode = .error e) (hcause : e.cause = .newlineInString) :
    ∃ u before v, LineFix source mode e u before v := by
  have hsize : byteLength source.toList ≤ countLimit := by
    apply byteLength_le_of_scan_error h
    rw [hcause]
    intro hlarge
    cases hlarge
  rw [scan_error_iff hsize] at h
  obtain ⟨u, y, outer, k, hsource, henters, hfails⟩ := errs_iff_enters.mp (Job.errs_tokens.mpr h)
  have hstands := henters.stands (Job.stands_begin (.initial mode))
  obtain ⟨scope, st, cs, before, rfl, rfl, hbare, hbody, rfl⟩ := hfails.cutOff hcause
  have hposition : st.position = after u := hstands.position
  obtain ⟨v, hv⟩ := Lexeme.quotedBody_lineBreak hbody
  obtain rfl : cs = before ++ '\n' :: v := hv
  have htext : source.toList = u ++ '"' :: before ++ '\n' :: v := by rw [hsource]; simp
  have hcut : st.position.advance ('"' :: before) = after (u ++ '"' :: before) := by
    rw [hposition, Position.advance_after]
  refine ⟨u, before, v, htext, by rw [hposition]; rfl, hcut, ?_, ?_⟩
  · rw [htext]
    exact lineBreak_edit (congrArg Position.offset hcut) _ v
  · intro ts hscan
    -- the way to the string is the same in the edited source, and there it is read
    have henters' := henters.relocate List.mem_cons_self (before ++ '\\' :: 'n' :: v)
    have hedited : (String.ofList (u ++ '"' :: before ++ '\\' :: 'n' :: v)).toList
        = u ++ '"' :: (before ++ '\\' :: 'n' :: v) := by simp
    have hoccurs := henters'.occurs hedited hscan
    rw [front_quote hbare] at hoccurs
    rcases Lexeme.quoted_mended hbody st.position v with
      ⟨e', he'⟩ | ⟨text, lexeme, rest, hmended, hatom⟩
    · rw [he'] at hoccurs
      exact hoccurs.elim
    · rw [hatom] at hoccurs
      exact ⟨_, text, hoccurs, hposition, rfl, hmended⟩

/-- a string in a section, with an escape sequence in front of the line break; the edited source can be
scanned -/
theorem scan_lineFix_section :
    ∃ e, scan "$\"\x7b\x7b\"\\x41\n\"\x7d\x7d\"" = .error e ∧ e.cause = .newlineInString ∧
      (∃ u before v, LineFix "$\"\x7b\x7b\"\\x41\n\"\x7d\x7d\"" .plain e u before v) ∧
      e.position.offset = 9 ∧
      ∃ ts t, scan "$\"\x7b\x7b\"\\x41\\n\"\x7d\x7d\"" = .ok ts ∧ Occurs t ts ∧
        t.start.offset = 4 ∧ t.kind = .atom (.string "A\n") := by
  let t : Token := ⟨.atom (.string "A\n"), ⟨4, 0, 0⟩, ⟨12, 0, 0⟩⟩
  let inner : Section Token := ⟨⟨2, 14⟩, ⟨0, 12⟩,
    [⟨.atom (.dual .openBrace .symbol), ⟨3, 0, 0⟩, ⟨4, 0, 0⟩⟩, t,
      ⟨.atom (.dual .closeBrace .symbol), ⟨12, 0, 0⟩, ⟨13, 0, 0⟩⟩]⟩
  refine ⟨.report .newlineInString ⟨9, 0, 0⟩ 4, ?h, rfl, scan_lineFix ?h rfl, rfl,
    [⟨.template ⟨"\x7b\x7b\"\\x41\\n\"\x7d\x7d", "0", [inner]⟩, ⟨0, 0, 0⟩, ⟨15, 0, 0⟩⟩], t, ?hedited,
    .inside List.mem_cons_self List.mem_cons_self (.here ?hmem), rfl, rfl⟩
  case h => decide +kernel
  case hedited => decide +kernel
  case hmem => exact List.mem_cons_of_mem _ List.mem_cons_self

/-- a lone backslash in front of the line break hides the backslash of the edit, and the string that is
then read has no line break -/
theorem scan_lineFix_backslash :
    ∃ e s r, scan "\"a\\\n\"" = .error e ∧ e.cause = .newlineInString ∧
      e.suggestions.head? = some s ∧ s.replacement = some r ∧
      replaceRange? "\"a\\\n\"".toList r.span r.text.toList = some "\"a\\\\n\"".toList ∧
      scan "\"a\\\\n\"" = .ok [⟨.atom (.string "a\\n"), ⟨0, 0, 0⟩, ⟨6, 0, 0⟩⟩] ∧
      '\n' ∉ "a\\n".toList ∧ decodeEscapes ['a', '\\'] = .error ⟨.empty, 1⟩ := by
  refine ⟨.report .newlineInString ⟨3, 0, 0⟩ 0, _, _, ?_, rfl, rfl, rfl, ?_, ?_, ?_, ?_⟩
  · decide +kernel
  · decide +kernel
  · decide +kernel
  · decide +kernel
  · decide +kernel

end ScriptLexer
