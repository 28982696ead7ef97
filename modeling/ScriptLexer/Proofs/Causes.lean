import ScriptLexer.Proofs.Escapes
import ScriptLexer.Proofs.Trails

/-!
# Errors point at their causes

An error has a position, and what is wrong stands there: the end of the text for something that was
not closed, a line break for a line that ends too early, the `#` of a directive with the word that
makes no sense behind it.

* `LexError.PointsAt rest e`        the text `rest`, which goes on at the position of `e`, begins with
                                    what `e` is about;
* `LexError.PointsInto p cs e`      the same at a place in the text `cs`, which begins at `p`;
* `front_points`                    a decision to fail points into the text that it is about;
* `Job.Fails.pointsInto`            so does a step on the way of a scan, wherever that has come to;
* `scanTokens_points`, `scan_points`   so does the error of a scan that fails.
-/

namespace ScriptLexer

open Position (after)

/-! ## what stands at an error -/

/-- the text is `#` with the word `word` behind it, as far as word characters go -/
def DirectiveOf (word rest : List Char) : Prop :=
  ∃ cs, rest = '#' :: cs ∧ cs.takeWhile isWordPart = word

/-- what the error is about stands at the front of the text that goes on at its position -/
def LexError.PointsAt (rest : List Char) (e : LexError) : Prop :=
  match e.cause with
  | .unterminatedString => rest = []
  | .unterminatedRawString _ => rest = []
  | .unterminatedTemplate => rest = []
  | .unterminatedBlockComment => rest = []
  | .unclosedInterpolation => rest = []
  | .newlineInString => rest.head? = some '\n'
  | .newlineInTemplate => rest.head? = some '\n'
  | .quoteInInterpolation => rest.head? = some '"'
  | .unexpectedContinuation => rest.head? = some '\\'
  | .continuationWithoutNewline => ∃ cs, rest = '\\' :: cs ∧ cs.head? ≠ some '\n'
  | .nestedMacro => DirectiveOf "macro".toList rest
  | .unknownDirective name => DirectiveOf name.toList rest
  | .notEnoughColourDigits n => ∃ word, DirectiveOf word rest ∧ digitCount word = n ∧ n < 6
  | .tooManyColourDigits n => ∃ word, DirectiveOf word rest ∧ digitCount word = n ∧ 6 < n
  | .macroNameExpected => rest = [] ∨ rest.head? = some '\n'
  | .malformedMacroName c => rest.head? = some c
  | .missingDigits _ => ∃ c, rest.head? = some c ∧ (c = '$' ∨ c.isDigit = true)
  | .integerOverflow => ∃ c, rest.head? = some c ∧ (c = '$' ∨ c.isDigit = true)
  | .escape cause =>
    -- in a string the backslash of the sequence, in a template the beginning of the template
    (∃ start, e.context = .insideString start ∧
      ∃ sequence tail, rest = '\\' :: sequence ++ '"' :: tail ∧ readEscape sequence = .error cause) ∨
    (e.context = .insideTemplate e.position.offset ∧ Front.templateOpening <+: rest)
  | .sourceTooLarge => False

/-- the error points at its cause in the text `cs`, which begins at `p` -/
def LexError.PointsInto (p : Position) (cs : List Char) (e : LexError) : Prop :=
  ∃ pre rest, cs = pre ++ rest ∧ e.position = p.advance pre ∧ e.PointsAt rest

/-- a decision to fail points into the text that it is about -/
def Front.Points (p : Position) (cs : List Char) : Front → Prop
  | .fail e => e.PointsInto p cs
  | _ => True

namespace LexError

variable {p : Position} {cs : List Char} {e : LexError}

theorem pointsInto_here (hp : e.position = p) (h : e.PointsAt cs) : e.PointsInto p cs :=
  ⟨[], cs, rfl, hp, h⟩

theorem pointsInto_end (hp : e.position = p.advance cs) (h : e.PointsAt []) : e.PointsInto p cs :=
  ⟨cs, [], (List.append_nil cs).symm, hp, h⟩

theorem PointsInto.append_left {w : List Char} (h : e.PointsInto (p.advance w) cs) :
    e.PointsInto p (w ++ cs) := by
  obtain ⟨pre, rest, rfl, hp, hrest⟩ := h
  refine ⟨w ++ pre, rest, (List.append_assoc w pre rest).symm, ?_, hrest⟩
  rw [hp, Position.advance_append]

end LexError

/-! ## decisions -/

/-- what is wrong with an escape sequence stands at its backslash, as a string lies on one line -/
theorem pointsInto_escape {start : Position} {cs body rest : List Char} {e : EscapeError}
    (hbody : Lexeme.quotedBody [] cs = .closed body rest) (hdecode : decodeEscapes body = .error e) :
    (LexError.ofEscape e.cause { start with offset := start.offset + 1 + e.offset }
      (.insideString start.offset)).PointsInto start ('"' :: cs) := by
  have hsplit : body ++ '"' :: rest = cs := Lexeme.quotedBody_append [] cs hbody
  obtain ⟨u, v, rfl, hoffset, hread⟩ := decodeFrom_error hdecode
  have hline : '\n' ∉ '"' :: u := by
    have hbody := Lexeme.newline_notMem_quotedBody hbody List.not_mem_nil
    simpa using fun hu => hbody (List.mem_append_left _ hu)
  refine ⟨'"' :: u, '\\' :: v ++ '"' :: rest, by simp [← hsplit], ?_,
    .inl ⟨_, rfl, v, rest, rfl, hread⟩⟩
  have hquote : ('"' : Char).utf8Size = 1 := rfl
  rw [Position.advance_eq_along start _ hline, Position.along, byteLength_cons, hquote]
  show Position.mk _ _ _ = Position.mk _ _ _
  congr 1
  omega

theorem Failure.pointsInto {scope : Scope} {depth : Nat} {start : Position} {cs : List Char}
    {e : LexError} (h : Failure scope depth start cs e) : e.PointsInto start cs := by
  cases h with
  | unclosedSection _ => exact LexError.pointsInto_here rfl rfl
  | bareQuote _ => exact LexError.pointsInto_here rfl rfl
  | backslash _ => exact LexError.pointsInto_here rfl rfl
  | @continuation cs _ hnext =>
    refine LexError.pointsInto_here rfl ⟨cs, rfl, fun hhead => ?_⟩
    obtain ⟨rest, hrest⟩ := List.head?_eq_some_iff.mp hhead
    exact hnext rest hrest
  | unterminated _ => exact LexError.pointsInto_end rfl rfl
  | @lineBreak cs before hbody =>
    obtain ⟨rest, hrest⟩ := Lexeme.quotedBody_lineBreak hbody
    exact ⟨'"' :: before, '\n' :: rest, congrArg (List.cons '"') hrest, rfl, rfl⟩
  | escape hbody hdecode => exact pointsInto_escape hbody hdecode
  | raw _ _ => exact LexError.pointsInto_end rfl rfl
  | comment _ => exact LexError.pointsInto_end rfl rfl
  | @noDigits base c cs _ hc => exact LexError.pointsInto_here rfl ⟨c, rfl, hc⟩
  | @overflow c cs hc => exact LexError.pointsInto_here rfl ⟨c, rfl, hc⟩
  | @fewDigits cs word hword hfew =>
    exact LexError.pointsInto_here rfl ⟨word, ⟨cs, rfl, hword⟩, rfl, hfew⟩
  | @manyDigits cs word hword hmany =>
    exact LexError.pointsInto_here rfl ⟨word, ⟨cs, rfl, hword⟩, rfl, hmany⟩
  | @nestedMacro cs hword _ => exact LexError.pointsInto_here rfl ⟨cs, rfl, hword⟩
  | @noName pre cs hcs => exact ⟨pre, cs, rfl, rfl, hcs⟩
  | @badName pre cs c _ => exact ⟨pre, c :: cs, rfl, rfl, rfl⟩
  | @unknownWord cs word hword =>
    exact LexError.pointsInto_here rfl ⟨cs, rfl, hword.trans String.toList_ofList.symm⟩

theorem front_points (scope : Scope) (depth : Nat) (behind : Behind) (start : Position)
    (cs : List Char) : (front scope depth behind start cs).Points start cs := by
  cases h : front scope depth behind start cs with
  | fail e => exact (front_failure h).pointsInto
  | _ => trivial

/-- a template of which `x` has been read; if its text cannot be decoded, it is at fault from its
beginning on -/
theorem Draft.Failure.pointsInto {d : Draft} {start : Position} {x cs : List Char} {e : LexError}
    (h : d.Failure start cs e) (hd : d.position = start.advance (Front.templateOpening ++ x)) :
    e.PointsInto start (Front.templateOpening ++ (x ++ cs)) := by
  have hassoc := List.append_assoc Front.templateOpening x cs
  cases h with
  | unterminated => exact ⟨_, [], hassoc.symm, hd, rfl⟩
  | @lineBreak rest => exact ⟨_, '\n' :: rest, hassoc.symm, hd, rfl⟩
  | escape _ => exact LexError.pointsInto_here rfl (.inr ⟨rfl, List.prefix_append _ _⟩)

/-! ## the scan -/

theorem Job.Fails.pointsInto {k : Job} {x y : List Char} {e : LexError} (h : k.Fails y e)
    (hk : k.Stands x) (hbegins : k.BeginsIn x) : e.PointsInto .start (x ++ y) := by
  cases k with
  | tokens scope st =>
    have hpos : st.position = Position.start.advance x :=
      hk.position.trans (Position.start_advance x).symm
    have hfront : front scope st.depth st.behind st.position y = .fail e := h
    refine LexError.PointsInto.append_left ?_
    rw [← hpos]
    exact (front_failure hfront).pointsInto
  | template scope start d =>
    obtain ⟨u, v, rfl, hstart⟩ := hbegins
    have hd : d.position = start.advance (Front.templateOpening ++ v) := by
      rw [hstart, Position.advance_after]
      exact hk.position
    rw [List.append_assoc, List.append_assoc]
    refine LexError.PointsInto.append_left ?_
    rw [Position.start_advance, ← hstart]
    exact h.draft.pointsInto hd

theorem scanTokens_points {scope : Scope} {cs : List Char} {e : LexError}
    (h : scanTokens scope (.start .start) cs = .error e) : e.PointsInto .start cs := by
  obtain ⟨x, y, outer, k, rfl, henters, hfails⟩ := errs_iff_enters.mp (Job.errs_tokens.mpr h)
  have hj := Job.stands_begin scope
  exact hfails.pointsInto (henters.stands hj) (henters.beginsIn hj trivial)

/-- an error of a scan stands at a true position of the source, in front of what it is about -/
theorem scan_points {source : String} {mode : Mode} {e : LexError}
    (h : scan source mode = .error e) (hsize : e.cause ≠ .sourceTooLarge) :
    ∃ pre rest, source.toList = pre ++ rest ∧ e.position = after pre ∧ e.PointsAt rest := by
  have hfits : byteLength source.toList ≤ countLimit := by
    rw [byteLength_toList]
    refine Nat.le_of_not_lt fun hlarge => ?_
    rw [scan, scanSource, if_pos hlarge] at h
    cases h
    exact hsize rfl
  rw [scan_eq hfits] at h
  cases hs : scanTokens (.initial mode) (.start .start) source.toList with
  | ok s =>
    rw [hs] at h
    cases h
  | error e' =>
    rw [hs] at h
    cases h
    obtain ⟨pre, rest, hsource, hposition, hrest⟩ := scanTokens_points hs
    exact ⟨pre, rest, hsource, hposition.trans (Position.start_advance pre), hrest⟩

/-- an escape sequence in a string behind a character of two bytes, in a section on the second line -/
theorem scan_points_escape :
    ∃ e, scan "\n$\"\x7b\x7b\"\u00e9\\q\"" = .error e ∧ e.cause = .escape (.unknown 'q') ∧
      e.position = ⟨8, 1, 1⟩ ∧
      ∃ pre rest, "\n$\"\x7b\x7b\"\u00e9\\q\"".toList = pre ++ rest ∧ e.position = after pre ∧
        e.PointsAt rest := by
  refine ⟨(LexError.report (.escape (.unknown 'q')) ⟨8, 1, 1⟩ 0).withContext (.insideString 5), ?h,
    rfl, rfl, scan_points ?h ?hsize⟩
  case h => decide +kernel
  case hsize => decide

end ScriptLexer
