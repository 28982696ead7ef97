import ScriptLexer.Proofs.Origin

/-!
# Writing a text

Every text can be written as a string, and the three forms of a literal agree on it:

* `quotedForm s`     between double quotes, with backslash, quote and line break escaped;
* `rawForm q s`      behind `@`, between two of the quotes `q`, as it is;
* `templateForm s`   as a template without sections, escaped as between double quotes.

The search for the closing quote and the decoding of what lies in front of it are two passes, each
with a rule of its own for what a backslash hides.  The search takes an escaped text one character
of the text at a time (`quotedBody_encodeEscape`, `scanTemplate_encodeEscape`), so that it stops at
the quote behind the text, whatever follows; `decodeEscapes_encodeEscapes` says what is decoded then.

`scan_written` says that each form is one token that holds the text.
-/

namespace ScriptLexer

open Position (after)

/-! ## the forms -/

/-- the text between double quotes, escaped -/
def quotedForm (s : String) : String := "\"" ++ String.ofList (encodeEscapes s.toList) ++ "\""

/-- the text as it is, between quotes that `@` announces -/
def rawForm (quote : Char) (s : String) : String :=
  "@" ++ String.singleton quote ++ s ++ String.singleton quote

/-- the text as a template, escaped -/
def templateForm (s : String) : String := "$\"" ++ String.ofList (encodeEscapes s.toList) ++ "\""

theorem toList_quotedForm (s : String) :
    (quotedForm s).toList = '"' :: (encodeEscapes s.toList ++ ['"']) := by
  simp [quotedForm]

theorem toList_rawForm (quote : Char) (s : String) :
    (rawForm quote s).toList = '@' :: quote :: (s.toList ++ [quote]) := by
  simp [rawForm]

theorem toList_templateForm (s : String) :
    (templateForm s).toList = Front.templateOpening ++ (encodeEscapes s.toList ++ ['"']) := by
  simp [templateForm, Front.templateOpening]

/-! ## the search for the closing quote -/

theorem encodeEscapes_cons (c : Char) (text : List Char) :
    encodeEscapes (c :: text) = encodeEscape c ++ encodeEscapes text := List.flatMap_cons

/-- how a character is escaped: by a backslash in front of a character that is no line break, or not
at all -/
theorem encodeEscape_cases (c : Char) :
    (∃ d, d ≠ '\n' ∧ encodeEscape c = ['\\', d]) ∨
      (c ≠ '\\' ∧ c ≠ '"' ∧ c ≠ '\n' ∧ encodeEscape c = [c]) := by
  unfold encodeEscape
  split
  · exact .inl ⟨'\\', by decide, rfl⟩
  split
  · exact .inl ⟨'"', by decide, rfl⟩
  split
  · exact .inl ⟨'n', by decide, rfl⟩
  · rename_i hslash hquote hbreak
    exact .inr ⟨hslash, hquote, hbreak, rfl⟩

namespace Lexeme

theorem quotedBody_encodeEscape (done : List Char) (c : Char) (cs : List Char) :
    quotedBody done (encodeEscape c ++ cs) = quotedBody ((encodeEscape c).reverse ++ done) cs := by
  rcases encodeEscape_cases c with ⟨d, hd, he⟩ | ⟨hslash, hquote, hbreak, he⟩
  · rw [he]
    show quotedBody done ('\\' :: d :: cs) = quotedBody (d :: '\\' :: done) cs
    rw [quotedBody, if_neg hd]
  · rw [he]
    show quotedBody done (c :: cs) = quotedBody (c :: done) cs
    rw [quotedBody]
    · exact hquote
    · exact hbreak
    · exact fun _ _ h => absurd h hslash

theorem quotedBody_encodeEscapes (done text rest : List Char) :
    quotedBody done (encodeEscapes text ++ '"' :: rest)
      = .closed (done.reverse ++ encodeEscapes text) rest := by
  induction text generalizing done with
  | nil =>
    show quotedBody done ('"' :: rest) = .closed (done.reverse ++ []) rest
    rw [quotedBody, List.append_nil]
  | cons c text ih =>
    rw [encodeEscapes_cons, List.append_assoc, quotedBody_encodeEscape, ih, List.reverse_append,
      List.reverse_reverse, List.append_assoc]

theorem quoted_encodeEscapes (start : Position) (text rest : List Char) :
    quoted start (encodeEscapes text ++ '"' :: rest)
      = .atom (.string (String.ofList text)) ('"' :: encodeEscapes text ++ ['"']) rest := by
  have hbody : quotedBody [] (encodeEscapes text ++ '"' :: rest) = .closed (encodeEscapes text) rest :=
    quotedBody_encodeEscapes [] text rest
  rw [quoted, hbody]
  simp only [decodeEscapes_encodeEscapes]

theorem raw_of_notMem (start : Position) {quote : Char} {text : List Char} (h : quote ∉ text)
    (rest : List Char) : raw start quote (text ++ quote :: rest)
      = .atom (.string (String.ofList text)) ('@' :: quote :: text ++ [quote]) rest := by
  have hne : ∀ c ∈ text, (c != quote) = true := fun c hc => bne_iff_ne.mpr fun e => h (e ▸ hc)
  have htake : (text ++ quote :: rest).takeWhile (· != quote) = text := by
    rw [List.takeWhile_append_of_pos hne]
    simp
  have hdrop : (text ++ quote :: rest).dropWhile (· != quote) = quote :: rest := by
    rw [List.dropWhile_append_of_pos hne]
    simp
  rw [raw, htake, hdrop]

end Lexeme

/-! ## templates -/

theorem Draft.addText_addText (d : Draft) (a b : List Char) :
    (d.addText a).addText b = d.addText (a ++ b) := by
  simp [Draft.addText, Position.advance_append, byteLength_append, Nat.add_assoc]

/-- a character that means nothing to a template is a piece of its own -/
theorem piece_of_ne {c : Char} (hbreak : c ≠ '\n') (hquote : c ≠ '"') (hbrace : c ≠ '{')
    (hslash : c ≠ '\\') (cs : List Char) : piece (c :: cs) = .text [c] cs := by
  rw [piece]
  · exact hbreak
  · exact hquote
  · exact hbrace
  · exact fun _ h => absurd h hslash
  · exact fun _ h => absurd h hslash

/-- a template takes an escaped character whole, unless it is a brace -/
theorem scanTemplate_encodeEscape (scope : Scope) (start : Position) (d : Draft) {c : Char}
    (h : c ≠ '{') (cs : List Char) :
    scanTemplate scope start d (encodeEscape c ++ cs)
      = scanTemplate scope start (d.addText (encodeEscape c)) cs := by
  unfold encodeEscape
  split
  · exact scanTemplate_text rfl
  split
  · exact scanTemplate_text rfl
  split
  · -- the backslash hides nothing here, so there are two pieces
    have hslash : piece ('\\' :: 'n' :: cs) = .text ['\\'] ('n' :: cs) := rfl
    have hletter : piece ('n' :: cs) = .text ['n'] cs := rfl
    show scanTemplate scope start d ('\\' :: 'n' :: cs) = _
    rw [scanTemplate_text hslash, scanTemplate_text hletter, Draft.addText_addText]
    rfl
  · rename_i hslash hquote hbreak
    exact scanTemplate_text (piece_of_ne hbreak hquote h hslash cs)

/-- the quote behind an escaped text without an opening brace closes the template -/
theorem scanTemplate_encodeEscapes (scope : Scope) (start : Position) (d : Draft) {text : List Char}
    (h : '{' ∉ text) (rest : List Char) :
    scanTemplate scope start d (encodeEscapes text ++ '"' :: rest)
      = (d.addText (encodeEscapes text)).finish start := by
  induction text generalizing d with
  | nil =>
    show scanTemplate scope start d ('"' :: rest) = (d.addText []).finish start
    rw [scanTemplate_quote]
    rfl
  | cons c text ih =>
    have hc : c ≠ '{' := fun e => h (e ▸ List.mem_cons_self)
    have htext : '{' ∉ text := fun m => h (List.mem_cons_of_mem c m)
    rw [encodeEscapes_cons, List.append_assoc, scanTemplate_encodeEscape scope start d hc,
      ih _ htext, Draft.addText_addText]

/-- the template of a text that was escaped -/
def writtenTemplate (s : String) : Template Token where
  lexeme := String.ofList (encodeEscapes s.toList)
  decoded := s
  sections := []

theorem finish_encodeEscapes (s : String) (p start : Position) :
    ((Draft.start p).addText (encodeEscapes s.toList)).finish start
      = .ok ⟨writtenTemplate s, encodeEscapes s.toList⟩ := by
  have hdraft : ((Draft.start p).addText (encodeEscapes s.toList)).numbered.reverse
      = encodeEscapes s.toList := by
    simp [Draft.addText, Draft.start]
  have hlexeme : ((Draft.start p).addText (encodeEscapes s.toList)).lexeme.reverse
      = encodeEscapes s.toList := by
    simp [Draft.addText, Draft.start]
  rw [Draft.finish, hdraft, decodeEscapes_encodeEscapes, hlexeme]
  simp only [String.ofList_toList]
  rfl

/-! ## the forms as sources -/

theorem scan_quotedForm {s : String} (hsize : (quotedForm s).utf8ByteSize ≤ countLimit) :
    scan (quotedForm s) = .ok [⟨.atom (.string s), .start, after (quotedForm s).toList⟩] := by
  have hfront : front (.initial .plain) 0 .nothing .start (quotedForm s).toList
      = .atom (.string s) (quotedForm s).toList [] := by
    rw [toList_quotedForm]
    show Lexeme.quoted .start (encodeEscapes s.toList ++ ['"']) = _
    rw [Lexeme.quoted_encodeEscapes, String.ofList_toList]
    rfl
  exact scan_of_atom (by rwa [byteLength_toList]) (by intro h; cases h) hfront

theorem scan_rawForm {quote : Char} (hquote : quote = '"' ∨ quote = '\'') {s : String}
    (h : quote ∉ s.toList) (hsize : (rawForm quote s).utf8ByteSize ≤ countLimit) :
    scan (rawForm quote s) = .ok [⟨.atom (.string s), .start, after (rawForm quote s).toList⟩] := by
  have hfront : front (.initial .plain) 0 .nothing .start (rawForm quote s).toList
      = .atom (.string s) (rawForm quote s).toList [] := by
    rw [toList_rawForm]
    show Lexeme.atSign .start (quote :: (s.toList ++ [quote])) = _
    rw [Lexeme.atSign, if_pos hquote, Lexeme.raw_of_notMem _ h, String.ofList_toList]
    rfl
  exact scan_of_atom (by rwa [byteLength_toList]) (by intro h; cases h) hfront

theorem scan_templateForm {s : String} (h : '{' ∉ s.toList)
    (hsize : (templateForm s).utf8ByteSize ≤ countLimit) :
    scan (templateForm s)
      = .ok [⟨.template (writtenTemplate s), .start, after (templateForm s).toList⟩] := by
  have htemplate : scanTemplate (.initial .plain) .start
      (.start (Position.start.advance Front.templateOpening)) (encodeEscapes s.toList ++ ['"'])
      = .ok ⟨writtenTemplate s, encodeEscapes s.toList⟩ := by
    rw [scanTemplate_encodeEscapes _ _ _ h, finish_encodeEscapes]
  exact scan_of_template (by rwa [byteLength_toList]) (toList_templateForm s) htemplate

/-- Every text can be written, and the three forms of a literal agree on it: each of them is one
token, which takes the whole source and holds the text. -/
theorem scan_written (s : String) :
    ((quotedForm s).utf8ByteSize ≤ countLimit →
      scan (quotedForm s) = .ok [⟨.atom (.string s), .start, after (quotedForm s).toList⟩]) ∧
    (∀ quote, quote = '"' ∨ quote = '\'' → quote ∉ s.toList →
      (rawForm quote s).utf8ByteSize ≤ countLimit →
      scan (rawForm quote s) = .ok [⟨.atom (.string s), .start, after (rawForm quote s).toList⟩]) ∧
    ('{' ∉ s.toList → (templateForm s).utf8ByteSize ≤ countLimit →
      scan (templateForm s)
        = .ok [⟨.template (writtenTemplate s), .start, after (templateForm s).toList⟩]) :=
  ⟨scan_quotedForm, fun _ hquote => scan_rawForm hquote, scan_templateForm⟩

/-- a backslash, a quote and a line break, in each form that may hold them; raw strings reach over two
lines -/
theorem scan_written_escapes :
    scan "\"\\\\\\\"\\n\x7b\"" = .ok [⟨.atom (.string "\\\"\n\x7b"), .start, ⟨9, 0, 0⟩⟩] ∧
      scan "@\"\\'\n\"" = .ok [⟨.atom (.string "\\'\n"), .start, ⟨6, 1, 5⟩⟩] ∧
      scan "@'\\\"\n'" = .ok [⟨.atom (.string "\\\"\n"), .start, ⟨6, 1, 5⟩⟩] ∧
      scan "$\"\\\\\\\"\\n\x7d\""
        = .ok [⟨.template ⟨"\\\\\\\"\\n\x7d", "\\\"\n\x7d", []⟩, .start, ⟨10, 0, 0⟩⟩] := by
  refine ⟨(scan_written "\\\"\n\x7b").1 ?_, (scan_written "\\'\n").2.1 '"' ?_ ?_ ?_,
    (scan_written "\\\"\n").2.1 '\'' ?_ ?_ ?_, (scan_written "\\\"\n\x7d").2.2 ?_ ?_⟩
  all_goals decide

end ScriptLexer
