import ScriptLexer.Lexeme.Template
import ScriptLexer.Scan.Dispatch
import ScriptLexer.Scan.State

/-!
# The scan

`scanTokens` reads one list of tokens: a whole source, the body of a macro, or a section of a
template.  It stops in front of the line break or brace that ends its scope, and its caller takes
that one.  `scanTemplate` reads a template between its quotes; the two call each other.

Both recursions are measured by the text that is left: every decision takes at least one character
(`front_takes`, `piece_takes`), and an inner list is read from a text that is shorter already.  What follows an
inner list is found by its number of characters.

`scan` and `scanToEnd` are the entry points.
-/

namespace ScriptLexer

mutual

/-- the tokens of `cs` up to the end of the scope, read on from the state `st` -/
def scanTokens (scope : Scope) (st : State) (cs : List Char) : Except LexError Scan :=
  match h : front scope st.depth st.behind st.position cs with
  | .fail e => .error e
  | .exit e => .ok (st.finish e)
  | .blank c rest =>
    have := (h ▸ front_takes scope st.depth st.behind st.position cs).blank_lt
    scanTokens scope (st.skip c) rest
  | .atom a text rest =>
    have := (h ▸ front_takes scope st.depth st.behind st.position cs).atom_lt
    scanTokens scope (st.push (.atom a) text) rest
  | .template rest =>
    have := (h ▸ front_takes scope st.depth st.behind st.position cs).template_lt
    let opening := Front.templateOpening
    match scanTemplate scope st.position (.start (st.position.advance opening)) rest with
    | .error e => .error e
    | .ok t =>
      scanTokens scope (st.push (.template t.template) (opening ++ t.body ++ ['"']))
        (rest.drop (t.body.length + 1))
  | .macroDef header rest =>
    have := (h ▸ front_takes scope st.depth st.behind st.position cs).macroDef_lt
    match scanTokens (.bodyAt header.nameStart.offset) (.start header.nameStop) rest with
    | .error e => .error e
    | .ok body =>
      let text := header.names ++ rest.take body.count
      let m : MacroDef Token :=
        ⟨header.name, header.configuration, String.ofList text, header.nameStart, header.nameStop,
          body.tokens⟩
      scanTokens scope (st.push (.macroDef m) (header.lead ++ text)) (rest.drop body.count)
termination_by cs.length
decreasing_by
  all_goals try simp only [List.length_drop]
  all_goals omega

/-- the template that begins at `start`, read on from the draft `d` to its closing quote -/
def scanTemplate (scope : Scope) (start : Position) (d : Draft) (cs : List Char) :
    Except LexError TemplateScan :=
  match h : piece cs with
  | .fail cause => .error (.report cause d.position start.offset)
  | .quote _ => d.finish start
  | .text taken rest =>
    have := (h ▸ piece_takes cs).text_lt
    scanTemplate scope start (d.addText taken) rest
  | .brace rest =>
    have := (h ▸ piece_takes cs).brace_lt
    match scanTokens (scope.sectionAt d.position.offset) (.start (d.position.next '{')) rest with
    | .error e => .error e
    | .ok s =>
      scanTemplate scope start
        (d.addSection (start.offset + byteLength Front.templateOpening) (rest.take s.count) s.tokens)
        (rest.drop (s.count + 1))
termination_by cs.length
decreasing_by
  all_goals try simp only [List.length_drop]
  all_goals omega

end

/-! ## entry points -/

/-- the scan of a whole source that begins in a mode, unless its offsets would not be counts -/
def scanSource (source : String) (mode : Mode) : Except LexError Scan :=
  if countLimit < source.utf8ByteSize then .error .ofSourceSize
  else scanTokens (.initial mode) (.start .start) source.toList

/-- the tokens of a source, up to the end of the mode that it begins in -/
def scan (source : String) (mode : Mode := .plain) : Except LexError (List Token) :=
  (scanSource source mode).map Scan.tokens

/-- the tokens of a source, with one more that marks the end of input -/
def scanToEnd (source : String) (mode : Mode := .plain) : Except LexError (List Token) :=
  (scanSource source mode).map fun s =>
    s.tokens ++ [⟨.atom .endOfInput, s.endPosition, s.endPosition⟩]

end ScriptLexer
