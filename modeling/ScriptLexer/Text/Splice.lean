import ScriptLexer.Span

/-!
# Spans of a text replaced

A list of spans is replaced in a text, the span number `i` by `write i`, in two ways:

* `fill? write text spans`             one pass from left to right that copies what lies between the
                                       spans; it fails unless the spans are slices in their order;
* `replaceBackward? write text spans`  one replacement after another in the text itself, the last
                                       span first, so that the places of the others stay.
-/

namespace ScriptLexer

variable (write : Nat → List Char)

/-- the text from the byte `start` on, with its spans replaced; the first of them has the number
`index` -/
def fillFrom? (text : List Char) : Nat → Nat → List Span → Option (List Char)
  | _, start, [] => slice? text start (byteLength text)
  | index, start, s :: spans => do
    let gap ← slice? text start s.start
    let _ ← slice? text s.start s.stop
    let rest ← fillFrom? text (index + 1) s.stop spans
    return gap ++ write index ++ rest

/-- the text with its spans replaced, in one pass from left to right -/
def fill? (text : List Char) (spans : List Span) : Option (List Char) :=
  fillFrom? write text 0 0 spans

/-- the text with another text in place of a span -/
def replaceRange? (text : List Char) (s : Span) (new : List Char) : Option (List Char) := do
  let front ← slice? text 0 s.start
  let _ ← slice? text s.start s.stop
  let back ← slice? text s.stop (byteLength text)
  return front ++ new ++ back

/-- the text with its spans replaced one after another, from the last to the first -/
def replaceBackward? (text : List Char) (spans : List Span) : Option (List Char) :=
  spans.zipIdx.foldr (fun s done => done.bind fun t => replaceRange? t s.1 (write s.2)) (some text)

end ScriptLexer
