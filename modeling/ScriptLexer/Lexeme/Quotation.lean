import ScriptLexer.Scan.Front

/-!
# Quoted strings

* `quoted`   a string on one line between double quotes, with escape sequences;
* `raw`      a string between quotes of either kind behind `@`: no escapes, any number of lines.

`quotedBody` looks for the quote that ends a quoted string: one behind a backslash does not, but
a backslash never hides a line break.  An escape sequence that cannot be decoded is placed where its
backslash stands in the source.
-/

namespace ScriptLexer.Lexeme

/-- how the text behind an opening quote goes on: to a closing quote with a rest behind it, to a line
break, or to the end -/
inductive QuotedEnd where
  | closed (body rest : List Char)
  | lineBreak (before : List Char)
  | unterminated
deriving DecidableEq, Repr

/-- the body of a quoted string; `done` was read before, the last character first -/
def quotedBody (done : List Char) : List Char → QuotedEnd
  | [] => .unterminated
  | '"' :: cs => .closed done.reverse cs
  | '\n' :: _ => .lineBreak done.reverse
  | '\\' :: c :: cs =>
    if c = '\n' then .lineBreak ('\\' :: done).reverse else quotedBody (c :: '\\' :: done) cs
  | c :: cs => quotedBody (c :: done) cs

/-- a string between double quotes, the opening one read -/
def quoted (start : Position) (cs : List Char) : Front :=
  match quotedBody [] cs with
  | .unterminated => .fail (.report .unterminatedString (start.advance ('"' :: cs)) start.offset)
  | .lineBreak before =>
    .fail (.report .newlineInString (start.advance ('"' :: before)) start.offset)
  | .closed body rest =>
    match decodeEscapes body with
    | .ok text => .atom (.string (String.ofList text)) ('"' :: body ++ ['"']) rest
    | .error e =>
      .fail (.ofEscape e.cause { start with offset := start.offset + 1 + e.offset }
        (.insideString start.offset))

/-- a string between two of the characters `quote`, which `@` and the first of them announce -/
def raw (start : Position) (quote : Char) (cs : List Char) : Front :=
  let body := cs.takeWhile (· != quote)
  match cs.dropWhile (· != quote) with
  | _ :: rest => .atom (.string (String.ofList body)) ('@' :: quote :: body ++ [quote]) rest
  | [] =>
    .fail (.report (.unterminatedRawString quote) (start.advance ('@' :: quote :: cs)) start.offset)

/-! ## nothing is lost -/

theorem quotedBody_append (done cs : List Char) {body rest : List Char}
    (h : quotedBody done cs = .closed body rest) : body ++ '"' :: rest = done.reverse ++ cs := by
  fun_induction quotedBody done cs with
  | case1 => cases h
  | case2 done cs => cases h; rfl
  | case3 => cases h
  | case4 => cases h
  | case5 done c cs _ ih =>
    rw [ih h]
    simp
  | case6 done c cs _ _ _ ih =>
    rw [ih h]
    simp

theorem quoted_takes (start : Position) (cs : List Char) :
    (quoted start cs).Takes ('"' :: cs) := by
  unfold quoted
  split
  · trivial
  · trivial
  · rename_i body rest h
    have happ := quotedBody_append [] cs h
    rw [List.reverse_nil, List.nil_append] at happ
    split
    · exact ⟨by rw [← happ]; simp, by simp⟩
    · trivial

theorem raw_takes (start : Position) (quote : Char) (cs : List Char) :
    (raw start quote cs).Takes ('@' :: quote :: cs) := by
  unfold raw
  simp only
  split
  · rename_i q rest h
    have hq : q = quote := by
      have := List.head?_dropWhile_not (· != quote) cs
      rw [h] at this
      simpa using this
    subst hq
    have happ : cs.takeWhile (· != q) ++ q :: rest = cs := by
      rw [← h, List.takeWhile_append_dropWhile]
    exact ⟨by simp [happ], by simp⟩
  · trivial

end ScriptLexer.Lexeme
