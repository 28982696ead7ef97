import ScriptLexer.Scan.Front

/-!
# Comments

* `line`    from `//` to the end of the line, which is left for the scan;
* `block`   from `/*` to the `*/` that balances it, over any number of lines.

`blockBody` reads the text of a block comment: two-character delimiters, which never overlap, raise
and lower a depth.  `blockBody_append` says that the text, the closing delimiter and the rest make
up what was read.
-/

namespace ScriptLexer.Lexeme

/-- the text of a block comment up to the delimiter that closes it, and what follows that; `depth`
comments are open inside it, and `done` was read before, the last character first -/
def blockBody (depth : Nat) (done : List Char) : List Char → Option (List Char × List Char)
  | [] => none
  | '/' :: '*' :: cs => blockBody (depth + 1) ('*' :: '/' :: done) cs
  | '*' :: '/' :: cs =>
    match depth with
    | 0 => some (done.reverse, cs)
    | depth + 1 => blockBody depth ('/' :: '*' :: done) cs
  | c :: cs => blockBody depth (c :: done) cs

/-- a comment to the end of the line, its slashes read -/
def line (cs : List Char) : Front :=
  let text := cs.takeWhile (· != '\n')
  .atom (.comment .line (String.ofList text)) ('/' :: '/' :: text) (cs.dropWhile (· != '\n'))

/-- a comment between delimiters, the opening one read -/
def block (start : Position) (cs : List Char) : Front :=
  match blockBody 0 [] cs with
  | some (text, rest) =>
    .atom (.comment .block (String.ofList text)) ('/' :: '*' :: text ++ ['*', '/']) rest
  | none =>
    .fail (.report .unterminatedBlockComment (start.advance ('/' :: '*' :: cs)) start.offset)

/-! ## nothing is lost -/

theorem blockBody_append (depth : Nat) (done cs : List Char) {text rest : List Char}
    (h : blockBody depth done cs = some (text, rest)) :
    text ++ '*' :: '/' :: rest = done.reverse ++ cs := by
  fun_induction blockBody depth done cs with
  | case1 => cases h
  | case2 depth done cs ih =>
    rw [ih h]
    simp
  | case3 done cs => cases h; rfl
  | case4 done cs depth ih =>
    rw [ih h]
    simp
  | case5 depth done c cs _ _ ih =>
    rw [ih h]
    simp

theorem line_takes (cs : List Char) : (line cs).Takes ('/' :: '/' :: cs) := by
  refine ⟨?_, by simp⟩
  rw [List.cons_append, List.cons_append, List.takeWhile_append_dropWhile]

theorem block_takes (start : Position) (cs : List Char) :
    (block start cs).Takes ('/' :: '*' :: cs) := by
  unfold block
  split
  · rename_i text rest h
    have happ := blockBody_append 0 [] cs h
    rw [List.reverse_nil, List.nil_append] at happ
    exact ⟨by rw [← happ]; simp, by simp⟩
  · trivial

end ScriptLexer.Lexeme
