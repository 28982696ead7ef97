import ScriptLexer.Scan.Front

/-!
# Pieces of a template

The text of a template is read piece by piece: a run of text that stands for itself, the brace that
opens a section, or the quote that closes the template.

A backslash hides the quote or the backslash behind it, and nothing else: behind a backslash a brace
still opens a section, and a line break is an error anywhere outside of a section.
-/

namespace ScriptLexer

/-- what stands at the front of the text of a template, with the text behind it -/
inductive Piece where
  | text (taken rest : List Char)
  | brace (rest : List Char)
  | quote (rest : List Char)
  | fail (cause : Cause)
deriving DecidableEq, Repr

namespace Piece

/-- the piece takes at least one character from the front of `cs` and leaves the rest -/
def Takes (cs : List Char) : Piece → Prop
  | text taken rest => taken ++ rest = cs ∧ taken ≠ []
  | brace rest => '{' :: rest = cs
  | quote rest => '"' :: rest = cs
  | fail _ => True

theorem Takes.text_lt {cs taken rest : List Char} (h : Takes cs (.text taken rest)) :
    rest.length < cs.length := by
  obtain ⟨rfl, hne⟩ := h
  have := List.length_pos_iff.mpr hne
  simp only [List.length_append]
  omega

theorem Takes.brace_lt {cs rest : List Char} (h : Takes cs (.brace rest)) :
    rest.length < cs.length := by
  have h' : '{' :: rest = cs := h
  subst h'
  simp

end Piece

/-- the first piece of the text of a template -/
def piece : List Char → Piece
  | [] => .fail .unterminatedTemplate
  | '\n' :: _ => .fail .newlineInTemplate
  | '"' :: rest => .quote rest
  | '{' :: rest => .brace rest
  | '\\' :: '"' :: rest => .text ['\\', '"'] rest
  | '\\' :: '\\' :: rest => .text ['\\', '\\'] rest
  | c :: rest => .text [c] rest

theorem piece_takes (cs : List Char) : (piece cs).Takes cs := by
  unfold piece
  split
  · trivial
  · trivial
  · rfl
  · rfl
  · exact ⟨rfl, by simp⟩
  · exact ⟨rfl, by simp⟩
  · exact ⟨rfl, by simp⟩

end ScriptLexer
