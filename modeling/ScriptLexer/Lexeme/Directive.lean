import ScriptLexer.Scan.Front

/-!
# Directives

Everything that begins with `#`.  The word behind it decides:

* `region`, `endregion`   a marker that takes the rest of its line as text;
* `macro`                 a macro definition, of which only the header is read here;
* hexadecimal digits      a colour, which must have six of them;
* any other word          an error.

A header is a name, or a configuration and a name joined by `:` without blanks.
-/

namespace ScriptLexer.Lexeme

/-! ## regions -/

/-- a region marker whose atom is `atom text`; `lead` holds `#` and the word behind it -/
def region (atom : String → Atom) (lead cs : List Char) : Front :=
  let blanks := cs.takeWhile isBlank
  let behind := cs.dropWhile isBlank
  let text := behind.takeWhile (· != '\n')
  .atom (atom (String.ofList text)) (lead ++ blanks ++ text) (behind.dropWhile (· != '\n'))

/-! ## colours -/

/-- the number of digits of a colour -/
def colourDigits : Nat := 6

/-- a colour with the digits `digits`, stored with red and blue exchanged -/
def colour (start : Position) (digits rest : List Char) : Front :=
  let count := digitCount digits
  if count < colourDigits then
    .fail (.report (.notEnoughColourDigits count) start start.offset)
  else if colourDigits < count then
    .fail (.report (.tooManyColourDigits count) start start.offset)
  else
    match readDigits? Base.hexadecimal.value digits with
    | some n => .atom (.number (.integer (.ofNat (swapColour n)) .colour)) ('#' :: digits) rest
    | none => .fail (.report .integerOverflow start start.offset)

/-! ## macro headers -/

/-- a name of a header: the name and the text behind it -/
def macroName (p : Position) : List Char → Except LexError (List Char × List Char)
  | [] => .error (.report .macroNameExpected p p.offset)
  | c :: cs =>
    if c = '\n' then .error (.report .macroNameExpected p p.offset)
    else if isWordStart c then .ok (c :: cs.takeWhile isWordPart, cs.dropWhile isWordPart)
    else .error (.report (.malformedMacroName c) p p.offset)

/-- the header behind `#macro`, which `lead` holds -/
def macroHeader (start : Position) (lead cs : List Char) : Front :=
  let lead := lead ++ cs.takeWhile isBlank
  let p := start.advance lead
  match macroName p (cs.dropWhile isBlank) with
  | .error e => .fail e
  | .ok (first, ':' :: rest) =>
    let q := p.advance (first ++ [':'])
    match macroName q rest with
    | .error e => .fail e
    | .ok (name, rest) =>
      .macroDef ⟨String.ofList name, some (String.ofList first), lead, first ++ ':' :: name, p,
        q.advance name⟩ rest
  | .ok (name, rest) =>
    .macroDef ⟨String.ofList name, none, lead, name, p, p.advance name⟩ rest

/-! ## the directive -/

/-- what begins with `#`, which has been read, in a scope -/
def directive (scope : Scope) (start : Position) (cs : List Char) : Front :=
  let word := cs.takeWhile isWordPart
  let rest := cs.dropWhile isWordPart
  if word = "region".toList then region .region ('#' :: word) rest
  else if word = "endregion".toList then region .endRegion ('#' :: word) rest
  else if word = "macro".toList then
    if scope.inMacro then .fail (.report .nestedMacro start scope.start)
    else macroHeader start ('#' :: word) rest
  else if word.all isHexPart then colour start word rest
  else .fail (.report (.unknownDirective (String.ofList word)) start start.offset)

/-! ## nothing is lost -/

theorem region_takes (atom : String → Atom) {lead : List Char} (hne : lead ≠ []) (cs : List Char) :
    (region atom lead cs).Takes (lead ++ cs) := by
  refine ⟨?_, by simp [hne]⟩
  rw [List.append_assoc, List.takeWhile_append_dropWhile, List.append_assoc,
    List.takeWhile_append_dropWhile]

theorem colour_takes (start : Position) (digits rest : List Char) :
    (colour start digits rest).Takes ('#' :: digits ++ rest) := by
  unfold colour
  simp only
  split
  · trivial
  · split
    · trivial
    · split
      · exact ⟨rfl, by simp⟩
      · trivial

theorem macroName_append {p : Position} {cs name rest : List Char}
    (h : macroName p cs = .ok (name, rest)) : name ++ rest = cs := by
  cases cs with
  | nil => cases h
  | cons c cs =>
    rw [macroName] at h
    split at h
    · cases h
    · split at h
      · cases h
        rw [List.cons_append, List.takeWhile_append_dropWhile]
      · cases h

theorem macroHeader_takes (start : Position) {lead : List Char} (hne : lead ≠ [])
    (cs : List Char) : (macroHeader start lead cs).Takes (lead ++ cs) := by
  have hcs : cs.takeWhile isBlank ++ cs.dropWhile isBlank = cs := List.takeWhile_append_dropWhile
  unfold macroHeader
  simp only
  split
  · trivial
  · rename_i first rest h
    have hfirst := macroName_append h
    split
    · trivial
    · rename_i name rest' h'
      have hname := macroName_append h'
      refine ⟨Eq.trans ?_ (congrArg (lead ++ ·) hcs), by simp [hne]⟩
      rw [← hfirst, ← hname]
      simp
  · rename_i name rest _ h
    have hname := macroName_append h
    refine ⟨Eq.trans ?_ (congrArg (lead ++ ·) hcs), by simp [hne]⟩
    rw [← hname]
    simp

theorem directive_takes (scope : Scope) (start : Position) (cs : List Char) :
    (directive scope start cs).Takes ('#' :: cs) := by
  have hcs : '#' :: cs.takeWhile isWordPart ++ cs.dropWhile isWordPart = '#' :: cs := by
    rw [List.cons_append, List.takeWhile_append_dropWhile]
  unfold directive
  simp only
  rw [← hcs]
  split
  · exact region_takes _ (List.cons_ne_nil _ _) _
  · split
    · exact region_takes _ (List.cons_ne_nil _ _) _
    · split
      · split
        · trivial
        · exact macroHeader_takes start (List.cons_ne_nil _ _) _
      · split
        · exact colour_takes start _ _
        · trivial

end ScriptLexer.Lexeme
