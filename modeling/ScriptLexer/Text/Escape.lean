import ScriptLexer.Number.Digits
import ScriptLexer.Text.Bytes

/-!
# Escape sequences

A backslash in a quoted body begins an escape sequence, which stands for one character:

* one of `\ " '`              that character;
* one of `r n b f t v a`      a control character;
* a digit from `0` to `7`     the code point of that value;
* `x` and two hexadecimal digits, `u` and four of them: the code point that they name.

`readEscape` reads the sequence behind one backslash, `decodeEscapes` a whole body.  The numbered
forms take exactly their two or four digits, so more digits behind them stand for themselves.  A
failure is placed at the byte offset of its backslash.

`encodeEscapes` writes any text as a body; `decodeEscapes_encodeEscapes` says that it is read back.
-/

namespace ScriptLexer

/-! ## one sequence -/

/-- why an escape sequence stands for no character -/
inductive EscapeCause where
  | unknown (c : Char)
  | empty
  | notEnoughDigits (escape : Char) (expected found : Nat)
  | invalidCodePoint (value : Nat)
deriving DecidableEq, Repr

/-- a failure with the byte offset of its backslash in the body -/
structure EscapeError where
  cause : EscapeCause
  offset : Nat
deriving DecidableEq, Repr

/-- the sequences of one character behind the backslash, with what they stand for -/
def simpleEscapes : List (Char × Char) :=
  [ ('\\', '\\'), ('"', '"'), ('\'', '\''), ('r', '\r'), ('n', '\n'), ('b', '\x08'),
    ('f', '\x0c'), ('t', '\t'), ('v', '\x0b'), ('a', '\x07'), ('0', '\x00'), ('1', '\x01'),
    ('2', '\x02'), ('3', '\x03'), ('4', '\x04'), ('5', '\x05'), ('6', '\x06'), ('7', '\x07')]

/-- the number of digits of a sequence that names a code point -/
def hexEscapes : List (Char × Nat) := [ ('u', 4), ('x', 2)]

/-- exactly `count` hexadecimal digits, as the character that they name -/
def readHex (escape : Char) (count : Nat) (cs : List Char) : Except EscapeCause Char :=
  let digits := (cs.take count).takeWhile isHexDigit
  let value := digitsValue 16 digits
  if digits.length < count then .error (.notEnoughDigits escape count digits.length)
  else if value.isValidChar then .ok (Char.ofNat value)
  else .error (.invalidCodePoint value)

/-- the sequence behind a backslash: its character, and how many characters it takes -/
def readEscape : List Char → Except EscapeCause (Char × Nat)
  | [] => .error .empty
  | c :: cs =>
    match simpleEscapes.lookup c, hexEscapes.lookup c with
    | some d, _ => .ok (d, 1)
    | none, some count => (readHex c count cs).map fun d => (d, count + 1)
    | none, none => .error (.unknown c)

/-! ## a body -/

/-- the body read on from byte `offset`, with the characters decoded so far, the last one first -/
def decodeFrom (offset : Nat) (done : List Char) : List Char → Except EscapeError (List Char)
  | [] => .ok done.reverse
  | c :: cs =>
    if c = '\\' then
      match readEscape cs with
      | .ok (d, count) => decodeFrom (offset + 1 + count) (d :: done) (cs.drop count)
      | .error cause => .error ⟨cause, offset⟩
    else decodeFrom (offset + c.utf8Size) (c :: done) cs
termination_by cs => cs.length
decreasing_by
  all_goals simp only [List.length_cons, List.length_drop]
  all_goals omega

/-- the text that a body stands for -/
def decodeEscapes (body : List Char) : Except EscapeError (List Char) := decodeFrom 0 [] body

/-- a body without a backslash stands for itself -/
def isPlainBody (body : List Char) : Bool := !body.contains '\\'

theorem decodeFrom_nil (offset : Nat) (done : List Char) :
    decodeFrom offset done [] = .ok done.reverse := by
  rw [decodeFrom]

theorem decodeFrom_of_ne (offset : Nat) (done : List Char) {c : Char} (h : c ≠ '\\')
    (cs : List Char) :
    decodeFrom offset done (c :: cs) = decodeFrom (offset + c.utf8Size) (c :: done) cs := by
  rw [decodeFrom, if_neg h]

theorem decodeFrom_simple (offset : Nat) (done : List Char) {c d : Char}
    (h : simpleEscapes.lookup c = some d) (cs : List Char) :
    decodeFrom offset done ('\\' :: c :: cs) = decodeFrom (offset + 2) (d :: done) cs := by
  rw [decodeFrom, if_pos rfl]
  simp only [readEscape, h, List.drop_succ_cons, List.drop_zero]

theorem decodeFrom_plain (offset : Nat) (done body : List Char) (h : isPlainBody body = true) :
    decodeFrom offset done body = .ok (done.reverse ++ body) := by
  induction body generalizing offset done with
  | nil => rw [decodeFrom_nil, List.append_nil]
  | cons c cs ih =>
    have hm : '\\' ∉ c :: cs := by simpa [isPlainBody] using h
    have hc : c ≠ '\\' := fun e => hm (e ▸ List.mem_cons_self)
    have hcs : isPlainBody cs = true := by
      simpa [isPlainBody] using fun m => hm (List.mem_cons_of_mem c m)
    rw [decodeFrom_of_ne offset done hc, ih _ _ hcs, List.reverse_cons, List.append_assoc]
    rfl

/-- nothing changes in a body without a backslash -/
theorem decodeEscapes_plain (body : List Char) (h : isPlainBody body = true) :
    decodeEscapes body = .ok body := decodeFrom_plain 0 [] body h

/-! ## writing a body -/

/-- a character as it may stand in a body -/
def encodeEscape (c : Char) : List Char :=
  if c = '\\' then ['\\', '\\'] else if c = '"' then ['\\', '"']
  else if c = '\n' then ['\\', 'n'] else [c]

/-- a text as a body: backslash, quote and line break are escaped -/
def encodeEscapes (text : List Char) : List Char := text.flatMap encodeEscape

theorem decodeFrom_encodeEscape (offset : Nat) (done : List Char) (c : Char) (cs : List Char) :
    ∃ next, decodeFrom offset done (encodeEscape c ++ cs) = decodeFrom next (c :: done) cs := by
  unfold encodeEscape
  split
  · rename_i h; subst h; exact ⟨_, decodeFrom_simple offset done rfl cs⟩
  · rename_i hb
    split
    · rename_i h; subst h; exact ⟨_, decodeFrom_simple offset done rfl cs⟩
    · split
      · rename_i h; subst h; exact ⟨_, decodeFrom_simple offset done rfl cs⟩
      · exact ⟨_, decodeFrom_of_ne offset done hb cs⟩

theorem decodeFrom_encodeEscapes (offset : Nat) (done text : List Char) :
    decodeFrom offset done (encodeEscapes text) = .ok (done.reverse ++ text) := by
  induction text generalizing offset done with
  | nil => rw [encodeEscapes, List.flatMap_nil, decodeFrom_nil, List.append_nil]
  | cons c cs ih =>
    rw [encodeEscapes, List.flatMap_cons]
    obtain ⟨next, h⟩ := decodeFrom_encodeEscape offset done c (cs.flatMap encodeEscape)
    rw [h]
    exact (ih next (c :: done)).trans (by rw [List.reverse_cons, List.append_assoc]; rfl)

/-- every text can be written as a body -/
theorem decodeEscapes_encodeEscapes (text : List Char) :
    decodeEscapes (encodeEscapes text) = .ok text := decodeFrom_encodeEscapes 0 [] text

end ScriptLexer
