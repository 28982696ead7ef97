import ScriptLexer.Machine.Checks
import ScriptLexer.Proofs.Splice

/-!
# Checks that hold

How a checked computation goes on from one step to the next, and for each operation the lemma that
says when its check holds.
-/

namespace ScriptLexer

namespace Run

variable {ε ε' α β : Type}

@[simp] theorem ok_bind (x : α) (k : α → Run ε β) : ((.ok x : Run ε α) >>= k) = k x := rfl

@[simp] theorem fail_bind (e : ε) (k : α → Run ε β) : ((fail e : Run ε α) >>= k) = fail e := rfl

@[simp] theorem pure_eq (x : α) : (pure x : Run ε α) = .ok x := rfl

@[simp] theorem withError_ok (g : ε → ε') (x : α) : withError g (.ok x : Run ε α) = .ok x := rfl

@[simp] theorem withError_fail (g : ε → ε') (e : ε) : withError g (fail e : Run ε α) = fail (g e) := rfl

@[simp] theorem ofExcept_ok (x : α) : ofExcept (.ok x : Except ε α) = .ok x := rfl

@[simp] theorem ofExcept_error (e : ε) : ofExcept (.error e : Except ε α) = fail e := rfl

/-- no check fails -/
theorem ofExcept_ne_fault (r : Except ε α) (f : Fault) : ofExcept r ≠ fault f := by
  cases r with
  | ok x =>
    intro h
    cases h
  | error e =>
    intro h
    cases h

theorem ofExcept_eq_ok {r : Except ε α} {x : α} (h : ofExcept r = .ok x) : r = .ok x := by
  cases r with
  | ok y =>
    cases h
    rfl
  | error e => cases h

theorem ofExcept_eq_fail {r : Except ε α} {e : ε} (h : ofExcept r = fail e) : r = .error e := by
  cases r with
  | ok y => cases h
  | error e' =>
    cases h
    rfl

/-! ## the operations -/

theorem slice_eq {text t : List Char} {start stop : Nat} (h : slice? text start stop = some t) :
    (slice text start stop : Run ε (List Char)) = .ok t := by
  rw [slice, h]

theorem count_eq {n : Nat} (h : n ≤ countLimit) : (count n : Run ε Nat) = .ok n := if_pos h

theorem increment_eq {n : Nat} (h : n + 1 ≤ countLimit) : (increment n : Run ε Nat) = .ok (n + 1) :=
  count_eq h

theorem subtract_eq {n k : Nat} (h : k ≤ n) : (subtract n k : Run ε Nat) = .ok (n - k) := if_pos h

theorem relativeTo_shift (s : Span) (base : Nat) :
    (relativeTo (s.shift base) base : Run ε Span) = .ok s := by
  rw [relativeTo, Span.relativeTo?_shift]

theorem replaceBackward_eq {text out : List Char} {spans : List Span}
    (h : fill? (Nat.toDigits 10) text spans = some out) :
    (replaceBackward text spans : Run ε (List Char)) = .ok out := by
  rw [replaceBackward, replaceBackward?_of_fill? h]

theorem token_eq {k : Kind} {start stop : Position} (h : start.offset ≤ stop.offset) :
    (token k start stop : Run ε Token) = .ok ⟨k, start, stop⟩ := if_pos h

end Run

end ScriptLexer
