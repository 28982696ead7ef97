import ScriptLexer.Position

/-!
# Spans

A span is a half-open range of byte offsets.  Operations that would leave the 32-bit counts, or
that make no sense on a span whose end lies before its start, give `none`.

* `Span.shift s base`          the span `base` bytes further on;
* `Span.relativeTo? s base`    the span as seen from `base`, which undoes a shift;
* `Span.inner? s`              what a pair of one-byte brackets at the ends of the span encloses.
-/

namespace ScriptLexer

/-- a half-open range of byte offsets -/
structure Span where
  start : Nat
  stop : Nat
deriving DecidableEq, Repr

namespace Span

/-- the number of bytes, unless the end lies before the start -/
def length? (s : Span) : Option Nat :=
  if s.start ≤ s.stop then some (s.stop - s.start) else none

/-- no byte lies in the span because its ends meet -/
def isEmpty (s : Span) : Bool := s.start == s.stop

/-- the byte at `offset` belongs to the span -/
def contains (s : Span) (offset : Nat) : Bool := s.start ≤ offset && offset < s.stop

/-- both ends moved on by `base` bytes -/
def shift (s : Span) (base : Nat) : Span := ⟨s.start + base, s.stop + base⟩

/-- both ends counted from `base`, unless one lies before it -/
def relativeTo? (s : Span) (base : Nat) : Option Span :=
  if base ≤ s.start ∧ base ≤ s.stop then some ⟨s.start - base, s.stop - base⟩ else none

/-- one byte less at each end, if the new ends are counts -/
def inner? (s : Span) : Option Span :=
  if s.start + 1 ≤ countLimit ∧ 1 ≤ s.stop then some ⟨s.start + 1, s.stop - 1⟩ else none

/-- both offsets with two dots between them -/
def display (s : Span) : String := s!"{s.start}..{s.stop}"

theorem relativeTo?_shift (s : Span) (base : Nat) : (s.shift base).relativeTo? base = some s := by
  simp [shift, relativeTo?]

theorem shift_of_relativeTo? {s r : Span} {base : Nat} (h : s.relativeTo? base = some r) :
    r.shift base = s := by
  unfold relativeTo? at h
  split at h
  · rename_i hb
    cases h
    simp only [shift]
    rw [Nat.sub_add_cancel hb.1, Nat.sub_add_cancel hb.2]
  · cases h

end Span

end ScriptLexer
