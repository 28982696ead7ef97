import ScriptLexer.Proofs.Machine.Literals
import ScriptLexer.Proofs.Machine.Nested
import ScriptLexer.Proofs.Machine.Signs

/-!
# Lexemes by their first character

`lexeme_settles` compares what a turn does with the library's decision where the scope and what comes
inside of a token do not matter; the other characters have a say in how the list goes on.
-/

namespace ScriptLexer

open Position (after)

theorem Kind.isFloat_iff (k : Kind) : k.isFloat = true ↔ k.behind = .float := by
  cases k with
  | template t => simp [Kind.isFloat, Kind.behind]
  | macroDef m => simp [Kind.isFloat, Kind.behind]
  | atom x =>
    cases x with
    | number n =>
      simp only [Kind.isFloat, Kind.behind, Atom.behind, beq_iff_eq]
      split <;> simp [*]
    | comment style text => cases style <;> simp [Kind.isFloat, Kind.behind, Atom.behind]
    | _ => simp [Kind.isFloat, Kind.behind, Atom.behind]

namespace Machine

/-! ## one lexeme -/

variable {a b : List Char}

theorem atSign_settles (m : Machine) (ts : List Token)
    (hfit : byteLength (a ++ '@' :: b) ≤ countLimit) :
    m.Settles ts a (Lexeme.atSign (after a) b) (atSign (after a) (m.stand ts (a ++ ['@']) b)) := by
  rw [atSign, peek_stand, Run.ok_bind]
  cases b with
  | nil => rfl
  | cons q cs =>
    rw [Lexeme.atSign]
    by_cases hquote : q = '"' ∨ q = '\''
    · have hpeek : (List.head? (q :: cs)).any (fun q => q == '"' || q == '\'') = true := by
        simpa using hquote
      rw [if_pos hquote, if_pos hpeek]
      exact rawString_settles hquote hfit
    · have hpeek : (List.head? (q :: cs)).any (fun q => q == '"' || q == '\'') = false := by
        simpa using hquote
      rw [if_neg hquote, hpeek]
      rfl

theorem point_settles (m : Machine) {ts : List Token} {behind : Behind}
    (hfloat : (m.stand ts (a ++ ['.']) b).followsFloat (after a) = true ↔ behind = .float)
    (hfit : byteLength (a ++ '.' :: b) ≤ countLimit) :
    m.Settles ts a (Lexeme.point behind b) (point (after a) (m.stand ts (a ++ ['.']) b)) := by
  rw [point, peek_stand, Run.ok_bind]
  cases b with
  | nil => exact single_settles (by decide) hfit
  | cons c cs =>
    rw [Lexeme.point]
    by_cases hdigit : c.isDigit = true ∧ behind ≠ .float
    · have hfollows : (m.stand ts (a ++ ['.']) (c :: cs)).followsFloat (after a) = false :=
        Bool.eq_false_iff.mpr fun h => hdigit.2 (hfloat.mp h)
      have hpart : isDecimalPart c = true := by
        rw [isDecimalPart, hdigit.1]
        rfl
      have hfirst : ∃ d ∈ [] ++ (c :: cs).takeWhile isDecimalPart, d.isDigit = true := by
        rw [List.nil_append, List.takeWhile_cons_of_pos hpart]
        exact ⟨c, List.mem_cons_self, hdigit.1⟩
      rw [if_pos hdigit, hfollows, List.head?_cons]
      simp only [Option.any_some, hdigit.1, Bool.not_false, Bool.and_self, reduceIte]
      rw [rewind_stand (by decide)]
      have hnone : ∀ d ∈ ([] : List Char), isDecimalPart d = true := fun d hd =>
        absurd hd List.not_mem_nil
      exact decimalNumber_float hnone hfirst hfit
    · have hpeek : ((List.head? (c :: cs)).any Char.isDigit
          && !(m.stand ts (a ++ ['.']) (c :: cs)).followsFloat (after a)) = false := by
        refine Bool.eq_false_iff.mpr fun h => hdigit ?_
        rw [Bool.and_eq_true, Bool.not_eq_true'] at h
        exact ⟨h.1, fun hb => Bool.eq_false_iff.mp h.2 (hfloat.mpr hb)⟩
      rw [if_neg hdigit, hpeek]
      exact single_settles (by decide) hfit

theorem number_settles (m : Machine) (ts : List Token) {c : Char} (hc : c.isDigit = true)
    (hfit : byteLength (a ++ c :: b) ≤ countLimit) :
    m.Settles ts a (Lexeme.numeral (after a) c b) (number (after a) c (m.stand ts (a ++ [c]) b)) := by
  have hbreak : c ≠ '\n' := by
    rintro rfl
    exact absurd hc (by decide)
  have hdecimal : m.Settles ts a (Lexeme.decimal (after a) c b)
      ((m.stand ts (a ++ [c]) b).rewind >>= decimalNumber (after a)) := by
    rw [rewind_stand hbreak]
    exact decimalNumber_settles hc hfit
  rw [number]
  cases b with
  | nil =>
    rw [eatIf_stand_neg (by simp), Run.ok_bind]
    simp only [Bool.false_eq_true, reduceIte]
    rw [eatIf_stand_neg (by simp)]
    exact hdecimal
  | cons d cs =>
    rw [Lexeme.numeral]
    have hlead : a ++ [c] ++ [d] = a ++ [c, d] := by simp
    have hwhole : a ++ [c, d] ++ cs = a ++ c :: d :: cs := by simp
    by_cases hhex : c = '0' ∧ (d = 'x' ∨ d = 'X')
    · have hd : d ≠ '\n' := by rcases hhex.2 with rfl | rfl <;> decide
      rw [if_pos hhex, eatIf_stand_pos hd (by simpa using hhex), Run.ok_bind, hlead]
      exact radixNumber_settles .hexadecimal .hex [c, d] (by rw [hwhole]; exact hfit)
    rw [if_neg hhex, eatIf_stand_neg (by simpa using hhex), Run.ok_bind]
    simp only [Bool.false_eq_true, reduceIte]
    by_cases hbinary : c = '0' ∧ (d = 'b' ∨ d = 'B')
    · have hd : d ≠ '\n' := by rcases hbinary.2 with rfl | rfl <;> decide
      rw [if_pos hbinary, eatIf_stand_pos hd (by simpa using hbinary), Run.ok_bind, hlead]
      exact radixNumber_settles .binary .binary [c, d] (by rw [hwhole]; exact hfit)
    rw [if_neg hbinary, eatIf_stand_neg (by simpa using hbinary)]
    exact hdecimal

theorem lexeme_settles (m : Machine) {ts : List Token} {c : Char} {behind : Behind}
    (hblank : isBlank c = false) (hquote : c ≠ '"') (hdollar : c ≠ '$') (hslash : c ≠ '/')
    (hbrace : c ≠ '{' ∧ c ≠ '}') (hbreak : c ≠ '\n')
    (hfloat : (m.stand ts (a ++ [c]) b).followsFloat (after a) = true ↔ behind = .float)
    (hfit : byteLength (a ++ c :: b) ≤ countLimit) :
    m.Settles ts a (ScriptLexer.lexeme behind (after a) c b)
      (lexeme (after a) c (m.stand ts (a ++ [c]) b)) := by
  rw [ScriptLexer.lexeme, if_neg (by simp [hblank]), lexeme]
  by_cases hat : c = '@'
  · subst hat
    exact atSign_settles m ts hfit
  by_cases hdot : c = '.'
  · subst hdot
    exact point_settles m hfloat hfit
  rw [if_neg hdot, if_neg hquote, if_neg hat, if_neg hdollar, if_neg hslash, if_neg hat, if_neg hdot]
  by_cases hword : isWordStart c = true
  · rw [if_pos hword, if_pos hword, rewind_stand hbreak]
    exact identifier_settles hword hfit
  rw [if_neg hword, if_neg hword]
  by_cases hdigit : c.isDigit = true
  · rw [if_pos hdigit, if_pos hdigit]
    exact number_settles m ts hdigit hfit
  · rw [if_neg hdigit, if_neg hdigit]
    exact sign_settles hbrace ⟨hdot, hslash⟩ hfit

end Machine

end ScriptLexer
