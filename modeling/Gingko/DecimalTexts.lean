import Mathlib.Data.List.Induction
import Mathlib.Data.List.TakeWhile
import Mathlib.Tactic.IntervalCases

/-!
Numbers in decimal texts: the digits in front of a text, the number they stand for, and
the decimal text of that number.
-/
namespace Gingko.DecimalTexts

abbrev Text := List Char

/-- The digits in front of a text. -/
def digitsValue (text : Text) : ℕ := Nat.ofDigitChars 10 (text.takeWhile (·.isDigit)) 0

theorem isDigit_cases (c : Char) (hc : c.isDigit = true) :
    ∃ d < 10, c = Nat.digitChar d ∧ c.toNat - '0'.toNat = d := by
  simp only [Char.isDigit, Bool.and_eq_true, decide_eq_true_eq] at hc
  have hlow : 48 ≤ c.toNat := hc.1
  have hhigh : c.toNat ≤ 57 := hc.2
  have hself : Char.ofNat c.toNat = c := Char.ofNat_toNat c
  refine ⟨c.toNat - 48, by omega, ?_, rfl⟩
  rw [← hself]
  generalize c.toNat = n at hlow hhigh
  interval_cases n <;> rfl

/-- What is behind the digits does not count when it begins with no digit. -/
theorem digitsValue_append (digits rest : Text) (hdigits : ∀ c ∈ digits, c.isDigit = true)
    (hrest : ∀ c ∈ rest.head?, c.isDigit = false) :
    digitsValue (digits ++ rest) = Nat.ofDigitChars 10 digits 0 := by
  have hstop : rest.takeWhile (·.isDigit) = [] := by
    cases rest with
    | nil => rfl
    | cons c rest => rw [List.takeWhile_cons_of_neg (by simp [hrest c rfl])]
  rw [digitsValue, List.takeWhile_append_of_pos hdigits, hstop, List.append_nil]

/-- Digits are the decimal text of their number behind zeros. -/
theorem digits_eq (text : Text) (hdigits : ∀ c ∈ text, c.isDigit = true) :
    ∃ zeros, text = List.replicate zeros '0' ++
      if Nat.ofDigitChars 10 text 0 = 0 then []
      else Nat.toDigits 10 (Nat.ofDigitChars 10 text 0) := by
  induction text using List.reverseRecOn with
  | nil => exact ⟨0, rfl⟩
  | append_singleton init c ih =>
    obtain ⟨hinit, hc⟩ := List.forall_mem_append.mp hdigits
    obtain ⟨d, hd, hchar, hvalue⟩ := isDigit_cases c (hc c (List.mem_singleton_self c))
    obtain ⟨zeros, hzeros⟩ := ih hinit
    have hnumber : Nat.ofDigitChars 10 (init ++ [c]) 0 = 10 * Nat.ofDigitChars 10 init 0 + d := by
      rw [Nat.ofDigitChars_append, Nat.ofDigitChars_cons, hvalue, Nat.ofDigitChars_nil]
    rw [hnumber]
    by_cases hinitzero : Nat.ofDigitChars 10 init 0 = 0
    · rw [if_pos hinitzero, List.append_nil] at hzeros
      rw [hinitzero, Nat.mul_zero, Nat.zero_add]
      by_cases hzero : d = 0
      · refine ⟨zeros + 1, ?_⟩
        rw [if_pos hzero, List.append_nil, List.replicate_succ', ← hzeros, hchar, hzero]
        rfl
      · refine ⟨zeros, ?_⟩
        rw [if_neg hzero, ← hzeros, Nat.toDigits_of_lt_base hd, hchar]
    · rw [if_neg hinitzero] at hzeros
      have hten : 10 ≤ 10 * Nat.ofDigitChars 10 init 0 + d := by omega
      refine ⟨zeros, ?_⟩
      rw [if_neg (by omega), Nat.toDigits_of_base_le (by decide) hten, ← List.append_assoc]
      have hquotient : (10 * Nat.ofDigitChars 10 init 0 + d) / 10 = Nat.ofDigitChars 10 init 0 := by
        omega
      have hrest : (10 * Nat.ofDigitChars 10 init 0 + d) % 10 = d := by omega
      rw [hquotient, hrest, ← hzeros, hchar]

end Gingko.DecimalTexts
