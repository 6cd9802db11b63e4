import Mathlib.Data.Int.Notation
import Mathlib.Data.Nat.Notation

/-!
Random draws of the tracker. The raw value of a draw is an input of the model;
the reduction to a range is the code's, so its upper bound is exclusive and
a range of length zero or below has a fixed answer.
-/
namespace Gingko.RandomDraws

def getRandomNumber (randMax : ℤ) (raw : ℕ) : ℤ :=
  if randMax = 0 then 0
  else if randMax < 0 then -1
  else (raw : ℤ) % randMax

/-- `1 << n` on 32-bit integers. The shift amount is taken modulo 32, as the
machine instruction does; the language leaves larger amounts undefined. -/
def shiftOne (n : UInt64) : ℤ := (BitVec.ofNat 32 1 <<< (n.toNat % 32)).toInt

/-- The publish lottery: the probability is narrowed back to a 32-bit integer. -/
def ifSetPeerRemote (remotePeerCount : UInt64) (raw : ℕ) : Bool :=
  getRandomNumber (shiftOne remotePeerCount) raw ≤ 1

theorem getRandomNumber_nonneg (randMax : ℤ) (raw : ℕ) (h : 0 ≤ randMax) :
    0 ≤ getRandomNumber randMax raw := by
  unfold getRandomNumber
  split
  · omega
  · rw [if_neg (by omega)]
    exact Int.emod_nonneg _ (by omega)

theorem getRandomNumber_le (randMax : ℤ) (raw : ℕ) (h : 0 ≤ randMax) :
    getRandomNumber randMax raw ≤ randMax := by
  unfold getRandomNumber
  split
  · omega
  · rw [if_neg (by omega)]
    have := Int.emod_lt_of_pos (raw : ℤ) (show 0 < randMax by omega)
    omega

end Gingko.RandomDraws
