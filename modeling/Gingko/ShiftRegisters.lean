import Mathlib.Data.Nat.Prime.Basic
import Mathlib.Dynamics.PeriodicPts.Defs
import Mathlib.Tactic.Ring

/-!
Linear feedback shift registers of any width. A step shifts the register down by one bit
and adds the feedback when a bit falls out. Registers are the remainders of polynomials over
two elements, the bit at the top being the constant one, and a step multiplies by the
variable; so the product of registers commutes with steps, and the period of a register
is found from powers of the variable alone.
-/
namespace Gingko.ShiftRegisters

variable {w : ℕ}

section Steps

variable (poly : BitVec w)

def shift (v : BitVec w) : BitVec w := (v >>> 1) ^^^ (if v.getLsbD 0 then poly else 0)

theorem xor_cancel_middle (a b p : BitVec w) : a ^^^ p ^^^ (b ^^^ p) = a ^^^ b := by
  rw [BitVec.xor_assoc, BitVec.xor_comm b p, ← BitVec.xor_assoc p p b, BitVec.xor_self,
    BitVec.zero_xor]

theorem xor_eq_zero_iff (a b : BitVec w) : a ^^^ b = 0 ↔ a = b := by
  constructor
  · intro h
    rw [← BitVec.xor_zero (x := a), ← BitVec.xor_self (x := b), ← BitVec.xor_assoc]
    rw [show a ^^^ b = 0#w from h, BitVec.zero_xor]
  · rintro rfl
    exact BitVec.xor_self

theorem shift_xor (a b : BitVec w) : shift poly (a ^^^ b) = shift poly a ^^^ shift poly b := by
  simp only [shift, BitVec.getLsbD_xor, BitVec.ushiftRight_xor_distrib]
  cases a.getLsbD 0 <;> cases b.getLsbD 0
  · simp
  · simp [BitVec.xor_assoc]
  · simp only [Bool.xor_false, if_true, Bool.false_eq_true, if_false]
    rw [BitVec.ofNat_eq_ofNat, BitVec.xor_zero, BitVec.xor_assoc, BitVec.xor_assoc,
      BitVec.xor_comm poly]
  · simp only [Bool.xor_self, Bool.false_eq_true, if_false, if_true]
    rw [BitVec.ofNat_eq_ofNat, BitVec.xor_zero, xor_cancel_middle]

theorem shift_zero : shift poly 0 = 0 := by simp [shift]

theorem shifts_xor (n : ℕ) (a b : BitVec w) :
    (shift poly)^[n] (a ^^^ b) = (shift poly)^[n] a ^^^ (shift poly)^[n] b := by
  induction n generalizing a b with
  | zero => rfl
  | succ n ih => rw [Function.iterate_succ_apply, shift_xor, ih, ← Function.iterate_succ_apply,
      ← Function.iterate_succ_apply]

theorem shifts_zero (n : ℕ) : (shift poly)^[n] 0 = 0 :=
  Function.iterate_fixed (shift_zero poly) n

/-- The feedback shows at the top whether a bit fell out. -/
theorem shift_injective (hpoly : poly.msb = true) : Function.Injective (shift poly) := by
  intro a b hab
  rw [← xor_eq_zero_iff] at hab ⊢
  rw [← shift_xor] at hab
  generalize a ^^^ b = v at *
  have hlow : v.getLsbD 0 = false := by
    by_contra hbit
    rw [Bool.not_eq_false] at hbit
    have htop := congrArg BitVec.msb hab
    rw [shift, if_pos hbit, BitVec.msb_xor, BitVec.msb_ushiftRight, hpoly] at htop
    simp at htop
  rw [shift, hlow, if_neg Bool.false_ne_true, BitVec.ofNat_eq_ofNat, BitVec.xor_zero] at hab
  apply BitVec.eq_of_getLsbD_eq
  intro i _
  cases i with
  | zero => simpa using hlow
  | succ i =>
    have hbit := congrArg (fun x : BitVec w => x.getLsbD i) hab
    simpa [Nat.add_comm] using hbit

end Steps

section Products

variable (poly : BitVec w)

/-- The sum of the first register's shifts that the low bits of the multiplier ask for. -/
def mulSteps (a b : BitVec w) : ℕ → BitVec w
  | 0 => 0
  | i + 1 => shift poly (mulSteps a b i) ^^^ (if a.getLsbD i then b else 0)

def mul (a b : BitVec w) : BitVec w := mulSteps poly a b w

def one (w : ℕ) : BitVec w := BitVec.twoPow w (w - 1)

theorem xor_xor_xor_comm (a b c d : BitVec w) : a ^^^ b ^^^ (c ^^^ d) = a ^^^ c ^^^ (b ^^^ d) := by
  rw [BitVec.xor_assoc, ← BitVec.xor_assoc b, BitVec.xor_comm b c, BitVec.xor_assoc,
    ← BitVec.xor_assoc]

theorem mulSteps_xor (a b c : BitVec w) (i : ℕ) :
    mulSteps poly a (b ^^^ c) i = mulSteps poly a b i ^^^ mulSteps poly a c i := by
  induction i with
  | zero => exact BitVec.xor_zero.symm
  | succ i ih =>
    simp only [mulSteps, ih, shift_xor]
    split
    · rw [xor_xor_xor_comm]
    · simp

theorem mulSteps_shift (a b : BitVec w) (i : ℕ) :
    mulSteps poly a (shift poly b) i = shift poly (mulSteps poly a b i) := by
  induction i with
  | zero => exact (shift_zero poly).symm
  | succ i ih =>
    simp only [mulSteps, ih]
    rw [shift_xor]
    split
    · rfl
    · rw [shift_zero]

theorem mul_xor (a b c : BitVec w) : mul poly a (b ^^^ c) = mul poly a b ^^^ mul poly a c :=
  mulSteps_xor poly a b c w

theorem mul_zero (a : BitVec w) : mul poly a 0 = 0 := by
  have h := mul_xor poly a 0 0
  rw [show (0 : BitVec w) ^^^ 0 = 0 from BitVec.xor_self] at h
  rw [h]
  exact BitVec.xor_self

theorem mul_shift (a b : BitVec w) : mul poly a (shift poly b) = shift poly (mul poly a b) :=
  mulSteps_shift poly a b w

theorem mul_shifts (a b : BitVec w) (n : ℕ) :
    mul poly a ((shift poly)^[n] b) = (shift poly)^[n] (mul poly a b) := by
  induction n generalizing b with
  | zero => rfl
  | succ n ih => rw [Function.iterate_succ_apply, ih, mul_shift, ← Function.iterate_succ_apply]

/-- Products are sums of shifts, so one goes through the other. -/
theorem mul_left_comm (a b c : BitVec w) :
    mul poly a (mul poly b c) = mul poly b (mul poly a c) := by
  have hsteps : ∀ i, mul poly a (mulSteps poly b c i) = mulSteps poly b (mul poly a c) i := by
    intro i
    induction i with
    | zero => exact mul_zero poly a
    | succ i ih =>
      rw [mulSteps, mul_xor, mul_shift, ih, mulSteps]
      split
      · rfl
      · rw [mul_zero]
  exact hsteps w

theorem one_bit (w j : ℕ) : (one w).getLsbD j = (decide (0 < w) && decide (j = w - 1)) := by
  rw [one, BitVec.getLsbD_twoPow]
  by_cases hw : 0 < w
  · simp only [hw, Nat.sub_lt hw Nat.one_pos, decide_true, eq_comm]
  · simp [Nat.eq_zero_of_not_pos hw]

/-- The low bits, moved to the top. -/
theorem mulSteps_one (b : BitVec w) (i : ℕ) (hi : i ≤ w) :
    mulSteps poly b (one w) i = b <<< (w - i) := by
  induction i with
  | zero =>
    apply BitVec.eq_of_getLsbD_eq
    intro j hj
    simp [mulSteps, hj]
  | succ i ih =>
    have hlow : (b <<< (w - i)).getLsbD 0 = false := by
      rw [BitVec.getLsbD_shiftLeft]
      simp only [Nat.sub_pos_of_lt hi, decide_true, Bool.not_true, Bool.and_false, Bool.false_and]
    rw [mulSteps, ih (by omega), shift, hlow, if_neg Bool.false_ne_true]
    apply BitVec.eq_of_getLsbD_eq
    intro j hj
    have hbit : (if b.getLsbD i then one w else 0).getLsbD j =
        (b.getLsbD i && decide (j = w - 1)) := by
      cases b.getLsbD i with
      | false => simp
      | true => rw [if_pos rfl, one_bit, decide_eq_true (Nat.zero_lt_of_lt hj)]
    rw [BitVec.getLsbD_xor, hbit, BitVec.getLsbD_xor, BitVec.ofNat_eq_ofNat, BitVec.getLsbD_zero,
      Bool.xor_false, BitVec.getLsbD_ushiftRight, BitVec.getLsbD_shiftLeft,
      BitVec.getLsbD_shiftLeft]
    by_cases htop : j = w - 1
    · -- the new bit stands alone at the top
      have hback : j - (w - (i + 1)) = i := by omega
      rw [hback, decide_eq_true htop, decide_eq_false (show ¬ 1 + j < w by omega),
        decide_eq_true hj, decide_eq_false (show ¬ j < w - (i + 1) by omega)]
      simp only [Bool.false_and, Bool.true_and, Bool.not_false, Bool.and_true, Bool.false_xor]
    · have hsame : 1 + j - (w - i) = j - (w - (i + 1)) := by omega
      have hplace : (1 + j < w - i) = (j < w - (i + 1)) := by
        rw [eq_iff_iff]
        omega
      simp only [htop, hsame, hplace, show 1 + j < w by omega, hj, decide_true, decide_false,
        Bool.and_false, Bool.xor_false]

theorem mul_one (b : BitVec w) : mul poly b (one w) = b := by
  rw [mul, mulSteps_one poly b w le_rfl, Nat.sub_self, BitVec.shiftLeft_zero]

theorem mul_comm (a b : BitVec w) : mul poly a b = mul poly b a := by
  calc
    mul poly a b = mul poly a (mul poly b (one w)) := by rw [mul_one]
    _ = mul poly b (mul poly a (one w)) := mul_left_comm poly a b (one w)
    _ = mul poly b a := by rw [mul_one]

theorem mul_assoc (a b c : BitVec w) : mul poly (mul poly a b) c = mul poly a (mul poly b c) := by
  rw [mul_comm poly _ c, mul_left_comm poly c a b, mul_comm poly c b]

theorem one_mul (b : BitVec w) : mul poly (one w) b = b := by rw [mul_comm, mul_one]

/-- Shifting a register multiplies it by a power of the variable. -/
theorem shifts_eq (n : ℕ) (v : BitVec w) :
    (shift poly)^[n] v = mul poly ((shift poly)^[n] (one w)) v := by
  rw [mul_comm, mul_shifts, mul_one]

theorem shifts_one_add (m n : ℕ) : (shift poly)^[m + n] (one w) =
    mul poly ((shift poly)^[m] (one w)) ((shift poly)^[n] (one w)) := by
  rw [Function.iterate_add_apply, shifts_eq]

end Products

section Powers

variable (poly : BitVec w)

/-- The number with these binary digits, the highest first. -/
def exponent : List Bool → ℕ := List.foldl (fun n bit => 2 * n + bit.toNat) 0

/-- Square and multiply. -/
def power : List Bool → BitVec w :=
  List.foldl (fun v bit => let s := mul poly v v; if bit then shift poly s else s) (one w)

theorem power_eq (bs : List Bool) : power poly bs = (shift poly)^[exponent bs] (one w) := by
  have hfold : ∀ n : ℕ, bs.foldl (fun v bit => let s := mul poly v v
        if bit then shift poly s else s) ((shift poly)^[n] (one w)) =
      (shift poly)^[bs.foldl (fun n bit => 2 * n + bit.toNat) n] (one w) := by
    induction bs with
    | nil => exact fun n => rfl
    | cons bit bs ih =>
      intro n
      rw [List.foldl_cons, List.foldl_cons, ← ih (2 * n + bit.toNat), ← shifts_one_add, ← two_mul]
      cases bit with
      | false => rfl
      | true => rw [Bool.toNat_true, Function.iterate_succ_apply', if_pos rfl]
  exact hfold 0

/-- A register other than zero comes back after multiples of the whole period alone, when
every power short of it by one prime differs from one by a unit. -/
theorem period_dvd {N : ℕ} (hN : (shift poly)^[N] (one w) = one w)
    (hunit : ∀ p, p.Prime → p ∣ N →
      ∃ u, mul poly u ((shift poly)^[N / p] (one w) ^^^ one w) = one w)
    {v : BitVec w} (hv : v ≠ 0) {n : ℕ} (hn : (shift poly)^[n] v = v) : N ∣ n := by
  have hback : Function.IsPeriodicPt (shift poly) N v := by
    rw [Function.IsPeriodicPt, Function.IsFixedPt, shifts_eq, hN, one_mul]
  by_contra hndvd
  -- otherwise the register comes back after the period divided by one of its primes
  have hmin : ¬ N ∣ Function.minimalPeriod (shift poly) v := fun hdvd =>
    hndvd (hdvd.trans (Function.IsPeriodicPt.minimalPeriod_dvd hn))
  obtain ⟨k, hk⟩ := hback.minimalPeriod_dvd
  have hk1 : k ≠ 1 := by
    rintro rfl
    exact hmin (by rw [hk, Nat.mul_one])
  obtain ⟨p, hp, m, rfl⟩ := Nat.exists_prime_and_dvd hk1
  obtain ⟨u, hu⟩ := hunit p hp ⟨Function.minimalPeriod (shift poly) v * m, by rw [hk]; ring⟩
  have hshort : (shift poly)^[N / p] v = v := by
    have hdiv : N / p = Function.minimalPeriod (shift poly) v * m := by
      apply Nat.div_eq_of_eq_mul_right hp.pos
      rw [hk]
      ring
    rw [hdiv]
    exact (Function.isPeriodicPt_minimalPeriod _ v).mul_const m
  apply hv
  calc
    v = mul poly (mul poly u ((shift poly)^[N / p] (one w) ^^^ one w)) v := by rw [hu, one_mul]
    _ = mul poly u (mul poly v ((shift poly)^[N / p] (one w) ^^^ one w)) := by
      rw [mul_assoc, mul_comm poly _ v]
    _ = mul poly u ((shift poly)^[N / p] v ^^^ v) := by
      rw [mul_xor, mul_shifts, mul_one]
    _ = 0 := by rw [hshort, show v ^^^ v = 0 from BitVec.xor_self, mul_zero]

end Powers

section Feeds

variable (poly : BitVec w) (n : ℕ)

/-- A chunk enters at the low end and is shifted out of it. -/
def feeds (v : BitVec w) (cs : List (BitVec w)) : BitVec w :=
  cs.foldl (fun v c => (shift poly)^[n] (v ^^^ c)) v

def Fits (k : ℕ) (v : BitVec w) : Prop := ∀ i, k ≤ i → v.getLsbD i = false

def pack : List (BitVec w) → BitVec w
  | [] => 0
  | c :: cs => c ^^^ (pack cs <<< n)

theorem feeds_append (v : BitVec w) (cs ds : List (BitVec w)) :
    feeds poly n v (cs ++ ds) = feeds poly n (feeds poly n v cs) ds :=
  List.foldl_append

theorem feeds_same (a b : BitVec w) (cs : List (BitVec w)) :
    feeds poly n a cs ^^^ feeds poly n b cs = (shift poly)^[n * cs.length] (a ^^^ b) := by
  induction cs generalizing a b with
  | nil => rfl
  | cons c cs ih =>
    have h := ih ((shift poly)^[n] (a ^^^ c)) ((shift poly)^[n] (b ^^^ c))
    rw [← shifts_xor, xor_cancel_middle, ← Function.iterate_add_apply] at h
    rw [List.length_cons, Nat.mul_succ]
    exact h

theorem fits_xor {k : ℕ} {a b : BitVec w} (ha : Fits k a) (hb : Fits k b) : Fits k (a ^^^ b) := by
  intro i hi
  rw [BitVec.getLsbD_xor, ha i hi, hb i hi, Bool.xor_false]

theorem Fits.mono {k l : ℕ} (hkl : k ≤ l) {v : BitVec w} (h : Fits k v) : Fits l v :=
  fun i hi => h i (hkl.trans hi)

theorem Fits.shiftLeft {k : ℕ} {v : BitVec w} (h : Fits k v) : Fits (k + n) (v <<< n) := by
  intro i hi
  rw [BitVec.getLsbD_shiftLeft, h (i - n) (by omega), Bool.and_false]

theorem pack_fits (cs : List (BitVec w)) (hcs : ∀ c ∈ cs, Fits n c) :
    Fits (n * cs.length) (pack n cs) := by
  induction cs with
  | nil => exact fun i _ => BitVec.getLsbD_zero
  | cons c cs ih =>
    rw [List.length_cons, Nat.mul_succ]
    have hc := hcs c List.mem_cons_self
    have htail := ih (fun d hd => hcs d (List.mem_cons_of_mem c hd))
    exact fits_xor (hc.mono (Nat.le_add_left n _)) (htail.shiftLeft n)

/-- Nothing is fed back while the bits that fall out are zero. -/
theorem shifts_low (v : BitVec w) (hlow : ∀ i < n, v.getLsbD i = false) :
    (shift poly)^[n] v = v >>> n := by
  induction n generalizing v with
  | zero => rfl
  | succ n ih =>
    have hstep : shift poly v = v >>> 1 := by
      rw [shift, hlow 0 (Nat.succ_pos n), if_neg Bool.false_ne_true]
      exact BitVec.xor_zero
    have hrest : ∀ i < n, (v >>> 1).getLsbD i = false := by
      intro i hi
      rw [BitVec.getLsbD_ushiftRight]
      exact hlow (1 + i) (by omega)
    rw [Function.iterate_succ_apply, hstep, ih (v >>> 1) hrest, ← BitVec.shiftRight_add,
      Nat.add_comm]

theorem shifts_shiftLeft (v : BitVec w) (hv : Fits (w - n) v) :
    (shift poly)^[n] (v <<< n) = v := by
  rw [shifts_low]
  · apply BitVec.eq_of_getLsbD_eq
    intro i hi
    rw [BitVec.getLsbD_ushiftRight, BitVec.getLsbD_shiftLeft, Nat.add_sub_cancel_left]
    by_cases hin : n + i < w
    · simp [hin]
    · rw [decide_eq_false hin, hv i (by omega), Bool.and_false]
  · intro i hi
    rw [BitVec.getLsbD_shiftLeft]
    simp [hi]

/-- Only the bits that fall out are looked up. -/
theorem shifts_split (v : BitVec w) :
    (shift poly)^[n] v = (v >>> n) ^^^ (shift poly)^[n] ((v.setWidth n).setWidth w) := by
  have hsplit : v = ((v >>> n) <<< n) ^^^ ((v.setWidth n).setWidth w) := by
    apply BitVec.eq_of_getLsbD_eq
    intro i hi
    simp only [BitVec.getLsbD_xor, BitVec.getLsbD_shiftLeft, BitVec.getLsbD_ushiftRight,
      BitVec.getLsbD_setWidth, decide_eq_true hi, Bool.true_and]
    by_cases hin : i < n
    · rw [decide_eq_true hin]
      simp
    · rw [decide_eq_false hin, show n + (i - n) = i by omega]
      simp
  have hhigh : Fits (w - n) (v >>> n) := by
    intro i hi
    rw [BitVec.getLsbD_ushiftRight, BitVec.getLsbD_of_ge v (n + i) (by omega)]
  calc
    (shift poly)^[n] v =
        (shift poly)^[n] (((v >>> n) <<< n) ^^^ ((v.setWidth n).setWidth w)) := by
      rw [← hsplit]
    _ = (v >>> n) ^^^ (shift poly)^[n] ((v.setWidth n).setWidth w) := by
      rw [shifts_xor, shifts_shiftLeft poly n _ hhigh]

/-- Chunks that fit together are fed in as one. -/
theorem feeds_pack (v : BitVec w) (cs : List (BitVec w)) (hcs : ∀ c ∈ cs, Fits n c)
    (hlen : n * cs.length ≤ w) :
    feeds poly n v cs = (shift poly)^[n * cs.length] (v ^^^ pack n cs) := by
  induction cs generalizing v with
  | nil => exact BitVec.xor_zero.symm
  | cons c cs ih =>
    rw [List.length_cons, Nat.mul_succ] at hlen ⊢
    have htail : ∀ d ∈ cs, Fits n d := fun d hd => hcs d (List.mem_cons_of_mem c hd)
    have hback : (shift poly)^[n] (pack n cs <<< n) = pack n cs :=
      shifts_shiftLeft poly n _ ((pack_fits n cs htail).mono (by omega))
    calc
      feeds poly n v (c :: cs) = feeds poly n ((shift poly)^[n] (v ^^^ c)) cs := rfl
      _ = (shift poly)^[n * cs.length] ((shift poly)^[n] (v ^^^ c) ^^^ pack n cs) :=
        ih _ htail (by omega)
      _ = (shift poly)^[n * cs.length + n] (v ^^^ pack n (c :: cs)) := by
        rw [Function.iterate_add_apply, pack, ← BitVec.xor_assoc, shifts_xor poly n (v ^^^ c),
          hback]

theorem pack_injective (cs ds : List (BitVec w)) (hcs : ∀ c ∈ cs, Fits n c)
    (hds : ∀ d ∈ ds, Fits n d) (hlen : cs.length = ds.length) (hfit : n * cs.length ≤ w)
    (h : pack n cs = pack n ds) : cs = ds := by
  induction cs generalizing ds with
  | nil => exact (List.eq_nil_of_length_eq_zero hlen.symm).symm
  | cons c cs ih =>
    obtain _ | ⟨d, ds⟩ := ds
    · simp at hlen
    rw [List.length_cons, Nat.mul_succ] at hfit
    rw [List.length_cons, List.length_cons, Nat.succ_inj] at hlen
    have hcs' : ∀ x ∈ cs, Fits n x := fun x hx => hcs x (List.mem_cons_of_mem c hx)
    have hds' : ∀ x ∈ ds, Fits n x := fun x hx => hds x (List.mem_cons_of_mem d hx)
    have hhead : c = d := by
      apply BitVec.eq_of_getLsbD_eq
      intro i _
      by_cases hi : i < n
      · have hbit := congrArg (fun v : BitVec w => v.getLsbD i) h
        simpa [pack, hi] using hbit
      · rw [hcs c List.mem_cons_self i (by omega), hds d List.mem_cons_self i (by omega)]
    subst hhead
    have htail : pack n cs <<< n = pack n ds <<< n := by
      rw [pack, pack] at h
      exact (BitVec.xor_right_inj c).mp h
    have hpack := congrArg (shift 0)^[n] htail
    rw [shifts_shiftLeft 0 n _ ((pack_fits n cs hcs').mono (by omega)),
      shifts_shiftLeft 0 n _ ((pack_fits n ds hds').mono (by rw [← hlen]; omega))] at hpack
    rw [ih ds hcs' hds' hlen (by omega) hpack]

end Feeds

section Collisions

variable (poly : BitVec w) (hpoly : poly.msb = true) (n : ℕ)

include hpoly

theorem shifts_eq_iff (k : ℕ) (a b : BitVec w) :
    (shift poly)^[k] a = (shift poly)^[k] b ↔ a = b :=
  ((shift_injective poly hpoly).iterate k).eq_iff

theorem feeds_right_injective (cs : List (BitVec w)) (a b : BitVec w) :
    feeds poly n a cs = feeds poly n b cs ↔ a = b := by
  rw [← xor_eq_zero_iff, feeds_same, ← shifts_zero poly (n * cs.length),
    shifts_eq_iff poly hpoly, xor_eq_zero_iff]

/-- A difference no longer than the register reaches the end. -/
theorem feeds_burst (v : BitVec w) (before cs ds after : List (BitVec w))
    (hcs : ∀ c ∈ cs, Fits n c) (hds : ∀ d ∈ ds, Fits n d) (hlen : cs.length = ds.length)
    (hfit : n * cs.length ≤ w)
    (h : feeds poly n v (before ++ cs ++ after) = feeds poly n v (before ++ ds ++ after)) :
    cs = ds := by
  rw [feeds_append, feeds_append, feeds_append, feeds_append,
    feeds_right_injective poly hpoly, feeds_pack poly n _ cs hcs hfit,
    feeds_pack poly n _ ds hds (hlen ▸ hfit), hlen, shifts_eq_iff poly hpoly,
    BitVec.xor_right_inj] at h
  exact pack_injective n cs ds hcs hds hlen hfit h

/-- A short text written at both ends of one middle: the two differences cancel only where
the register's period divides their distance. -/
theorem feeds_bordered {N : ℕ}
    (hperiod : ∀ (v : BitVec w) (k : ℕ), v ≠ 0 → (shift poly)^[k] v = v → N ∣ k)
    (v : BitVec w) (cs ds middle : List (BitVec w))
    (hcs : ∀ c ∈ cs, Fits n c) (hds : ∀ d ∈ ds, Fits n d) (hlen : cs.length = ds.length)
    (hfit : n * cs.length ≤ w)
    (h : feeds poly n v (cs ++ middle ++ cs) = feeds poly n v (ds ++ middle ++ ds)) :
    cs = ds ∨ N ∣ n * (middle.length + cs.length) := by
  have hfit' : n * ds.length ≤ w := hlen ▸ hfit
  rw [feeds_append, feeds_append, feeds_append, feeds_append, feeds_pack poly n _ cs hcs hfit,
    feeds_pack poly n _ ds hds hfit', hlen, shifts_eq_iff poly hpoly, ← xor_eq_zero_iff,
    xor_xor_xor_comm, feeds_same, xor_eq_zero_iff, feeds_pack poly n v cs hcs hfit,
    feeds_pack poly n v ds hds hfit', hlen, ← shifts_xor, BitVec.xor_comm v, BitVec.xor_comm v,
    xor_cancel_middle, ← Function.iterate_add_apply, ← Nat.mul_add] at h
  rw [hlen]
  by_cases hz : pack n cs ^^^ pack n ds = 0
  · left
    exact pack_injective n cs ds hcs hds hlen hfit ((xor_eq_zero_iff _ _).mp hz)
  · right
    exact hperiod _ _ hz h

end Collisions

end Gingko.ShiftRegisters
