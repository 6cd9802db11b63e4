import Gingko.IpFilterBlocks

/-!
The range of a network mask at the level of the machine: the scan for the highest zero
bit of the mask, shifts in 64 bits, and the bytes of both ends printed into a buffer
of 32 letters. It prints what the model of the filter prints, and for a mask of leading
ones the range that is read back holds the addresses with the same network.
-/
namespace Gingko.MaskRanges

open IpFilters IpFilterBlocks

section Machine

/-- The scan from a bit down; the result is one more than the place it stops at. -/
def scanZero (maskValue : BitVec 32) : ℕ → ℕ
  | 0 => 0
  | n + 1 => if (maskValue >>> n) &&& 1#32 = 0#32 then n + 1 else scanZero maskValue n

def start (ipValue : BitVec 64) (i : ℕ) : BitVec 32 := ((ipValue >>> i) <<< i).setWidth 32

def last (ipValue : BitVec 64) (i : ℕ) : BitVec 32 :=
  (ipValue ||| ((1#64 <<< i) - 1#64)).setWidth 32

/-- A byte of a value in memory, the lowest first. -/
def byteAt (value : BitVec 32) (k : ℕ) : BitVec 8 := value.extractLsb' (8 * k) 8

def printByte (value : BitVec 32) (k : ℕ) : Text := Nat.toDigits 10 (byteAt value k).toNat

def printBytes (value : BitVec 32) : Text :=
  printByte value 3 ++ '.' :: printByte value 2 ++ '.' :: printByte value 1 ++
    '.' :: printByte value 0

/-- The last letter of the buffer is for the zero at the end. -/
def snprintf (size : ℕ) (text : Text) : Text := text.take (size - 1)

variable {F : Type} (net : Net F)

def parseMaskToIPRange (ip mask : Text) : Option Text := do
  let ipAddress ← net.fromString ip
  let maskAddress ← net.fromString mask
  match ipAddress, maskAddress with
  | .v4 ip, .v4 mask =>
    let i := scanZero mask 32
    let ipValue := ip.setWidth 64
    some (snprintf 32 (printBytes (start ipValue i) ++ '-' :: printBytes (last ipValue i)))
  | _, _ => none

theorem scanZero_eq_hostBits (maskValue : BitVec 32) (n : ℕ) :
    scanZero maskValue n = hostBits maskValue n := by
  induction n with
  | zero => rfl
  | succ n ih =>
    rw [scanZero, hostBits, ih, BitVec.and_one_eq_setWidth_ofBool_getLsbD,
      BitVec.getLsbD_ushiftRight, Nat.add_zero]
    cases maskValue.getLsbD n <;> simp

theorem start_eq_rangeStart (ip : BitVec 32) (i : ℕ) :
    start (ip.setWidth 64) i = rangeStart ip i := by
  apply BitVec.eq_of_toNat_eq
  simp only [start, rangeStart, BitVec.toNat_setWidth, BitVec.toNat_shiftLeft,
    BitVec.toNat_ushiftRight, BitVec.toNat_ofNat]
  have hip := ip.isLt
  rw [Nat.mod_eq_of_lt (by omega : ip.toNat < 2 ^ 64), Nat.mod_mod_of_dvd _ (by decide)]

theorem last_eq_rangeEnd (ip : BitVec 32) (i : ℕ) (hi : i ≤ 32) :
    last (ip.setWidth 64) i = rangeEnd ip i := by
  apply BitVec.eq_of_toNat_eq
  have hip := ip.isLt
  have hpow : 2 ^ i ≤ 2 ^ 32 := Nat.pow_le_pow_right (by decide) hi
  have hpos : 0 < 2 ^ i := Nat.two_pow_pos i
  have hones : ((1#64 <<< i) - 1#64).toNat = 1 <<< i - 1 := by
    rw [BitVec.toNat_sub, BitVec.toNat_shiftLeft, Nat.one_shiftLeft]
    simp only [BitVec.toNat_ofNat, Nat.shiftLeft_eq]
    omega
  simp only [last, rangeEnd, BitVec.toNat_setWidth, BitVec.toNat_or, hones, BitVec.toNat_ofNat]
  rw [Nat.mod_eq_of_lt (by omega : ip.toNat < 2 ^ 64)]

theorem printBytes_eq_dottedQuad (value : BitVec 32) : printBytes value = dottedQuad value := by
  simp only [printBytes, printByte, byteAt, dottedQuad, BitVec.extractLsb'_toNat,
    Nat.shiftRight_eq_div_pow]

theorem length_printByte (value : BitVec 32) (k : ℕ) : (printByte value k).length ≤ 3 := by
  have hlt := (byteAt value k).isLt
  rw [printByte, Nat.length_toDigits_le_iff (by decide) (by decide)]
  omega

theorem length_printBytes (value : BitVec 32) : (printBytes value).length ≤ 15 := by
  have h0 := length_printByte value 0
  have h1 := length_printByte value 1
  have h2 := length_printByte value 2
  have h3 := length_printByte value 3
  simp only [printBytes, List.length_append, List.length_cons]
  omega

/-- Both ends fit the buffer. -/
theorem snprintf_range (first last : BitVec 32) :
    snprintf 32 (dottedQuad first ++ '-' :: dottedQuad last) =
      dottedQuad first ++ '-' :: dottedQuad last := by
  apply List.take_of_length_le
  have hfirst := length_printBytes first
  have hlast := length_printBytes last
  rw [printBytes_eq_dottedQuad] at hfirst hlast
  rw [List.length_append, List.length_cons]
  omega

theorem parseMaskToIPRange_eq (ip mask : Text) :
    parseMaskToIPRange net ip mask = net.parseMaskToIPRange ip mask := by
  unfold parseMaskToIPRange Net.parseMaskToIPRange
  cases net.fromString ip with
  | none => rfl
  | some ipAddress =>
    cases net.fromString mask with
    | none => rfl
    | some maskAddress =>
      cases ipAddress with
      | v6 _ => rfl
      | v4 ip =>
        cases maskAddress with
        | v6 _ => rfl
        | v4 mask =>
          have hstart := start_eq_rangeStart ip (hostBits mask 32)
          have hlast := last_eq_rangeEnd ip (hostBits mask 32) (hostBits_le mask 32)
          refine congrArg some ?_
          rw [scanZero_eq_hostBits, hstart, hlast, printBytes_eq_dottedQuad,
            printBytes_eq_dottedQuad]
          exact snprintf_range _ _

end Machine

section Networks

/-- The mask with `k` ones in front. -/
def leadingOnes (k : ℕ) : BitVec 32 := BitVec.allOnes 32 <<< (32 - k)

/-- The scan stops at the last of the zeros that end the mask. -/
theorem hostBits_eq (mask : BitVec 32) (i n : ℕ) (hi : i ≤ n)
    (hones : ∀ j, i ≤ j → j < n → mask.getLsbD j = true)
    (hzero : ∀ j, j + 1 = i → mask.getLsbD j = false) : hostBits mask n = i := by
  induction n with
  | zero => exact (Nat.le_zero.mp hi).symm
  | succ n ih =>
    rw [hostBits]
    obtain hlast | hmore := Nat.eq_or_lt_of_le hi
    · simp [hzero n hlast.symm, hlast]
    · rw [if_pos (hones n (by omega) (by omega))]
      exact ih (by omega) fun j hij hjn => hones j hij (by omega)

theorem hostBits_leadingOnes (k : ℕ) (hk : k ≤ 32) : hostBits (leadingOnes k) 32 = 32 - k := by
  apply hostBits_eq _ _ _ (Nat.sub_le 32 k)
  · intro j hij hj
    simp only [leadingOnes, BitVec.getLsbD_shiftLeft, BitVec.getLsbD_allOnes, hj]
    simp
    omega
  · intro j hj
    simp only [leadingOnes, BitVec.getLsbD_shiftLeft]
    simp
    omega

/-- Under a mask of leading ones an address is the start of its own range. -/
theorem and_leadingOnes (a : BitVec 32) (k : ℕ) : a &&& leadingOnes k = rangeStart a (32 - k) := by
  rw [leadingOnes, ← BitVec.shiftLeft_ushiftRight]
  apply BitVec.eq_of_toNat_eq
  rw [BitVec.toNat_shiftLeft, BitVec.toNat_ushiftRight, rangeStart, BitVec.toNat_ofNat]

theorem and_leadingOnes_eq_iff (a ip : BitVec 32) (k : ℕ) :
    a &&& leadingOnes k = ip &&& leadingOnes k ↔
      a.toNat / 2 ^ (32 - k) = ip.toNat / 2 ^ (32 - k) := by
  rw [and_leadingOnes, and_leadingOnes, ← BitVec.toNat_inj, rangeStart_toNat, rangeStart_toNat]
  exact Nat.mul_right_inj (Nat.two_pow_pos _).ne'

variable {F : Type}

/-- A mask of leading ones is turned into a rule for the addresses of its network, the
whole space and a single address included. -/
theorem mask_range_iff (net : Net F) (hquads : ∀ v, net.fromString (dottedQuad v) = some (.v4 v))
    (ip : BitVec 32) (k : ℕ) (hk : k ≤ 32) (ipText maskText : Text)
    (hip : net.fromString ipText = some (.v4 ip))
    (hmask : net.fromString maskText = some (.v4 (leadingOnes k))) :
    ∃ range first last, parseMaskToIPRange net ipText maskText = some range ∧
      (∀ flags filter, net.addIpFilterRule flags filter range =
        some (net.addRule filter first last flags)) ∧
      ∀ a : BitVec 32, IpRange.holds ⟨first, last⟩ (.v4 a) = true ↔
        a &&& leadingOnes k = ip &&& leadingOnes k := by
  refine ⟨dottedQuad (rangeStart ip (32 - k)) ++ '-' :: dottedQuad (rangeEnd ip (32 - k)),
    .v4 (rangeStart ip (32 - k)), .v4 (rangeEnd ip (32 - k)), ?_, ?_, ?_⟩
  · simp [parseMaskToIPRange_eq, Net.parseMaskToIPRange, hip, hmask, hostBits_leadingOnes k hk]
  · intro flags filter
    simp [Net.addIpFilterRule, slipt_range, hquads]
  · intro a
    rw [and_leadingOnes_eq_iff]
    exact holds_range_iff ip a (32 - k) (Nat.sub_le 32 k)

/-- A network of 16 bits. -/
theorem mask_range_iff_sample : ∃ range first last,
    parseMaskToIPRange sampleNet "10.26.38.49".toList "255.255.0.0".toList = some range ∧
      (∀ flags filter, sampleNet.addIpFilterRule flags filter range =
        some (sampleNet.addRule filter first last flags)) ∧
      ∀ a : BitVec 32, IpRange.holds ⟨first, last⟩ (.v4 a) = true ↔
        a &&& leadingOnes 16 = 0x0a1a2631 &&& leadingOnes 16 :=
  mask_range_iff sampleNet readDotted_dottedQuad 0x0a1a2631 16 (by decide) "10.26.38.49".toList
    "255.255.0.0".toList (by decide) (by decide)

end Networks
end Gingko.MaskRanges
