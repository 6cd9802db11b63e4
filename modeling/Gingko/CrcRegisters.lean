import Gingko.ShiftRegisters
import Gingko.TrackerRings
import Mathlib.Order.Interval.Finset.Nat
import Mathlib.Tactic.NormNum.Prime

/-!
The hash of the tracker ring as a shift register of thirty-two bits. The table holds the
register's state after the eight bits of each byte, and the register runs through every
state but zero before one comes back, so short differences between two keys never cancel.
-/
namespace Gingko.CrcRegisters

open Base64Codec OrderedMaps HashRings ShiftRegisters TrackerRings ConsistentHashRing

/-- The entry of the table for its middle bit. -/
def poly : BitVec 32 := 0xEDB88320

def byteRegister (byte : UInt8) : BitVec 32 := byte.toBitVec.setWidth 32

section Table

theorem byte_fits (byte : UInt8) : Fits 8 (byteRegister byte) := by
  intro i hi
  rw [byteRegister, BitVec.getLsbD_setWidth, BitVec.getLsbD_of_ge byte.toBitVec i hi,
    Bool.and_false]

/-- Every entry is its index after eight steps. -/
theorem table_entry : ∀ i : Fin 256, (crc32tab.getD i 0).toBitVec =
    (shift poly)^[8] (BitVec.ofNat 32 i) := by decide +kernel

/-- The byte only changes bits that fall out. -/
theorem step_register (crc : UInt32) (byte : UInt8) :
    (crcStep crc byte).toBitVec = (shift poly)^[8] (crc.toBitVec ^^^ byteRegister byte) := by
  have hindex : ((crc ^^^ byte.toUInt32) &&& 0xff).toNat < 256 := by
    rw [UInt32.toNat_and]
    exact Nat.and_lt_two_pow _ (by decide : (0xff : UInt32).toNat < 2 ^ 8)
  have hlow : BitVec.ofNat 32 ((crc ^^^ byte.toUInt32) &&& 0xff).toNat =
      ((crc.toBitVec ^^^ byteRegister byte).setWidth 8).setWidth 32 := by
    apply BitVec.eq_of_toNat_eq
    rw [BitVec.toNat_ofNat, UInt32.toNat_and, BitVec.toNat_setWidth, BitVec.toNat_setWidth,
      show (0xff : UInt32).toNat = 2 ^ 8 - 1 from rfl, Nat.and_two_pow_sub_one_eq_mod]
    rfl
  have hhigh : (crc >>> 8).toBitVec = (crc.toBitVec ^^^ byteRegister byte) >>> 8 := by
    have hbyte : byteRegister byte >>> 8 = 0 := by
      apply BitVec.eq_of_getLsbD_eq
      intro i _
      rw [BitVec.getLsbD_ushiftRight, byte_fits byte (8 + i) (Nat.le_add_right 8 i)]
      exact BitVec.getLsbD_zero.symm
    rw [BitVec.ushiftRight_xor_distrib, hbyte]
    exact BitVec.xor_zero.symm
  rw [shifts_split, crcStep, UInt32.toBitVec_xor, table_entry ⟨_, hindex⟩, hlow, hhigh]

/-- The hash is that of the register fed one byte after the other. -/
theorem hashCrc32_register (key : ByteString) : (hashCrc32 key).toBitVec =
    feeds poly 8 (BitVec.allOnes 32) (key.map byteRegister) ^^^ BitVec.allOnes 32 := by
  have hfold : ∀ crc : UInt32, (key.foldl crcStep crc).toBitVec =
      feeds poly 8 crc.toBitVec (key.map byteRegister) := by
    induction key with
    | nil => exact fun crc => rfl
    | cons byte key ih =>
      intro crc
      rw [List.foldl_cons, ih, step_register]
      rfl
  rw [hashCrc32, UInt32.toBitVec_xor, hfold]
  rfl

end Table

section Period

theorem poly_msb : poly.msb = true := by decide

/-- The primes of the number of states other than zero, each with the digits of the
quotient and the inverse of what the register differs from one by then. -/
def units : List (ℕ × List Bool × BitVec 32) :=
  [(3, (List.replicate 15 [true, false]).flatten ++ [true], 0xc736eb52),
   (5, (List.replicate 7 [true, true, false, false]).flatten ++ [true, true], 0x3d436701),
   (17, (List.replicate 3 [true, true, true, true, false, false, false, false]).flatten ++
      List.replicate 4 true, 0xe1a0922e),
   (257, List.replicate 8 true ++ List.replicate 8 false ++ List.replicate 8 true, 0x3c1c66b1),
   (65537, List.replicate 16 true, 0xd4e6c8ca)]

theorem units_inverse : ∀ e ∈ units, exponent e.2.1 = (2 ^ 32 - 1) / e.1 ∧
    mul poly e.2.2 (power poly e.2.1 ^^^ one 32) = one 32 := by decide +kernel

theorem whole_period : (shift poly)^[2 ^ 32 - 1] (one 32) = one 32 := by
  have h := power_eq poly (List.replicate 32 true)
  rw [show exponent (List.replicate 32 true) = 2 ^ 32 - 1 by decide] at h
  rw [← h]
  decide +kernel

theorem prime_factors (p : ℕ) (hp : p.Prime) (hdvd : p ∣ 2 ^ 32 - 1) :
    ∃ e ∈ units, e.1 = p := by
  have h : p ∣ 3 * 5 * 17 * 257 * 65537 := hdvd
  simp only [hp.dvd_mul] at h
  have hprime : ∀ q : ℕ, q.Prime → p ∣ q → q = p := fun q hq hpq =>
    ((Nat.prime_dvd_prime_iff_eq hp hq).mp hpq).symm
  rcases h with (((h | h) | h) | h) | h
  · exact ⟨_, List.mem_cons_self, hprime 3 (by norm_num) h⟩
  · exact ⟨_, List.mem_cons_of_mem _ List.mem_cons_self, hprime 5 (by norm_num) h⟩
  · exact ⟨units[2], by simp [units], hprime 17 (by norm_num) h⟩
  · exact ⟨units[3], by simp [units], hprime 257 (by norm_num) h⟩
  · exact ⟨units[4], by simp [units], hprime 65537 (by norm_num) h⟩

theorem period (v : BitVec 32) (n : ℕ) (hv : v ≠ 0) (hn : (shift poly)^[n] v = v) :
    2 ^ 32 - 1 ∣ n := by
  refine period_dvd poly whole_period ?_ hv hn
  intro p hp hdvd
  obtain ⟨e, he, rfl⟩ := prime_factors p hp hdvd
  obtain ⟨hexp, hmul⟩ := units_inverse e he
  refine ⟨e.2.2, ?_⟩
  rw [← hexp, ← power_eq]
  exact hmul

end Period

section Keys

theorem bytes_fit (key : ByteString) : ∀ c ∈ key.map byteRegister, Fits 8 c := by
  intro c hc
  obtain ⟨byte, _, rfl⟩ := List.mem_map.mp hc
  exact byte_fits byte

theorem byteRegister_injective : Function.Injective byteRegister := by
  intro a b h
  have hback := congrArg (BitVec.setWidth 8) h
  rw [byteRegister, byteRegister, BitVec.setWidth_setWidth_of_le _ (by decide),
    BitVec.setWidth_setWidth_of_le _ (by decide), BitVec.setWidth_eq, BitVec.setWidth_eq] at hback
  exact UInt8.toBitVec_inj.mp hback

theorem hashCrc32_eq_iff (key other : ByteString) : hashCrc32 key = hashCrc32 other ↔
    feeds poly 8 (BitVec.allOnes 32) (key.map byteRegister) =
      feeds poly 8 (BitVec.allOnes 32) (other.map byteRegister) := by
  rw [← UInt32.toBitVec_inj, hashCrc32_register, hashCrc32_register, BitVec.xor_left_inj]

/-- Keys that differ within four bytes in a row hash apart, whatever stands around them. -/
theorem hashCrc32_burst (before a b after : ByteString) (hlen : a.length = b.length)
    (hshort : a.length ≤ 4)
    (h : hashCrc32 (before ++ a ++ after) = hashCrc32 (before ++ b ++ after)) : a = b := by
  rw [hashCrc32_eq_iff] at h
  simp only [List.map_append] at h
  have hmap := feeds_burst poly poly_msb 8 (BitVec.allOnes 32) (before.map byteRegister)
    (a.map byteRegister) (b.map byteRegister) (after.map byteRegister) (bytes_fit a)
    (bytes_fit b) (by rw [List.length_map, List.length_map, hlen])
    (by rw [List.length_map]; omega) h
  exact byteRegister_injective.list_map hmap

/-- Two bytes apart within one address. -/
theorem hashCrc32_burst_sample :
    hashCrc32 [49, 48, 46, 49, 46, 50, 58, 55] ≠ hashCrc32 [49, 48, 46, 50, 46, 49, 58, 55] :=
  fun h => absurd
    (hashCrc32_burst [49, 48, 46] [49, 46, 50] [50, 46, 49] [58, 55] rfl (by decide) h) (by decide)

end Keys

section VirtualNodes

theorem toDigits_toString (r : ℕ) :
    (TrackerRings.toString r).map (fun byte => Char.ofNat byte.toNat) = Nat.toDigits 10 r := by
  rw [TrackerRings.toString, List.map_map, ← List.map_id (Nat.toDigits 10 r), List.map_map]
  apply List.map_congr_left
  intro c hc
  have hdigit : c.isDigit = true :=
    Nat.isDigit_of_mem_toDigits (by decide) (by decide) hc
  have hbound : c.toNat < 256 := by
    simp only [Char.isDigit, Bool.and_eq_true, decide_eq_true_eq] at hdigit
    have htop : c.toNat ≤ 57 := hdigit.2
    omega
  show Char.ofNat (UInt8.ofNat c.toNat).toNat = c
  rw [UInt8.toNat_ofNat_of_lt' hbound, Char.ofNat_toNat]

theorem toString_injective : Function.Injective TrackerRings.toString := by
  intro r s h
  have hdigits := congrArg (List.map (fun byte : UInt8 => Char.ofNat byte.toNat)) h
  rw [toDigits_toString, toDigits_toString] at hdigits
  rw [← Nat.ofDigitChars_ten_toDigits (n := r), hdigits, Nat.ofDigitChars_ten_toDigits]

theorem length_toString (r : ℕ) :
    (TrackerRings.toString r).length = (Nat.toDigits 10 r).length := List.length_map _

theorem period_far (k : ℕ) (hpos : 0 < k) (hk : k < 2 ^ 32 - 1) : ¬ 2 ^ 32 - 1 ∣ 8 * k := by
  omega

/-- Virtual nodes with numbers of one length never meet: their two differences lie less
than a period apart. -/
theorem slot_ne (node : ByteString) (hnode : node.length + 4 < 2 ^ 32 - 1) (r s : ℕ)
    (hdigits : (Nat.toDigits 10 r).length = (Nat.toDigits 10 s).length)
    (hshort : (Nat.toDigits 10 r).length ≤ 4) (hne : r ≠ s) : slot node r ≠ slot node s := by
  intro h
  have hhash : hashCrc32 (vnode node r) = hashCrc32 (vnode node s) :=
    UInt32.toFin_inj.mp h
  rw [← length_toString, ← length_toString] at hdigits
  rw [← length_toString] at hshort
  rw [hashCrc32_eq_iff, vnode, vnode] at hhash
  simp only [List.map_append] at hhash
  have hcases := feeds_bordered poly poly_msb 8 (fun v k hv hk => period v k hv hk)
    (BitVec.allOnes 32) ((TrackerRings.toString r).map byteRegister)
    ((TrackerRings.toString s).map byteRegister) (node.map byteRegister) (bytes_fit _)
    (bytes_fit _) (by rw [List.length_map, List.length_map, hdigits])
    (by rw [List.length_map]; omega) hhash
  rcases hcases with hsame | hdvd
  · exact hne (toString_injective (byteRegister_injective.list_map hsame))
  · have hpos : 0 < (TrackerRings.toString r).length := by
      rw [length_toString]
      exact Nat.length_toDigits_pos
    rw [List.length_map, List.length_map] at hdvd
    have hk : node.length + (TrackerRings.toString r).length < 2 ^ 32 - 1 :=
      (Nat.add_le_add_left hshort node.length).trans_lt hnode
    exact period_far _ (Nat.add_pos_right node.length hpos) hk hdvd

theorem slot_ne_sample : slot [49, 48, 46, 49] 17 ≠ slot [49, 48, 46, 49] 42 :=
  slot_ne [49, 48, 46, 49] (by decide) 17 42 rfl (by decide) (by decide)

end VirtualNodes

end Gingko.CrcRegisters
