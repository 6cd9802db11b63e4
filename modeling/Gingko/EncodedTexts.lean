import Mathlib.Algebra.Group.Nat.Defs
import Gingko.AgentAdds

/-!
Base64 and hexadecimal texts of byte strings and the conversions between them.
The decoder keeps the length of its input in a 32-bit integer, so of a text of
2^32 letters or more it reads a front part only.
-/
namespace Gingko.EncodedTexts

open Base64Codec AgentAdds

/-- The decoder, with the length of its input as an unsigned integer of 32 bits. -/
def decodeCounted (input : ByteString) : Option ByteString :=
  base64Decode (input.take (input.length % 2 ^ 32))

/-- The output keeps its value when the text is not hexadecimal. -/
def hexToBase64 (hex base64str : ByteString) : Bool × ByteString :=
  match hexstrToBytes hex with
  | none => (false, base64str)
  | some bytes =>
    match base64Encode bytes with
    | none => (false, [])
    | some text => (true, text)

def base64ToHex (base64str hex : ByteString) : Bool × ByteString :=
  match decodeCounted base64str with
  | none => (false, hex)
  | some bytes => (true, toHex bytes)

def IsHexDigit (c : UInt8) : Prop := 48 ≤ c ∧ c ≤ 57 ∨ 97 ≤ c ∧ c ≤ 102 ∨ 65 ≤ c ∧ c ≤ 70

/-- An even number of hexadecimal digits. -/
def HexText (hex : ByteString) : Prop := hex.length % 2 = 0 ∧ ∀ c ∈ hex, IsHexDigit c

def toLower (c : UInt8) : UInt8 := if 65 ≤ c ∧ c ≤ 90 then c + 32 else c

theorem octets_length (groups : List ℕ) : (octets groups).length = 3 * groups.length / 4 := by
  fun_induction octets groups with
  | case1 => rfl
  | case2 p => simp
  | case3 p q => simp
  | case4 p q r => simp
  | case5 p q r s rest ih =>
    simp only [List.length_cons, ih]
    omega

theorem trimPadding_length (input : ByteString) : (trimPadding input).length ≤ input.length := by
  unfold trimPadding
  split
  · split
    · simp only [List.length_dropLast]
      omega
    · simp only [List.length_dropLast]
      omega
  · exact le_refl _

theorem mapM_length (letters : ByteString) (groups : List ℕ)
    (h : letters.mapM binaryFromBase64 = some groups) : groups.length = letters.length := by
  induction letters generalizing groups with
  | nil =>
    obtain rfl := Option.some.inj h
    rfl
  | cons c rest ih =>
    rw [List.mapM_cons] at h
    obtain ⟨n, _, hrest⟩ := Option.bind_eq_some_iff.mp h
    obtain ⟨tail, htail, heq⟩ := Option.bind_eq_some_iff.mp hrest
    obtain rfl := Option.some.inj heq
    simp only [List.length_cons, ih tail htail]

/-- Four letters stand for three bytes at most. -/
theorem base64Decode_length (text bytes : ByteString) (h : base64Decode text = some bytes) :
    4 * bytes.length ≤ 3 * text.length := by
  have htrim := trimPadding_length text
  unfold base64Decode at h
  split at h
  · obtain rfl := Option.some.inj h
    simp
  · split at h
    · contradiction
    · rename_i groups hgroups
      have hcount := mapM_length _ groups hgroups
      have hoctets := octets_length groups
      split at h
      · contradiction
      · obtain rfl := Option.some.inj h
        omega

theorem base64Text_length (bytes : ByteString) :
    (base64Text bytes).length = 4 * ((bytes.length + 2) / 3) := by
  have hgroups := sextets_length bytes
  simp only [base64Text, List.length_append, List.length_map, List.length_replicate]
  exact hgroups

/-- Decoding undoes encoding precisely when the text has fewer than 2^32 letters. -/
theorem decode_encode_iff (bytes : ByteString) :
    decodeCounted (base64Text bytes) = some bytes ↔ 4 * ((bytes.length + 2) / 3) < 2 ^ 32 := by
  have hlength := base64Text_length bytes
  unfold decodeCounted
  constructor
  · intro h
    by_contra hlong
    have hbound := base64Decode_length _ bytes h
    rw [List.length_take] at hbound
    omega
  · intro h
    have hall : (base64Text bytes).length % 2 ^ 32 = (base64Text bytes).length :=
      Nat.mod_eq_of_lt (by omega)
    rw [hall, List.take_length, base64Decode_text]

theorem digitToHex_decimal (c : UInt8) (hlow : 48 ≤ c.toNat) (hhigh : c.toNat ≤ 57) :
    c - 48 < 16 ∧ digitToHex (c - 48) = c := by
  have hvalue : (c - 48).toNat = c.toNat - 48 := by
    simp only [UInt8.toNat_sub, UInt8.reduceToNat]
    omega
  refine ⟨?_, ?_⟩
  · simp only [UInt8.lt_iff_toNat_lt, hvalue, UInt8.reduceToNat]
    omega
  · unfold digitToHex
    rw [if_pos, UInt8.sub_add_cancel]
    simp only [UInt8.lt_iff_toNat_lt, hvalue, UInt8.reduceToNat]
    omega

/-- The letters of either case stand for the digits from ten on. -/
theorem digitToHex_letter (c base : UInt8) (hlow : base.toNat ≤ c.toNat)
    (hhigh : c.toNat ≤ base.toNat + 5) :
    c - base + 10 < 16 ∧ digitToHex (c - base + 10) = c - base + 97 := by
  have hc := c.toNat_lt
  have hvalue : (c - base + 10).toNat = c.toNat - base.toNat + 10 := by
    simp only [UInt8.toNat_add, UInt8.toNat_sub, UInt8.reduceToNat]
    omega
  refine ⟨?_, ?_⟩
  · simp only [UInt8.lt_iff_toNat_lt, hvalue, UInt8.reduceToNat]
    omega
  · unfold digitToHex
    rw [if_neg, UInt8.add_assoc]
    · rfl
    · simp only [UInt8.lt_iff_toNat_lt, hvalue, UInt8.reduceToNat]
      omega

theorem hexcharToDigit_some (c : UInt8) (h : IsHexDigit c) :
    ∃ digit, hexcharToDigit c = some digit ∧ digit < 16 ∧ digitToHex digit = toLower c := by
  unfold hexcharToDigit toLower
  simp only [IsHexDigit, UInt8.le_iff_toNat_le, UInt8.reduceToNat] at h ⊢
  rcases h with hdigit | hlower | hupper
  · obtain ⟨hsmall, hback⟩ := digitToHex_decimal c hdigit.1 hdigit.2
    refine ⟨c - 48, if_pos hdigit, hsmall, ?_⟩
    rw [if_neg (by omega), hback]
  · obtain ⟨hsmall, hback⟩ := digitToHex_letter c 97 hlower.1 hlower.2
    refine ⟨c - 97 + 10, ?_, hsmall, ?_⟩
    · rw [if_neg (by omega), if_pos hlower]
    · rw [if_neg (by omega), hback, UInt8.sub_add_cancel]
  · obtain ⟨hsmall, hback⟩ := digitToHex_letter c 65 hupper.1 hupper.2
    refine ⟨c - 65 + 10, ?_, hsmall, ?_⟩
    · rw [if_neg (by omega), if_neg (by omega), if_pos hupper]
    · rw [if_pos (by omega), hback]
      apply UInt8.toNat_inj.mp
      simp only [UInt8.toNat_add, UInt8.toNat_sub, UInt8.reduceToNat]
      omega

theorem hexcharToDigit_none (c : UInt8) (h : ¬ IsHexDigit c) : hexcharToDigit c = none := by
  unfold IsHexDigit at h
  unfold hexcharToDigit
  rw [if_neg (fun hc => h (Or.inl hc)), if_neg (fun hc => h (Or.inr (Or.inl hc))),
    if_neg (fun hc => h (Or.inr (Or.inr hc)))]

theorem hexText_cons (high low : UInt8) (rest : ByteString) :
    HexText (high :: low :: rest) ↔ IsHexDigit high ∧ IsHexDigit low ∧ HexText rest := by
  simp only [HexText, List.length_cons, List.forall_mem_cons]
  constructor
  · intro h
    exact ⟨h.2.1, h.2.2.1, by omega, h.2.2.2⟩
  · intro h
    exact ⟨by omega, h.1, h.2.1, h.2.2.2⟩

/-- One byte from its two digits and back. -/
theorem byte_of_digits (high low : UInt8) (hhigh : high < 16) (hlow : low < 16) :
    (high * 16 + low) / 16 = high ∧ (high * 16 + low) % 16 = low := by
  have h : high.toNat < 16 := UInt8.lt_iff_toNat_lt.mp hhigh
  have l : low.toNat < 16 := UInt8.lt_iff_toNat_lt.mp hlow
  refine ⟨?_, ?_⟩
  all_goals
    apply UInt8.toNat_inj.mp
    simp only [UInt8.toNat_add, UInt8.toNat_mul, UInt8.toNat_div, UInt8.toNat_mod,
      UInt8.reduceToNat]
    omega

/-- Hexadecimal texts are read, and written back in lower case. -/
theorem hexstrToBytes_some (hex : ByteString) (h : HexText hex) :
    ∃ bytes, hexstrToBytes hex = some bytes ∧ toHex bytes = hex.map toLower ∧
      2 * bytes.length = hex.length := by
  fun_induction hexstrToBytes hex with
  | case1 => exact ⟨[], rfl, rfl, rfl⟩
  | case2 c => simp [HexText] at h
  | case3 high low rest d e bytes hrest hlow hhigh ih =>
    obtain ⟨hhexHigh, hhexLow, hhex⟩ := (hexText_cons high low rest).mp h
    obtain ⟨d', hd, hdsmall, hdback⟩ := hexcharToDigit_some high hhexHigh
    obtain ⟨e', he, hesmall, heback⟩ := hexcharToDigit_some low hhexLow
    obtain rfl := Option.some.inj (hhigh.symm.trans hd)
    obtain rfl := Option.some.inj (hlow.symm.trans he)
    obtain ⟨bytes', hbytes, hback, hlength⟩ := ih hhex
    obtain rfl := Option.some.inj (hrest.symm.trans hbytes)
    obtain ⟨hdiv, hmod⟩ := byte_of_digits d e hdsmall hesmall
    refine ⟨_, rfl, ?_, ?_⟩
    · rw [toHex, hdiv, hmod, hdback, heback, hback]
      rfl
    · simp only [List.length_cons]
      omega
  | case4 high low rest hfails ih =>
    obtain ⟨hhexHigh, hhexLow, hhex⟩ := (hexText_cons high low rest).mp h
    obtain ⟨d, hd, _⟩ := hexcharToDigit_some high hhexHigh
    obtain ⟨e, he, _⟩ := hexcharToDigit_some low hhexLow
    obtain ⟨bytes, hbytes, _⟩ := ih hhex
    exact absurd hbytes (hfails d e bytes hd he)

theorem hexstrToBytes_none (hex : ByteString) (h : ¬ HexText hex) : hexstrToBytes hex = none := by
  fun_induction hexstrToBytes hex with
  | case1 => simp [HexText] at h
  | case2 c => rfl
  | case3 high low rest d e bytes hrest hlow hhigh ih =>
    rw [hexText_cons] at h
    by_cases hhexHigh : IsHexDigit high
    · by_cases hhexLow : IsHexDigit low
      · have hnone := ih (fun hhex => h ⟨hhexHigh, hhexLow, hhex⟩)
        rw [hrest] at hnone
        contradiction
      · rw [hexcharToDigit_none low hhexLow] at hlow
        contradiction
    · rw [hexcharToDigit_none high hhexHigh] at hhigh
      contradiction
  | case4 high low rest hfails ih => rfl

/-- Decoding undoes encoding, and the way from hexadecimal text to base64 and
back only lowers the letters, precisely for bytes whose base64 text has fewer
than 2^32 letters; what is not hexadecimal is refused. -/
theorem encodings_round_trip_iff (bytes hex base64str output : ByteString) :
    ((∃ text, base64Encode bytes = some text ∧ decodeCounted text = some bytes) ↔
        4 * ((bytes.length + 2) / 3) < 2 ^ 32) ∧
      (HexText hex → (hexToBase64 hex base64str).1 = true ∧
        (base64ToHex (hexToBase64 hex base64str).2 output = (true, hex.map toLower) ↔
          4 * ((hex.length / 2 + 2) / 3) < 2 ^ 32)) ∧
      (¬ HexText hex → hexToBase64 hex base64str = (false, base64str)) := by
  refine ⟨?_, ?_, ?_⟩
  · rw [← decode_encode_iff bytes, base64Encode_eq]
    constructor
    · intro h
      obtain ⟨text, htext, hdecode⟩ := h
      rwa [← Option.some.inj htext] at hdecode
    · intro h
      exact ⟨_, rfl, h⟩
  · intro h
    obtain ⟨stored, hbytes, hlower, hlength⟩ := hexstrToBytes_some hex h
    have hencoded : hexToBase64 hex base64str = (true, base64Text stored) := by
      simp only [hexToBase64, hbytes, base64Encode_eq]
    have hhalf : hex.length / 2 = stored.length := by omega
    rw [hencoded, hhalf, ← decode_encode_iff stored]
    refine ⟨rfl, ?_⟩
    constructor
    · intro hback
      simp only [base64ToHex] at hback
      cases hdecode : decodeCounted (base64Text stored) with
      | none => simp [hdecode] at hback
      | some read =>
        simp only [hdecode, Prod.mk.injEq, true_and] at hback
        have hsame := hexstrToBytes_toHex read
        rw [hback, ← hlower, hexstrToBytes_toHex] at hsame
        exact congrArg some (Option.some.inj hsame).symm
    · intro hdecode
      simp only [base64ToHex, hdecode, hlower]
  · intro h
    simp only [hexToBase64, hexstrToBytes_none hex h]

/-- The text of 3 * 2^30 bytes has 2^32 letters and is taken for an empty one. -/
theorem long_text_lost :
    ¬ ∀ bytes, ∃ text, base64Encode bytes = some text ∧ decodeCounted text = some bytes := by
  intro h
  obtain ⟨text, htext, hdecode⟩ := h (List.replicate (3 * 2 ^ 30) 0)
  rw [base64Encode_eq] at htext
  rw [← Option.some.inj htext, decode_encode_iff, List.length_replicate] at hdecode
  omega

end Gingko.EncodedTexts
