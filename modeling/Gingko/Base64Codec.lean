import Mathlib.Data.List.Basic
import Mathlib.Data.Nat.Notation

/-!
Base64 text of byte strings: the standard 6/8-bit regrouping over the standard
alphabet, the last group zero filled and padded with equals signs. Decoding
drops up to two padding signs, rejects letters outside the alphabet and
ignores the bits left over after the last whole octet. Encoding is injective
because decoding undoes it.
-/
namespace Gingko.Base64Codec

abbrev ByteString := List UInt8

def padSign : UInt8 := 61

/-- The 6-bit groups of a byte string, most significant bits first. -/
def sextets : ByteString → List ℕ
  | [] => []
  | [a] => [a.toNat / 4, a.toNat % 4 * 16]
  | [a, b] => [a.toNat / 4, a.toNat % 4 * 16 + b.toNat / 16, b.toNat % 16 * 4]
  | a :: b :: c :: rest =>
      a.toNat / 4 :: (a.toNat % 4 * 16 + b.toNat / 16) ::
        (b.toNat % 16 * 4 + c.toNat / 64) :: c.toNat % 64 :: sextets rest

/-- The whole octets of a list of 6-bit groups. -/
def octets : List ℕ → ByteString
  | [] => []
  | [_] => []
  | [p, q] => [UInt8.ofNat (p * 4 + q / 16)]
  | [p, q, r] => [UInt8.ofNat (p * 4 + q / 16), UInt8.ofNat (q % 16 * 16 + r / 4)]
  | p :: q :: r :: s :: rest =>
      UInt8.ofNat (p * 4 + q / 16) :: UInt8.ofNat (q % 16 * 16 + r / 4) ::
        UInt8.ofNat (r % 4 * 64 + s) :: octets rest

def base64FromBinary (n : ℕ) : UInt8 :=
  if n < 26 then UInt8.ofNat (n + 65)
  else if n < 52 then UInt8.ofNat (n + 71)
  else if n < 62 then UInt8.ofNat (n - 4)
  else if n = 62 then 43
  else 47

/-- The padding sign stands for zero in the lookup table of the decoder. -/
def binaryFromBase64 (c : UInt8) : Option ℕ :=
  if 65 ≤ c ∧ c ≤ 90 then some (c.toNat - 65)
  else if 97 ≤ c ∧ c ≤ 122 then some (c.toNat - 71)
  else if 48 ≤ c ∧ c ≤ 57 then some (c.toNat + 4)
  else if c = 43 then some 62
  else if c = 47 then some 63
  else if c = padSign then some 0
  else none

def base64Text (input : ByteString) : ByteString :=
  (sextets input).map base64FromBinary ++
    List.replicate ((3 - input.length % 3) % 3) padSign

def base64Encode (input : ByteString) : Option ByteString :=
  if input = [] then some []
  else if base64Text input = [] then none
  else some (base64Text input)

def trimPadding (input : ByteString) : ByteString :=
  if input.getLast? = some padSign then
    if input.dropLast.getLast? = some padSign then input.dropLast.dropLast
    else input.dropLast
  else input

def base64Decode (input : ByteString) : Option ByteString :=
  if trimPadding input = [] then some []
  else
    match (trimPadding input).mapM binaryFromBase64 with
    | none => none
    | some groups => if octets groups = [] then none else some (octets groups)

theorem sextets_lt (input : ByteString) : ∀ n ∈ sextets input, n < 64 := by
  induction input using sextets.induct with
  | case1 => simp [sextets]
  | case2 a =>
    have ha := a.toNat_lt
    intro n hn
    simp only [sextets, List.mem_cons, List.not_mem_nil, or_false] at hn
    omega
  | case3 a b =>
    have ha := a.toNat_lt
    have hb := b.toNat_lt
    intro n hn
    simp only [sextets, List.mem_cons, List.not_mem_nil, or_false] at hn
    omega
  | case4 a b c rest ih =>
    have ha := a.toNat_lt
    have hb := b.toNat_lt
    have hc := c.toNat_lt
    intro n hn
    simp only [sextets, List.mem_cons] at hn
    rcases hn with h | h | h | h | h
    · omega
    · omega
    · omega
    · omega
    · exact ih n h

private theorem ofNat_of_eq (a : UInt8) (n : ℕ) (h : n = a.toNat) : UInt8.ofNat n = a := by
  rw [h, UInt8.ofNat_toNat]

/-- Regrouping into sextets loses nothing. -/
theorem octets_sextets (input : ByteString) : octets (sextets input) = input := by
  induction input using sextets.induct with
  | case1 => rfl
  | case2 a =>
    have ha := a.toNat_lt
    simp only [sextets, octets]
    rw [ofNat_of_eq a _ (by omega)]
  | case3 a b =>
    have ha := a.toNat_lt
    have hb := b.toNat_lt
    simp only [sextets, octets]
    rw [ofNat_of_eq a _ (by omega), ofNat_of_eq b _ (by omega)]
  | case4 a b c rest ih =>
    have ha := a.toNat_lt
    have hb := b.toNat_lt
    have hc := c.toNat_lt
    simp only [sextets, octets, ih]
    rw [ofNat_of_eq a _ (by omega), ofNat_of_eq b _ (by omega), ofNat_of_eq c _ (by omega)]

theorem letter_roundtrip : ∀ n < 64,
    base64FromBinary n ≠ padSign ∧ binaryFromBase64 (base64FromBinary n) = some n := by
  decide

theorem mapM_letters (groups : List ℕ) (h : ∀ n ∈ groups, n < 64) :
    (groups.map base64FromBinary).mapM binaryFromBase64 = some groups := by
  induction groups with
  | nil => rfl
  | cons n rest ih =>
    have hn := (letter_roundtrip n (h n (List.mem_cons_self ..))).2
    have hrest := ih (fun m hm => h m (List.mem_cons_of_mem n hm))
    simp only [List.map_cons, List.mapM_cons, hn, hrest]
    rfl

private theorem getLast?_ne_pad (l : ByteString) (h : ∀ c ∈ l, c ≠ padSign) :
    l.getLast? ≠ some padSign := by
  intro heq
  exact h padSign (List.mem_of_getLast? heq) rfl

theorem trimPadding_append (l : ByteString) (k : ℕ) (hk : k < 3)
    (h : ∀ c ∈ l, c ≠ padSign) :
    trimPadding (l ++ List.replicate k padSign) = l := by
  have hlast := getLast?_ne_pad l h
  have hcases : k = 0 ∨ k = 1 ∨ k = 2 := by omega
  rcases hcases with rfl | rfl | rfl
  · simp [trimPadding, hlast]
  · simp [trimPadding, hlast]
  · have htwo : l ++ List.replicate 2 padSign = (l ++ [padSign]) ++ [padSign] := by
      simp [List.replicate]
    rw [htwo]
    unfold trimPadding
    simp only [List.getLast?_append, List.getLast?_singleton, Option.some_or,
      List.dropLast_concat, if_true]

theorem trimPadding_text (input : ByteString) :
    trimPadding (base64Text input) = (sextets input).map base64FromBinary := by
  apply trimPadding_append
  · omega
  · intro c hc
    obtain ⟨n, hn, rfl⟩ := List.mem_map.mp hc
    exact (letter_roundtrip n (sextets_lt input n hn)).1

theorem sextets_ne_nil (input : ByteString) (h : input ≠ []) : sextets input ≠ [] := by
  intro hs
  apply h
  rw [← octets_sextets input, hs]
  rfl

/-- The failure branch of the encoder is never taken. -/
theorem base64Encode_eq (input : ByteString) : base64Encode input = some (base64Text input) := by
  unfold base64Encode
  by_cases h : input = []
  · subst h
    rfl
  · have hne : base64Text input ≠ [] := by
      intro ht
      apply sextets_ne_nil input h
      simpa using (List.append_eq_nil_iff.mp ht).1
    rw [if_neg h, if_neg hne]

theorem base64Decode_text (input : ByteString) : base64Decode (base64Text input) = some input := by
  unfold base64Decode
  rw [trimPadding_text, mapM_letters _ (sextets_lt input)]
  by_cases h : input = []
  · subst h
    rfl
  · have hletters : (sextets input).map base64FromBinary ≠ [] := by
      simpa using sextets_ne_nil input h
    simp only [hletters, if_false, octets_sextets, h]

theorem letter_of_mem_base64Text (input : ByteString) (c : UInt8) (h : c ∈ base64Text input) :
    binaryFromBase64 c ≠ none := by
  rcases List.mem_append.mp h with hletter | hpad
  · obtain ⟨n, hn, rfl⟩ := List.mem_map.mp hletter
    have hround := letter_roundtrip n (sextets_lt input n hn)
    simp [hround]
  · rw [List.eq_of_mem_replicate hpad]
    decide

/-- Encoded text holds no zero byte, so it survives as a C string. -/
theorem base64Text_ne_zero (input : ByteString) : ∀ c ∈ base64Text input, c ≠ 0 := by
  intro c hc hzero
  apply letter_of_mem_base64Text input c hc
  rw [hzero]
  decide

theorem sextets_length (input : ByteString) :
    (sextets input).length + (3 - input.length % 3) % 3 = 4 * ((input.length + 2) / 3) := by
  fun_induction sextets input with
  | case1 => rfl
  | case2 a => simp
  | case3 a b => simp
  | case4 a b c rest ih =>
    simp only [List.length_cons] at ih ⊢
    omega

/-- Only the empty string is its own encoding. -/
theorem base64Text_eq_self (input : ByteString) (h : base64Text input = input) : input = [] := by
  have hlength := congrArg List.length h
  have hgroups := sextets_length input
  simp only [base64Text, List.length_append, List.length_map, List.length_replicate] at hlength
  apply List.length_eq_zero_iff.mp
  omega

theorem base64Text_injective : Function.Injective base64Text := by
  intro x y h
  have hdec := congrArg base64Decode h
  rw [base64Decode_text, base64Decode_text] at hdec
  exact Option.some.inj hdec

example : base64Text [77, 97] = [84, 87, 69, 61] := by decide

end Gingko.Base64Codec
