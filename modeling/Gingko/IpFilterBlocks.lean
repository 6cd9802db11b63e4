import Gingko.IpFilters

/-!
What the filter of a command line blocks: rules of one kind add up to their union, a
change of kind leaves nothing of the rules before it, so that the filter has the
documented meaning for the last block of options. A mask stands for the addresses
that share the leading bits of the host.
-/
namespace Gingko.IpFilterBlocks

open IpFilters

section Rules

variable {F : Type} {net : Net F}

theorem addIpFilterRule_eq (flags : ℕ) (filter : F) (text : Text) :
    net.addIpFilterRule flags filter text =
      (net.readRange text).map fun range => net.addRule filter range.first range.last flags := by
  unfold Net.addIpFilterRule Net.readRange
  split
  · rename_i start _
    cases net.fromString start <;> rfl
  · rename_i start last _
    cases net.fromString start with
    | none => rfl
    | some first => cases net.fromString last <;> rfl
  · rfl

/-- What one rule does to the flags of an address. -/
theorem access_addIpFilterRule (hnet : net.Documented) (flags : ℕ) (filter added : F) (text : Text)
    (hordered : ∀ range, net.readRange text = some range → range.Ordered)
    (h : net.addIpFilterRule flags filter text = some added) (a : Address) :
    net.access added a =
      if (net.readRange text).any (·.holds a) then flags else net.access filter a := by
  rw [addIpFilterRule_eq] at h
  obtain ⟨range, hread, rfl⟩ := Option.map_eq_some_iff.mp h
  rw [hnet.access_addRule filter range (hordered range hread), hread]
  rfl

theorem access_addRules (hnet : net.Documented) (flags : ℕ) (texts : List Text) (filter added : F)
    (hordered : ∀ text ∈ texts, ∀ range, net.readRange text = some range → range.Ordered)
    (h : texts.foldlM (net.addIpFilterRule flags) filter = some added) (a : Address) :
    net.access added a =
      if texts.any (fun text => (net.readRange text).any (·.holds a)) then flags
      else net.access filter a := by
  induction texts generalizing filter with
  | nil =>
    obtain rfl := Option.some.inj h
    rfl
  | cons text texts ih =>
    obtain ⟨first, hfirst, hrest⟩ := Option.bind_eq_some_iff.mp h
    obtain ⟨htext, htexts⟩ := List.forall_mem_cons.mp hordered
    rw [ih first htexts hrest, access_addIpFilterRule hnet flags filter first text htext hfirst a]
    cases hall : texts.any (fun text => (net.readRange text).any (·.holds a)) with
    | true => simp [hall]
    | false => simp [hall]

theorem access_clearIpFilter (hnet : net.Documented) (flags : ℕ) (filter : F) (a : BitVec 32) :
    net.access (net.clearIpFilter flags filter) (.v4 a) = if flags = 0 then 1 else 0 := by
  have hholds : IpRange.holds ⟨.v4 0, .v4 (BitVec.allOnes 32)⟩ (.v4 a) = true := by
    simp only [IpRange.holds, Bool.and_eq_true, decide_eq_true_eq]
    constructor
    · exact Nat.zero_le _
    · rw [BitVec.le_def, BitVec.toNat_allOnes]
      omega
  have hlowest : net.fromString "0.0.0.0".toList = some (.v4 0) :=
    hnet.fromString_dottedQuad 0
  have hhighest : net.fromString "255.255.255.255".toList = some (.v4 (BitVec.allOnes 32)) :=
    hnet.fromString_dottedQuad (BitVec.allOnes 32)
  have haccess := hnet.access_addRule filter ⟨.v4 0, .v4 (BitVec.allOnes 32)⟩ (Nat.zero_le _)
    (if flags = 0 then 1 else 0) (.v4 a)
  unfold Net.clearIpFilter
  rw [hlowest, hhighest, Option.getD_some, Option.getD_some, haccess, if_pos hholds]

end Rules

section Masks

theorem or_low_ones (value i : ℕ) :
    value ||| (2 ^ i - 1) = 2 ^ i * (value / 2 ^ i) + (2 ^ i - 1) := by
  have hlow : 2 ^ i - 1 < 2 ^ i := Nat.sub_lt (Nat.two_pow_pos i) Nat.one_pos
  apply Nat.eq_of_testBit_eq
  intro j
  rw [Nat.testBit_or, Nat.testBit_two_pow_sub_one, Nat.testBit_two_pow_mul_add _ hlow]
  by_cases hj : j < i
  · simp [hj]
  · rw [if_neg hj, Nat.testBit_div_two_pow]
    simp [hj, Nat.sub_add_cancel (Nat.le_of_not_lt hj)]

theorem rangeStart_toNat (ip : BitVec 32) (i : ℕ) :
    (rangeStart ip i).toNat = 2 ^ i * (ip.toNat / 2 ^ i) := by
  have hle : 2 ^ i * (ip.toNat / 2 ^ i) ≤ ip.toNat := Nat.mul_div_le ..
  unfold rangeStart
  rw [BitVec.toNat_ofNat, Nat.shiftRight_eq_div_pow, Nat.shiftLeft_eq, Nat.mul_comm]
  exact Nat.mod_eq_of_lt (lt_of_le_of_lt hle ip.isLt)

theorem rangeEnd_toNat (ip : BitVec 32) (i : ℕ) (hi : i ≤ 32) :
    (rangeEnd ip i).toNat = 2 ^ i * (ip.toNat / 2 ^ i) + (2 ^ i - 1) := by
  have hones : 2 ^ i - 1 < 2 ^ 32 :=
    lt_of_lt_of_le (Nat.sub_lt (Nat.two_pow_pos i) Nat.one_pos) (Nat.pow_le_pow_right (by omega) hi)
  unfold rangeEnd
  rw [BitVec.toNat_ofNat, Nat.one_shiftLeft, Nat.mod_eq_of_lt (Nat.or_lt_two_pow ip.isLt hones)]
  exact or_low_ones ip.toNat i

/-- The range holds the addresses that agree with the host above the free bits. -/
theorem holds_range_iff (ip a : BitVec 32) (i : ℕ) (hi : i ≤ 32) :
    IpRange.holds ⟨.v4 (rangeStart ip i), .v4 (rangeEnd ip i)⟩ (.v4 a) = true ↔
      a.toNat / 2 ^ i = ip.toNat / 2 ^ i := by
  have hstart := rangeStart_toNat ip i
  have hend := rangeEnd_toNat ip i hi
  have hpos : 0 < 2 ^ i := Nat.two_pow_pos i
  rw [Nat.div_eq_iff hpos]
  simp only [IpRange.holds, Bool.and_eq_true, decide_eq_true_eq, BitVec.le_def, hstart, hend]
  rw [Nat.mul_comm]
  omega

theorem hostBits_le (mask : BitVec 32) (n : ℕ) : hostBits mask n ≤ n := by
  induction n with
  | zero => exact le_refl _
  | succ n ih =>
    unfold hostBits
    split
    · omega
    · exact le_refl _

theorem dottedQuad_ne_nil (value : BitVec 32) : dottedQuad value ≠ [] := by
  simp [dottedQuad]

theorem not_dash_of_mem_dottedQuad (value : BitVec 32) (c : Char) (h : c ∈ dottedQuad value) :
    c ≠ '-' := by
  have hdigit (n : ℕ) (hc : c ∈ Nat.toDigits 10 n) : c ≠ '-' := by
    intro hdash
    have hisDigit := Nat.isDigit_of_mem_toDigits (by omega) (by omega) hc
    rw [hdash] at hisDigit
    simp [Char.isDigit] at hisDigit
  have hdot (hc : c = '.') : c ≠ '-' := by
    rw [hc]
    simp
  simp only [dottedQuad, List.append_assoc, List.cons_append, List.mem_append, List.mem_cons] at h
  rcases h with h | h | h | h | h | h | h
  all_goals first | exact hdigit _ h | exact hdot h

theorem slipt_range (x y : BitVec 32) :
    sliptStringToVector (dottedQuad x ++ '-' :: dottedQuad y) ['-'] =
      [dottedQuad x, dottedQuad y] := by
  have hpiece (value : BitVec 32) : ∀ c ∈ dottedQuad value, ['-'].contains c = false := by
    intro c hc
    simpa using not_dash_of_mem_dottedQuad value c hc
  unfold sliptStringToVector
  rw [List.splitOnP_append_cons_of_forall_mem (hpiece x) '-' (by simp),
    List.splitOnP_eq_singleton (hpiece y)]
  simp [dottedQuad_ne_nil]

variable {F : Type} {net : Net F}

/-- The range of a mask is one, whichever bits the mask has. -/
theorem wellOrdered_texts (hnet : net.Documented) (opt : FilterOption)
    (hordered : net.WellOrdered opt) (text : Text) (htext : text ∈ net.ruleTexts opt)
    (range : IpRange) (hread : net.readRange text = some range) : range.Ordered := by
  cases opt with
  | ipWhite optarg => exact hordered text htext range hread
  | ipBlack optarg => exact hordered text htext range hread
  | mask optarg =>
    rw [Net.ruleTexts, Option.mem_toList, Net.parseMaskToIPRange] at htext
    obtain ⟨ip, _, hrest⟩ := Option.bind_eq_some_iff.mp htext
    obtain ⟨mask, _, hprinted⟩ := Option.bind_eq_some_iff.mp hrest
    cases ip with
    | v6 ip => simp at hprinted
    | v4 ip =>
      cases mask with
      | v6 mask => simp at hprinted
      | v4 mask =>
        obtain rfl := Option.some.inj hprinted
        simp only [Net.readRange, slipt_range, hnet.fromString_dottedQuad, Option.bind_eq_bind,
          Option.bind_some] at hread
        obtain rfl := Option.some.inj hread
        have hstart := rangeStart_toNat ip (hostBits mask 32)
        have hend := rangeEnd_toNat ip (hostBits mask 32) (hostBits_le mask 32)
        show rangeStart ip (hostBits mask 32) ≤ rangeEnd ip (hostBits mask 32)
        rw [BitVec.le_def]
        omega

/-- A mask covers what has the leading bits of the host: all bits above the highest
zero of the mask. -/
theorem mask_covers_iff (hquads : ∀ v, net.fromString (dottedQuad v) = some (.v4 v))
    (ip mask : BitVec 32) (optarg : Text) (hip : net.fromString net.localHostIp = some (.v4 ip))
    (hmask : net.fromString optarg = some (.v4 mask)) (a : BitVec 32) :
    net.covers (.v4 a) (.mask optarg) = true ↔
      a.toNat / 2 ^ hostBits mask 32 = ip.toNat / 2 ^ hostBits mask 32 := by
  have hcovers : net.covers (.v4 a) (.mask optarg) =
      IpRange.holds ⟨.v4 (rangeStart ip (hostBits mask 32)), .v4 (rangeEnd ip (hostBits mask 32))⟩
        (.v4 a) := by
    simp [Net.covers, Net.ruleTexts, Net.parseMaskToIPRange, hip, hmask, Net.readRange,
      slipt_range, hquads]
  rw [hcovers]
  exact holds_range_iff ip a (hostBits mask 32) (hostBits_le mask 32)

end Masks

section Options

variable {F : Type} {net : Net F}

def flagsOf (opt : FilterOption) : ℕ := if opt.isBlack then blocked else 0

/-- The flags that an option starts from when the one before was of the other kind. -/
def resetFlags (opt : FilterOption) : ℕ := if opt.isBlack then 0 else blocked

theorem parseOption_access (hnet : net.Documented) (st next : Net.Parsed F) (opt : FilterOption)
    (hordered : net.WellOrdered opt) (h : net.parseOption st opt = some next) :
    next.ipFilterWhite = !opt.isBlack ∧ ∀ a : BitVec 32, net.access next.filter (.v4 a) =
      if net.covers (.v4 a) opt then flagsOf opt
      else if st.ipFilterWhite = !opt.isBlack then net.access st.filter (.v4 a)
      else resetFlags opt := by
  cases opt with
  | ipWhite optarg =>
    obtain ⟨filter, hparsed, hnext⟩ := Option.bind_eq_some_iff.mp h
    obtain rfl := Option.some.inj hnext
    refine ⟨rfl, ?_⟩
    intro a
    rw [access_addRules hnet 0 _ _ filter hordered hparsed (.v4 a)]
    cases hwhite : st.ipFilterWhite with
    | true => rfl
    | false =>
      simp only [Bool.false_eq_true, if_false, access_clearIpFilter hnet]
      rfl
  | ipBlack optarg =>
    obtain ⟨filter, hparsed, hnext⟩ := Option.bind_eq_some_iff.mp h
    obtain rfl := Option.some.inj hnext
    refine ⟨rfl, ?_⟩
    intro a
    rw [access_addRules hnet blocked _ _ filter hordered hparsed (.v4 a)]
    cases hwhite : st.ipFilterWhite with
    | true =>
      simp only [if_true, access_clearIpFilter hnet]
      rfl
    | false => rfl
  | mask optarg =>
    obtain ⟨range, hrange, hrest⟩ := Option.bind_eq_some_iff.mp h
    obtain ⟨filter, hadded, hnext⟩ := Option.bind_eq_some_iff.mp hrest
    obtain rfl := Option.some.inj hnext
    have hcovers (a : Address) : net.covers a (.mask optarg) =
        (net.readRange range).any (·.holds a) := by
      simp [Net.covers, Net.ruleTexts, hrange]
    have hrule := wellOrdered_texts hnet (.mask optarg) hordered range (by
      rw [Net.ruleTexts, hrange]
      exact List.mem_singleton_self range)
    refine ⟨rfl, ?_⟩
    intro a
    rw [access_addIpFilterRule hnet 0 _ filter range hrule hadded, hcovers]
    cases hwhite : st.ipFilterWhite with
    | true => rfl
    | false =>
      simp only [Bool.false_eq_true, if_false, access_clearIpFilter hnet]
      rfl

end Options

section Blocks

variable {F : Type} {net : Net F}

def lastWhite (opts : List FilterOption) : Bool :=
  match opts.getLast? with
  | none => false
  | some last => !last.isBlack

theorem lastWhite_concat (opts : List FilterOption) (opt : FilterOption) :
    lastWhite (opts ++ [opt]) = !opt.isBlack := by
  simp [lastWhite]

theorem lastBlock_concat (opts : List FilterOption) (opt : FilterOption) :
    lastBlock (opts ++ [opt]) =
      if lastWhite opts = !opt.isBlack then lastBlock opts ++ [opt] else [opt] := by
  have hconcat (pre : List FilterOption) (last : FilterOption) : lastBlock (pre ++ [last]) =
      pre.rtakeWhile (fun o => o.isBlack == last.isBlack) ++ [last] := by
    simp [lastBlock]
  rw [hconcat]
  rcases List.eq_nil_or_concat' opts with rfl | ⟨pre, last, rfl⟩
  · simp [lastBlock]
  · rw [lastWhite_concat, hconcat, List.rtakeWhile_concat]
    by_cases hkind : last.isBlack = opt.isBlack
    · simp [hkind]
    · have hkind' : ¬ (!last.isBlack) = !opt.isBlack := fun h => hkind (Bool.not_inj h)
      simp [hkind, hkind']

theorem kind_of_mem_lastBlock (opts : List FilterOption) (opt : FilterOption)
    (h : opt ∈ lastBlock opts) : opt.isBlack = !lastWhite opts := by
  unfold lastBlock at h
  unfold lastWhite
  cases hlast : opts.getLast? with
  | none => simp [hlast] at h
  | some last =>
    simp only [hlast] at h ⊢
    simpa using List.mem_rtakeWhile_imp h

/-- A block of white and mask options is not empty. -/
theorem exists_white (opts : List FilterOption) (h : lastWhite opts = true) :
    ∃ opt ∈ lastBlock opts, opt.isBlack = false := by
  rcases List.eq_nil_or_concat' opts with rfl | ⟨pre, last, rfl⟩
  · simp [lastWhite] at h
  · rw [lastWhite_concat] at h
    refine ⟨last, ?_, by simpa using h⟩
    rw [lastBlock_concat]
    split <;> simp

theorem denied_of_black (opts : List FilterOption) (a : Address)
    (hblack : ∀ opt ∈ opts, opt.isBlack = true) :
    net.Denied opts a ↔ ∃ opt ∈ opts, net.covers a opt = true := by
  constructor
  · rintro (⟨opt, hmem, -, hcovers⟩ | ⟨⟨opt, hmem, hwhite⟩, -⟩)
    · exact ⟨opt, hmem, hcovers⟩
    · rw [hblack opt hmem] at hwhite
      simp at hwhite
  · intro hsome
    obtain ⟨opt, hmem, hcovers⟩ := hsome
    exact Or.inl ⟨opt, hmem, hblack opt hmem, hcovers⟩

theorem denied_of_white (opts : List FilterOption) (a : Address)
    (hwhite : ∀ opt ∈ opts, opt.isBlack = false) (hsome : ∃ opt ∈ opts, opt.isBlack = false) :
    net.Denied opts a ↔ ∀ opt ∈ opts, net.covers a opt = false := by
  constructor
  · rintro (⟨opt, hmem, hblack, -⟩ | ⟨-, hnone⟩)
    · rw [hwhite opt hmem] at hblack
      simp at hblack
    · intro opt hmem
      exact hnone opt hmem (hwhite opt hmem)
  · intro hnone
    exact Or.inr ⟨hsome, fun opt hmem _ => hnone opt hmem⟩

/-- One more option of the kind of the block. -/
theorem denied_concat (opts : List FilterOption) (opt : FilterOption) (a : Address)
    (hkind : lastWhite opts = !opt.isBlack) :
    net.Denied (lastBlock opts ++ [opt]) a ↔
      if net.covers a opt then opt.isBlack = true else net.Denied (lastBlock opts) a := by
  have hsame (o : FilterOption) (h : o ∈ lastBlock opts ++ [opt]) : o.isBlack = opt.isBlack := by
    rcases List.mem_append.mp h with hold | hnew
    · rw [kind_of_mem_lastBlock opts o hold, hkind, Bool.not_not]
    · rw [List.mem_singleton.mp hnew]
  have hbefore (o : FilterOption) (h : o ∈ lastBlock opts) : o.isBlack = opt.isBlack :=
    hsame o (List.mem_append_left _ h)
  cases hblack : opt.isBlack with
  | true =>
    rw [hblack] at hsame hbefore
    rw [denied_of_black _ a hsame, denied_of_black _ a hbefore]
    cases hcovers : net.covers a opt with
    | true => simp [hcovers]
    | false => simp [or_and_right, exists_or, hcovers]
  | false =>
    rw [hblack] at hsame hbefore hkind
    have hsome := exists_white opts hkind
    rw [denied_of_white _ a hsame ⟨opt, by simp, hblack⟩, denied_of_white _ a hbefore hsome]
    cases hcovers : net.covers a opt with
    | true =>
      simp only [if_true, Bool.false_eq_true, iff_false, not_forall]
      exact ⟨opt, by simp, by simp [hcovers]⟩
    | false => simp [or_imp, forall_and, hcovers]

theorem denied_single (opt : FilterOption) (a : Address) :
    net.Denied [opt] a ↔ opt.isBlack = net.covers a opt := by
  cases hblack : opt.isBlack with
  | true => cases hcovers : net.covers a opt <;> simp [Net.Denied, hblack, hcovers]
  | false => cases hcovers : net.covers a opt <;> simp [Net.Denied, hblack, hcovers]

theorem access_parseOptions (hnet : net.Documented) (opts : List FilterOption)
    (hordered : ∀ opt ∈ opts, net.WellOrdered opt) (st : Net.Parsed F)
    (h : opts.foldlM net.parseOption ⟨net.empty, false⟩ = some st) :
    st.ipFilterWhite = lastWhite opts ∧ ∀ a : BitVec 32, net.access st.filter (.v4 a) =
      if net.Denied (lastBlock opts) (.v4 a) then blocked else 0 := by
  induction opts using List.reverseRecOn generalizing st with
  | nil =>
    obtain rfl := Option.some.inj h
    refine ⟨rfl, ?_⟩
    intro a
    rw [hnet.access_empty]
    rfl
  | append_singleton opts opt ih =>
    rw [List.foldlM_append] at h
    obtain ⟨mid, hmid, hlast⟩ := Option.bind_eq_some_iff.mp h
    obtain ⟨after, hparsed, hdone⟩ := Option.bind_eq_some_iff.mp hlast
    obtain rfl := Option.some.inj hdone
    obtain ⟨hbefore, hlastOrdered⟩ := List.forall_mem_append.mp hordered
    obtain ⟨hwhite, haccess⟩ := ih hbefore mid hmid
    obtain ⟨hkind, hflags⟩ := parseOption_access hnet mid after opt
      (hlastOrdered opt (List.mem_singleton_self opt)) hparsed
    refine ⟨hkind.trans (lastWhite_concat opts opt).symm, ?_⟩
    intro a
    rw [hflags a, hwhite, haccess a, lastBlock_concat]
    by_cases hsame : lastWhite opts = !opt.isBlack
    · rw [if_pos hsame, if_pos hsame]
      simp only [denied_concat opts opt (.v4 a) hsame, flagsOf]
      cases net.covers (.v4 a) opt <;> simp
    · rw [if_neg hsame, if_neg hsame]
      simp only [denied_single, flagsOf, resetFlags]
      cases opt.isBlack <;> cases net.covers (.v4 a) opt <;> simp

theorem blocks_iff_of_access (filter : F) (a : Address) (denied : Prop) [Decidable denied]
    (h : net.access filter a = if denied then blocked else 0) :
    net.Blocks filter a ↔ denied := by
  unfold Net.Blocks
  rw [h]
  by_cases hdenied : denied
  · simp [hdenied, blocked]
  · simp [hdenied]

/-- An address is blocked exactly if the last block of options denies it. -/
theorem buildFilter_blocks_iff (net : Net F) (hnet : net.Documented) (opts : List FilterOption)
    (hordered : ∀ opt ∈ opts, net.WellOrdered opt) (built : F)
    (hbuilt : net.buildFilter opts = some built) (a : BitVec 32) :
    net.Blocks built (.v4 a) ↔ net.Denied (lastBlock opts) (.v4 a) := by
  obtain ⟨st, hst, rfl⟩ := Option.map_eq_some_iff.mp hbuilt
  obtain ⟨-, haccess⟩ := access_parseOptions hnet opts hordered st hst
  exact blocks_iff_of_access st.filter (.v4 a) _ (haccess a)

theorem lastBlock_eq_self (opts : List FilterOption) (black : Bool)
    (h : ∀ opt ∈ opts, opt.isBlack = black) : lastBlock opts = opts := by
  unfold lastBlock
  cases hlast : opts.getLast? with
  | none => exact (List.getLast?_eq_none_iff.mp hlast).symm
  | some last =>
    have hkind := h last (List.mem_of_getLast? hlast)
    apply List.rtakeWhile_eq_self_iff.mpr
    intro opt hmem
    simp [h opt hmem, hkind]

/-- Options of one kind block what the documentation says. -/
theorem buildFilter_blocks_of_same (hnet : net.Documented) (opts : List FilterOption) (black : Bool)
    (hsame : ∀ opt ∈ opts, opt.isBlack = black) (hordered : ∀ opt ∈ opts, net.WellOrdered opt)
    (built : F) (hbuilt : net.buildFilter opts = some built) (a : BitVec 32) :
    net.Blocks built (.v4 a) ↔ net.Denied opts (.v4 a) := by
  obtain ⟨st, hst, rfl⟩ := Option.map_eq_some_iff.mp hbuilt
  have haccess := (access_parseOptions hnet opts hordered st hst).2 a
  rw [lastBlock_eq_self opts black hsame] at haccess
  exact blocks_iff_of_access st.filter (.v4 a) _ haccess

end Blocks

section Samples

def readByte (text : Text) : Option ℕ :=
  let value := Nat.ofDigitChars 10 text 0
  if !text.isEmpty ∧ text.all (·.isDigit) ∧ value < 256 then some value else none

def readDotted (text : Text) : Option Address :=
  match (text.splitOnP (· == '.')).mapM readByte with
  | some [a, b, c, d] => some (.v4 (BitVec.ofNat 32 (a * 2 ^ 24 + b * 2 ^ 16 + c * 2 ^ 8 + d)))
  | _ => none

theorem readByte_toDigits (n : ℕ) (hn : n < 256) : readByte (Nat.toDigits 10 n) = some n := by
  have hdigits : (Nat.toDigits 10 n).all (·.isDigit) = true := by
    rw [List.all_eq_true]
    exact fun c hc => Nat.isDigit_of_mem_toDigits (by decide) (by decide) hc
  simp [readByte, hdigits, hn, Nat.ofDigitChars_ten_toDigits]

/-- The sample reads back what is printed. -/
theorem readDotted_dottedQuad (v : BitVec 32) : readDotted (dottedQuad v) = some (.v4 v) := by
  have hpiece (n : ℕ) : ∀ c ∈ Nat.toDigits 10 n, (c == '.') = false := by
    intro c hc
    have hisDigit := Nat.isDigit_of_mem_toDigits (by decide) (by decide) hc
    rw [beq_eq_false_iff_ne]
    rintro rfl
    simp [Char.isDigit] at hisDigit
  have hsplit (n : ℕ) (rest : Text) :
      (Nat.toDigits 10 n ++ '.' :: rest).splitOnP (· == '.') =
        Nat.toDigits 10 n :: rest.splitOnP (· == '.') :=
    List.splitOnP_append_cons_of_forall_mem (hpiece n) '.' (by decide) rest
  have hbyte (shift : ℕ) : v.toNat / 2 ^ shift % 256 < 256 := Nat.mod_lt _ (by decide)
  have hvalue : BitVec.ofNat 32 (v.toNat / 2 ^ 24 % 256 * 2 ^ 24 + v.toNat / 2 ^ 16 % 256 * 2 ^ 16 +
      v.toNat / 2 ^ 8 % 256 * 2 ^ 8 + v.toNat / 2 ^ 0 % 256) = v := by
    apply BitVec.eq_of_toNat_eq
    have hlt := v.isLt
    rw [BitVec.toNat_ofNat]
    omega
  simp only [readDotted, dottedQuad, List.append_assoc, List.cons_append, hsplit,
    List.splitOnP_eq_singleton (hpiece _)]
  have hread (shift : ℕ) := readByte_toDigits _ (hbyte shift)
  simp only [List.mapM_cons, List.mapM_nil, hread, Option.pure_def, Option.bind_eq_bind,
    Option.bind_some]
  exact congrArg (fun value => some (Address.v4 value)) hvalue

/-- A filter as a function, on a host with a fixed address. -/
def sampleNet : Net (Address → ℕ) where
  fromString := readDotted
  localHostIp := "10.26.38.49".toList
  empty _ := 0
  addRule filter first last flags a := if IpRange.holds ⟨first, last⟩ a then flags else filter a
  access filter a := filter a

theorem sampleNet_documented : sampleNet.Documented :=
  ⟨fun _ => rfl, fun _ _ _ _ _ => rfl, readDotted_dottedQuad⟩

example : sampleNet.parseMaskToIPRange sampleNet.localHostIp "255.255.0.0".toList =
    some "10.26.0.0-10.26.255.255".toList := by decide

theorem wellOrdered_of_all {net : Net F} (opt : FilterOption)
    (h : (net.ruleTexts opt).all (fun text => (net.readRange text).all (·.Ordered)) = true) :
    net.WellOrdered opt := by
  cases opt with
  | mask optarg => trivial
  | ipWhite optarg | ipBlack optarg =>
    intro text htext range hread
    have hone := List.all_eq_true.mp h text htext
    rw [hread, Option.all_some, decide_eq_true_eq] at hone
    exact hone

/-- A host in the white list, and then others in the black list. -/
def whiteThenBlack : List FilterOption :=
  [.ipWhite "10.0.0.1".toList, .ipBlack "10.0.0.2,10.0.0.4-10.0.0.7".toList]

theorem buildFilter_blocks_whiteThenBlack : ∃ built,
    sampleNet.buildFilter whiteThenBlack = some built ∧
      sampleNet.Blocks built (.v4 0x0a000005) ∧ ¬ sampleNet.Blocks built (.v4 0x0a000003) := by
  have hbuilt : ∃ built, sampleNet.buildFilter whiteThenBlack = some built := ⟨_, rfl⟩
  obtain ⟨built, hbuilt⟩ := hbuilt
  have hordered : ∀ opt ∈ whiteThenBlack, sampleNet.WellOrdered opt := by
    intro opt hopt
    rcases List.mem_pair.mp hopt with rfl | rfl
    · exact wellOrdered_of_all _ (by decide)
    · exact wellOrdered_of_all _ (by decide)
  have hblocks (a : BitVec 32) := buildFilter_blocks_iff sampleNet sampleNet_documented
    whiteThenBlack hordered built hbuilt a
  refine ⟨built, hbuilt, (hblocks _).mpr (by decide), fun h => ?_⟩
  exact absurd ((hblocks _).mp h) (by decide)

/-- A host in the black list, and then a white list with it. -/
def blackThenWhite : List FilterOption :=
  [.ipBlack "10.0.0.2".toList, .ipWhite "10.0.0.0-10.0.0.255".toList]

/-- The list of the first kind is gone: a host outside the white list is not blocked,
and neither is one in the black list. -/
theorem first_list_dropped :
    (∃ built, sampleNet.buildFilter whiteThenBlack = some built ∧
      ¬ (sampleNet.Blocks built (.v4 0x0a000003) ↔
        sampleNet.Denied whiteThenBlack (.v4 0x0a000003))) ∧
    ∃ built, sampleNet.buildFilter blackThenWhite = some built ∧
      ¬ (sampleNet.Blocks built (.v4 0x0a000002) ↔
        sampleNet.Denied blackThenWhite (.v4 0x0a000002)) := by
  have hopen (opts : List FilterOption) (built : Address → ℕ) (a : BitVec 32)
      (haccess : built (.v4 a) = 0) (hdenied : sampleNet.Denied opts (.v4 a)) :
      ¬ (sampleNet.Blocks built (.v4 a) ↔ sampleNet.Denied opts (.v4 a)) := by
    intro hiff
    apply hiff.mpr hdenied
    show built (.v4 a) &&& blocked = 0
    rw [haccess, Nat.zero_and]
  constructor
  · exact ⟨_, rfl, hopen whiteThenBlack _ 0x0a000003 rfl (by decide)⟩
  · exact ⟨_, rfl, hopen blackThenWhite _ 0x0a000002 rfl (by decide)⟩

end Samples
end Gingko.IpFilterBlocks
