import Mathlib.Data.List.TakeWhile
import Gingko.TrackerState

/-!
The texts of the redis commands and the arguments the client library takes them
for. The library reads a text as a format: arguments are separated by spaces, an
argument without a character is dropped, and a percent sign starts a directive.
Base64 letters are none of these, so only an empty argument can be lost.
-/
namespace Gingko.CommandTexts

open KeyedMaps Base64Codec PeerRecords PeerUpdates RedisCommandCreator TrackerState

def space : UInt8 := 32

def percentSign : UInt8 := 37

/-- What the library does with a text that has no directive and no zero byte. -/
def SplitsAtSpaces (split : ByteString → Option (List ByteString)) : Prop :=
  ∀ text, percentSign ∉ text → 0 ∉ text →
    split text = some ((text.splitOn space).filter (fun argument => !argument.isEmpty))

/-- The loop of the library over a format, with the argument read so far and
whether it has been touched. Two percent signs stand for one; a directive asks
for a value that these callers do not pass. -/
def formatLoop : ByteString → ByteString → Bool → Option (List ByteString)
  | [], curarg, touched => some (if touched then [curarg] else [])
  | [c], curarg, touched =>
    if c = space then some (if touched then [curarg] else []) else some [curarg ++ [c]]
  | c :: d :: rest, curarg, touched =>
    if c = percentSign then
      if d = percentSign then formatLoop rest (curarg ++ [percentSign]) true else none
    else if c = space then
      if touched then (formatLoop (d :: rest) [] false).map (fun argv => curarg :: argv)
      else formatLoop (d :: rest) curarg false
    else formatLoop (d :: rest) (curarg ++ [c]) true

def formatCommand (format : ByteString) : Option (List ByteString) :=
  formatLoop (cString format) [] false

/-- The commands pass every part through a C string. -/
def infoHashKey (base64InfoHash : ByteString) : ByteString :=
  ascii "info_hash_key_" ++ cString base64InfoHash

def peerKey (base64PeerId : ByteString) : ByteString := cString base64PeerId

def hset (key hashKey value : ByteString) : ByteString :=
  setHashOneItemInfo (cString key) (cString hashKey) (cString value)

/-- The caller makes C strings of the keys already. -/
def hdel (key hashKey : ByteString) : ByteString :=
  deleteOneHashItem (cString (cString key)) (cString (cString hashKey))

def expire (key : ByteString) (expireTime : UInt32) : ByteString :=
  setExpire (cString key) expireTime

def getHashValueInfo (key : ByteString) : ByteString := ascii "HVALS " ++ cString key

/-- The four commands about a peer mean what they say: each is taken for its verb
and exactly its own arguments. -/
structure TakenAsMeant (split : ByteString → Option (List ByteString)) (conf : TrackerConf)
    (input : PeerInfo) : Prop where
  hset : ∀ value, base64Encode (input.constructStringByPeerInfo conf.codec) = some value →
    split (cString (hset (infoHashKey input.base64InfoHash) (peerKey input.base64PeerId) value)) =
      some [ascii "hset", ascii "info_hash_key_" ++ base64Text input.getInfoHash,
        base64Text input.getPeerId, value]
  hdel : split (cString (hdel (infoHashKey input.base64InfoHash) (peerKey input.base64PeerId))) =
    some [ascii "hdel", ascii "info_hash_key_" ++ base64Text input.getInfoHash,
      base64Text input.getPeerId]
  expire : split (cString (expire (infoHashKey input.base64InfoHash) conf.infoHashExpireSecond)) =
    some [ascii "EXPIRE", ascii "info_hash_key_" ++ base64Text input.getInfoHash,
      ascii (toString conf.infoHashExpireSecond.toNat)]
  hvals : split (cString (getHashValueInfo (infoHashKey input.base64InfoHash))) =
    some [ascii "HVALS", ascii "info_hash_key_" ++ base64Text input.getInfoHash]

/-- No byte has a meaning in a format or ends a C string. -/
def Plain (text : ByteString) : Prop := ∀ c ∈ text, c ≠ space ∧ c ≠ percentSign ∧ c ≠ 0

instance (text : ByteString) : Decidable (Plain text) :=
  decidable_of_iff (text.all (fun c => c ≠ space ∧ c ≠ percentSign ∧ c ≠ 0) = true)
    (by simp [Plain])

theorem plain_append (a b : ByteString) (ha : Plain a) (hb : Plain b) : Plain (a ++ b) := by
  intro c hc
  rcases List.mem_append.mp hc with h | h
  · exact ha c h
  · exact hb c h

theorem plain_base64Text (text : ByteString) : Plain (base64Text text) := by
  intro c hc
  have hletter := letter_of_mem_base64Text text c hc
  refine ⟨?_, ?_, ?_⟩
  all_goals
    intro heq
    rw [heq] at hletter
    exact hletter (by decide)

theorem plain_infoHashKey (text : ByteString) :
    Plain (ascii "info_hash_key_" ++ base64Text text) := by
  apply plain_append
  · decide
  · exact plain_base64Text text

/-- A decimal digit, as a letter and as a byte. -/
theorem digit_bounds (n : ℕ) (c : Char) (hc : c ∈ Nat.toDigits 10 n) :
    48 ≤ c.toNat ∧ c.toNat ≤ 57 ∧ (UInt8.ofNat c.toNat).toNat = c.toNat := by
  have hdigit := Nat.isDigit_of_mem_toDigits (by omega) (by omega) hc
  simp only [Char.isDigit, Bool.and_eq_true, decide_eq_true_eq] at hdigit
  have hlow : 48 ≤ c.toNat := UInt32.le_iff_toNat_le.mp hdigit.1
  have hhigh : c.toNat ≤ 57 := UInt32.le_iff_toNat_le.mp hdigit.2
  have hsize : c.toNat < UInt8.size := lt_of_le_of_lt hhigh (by decide)
  exact ⟨hlow, hhigh, UInt8.toNat_ofNat_of_lt' hsize⟩

theorem plain_number (n : ℕ) : Plain (ascii (toString n)) := by
  intro c hc
  obtain ⟨d, hd, rfl⟩ := List.mem_map.mp hc
  have hdigits : (toString n).toList = Nat.toDigits 10 n := Nat.toList_repr
  rw [hdigits] at hd
  obtain ⟨hlow, hhigh, hbyte⟩ := digit_bounds n d hd
  refine ⟨?_, ?_, ?_⟩
  all_goals
    intro heq
    rw [heq] at hbyte
    simp [space, percentSign] at hbyte
    omega

theorem cString_of_ne_zero (text : ByteString) (h : ∀ c ∈ text, c ≠ 0) : cString text = text := by
  unfold cString
  rw [List.takeWhile_eq_self_iff]
  intro c hc
  simpa using h c hc

theorem number_ne_nil (n : ℕ) : ascii (toString n) ≠ [] := by
  intro h
  have hdigits : (toString n).toList = Nat.toDigits 10 n := Nat.toList_repr
  have hnil : (toString n).toList = [] := List.map_eq_nil_iff.mp h
  rw [hdigits] at hnil
  exact Nat.toDigits_ne_nil hnil

/-- Joining plain arguments brings in nothing but spaces. -/
theorem clean_joined (argv : List ByteString) (hplain : ∀ argument ∈ argv, Plain argument) :
    ∀ c ∈ [space].intercalate argv, c ≠ percentSign ∧ c ≠ 0 := by
  induction argv with
  | nil => simp
  | cons argument rest ih =>
    have hfirst : ∀ c ∈ argument, c ≠ percentSign ∧ c ≠ 0 := fun c hc =>
      (hplain argument (List.mem_cons_self ..) c hc).2
    cases rest with
    | nil => simpa using hfirst
    | cons next rest =>
      have hrest := ih (fun a ha => hplain a (List.mem_cons_of_mem argument ha))
      intro c hc
      rw [List.intercalate_cons_cons] at hc
      rcases List.mem_append.mp hc with hleft | hright
      · rcases List.mem_append.mp hleft with harg | hsep
        · exact hfirst c harg
        · rw [List.mem_singleton.mp hsep]
          decide
      · exact hrest c hright

/-- A command of plain arguments is taken for those that are not empty. -/
theorem split_joined (split : ByteString → Option (List ByteString))
    (hsplit : SplitsAtSpaces split) (argv : List ByteString) (hargv : argv ≠ [])
    (hplain : ∀ argument ∈ argv, Plain argument) :
    split (cString ([space].intercalate argv)) =
      some (argv.filter (fun argument => !argument.isEmpty)) := by
  have hclean := clean_joined argv hplain
  rw [cString_of_ne_zero _ (fun c hc => (hclean c hc).2),
    hsplit _ (fun h => (hclean _ h).1 rfl) (fun h => (hclean _ h).2 rfl),
    List.splitOn_intercalate space (fun argument hmem h => (hplain argument hmem space h).1 rfl)
      hargv]

theorem split_joined_iff (split : ByteString → Option (List ByteString))
    (hsplit : SplitsAtSpaces split) (argv : List ByteString) (hargv : argv ≠ [])
    (hplain : ∀ argument ∈ argv, Plain argument) :
    split (cString ([space].intercalate argv)) = some argv ↔ [] ∉ argv := by
  rw [split_joined split hsplit argv hargv hplain, Option.some.injEq, List.filter_eq_self]
  constructor
  · intro hall hmem
    have hempty := hall [] hmem
    contradiction
  · intro hnone argument hmem
    cases argument with
    | nil => exact absurd hmem hnone
    | cons c rest => rfl

theorem base64Text_eq_nil (text : ByteString) : base64Text text = [] ↔ text = [] := by
  constructor
  · intro h
    by_contra hne
    apply sextets_ne_nil text hne
    simpa using (List.append_eq_nil_iff.mp h).1
  · intro h
    rw [h]
    rfl

section Commands

variable (input : Announce)

theorem infoHashKey_announce :
    infoHashKey input.1.base64InfoHash =
      ascii "info_hash_key_" ++ base64Text input.1.getInfoHash := by
  rw [infoHashKey, input.2.1.infoHashKey, cString_of_ne_zero _ (base64Text_ne_zero _)]

theorem peerKey_announce : peerKey input.1.base64PeerId = base64Text input.1.getPeerId := by
  rw [peerKey, input.2.1.peerIdKey, cString_of_ne_zero _ (base64Text_ne_zero _)]

theorem cString_infoHashKey :
    cString (infoHashKey input.1.base64InfoHash) = infoHashKey input.1.base64InfoHash := by
  rw [infoHashKey_announce]
  exact cString_of_ne_zero _ (fun c hc => (plain_infoHashKey _ c hc).2.2)

theorem cString_peerKey :
    cString (peerKey input.1.base64PeerId) = peerKey input.1.base64PeerId := by
  rw [peerKey_announce, cString_of_ne_zero _ (base64Text_ne_zero _)]

theorem hset_joined (stored : ByteString) :
    hset (infoHashKey input.1.base64InfoHash) (peerKey input.1.base64PeerId) (base64Text stored) =
      [space].intercalate [ascii "hset", ascii "info_hash_key_" ++ base64Text input.1.getInfoHash,
        base64Text input.1.getPeerId, base64Text stored] := by
  have hverb : ascii "hset " = ascii "hset" ++ [space] := by decide
  have hgap : ascii " " = [space] := by decide
  rw [hset, cString_infoHashKey, cString_peerKey, cString_of_ne_zero _ (base64Text_ne_zero stored),
    infoHashKey_announce, peerKey_announce]
  simp [setHashOneItemInfo, hverb, hgap, List.intercalate_cons_cons]

theorem hdel_joined : hdel (infoHashKey input.1.base64InfoHash) (peerKey input.1.base64PeerId) =
    [space].intercalate [ascii "hdel", ascii "info_hash_key_" ++ base64Text input.1.getInfoHash,
      base64Text input.1.getPeerId] := by
  have hverb : ascii "hdel " = ascii "hdel" ++ [space] := by decide
  have hgap : ascii " " = [space] := by decide
  rw [hdel, cString_infoHashKey, cString_infoHashKey, cString_peerKey, cString_peerKey,
    infoHashKey_announce, peerKey_announce]
  simp [deleteOneHashItem, hverb, hgap, List.intercalate_cons_cons]

theorem expire_joined (expireTime : UInt32) :
    expire (infoHashKey input.1.base64InfoHash) expireTime =
      [space].intercalate [ascii "EXPIRE",
        ascii "info_hash_key_" ++ base64Text input.1.getInfoHash,
        ascii (toString expireTime.toNat)] := by
  have hverb : ascii "EXPIRE " = ascii "EXPIRE" ++ [space] := by decide
  have hgap : ascii " " = [space] := by decide
  rw [expire, cString_infoHashKey, infoHashKey_announce]
  simp [setExpire, hverb, hgap, List.intercalate_cons_cons]

theorem hvals_joined : getHashValueInfo (infoHashKey input.1.base64InfoHash) =
    [space].intercalate [ascii "HVALS",
      ascii "info_hash_key_" ++ base64Text input.1.getInfoHash] := by
  have hverb : ascii "HVALS " = ascii "HVALS" ++ [space] := by decide
  rw [getHashValueInfo, cString_infoHashKey, infoHashKey_announce]
  simp [hverb, List.intercalate_cons_cons]

/-- The commands that are queued are these texts. -/
theorem queued_commands (conf : TrackerConf) :
    (setPeerRemote conf input.1).2 =
        [⟨input.1.base64InfoHash, hset (infoHashKey input.1.base64InfoHash)
            (peerKey input.1.base64PeerId)
            (base64Text (input.1.constructStringByPeerInfo conf.codec))⟩,
          ⟨input.1.base64InfoHash,
            expire (infoHashKey input.1.base64InfoHash) conf.infoHashExpireSecond⟩] ∧
      (deletePeerRemote input.1).2 =
        [⟨input.1.base64InfoHash,
          hdel (infoHashKey input.1.base64InfoHash) (peerKey input.1.base64PeerId)⟩] := by
  have hkey : constructInfoHashKey input.1.base64InfoHash =
      infoHashKey input.1.base64InfoHash := by
    rw [constructInfoHashKey, infoHashKey_announce, input.2.1.infoHashKey]
  have hfield : constructPeerKey input.1.base64PeerId = peerKey input.1.base64PeerId := by
    rw [constructPeerKey, peerKey_announce, input.2.1.peerIdKey]
  refine ⟨?_, ?_⟩
  · simp only [setPeerRemote, base64Encode_eq, hkey, hfield, hset, expire, cString_infoHashKey,
      cString_peerKey, cString_of_ne_zero _ (base64Text_ne_zero _)]
  · simp only [deletePeerRemote, hkey, hfield, hdel, cString_infoHashKey, cString_peerKey]

variable (split : ByteString → Option (List ByteString)) (conf : TrackerConf)

/-- The arguments of the four commands hold no byte with a meaning. -/
theorem plain_arguments (stored : ByteString) (expireTime : UInt32) :
    (∀ argument ∈ [ascii "hset", ascii "info_hash_key_" ++ base64Text input.1.getInfoHash,
        base64Text input.1.getPeerId, base64Text stored], Plain argument) ∧
      (∀ argument ∈ [ascii "hdel", ascii "info_hash_key_" ++ base64Text input.1.getInfoHash,
        base64Text input.1.getPeerId], Plain argument) ∧
      (∀ argument ∈ [ascii "EXPIRE", ascii "info_hash_key_" ++ base64Text input.1.getInfoHash,
        ascii (toString expireTime.toNat)], Plain argument) ∧
      ∀ argument ∈ [ascii "HVALS", ascii "info_hash_key_" ++ base64Text input.1.getInfoHash],
        Plain argument := by
  have hkey := plain_infoHashKey input.1.getInfoHash
  have hfield := plain_base64Text input.1.getPeerId
  have hvalue := plain_base64Text stored
  have hnumber := plain_number expireTime.toNat
  have hverbs : Plain (ascii "hset") ∧ Plain (ascii "hdel") ∧ Plain (ascii "EXPIRE") ∧
      Plain (ascii "HVALS") := by
    decide
  obtain ⟨hset, hdel, hexpire, hvals⟩ := hverbs
  simp only [List.forall_mem_cons, List.not_mem_nil, false_implies, implies_true, and_true]
  exact ⟨⟨hset, hkey, hfield, hvalue⟩, ⟨hdel, hkey, hfield⟩, ⟨hexpire, hkey, hnumber⟩, hvals, hkey⟩

/-- For a library that splits at spaces and a serializer that always writes
something: the commands about a peer are taken as they are meant precisely when
its identifier is not empty. Other infohashes have other keys and other peers
other fields. -/
theorem commands_taken_iff (hsplit : SplitsAtSpaces split)
    (hserialize : ∀ p, conf.codec.serialize p ≠ []) :
    (TakenAsMeant split conf input.1 ↔ input.1.getPeerId ≠ []) ∧
      ∀ other : Announce,
        (infoHashKey other.1.base64InfoHash = infoHashKey input.1.base64InfoHash ↔
          other.1.getInfoHash = input.1.getInfoHash) ∧
        (peerKey other.1.base64PeerId = peerKey input.1.base64PeerId ↔
          other.1.getPeerId = input.1.getPeerId) := by
  obtain ⟨hsetPlain, hdelPlain, hexpirePlain, hvalsPlain⟩ := plain_arguments input
    (input.1.constructStringByPeerInfo conf.codec) conf.infoHashExpireSecond
  have hvalue : base64Text (input.1.constructStringByPeerInfo conf.codec) ≠ [] :=
    (base64Text_eq_nil _).not.mpr (hserialize _)
  have hnumber := number_ne_nil conf.infoHashExpireSecond.toNat
  have hverbs : ascii "hset" ≠ [] ∧ ascii "hdel" ≠ [] ∧ ascii "EXPIRE" ≠ [] ∧
      ascii "HVALS" ≠ [] ∧ ascii "info_hash_key_" ≠ [] := by decide
  refine ⟨⟨?_, ?_⟩, ?_⟩
  · intro htaken hempty
    have hdel := htaken.hdel
    rw [hdel_joined, split_joined_iff split hsplit _ (by simp) hdelPlain] at hdel
    exact hdel (by simp [(base64Text_eq_nil _).mpr hempty])
  · intro hpeer
    have hfield : base64Text input.1.getPeerId ≠ [] := (base64Text_eq_nil _).not.mpr hpeer
    refine ⟨?_, ?_, ?_, ?_⟩
    · intro value hencoded
      rw [base64Encode_eq] at hencoded
      obtain rfl := Option.some.inj hencoded
      rw [hset_joined, split_joined_iff split hsplit _ (by simp) hsetPlain]
      simp [hverbs, hfield.symm, hvalue.symm]
    · rw [hdel_joined, split_joined_iff split hsplit _ (by simp) hdelPlain]
      simp [hverbs, hfield.symm]
    · rw [expire_joined, split_joined_iff split hsplit _ (by simp) hexpirePlain]
      simpa [hverbs] using hnumber
    · rw [hvals_joined, split_joined_iff split hsplit _ (by simp) hvalsPlain]
      simp [hverbs]
  · intro other
    rw [infoHashKey_announce, infoHashKey_announce, peerKey_announce, peerKey_announce,
      List.append_right_inj, base64Text_injective.eq_iff, base64Text_injective.eq_iff]
    exact ⟨Iff.rfl, Iff.rfl⟩

end Commands

theorem formatLoop_cons (c : UInt8) (rest curarg : ByteString) (touched : Bool)
    (hc : c ≠ percentSign) :
    formatLoop (c :: rest) curarg touched =
      if c = space then
        if touched then (formatLoop rest [] false).map (fun argv => curarg :: argv)
        else formatLoop rest curarg false
      else formatLoop rest (curarg ++ [c]) true := by
  cases rest with
  | nil => cases touched <;> simp [formatLoop]
  | cons d rest => rw [formatLoop, if_neg hc]

/-- A text without percent signs is split at its spaces. -/
theorem formatLoop_eq (text : ByteString) (hpercent : percentSign ∉ text) (curarg : ByteString)
    (hcurarg : space ∉ curarg) :
    formatLoop text curarg (!curarg.isEmpty) =
      some (((curarg ++ text).splitOn space).filter (fun argument => !argument.isEmpty)) := by
  induction text generalizing curarg with
  | nil =>
    rw [List.append_nil, List.splitOn_eq_singleton hcurarg]
    cases curarg <;> rfl
  | cons c rest ih =>
    have hc : c ≠ percentSign := fun h => hpercent (h ▸ List.mem_cons_self ..)
    have hrest : percentSign ∉ rest := fun h => hpercent (List.mem_cons_of_mem c h)
    rw [formatLoop_cons c rest curarg _ hc]
    by_cases hspace : c = space
    · have hfresh := ih hrest [] (List.not_mem_nil)
      rw [List.nil_append] at hfresh
      rw [if_pos hspace, hspace, List.splitOn_append_cons_self_of_not_mem hcurarg]
      cases curarg with
      | nil => exact hfresh
      | cons d curarg =>
        have hloop : formatLoop rest [] false = _ := hfresh
        rw [hloop]
        rfl
    · have hlonger : space ∉ curarg ++ [c] := by
        intro h
        rcases List.mem_append.mp h with hold | hnew
        · exact hcurarg hold
        · exact hspace (List.mem_singleton.mp hnew).symm
      have hgrown := ih hrest (curarg ++ [c]) hlonger
      have htouched : (!(curarg ++ [c]).isEmpty) = true := by simp
      rw [htouched, List.append_assoc, List.singleton_append] at hgrown
      rw [if_neg hspace]
      exact hgrown

theorem formatCommand_splits : SplitsAtSpaces formatCommand := by
  intro text hpercent hzero
  have hcstring : cString text = text :=
    cString_of_ne_zero text (fun c hc h => hzero (h ▸ hc))
  have hloop := formatLoop_eq text hpercent [] List.not_mem_nil
  rw [List.nil_append] at hloop
  rw [formatCommand, hcstring]
  exact hloop

/-- A record ends with a stop byte at least. -/
theorem writeFields_ne_nil (fields : List ThriftFields.Field) :
    ThriftFields.writeFields fields ≠ [] := by
  cases fields <;> simp [ThriftFields.writeFields]

theorem defaultConf_serialize (p : StoredPeerInfo) : defaultConf.codec.serialize p ≠ [] :=
  writeFields_ne_nil _

theorem commands_taken_iff_named :
    let input : Announce := ⟨requested [1] [2] [3] .seeding true 0, requested_announce ..⟩
    (TakenAsMeant formatCommand defaultConf input.1 ↔ input.1.getPeerId ≠ []) ∧
      ∀ other : Announce,
        (infoHashKey other.1.base64InfoHash = infoHashKey input.1.base64InfoHash ↔
          other.1.getInfoHash = input.1.getInfoHash) ∧
        (peerKey other.1.base64PeerId = peerKey input.1.base64PeerId ↔
          other.1.getPeerId = input.1.getPeerId) :=
  commands_taken_iff ⟨requested [1] [2] [3] .seeding true 0, requested_announce ..⟩ formatCommand
    defaultConf formatCommand_splits defaultConf_serialize

/-- The peer without an identifier has no field in its commands. -/
theorem unnamed_peer_loses_field :
    ¬ ∀ (conf : TrackerConf) (input : Announce), TakenAsMeant formatCommand conf input.1 := by
  intro h
  have htaken := h defaultConf ⟨requested [1] [] [3] .seeding true 0, requested_announce ..⟩
  have hsent : formatCommand (cString (hdel
      (infoHashKey (requested [1] [] [3] .seeding true 0).base64InfoHash)
      (peerKey (requested [1] [] [3] .seeding true 0).base64PeerId))) =
        some [ascii "hdel", ascii "info_hash_key_AQ=="] := by
    decide +kernel
  have hlength := congrArg (Option.map List.length) (hsent.symm.trans htaken.hdel)
  simp at hlength

end Gingko.CommandTexts
