import Gingko.PeerRecords
import Mathlib.Data.Nat.Notation
import Mathlib.Tactic.Ring

/-!
The binary encoding of thrift structs, for structs whose fields are strings,
integers and flags. A field is its type byte, its identifier and its value; a
zero byte ends the struct, and what follows it is not read. Reading the written
fields gives them back, and the stored peer record is recovered from its fields.
-/
namespace Gingko.ThriftFields

open Base64Codec PeerRecords

inductive FieldValue where
  | text (bytes : ByteString)
  | int32 (value : BitVec 32)
  | int64 (value : BitVec 64)
  | flag (value : Bool)
  deriving DecidableEq

structure Field where
  id : ℕ
  value : FieldValue
  deriving DecidableEq

def bigEndian : ℕ → ℕ → ByteString
  | 0, _ => []
  | width + 1, n => UInt8.ofNat (n / 256 ^ width) :: bigEndian width n

def readBigEndian : ℕ → ℕ → ByteString → Option (ℕ × ByteString)
  | 0, acc, bytes => some (acc, bytes)
  | _ + 1, _, [] => none
  | width + 1, acc, b :: bytes => readBigEndian width (acc * 256 + b.toNat) bytes

def typeCode : FieldValue → UInt8
  | .text _ => 11
  | .int32 _ => 8
  | .int64 _ => 10
  | .flag _ => 2

def writeValue : FieldValue → ByteString
  | .text bytes => bigEndian 4 bytes.length ++ bytes
  | .int32 value => bigEndian 4 value.toNat
  | .int64 value => bigEndian 8 value.toNat
  | .flag value => [if value then 1 else 0]

/-- A string length is a signed integer and may not exceed what is left. -/
def readText (bytes : ByteString) : Option (FieldValue × ByteString) := do
  let (size, rest) ← readBigEndian 4 0 bytes
  if size < 2 ^ 31 ∧ size ≤ rest.length then
    return (.text (rest.take size), rest.drop size)
  else none

def readFlag : ByteString → Option (FieldValue × ByteString)
  | [] => none
  | b :: rest => some (.flag (b ≠ 0), rest)

def readValue (code : UInt8) (bytes : ByteString) : Option (FieldValue × ByteString) :=
  if code = 11 then readText bytes
  else if code = 8 then
    (readBigEndian 4 0 bytes).map fun read => (.int32 (BitVec.ofNat 32 read.1), read.2)
  else if code = 10 then
    (readBigEndian 8 0 bytes).map fun read => (.int64 (BitVec.ofNat 64 read.1), read.2)
  else if code = 2 then readFlag bytes
  else none

def writeFields : List Field → ByteString
  | [] => [0]
  | f :: fields => typeCode f.value :: (bigEndian 2 f.id ++ writeValue f.value) ++
      writeFields fields

def readFields : ℕ → ByteString → Option (List Field)
  | 0, _ => none
  | _ + 1, [] => none
  | fuel + 1, code :: bytes =>
    if code = 0 then some []
    else do
      let (id, bytes) ← readBigEndian 2 0 bytes
      let (value, bytes) ← readValue code bytes
      let fields ← readFields fuel bytes
      return ⟨id, value⟩ :: fields

/-- The identifier and the length of a string fit the width they are written in. -/
def Field.Fits (f : Field) : Prop :=
  f.id < 2 ^ 16 ∧ ∀ bytes, f.value = .text bytes → bytes.length < 2 ^ 31

theorem readBigEndian_bigEndian (width n acc : ℕ) (rest : ByteString) :
    readBigEndian width acc (bigEndian width n ++ rest) =
      some (acc * 256 ^ width + n % 256 ^ width, rest) := by
  induction width generalizing acc with
  | zero => simp [readBigEndian, bigEndian, Nat.mod_one]
  | succ width ih =>
    have hbyte : (UInt8.ofNat (n / 256 ^ width)).toNat = n / 256 ^ width % 256 :=
      UInt8.toNat_ofNat'
    have hsplit : n % 256 ^ (width + 1) =
        n % 256 ^ width + 256 ^ width * (n / 256 ^ width % 256) := by
      rw [pow_succ, Nat.mod_mul]
    simp only [bigEndian, List.cons_append, readBigEndian, ih, hbyte, hsplit]
    congr 2
    ring

theorem readText_text (bytes rest : ByteString) (h : bytes.length < 2 ^ 31) :
    readText (writeValue (.text bytes) ++ rest) = some (.text bytes, rest) := by
  have hsize : bytes.length % 256 ^ 4 = bytes.length := Nat.mod_eq_of_lt (by omega)
  unfold readText
  rw [writeValue, List.append_assoc, readBigEndian_bigEndian, hsize]
  have hread : 0 * 256 ^ 4 + bytes.length < 2 ^ 31 ∧
      0 * 256 ^ 4 + bytes.length ≤ (bytes ++ rest).length := by
    rw [List.length_append]
    omega
  simp only [Option.bind_eq_bind, Option.bind_some, if_pos hread]
  simp

theorem readValue_writeValue (f : Field) (rest : ByteString) (h : f.Fits) :
    readValue (typeCode f.value) (writeValue f.value ++ rest) = some (f.value, rest) := by
  obtain ⟨id, value⟩ := f
  cases value with
  | text bytes => exact readText_text bytes rest (h.2 bytes rfl)
  | int32 value =>
    have hlt := value.isLt
    have hvalue : value.toNat % 256 ^ 4 = value.toNat := Nat.mod_eq_of_lt (by omega)
    have hread := readBigEndian_bigEndian 4 value.toNat 0 rest
    rw [hvalue, Nat.zero_mul, Nat.zero_add] at hread
    simp [readValue, typeCode, writeValue, hread]
  | int64 value =>
    have hlt := value.isLt
    have hvalue : value.toNat % 256 ^ 8 = value.toNat := Nat.mod_eq_of_lt (by omega)
    have hread := readBigEndian_bigEndian 8 value.toNat 0 rest
    rw [hvalue, Nat.zero_mul, Nat.zero_add] at hread
    simp [readValue, typeCode, writeValue, hread]
  | flag value => cases value <;> rfl

theorem typeCode_ne_zero (value : FieldValue) : typeCode value ≠ 0 := by
  cases value <;> simp [typeCode]

/-- Reading the written fields gives them back, whatever follows them. -/
theorem readFields_writeFields (fields : List Field) (fuel : ℕ) (rest : ByteString)
    (hfits : ∀ f ∈ fields, f.Fits) (hfuel : fields.length < fuel) :
    readFields fuel (writeFields fields ++ rest) = some fields := by
  induction fields generalizing fuel with
  | nil =>
    obtain ⟨fuel, rfl⟩ := Nat.exists_eq_add_of_lt hfuel
    simp [readFields, writeFields]
  | cons f fields ih =>
    obtain ⟨fuel, rfl⟩ : ∃ n, fuel = n + 1 := ⟨fuel - 1, by
      simp only [List.length_cons] at hfuel
      omega⟩
    have hf := hfits f (List.mem_cons_self ..)
    have hid : f.id % 256 ^ 2 = f.id := Nat.mod_eq_of_lt (by
      have := hf.1
      omega)
    have hrest := ih fuel (fun g hg => hfits g (List.mem_cons_of_mem _ hg)) (by
      simp only [List.length_cons] at hfuel
      omega)
    simp only [writeFields, List.cons_append, List.append_assoc, readFields,
      if_neg (typeCode_ne_zero f.value), readBigEndian_bigEndian, hid,
      readValue_writeValue f _ hf, hrest, Option.bind_eq_bind, Option.bind_some, Nat.zero_mul,
      Nat.zero_add]
    rfl

theorem length_lt_writeFields (fields : List Field) :
    fields.length < (writeFields fields).length := by
  induction fields with
  | nil => simp [writeFields]
  | cons f fields ih =>
    simp only [writeFields, List.length_cons, List.length_append]
    omega

def statusCode : Status → BitVec 32
  | .metadata => 0
  | .download => 1
  | .seeding => 2
  | .stopped => 3
  | .paused => 4
  | .unnamed code => BitVec.ofInt 32 code

def statusOfCode (code : BitVec 32) : Status :=
  if code = 0 then .metadata
  else if code = 1 then .download
  else if code = 2 then .seeding
  else if code = 3 then .stopped
  else if code = 4 then .paused
  else .unnamed code.toInt

def optional {α : Type} (id : ℕ) (wrap : α → FieldValue) (stored : Option α) : List Field :=
  (stored.map fun value => ⟨id, wrap value⟩).toList

/-- The fields of a stored record that are set, in the order of the struct. -/
def recordFields (p : StoredPeerInfo) : List Field :=
  optional 1 .text p.infoHash ++ (optional 2 .text p.peerId ++ (optional 3 .text p.ip ++
  (optional 4 .int32 p.port ++ (optional 5 .int64 p.uploaded ++
  (optional 6 .int64 p.downloaded ++ (optional 7 .int64 p.left ++
  (optional 8 (fun s => .int32 (statusCode s)) p.status ++
  (optional 9 .int32 p.wantNumber ++ (optional 10 .int64 p.expireTime ++
  (optional 11 .int64 p.timestampStart ++ (optional 12 .flag p.isSeed ++
  (optional 13 .text p.trackerId ++ optional 14 .text p.idc))))))))))))

/-- A field of an unknown identifier or of an unexpected type is skipped. -/
def readField (p : StoredPeerInfo) (f : Field) : StoredPeerInfo :=
  match f.id, f.value with
  | 1, .text bytes => { p with infoHash := some bytes }
  | 2, .text bytes => { p with peerId := some bytes }
  | 3, .text bytes => { p with ip := some bytes }
  | 4, .int32 value => { p with port := some value }
  | 5, .int64 value => { p with uploaded := some value }
  | 6, .int64 value => { p with downloaded := some value }
  | 7, .int64 value => { p with left := some value }
  | 8, .int32 value => { p with status := some (statusOfCode value) }
  | 9, .int32 value => { p with wantNumber := some value }
  | 10, .int64 value => { p with expireTime := some value }
  | 11, .int64 value => { p with timestampStart := some value }
  | 12, .flag value => { p with isSeed := some value }
  | 13, .text bytes => { p with trackerId := some bytes }
  | 14, .text bytes => { p with idc := some bytes }
  | _, _ => p

def recordOfFields (fields : List Field) : StoredPeerInfo := fields.foldl readField {}

def binaryCodec : ThriftCodec where
  serialize p := writeFields (recordFields p)
  parse bytes := (readFields bytes.length bytes).map recordOfFields

/-- The strings of the record fit their length field, and the status is one
that a 32-bit code stands for. -/
structure Writable (p : StoredPeerInfo) : Prop where
  fits : ∀ f ∈ recordFields p, f.Fits
  status : ∀ s, p.status = some s → statusOfCode (statusCode s) = s

theorem foldl_optional {α : Type} (id : ℕ) (wrap : α → FieldValue) (stored : Option α)
    (set : StoredPeerInfo → Option α → StoredPeerInfo)
    (hread : ∀ p value, stored = some value → readField p ⟨id, wrap value⟩ = set p (some value))
    (p : StoredPeerInfo) (hnone : set p none = p) :
    (optional id wrap stored).foldl readField p = set p stored := by
  cases stored with
  | none => exact hnone.symm
  | some value => exact hread p value rfl

theorem recordOfFields_recordFields (p : StoredPeerInfo) (h : Writable p) :
    recordOfFields (recordFields p) = p := by
  have hstatus : ∀ (q : StoredPeerInfo) s, p.status = some s →
      readField q ⟨8, .int32 (statusCode s)⟩ = { q with status := some s } := by
    intro q s hs
    simp only [readField, h.status s hs]
  simp only [recordOfFields, recordFields, List.foldl_append]
  rw [foldl_optional 1 .text p.infoHash (fun q v => { q with infoHash := v }) (fun _ _ _ => rfl),
    foldl_optional 2 .text p.peerId (fun q v => { q with peerId := v }) (fun _ _ _ => rfl),
    foldl_optional 3 .text p.ip (fun q v => { q with ip := v }) (fun _ _ _ => rfl),
    foldl_optional 4 .int32 p.port (fun q v => { q with port := v }) (fun _ _ _ => rfl),
    foldl_optional 5 .int64 p.uploaded (fun q v => { q with uploaded := v }) (fun _ _ _ => rfl),
    foldl_optional 6 .int64 p.downloaded (fun q v => { q with downloaded := v }) (fun _ _ _ => rfl),
    foldl_optional 7 .int64 p.left (fun q v => { q with left := v }) (fun _ _ _ => rfl),
    foldl_optional 8 (fun s => .int32 (statusCode s)) p.status (fun q v => { q with status := v })
      hstatus,
    foldl_optional 9 .int32 p.wantNumber (fun q v => { q with wantNumber := v }) (fun _ _ _ => rfl),
    foldl_optional 10 .int64 p.expireTime (fun q v => { q with expireTime := v })
      (fun _ _ _ => rfl),
    foldl_optional 11 .int64 p.timestampStart (fun q v => { q with timestampStart := v })
      (fun _ _ _ => rfl),
    foldl_optional 12 .flag p.isSeed (fun q v => { q with isSeed := v }) (fun _ _ _ => rfl),
    foldl_optional 13 .text p.trackerId (fun q v => { q with trackerId := v }) (fun _ _ _ => rfl),
    foldl_optional 14 .text p.idc (fun q v => { q with idc := v }) (fun _ _ _ => rfl)]
  all_goals rfl

theorem binaryCodec_parse (p : StoredPeerInfo) (h : Writable p) :
    binaryCodec.parse (binaryCodec.serialize p) = some p := by
  have hread := readFields_writeFields (recordFields p) (writeFields (recordFields p)).length []
    h.fits (length_lt_writeFields _)
  rw [List.append_nil] at hread
  simp only [binaryCodec, hread, Option.map_some, recordOfFields_recordFields p h]

end Gingko.ThriftFields
