import Mathlib.Data.List.DropRight
import Mathlib.Data.Nat.Bitwise

/-!
The peer filter of a download command. Options with white, black and mask rules are
read in the order of the command line. Each rule overwrites the flags of its range,
and an option of the other kind first resets all IPv4 addresses, so only the options
after the last change of kind count.
-/
namespace Gingko.IpFilters

abbrev Text := List Char

inductive Address where
  | v4 (value : BitVec 32)
  | v6 (value : BitVec 128)
  deriving DecidableEq

structure IpRange where
  first : Address
  last : Address

/-- A range with its ends in the wrong order, or of two kinds, holds no address. -/
def IpRange.holds (range : IpRange) (a : Address) : Bool :=
  match range.first, range.last, a with
  | .v4 first, .v4 last, .v4 a => first ≤ a && a ≤ last
  | .v6 first, .v6 last, .v6 a => first ≤ a && a ≤ last
  | _, _, _ => false

/-- The ends are of one kind and in their order. -/
def IpRange.Ordered (range : IpRange) : Prop :=
  match range.first, range.last with
  | .v4 first, .v4 last => first ≤ last
  | .v6 first, .v6 last => first ≤ last
  | _, _ => False

instance : (range : IpRange) → Decidable range.Ordered
  | ⟨.v4 first, .v4 last⟩ => inferInstanceAs (Decidable (first ≤ last))
  | ⟨.v6 first, .v6 last⟩ => inferInstanceAs (Decidable (first ≤ last))
  | ⟨.v4 _, .v6 _⟩ => inferInstanceAs (Decidable False)
  | ⟨.v6 _, .v4 _⟩ => inferInstanceAs (Decidable False)

def blocked : ℕ := 1

def sliptStringToVector (str delimiter : Text) : List Text :=
  (str.splitOnP (fun c => delimiter.contains c)).filter (fun piece => !piece.isEmpty)

/-- What the command takes from elsewhere: reading an address, the address of this
host, and the filter type. -/
structure Net (F : Type) where
  fromString : Text → Option Address
  localHostIp : Text
  empty : F
  addRule : F → Address → Address → ℕ → F
  access : F → Address → ℕ

inductive FilterOption where
  | ipWhite (optarg : Text)
  | ipBlack (optarg : Text)
  | mask (optarg : Text)
  deriving DecidableEq

def FilterOption.isBlack : FilterOption → Bool
  | .ipBlack _ => true
  | _ => false

namespace Net

variable {F : Type} (net : Net F)

def addIpFilterRule (flags : ℕ) (filter : F) (ipRange : Text) : Option F :=
  match sliptStringToVector ipRange ['-'] with
  | [start] => do
    let startAddress ← net.fromString start
    some (net.addRule filter startAddress startAddress flags)
  | [start, last] => do
    let startAddress ← net.fromString start
    let lastAddress ← net.fromString last
    some (net.addRule filter startAddress lastAddress flags)
  | _ => none

def parseIpFilter (filterString : Text) (flags : ℕ) (filter : F) : Option F :=
  (sliptStringToVector filterString [',']).foldlM (net.addIpFilterRule flags) filter

/-- The flag is the negation of the argument. A text that cannot be read leaves the
default address. -/
def clearIpFilter (flags : ℕ) (filter : F) : F :=
  net.addRule filter ((net.fromString "0.0.0.0".toList).getD (.v4 0))
    ((net.fromString "255.255.255.255".toList).getD (.v4 0)) (if flags = 0 then 1 else 0)

end Net

/-- One more than the place of the highest zero bit, below the given place. -/
def hostBits (mask : BitVec 32) : ℕ → ℕ
  | 0 => 0
  | n + 1 => if mask.getLsbD n then hostBits mask n else n + 1

def dottedQuad (value : BitVec 32) : Text :=
  let digits (shift : ℕ) : Text := Nat.toDigits 10 (value.toNat / 2 ^ shift % 256)
  digits 24 ++ '.' :: digits 16 ++ '.' :: digits 8 ++ '.' :: digits 0

def rangeStart (ip : BitVec 32) (i : ℕ) : BitVec 32 := BitVec.ofNat 32 ((ip.toNat >>> i) <<< i)

def rangeEnd (ip : BitVec 32) (i : ℕ) : BitVec 32 :=
  BitVec.ofNat 32 (ip.toNat ||| ((1 <<< i) - 1))

namespace Net

variable {F : Type} (net : Net F)

/-- The rules of the filter override earlier ones on their range, which has to be one, and
what is printed for an IPv4 address is read as this address. -/
structure Documented : Prop where
  access_empty : ∀ a, net.access net.empty a = 0
  access_addRule : ∀ f (range : IpRange), range.Ordered → ∀ flags a,
    net.access (net.addRule f range.first range.last flags) a =
      if range.holds a then flags else net.access f a
  fromString_dottedQuad : ∀ v, net.fromString (dottedQuad v) = some (.v4 v)

/-- No mask range where the address or the mask is not one of IPv4: taking it for one
throws, which ends the command. -/
def parseMaskToIPRange (ip mask : Text) : Option Text := do
  let ipAddress ← net.fromString ip
  let maskAddress ← net.fromString mask
  match ipAddress, maskAddress with
  | .v4 ip, .v4 mask =>
    let i := hostBits mask 32
    some (dottedQuad (rangeStart ip i) ++ '-' :: dottedQuad (rangeEnd ip i))
  | _, _ => none

structure Parsed (F : Type) where
  filter : F
  ipFilterWhite : Bool

/-- `none` is the end of the command with an error. -/
def parseOption (st : Parsed F) : FilterOption → Option (Parsed F)
  | .ipWhite optarg => do
    let cleared := if st.ipFilterWhite then st.filter else net.clearIpFilter 0 st.filter
    let filter ← net.parseIpFilter optarg 0 cleared
    some ⟨filter, true⟩
  | .ipBlack optarg => do
    let cleared := if st.ipFilterWhite then net.clearIpFilter blocked st.filter else st.filter
    let filter ← net.parseIpFilter optarg blocked cleared
    some ⟨filter, false⟩
  | .mask optarg => do
    let range ← net.parseMaskToIPRange net.localHostIp optarg
    let cleared := if st.ipFilterWhite then st.filter else net.clearIpFilter 0 st.filter
    let filter ← net.addIpFilterRule 0 cleared range
    some ⟨filter, true⟩

def buildFilter (opts : List FilterOption) : Option F :=
  (opts.foldlM net.parseOption ⟨net.empty, false⟩).map (·.filter)

def Blocks (filter : F) (a : Address) : Prop := net.access filter a &&& blocked ≠ 0

end Net

section Meaning

variable {F : Type} (net : Net F)

namespace Net

/-- The range a rule is written for. -/
def readRange (text : Text) : Option IpRange :=
  match sliptStringToVector text ['-'] with
  | [start] => (net.fromString start).map fun a => ⟨a, a⟩
  | [start, last] => do some ⟨← net.fromString start, ← net.fromString last⟩
  | _ => none

def ruleTexts : FilterOption → List Text
  | .ipWhite optarg | .ipBlack optarg => sliptStringToVector optarg [',']
  | .mask optarg => (net.parseMaskToIPRange net.localHostIp optarg).toList

/-- The ranges in a white or black list are written with their ends in order. -/
def WellOrdered : FilterOption → Prop
  | .ipWhite optarg | .ipBlack optarg => ∀ text ∈ sliptStringToVector optarg [','],
      ∀ range, net.readRange text = some range → range.Ordered
  | .mask _ => True

def covers (a : Address) (opt : FilterOption) : Bool :=
  (net.ruleTexts opt).any fun text => (net.readRange text).any (·.holds a)

/-- Some black rule covers the address, or white or mask options are given and none
of them covers it. -/
def Denied (opts : List FilterOption) (a : Address) : Prop :=
  (∃ opt ∈ opts, opt.isBlack = true ∧ net.covers a opt = true) ∨
    ((∃ opt ∈ opts, opt.isBlack = false) ∧
      ∀ opt ∈ opts, opt.isBlack = false → net.covers a opt = false)

instance (opts : List FilterOption) (a : Address) : Decidable (net.Denied opts a) :=
  inferInstanceAs (Decidable (_ ∨ _))

end Net

/-- The options after the last change between black and white or mask. -/
def lastBlock (opts : List FilterOption) : List FilterOption :=
  match opts.getLast? with
  | none => []
  | some last => opts.rtakeWhile (fun opt => opt.isBlack == last.isBlack)

end Meaning
end Gingko.IpFilters
