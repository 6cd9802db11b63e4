import Mathlib.Data.List.Flatten
import Mathlib.Data.Nat.Notation

/-!
Structs behind a protocol, whose fields bear a type and an identifier. The protocol is given
by its operations; it reads back what it has written, in front of anything, and skips one
value of a type whole. A reader of a struct knows some fields and skips the others, so what a
struct is read as depends on the known fields alone, in their order.
-/
namespace Gingko.FieldProtocols

inductive TType where
  | bool
  | byte
  | i16
  | i32
  | i64
  | double
  | string
  | struct
  | map
  | set
  | list
  deriving DecidableEq

inductive Scalar where
  | bool (value : Bool)
  | byte (value : BitVec 8)
  | i16 (value : BitVec 16)
  | i32 (value : BitVec 32)
  | i64 (value : BitVec 64)
  | double (bits : BitVec 64)
  | string (bytes : List UInt8)
  deriving DecidableEq

def Scalar.type : Scalar → TType
  | .bool _ => .bool
  | .byte _ => .byte
  | .i16 _ => .i16
  | .i32 _ => .i32
  | .i64 _ => .i64
  | .double _ => .double
  | .string _ => .string

variable {τ σ : Type}

section Protocols

/-- What the code of structs calls, over streams of letters of one type. The end of a struct
stands where the next field would begin; strings and containers have sizes that fit. -/
structure Protocol (τ : Type) where
  Fits : ℕ → Prop
  writeFieldBegin : TType → BitVec 16 → List τ
  writeFieldStop : List τ
  writeMapBegin : TType → TType → ℕ → List τ
  writeSetBegin : TType → ℕ → List τ
  writeListBegin : TType → ℕ → List τ
  writeScalar : Scalar → List τ
  readFieldBegin : List τ → Option (Option (TType × BitVec 16) × List τ)
  readListBegin : List τ → Option ((TType × ℕ) × List τ)
  readBool : List τ → Option (Bool × List τ)
  readI16 : List τ → Option (BitVec 16 × List τ)
  readI32 : List τ → Option (BitVec 32 × List τ)
  readI64 : List τ → Option (BitVec 64 × List τ)
  readString : List τ → Option (List UInt8 × List τ)
  skip : TType → List τ → Option (List τ)

structure WireField (τ : Type) where
  id : BitVec 16
  type : TType
  bytes : List τ

variable (prot : Protocol τ)

def WireField.write (f : WireField τ) : List τ := prot.writeFieldBegin f.type f.id ++ f.bytes

def writeStruct (fields : List (WireField τ)) : List τ :=
  fields.flatMap (WireField.write prot) ++ prot.writeFieldStop

def Scalar.Fits : Scalar → Prop
  | .string bytes => prot.Fits bytes.length
  | _ => True

def TextFits (text : Option (List UInt8)) : Prop :=
  ∀ bytes, text = some bytes → prot.Fits bytes.length

/-- One value of the type, from any writer. -/
inductive IsValue : TType → List τ → Prop
  | scalar (value : Scalar) (hfits : value.Fits prot) :
      IsValue value.type (prot.writeScalar value)
  | struct (fields : List (WireField τ)) (hfields : ∀ f ∈ fields, IsValue f.type f.bytes) :
      IsValue .struct (writeStruct prot fields)
  | map (key value : TType) (entries : List (List τ × List τ)) (hfits : prot.Fits entries.length)
      (hkeys : ∀ e ∈ entries, IsValue key e.1) (hvalues : ∀ e ∈ entries, IsValue value e.2) :
      IsValue .map
        (prot.writeMapBegin key value entries.length ++ entries.flatMap fun e => e.1 ++ e.2)
  | set (elem : TType) (items : List (List τ)) (hfits : prot.Fits items.length)
      (hitems : ∀ i ∈ items, IsValue elem i) :
      IsValue .set (prot.writeSetBegin elem items.length ++ items.flatten)
  | list (elem : TType) (items : List (List τ)) (hfits : prot.Fits items.length)
      (hitems : ∀ i ∈ items, IsValue elem i) :
      IsValue .list (prot.writeListBegin elem items.length ++ items.flatten)

/-- What has been written is read back, whatever stands behind it. -/
structure Protocol.Lawful : Prop where
  fieldBegin_ne : ∀ type id, prot.writeFieldBegin type id ≠ []
  readFieldBegin : ∀ type id rest,
    prot.readFieldBegin (prot.writeFieldBegin type id ++ rest) = some (some (type, id), rest)
  readFieldStop : ∀ rest, prot.readFieldBegin (prot.writeFieldStop ++ rest) = some (none, rest)
  readListBegin : ∀ elem size rest, prot.Fits size →
    prot.readListBegin (prot.writeListBegin elem size ++ rest) = some ((elem, size), rest)
  readBool : ∀ value rest,
    prot.readBool (prot.writeScalar (.bool value) ++ rest) = some (value, rest)
  readI16 : ∀ value rest, prot.readI16 (prot.writeScalar (.i16 value) ++ rest) = some (value, rest)
  readI32 : ∀ value rest, prot.readI32 (prot.writeScalar (.i32 value) ++ rest) = some (value, rest)
  readI64 : ∀ value rest, prot.readI64 (prot.writeScalar (.i64 value) ++ rest) = some (value, rest)
  readString : ∀ bytes rest, prot.Fits bytes.length →
    prot.readString (prot.writeScalar (.string bytes) ++ rest) = some (bytes, rest)
  skip : ∀ type value rest, IsValue prot type value → prot.skip type (value ++ rest) = some rest

def WireField.scalar (id : BitVec 16) (value : Scalar) : WireField τ :=
  ⟨id, value.type, prot.writeScalar value⟩

def WireField.struct (id : BitVec 16) (fields : List (WireField τ)) : WireField τ :=
  ⟨id, .struct, writeStruct prot fields⟩

def WireField.structs (id : BitVec 16) (items : List (List (WireField τ))) : WireField τ :=
  ⟨id, .list, prot.writeListBegin .struct items.length ++ (items.map (writeStruct prot)).flatten⟩

def WireField.Valid (f : WireField τ) : Prop := IsValue prot f.type f.bytes

variable {prot}

theorem isValue_cases {type : TType} {ts : List τ} (h : IsValue prot type ts) :
    (∃ v : Scalar, v.type = type ∧ v.Fits prot ∧ ts = prot.writeScalar v) ∨
    (type = .struct ∧ ∃ fields : List (WireField τ), (∀ f ∈ fields, f.Valid prot) ∧
      ts = writeStruct prot fields) ∨
    type = .map ∨ type = .set ∨ type = .list := by
  cases h with
  | scalar v hfits => exact .inl ⟨v, rfl, hfits, rfl⟩
  | struct fields hfields => exact .inr (.inl ⟨rfl, fields, hfields, rfl⟩)
  | map => exact .inr (.inr (.inl rfl))
  | set => exact .inr (.inr (.inr (.inl rfl)))
  | list => exact .inr (.inr (.inr (.inr rfl)))

end Protocols

section Reading

variable (prot : Protocol τ)

def readTimes (read : σ → List τ → Option (σ × List τ)) : ℕ → σ → List τ → Option (σ × List τ)
  | 0, s, ts => some (s, ts)
  | n + 1, s, ts => do
    let (s, ts) ← read s ts
    readTimes read n s ts

def readFields (begin : List τ → Option (Option (TType × BitVec 16) × List τ))
    (read : TType → BitVec 16 → σ → List τ → Option (σ × List τ)) :
    ℕ → σ → List τ → Option (σ × List τ)
  | 0, _, _ => none
  | fuel + 1, s, ts => do
    let (field, ts) ← begin ts
    match field with
    | none => some (s, ts)
    | some (type, id) => do
      let (s, ts) ← read type id s ts
      readFields begin read fuel s ts

/-- A field that the reader of a struct knows. -/
structure Case (τ σ : Type) where
  id : BitVec 16
  type : TType
  read : σ → List τ → Option (σ × List τ)

def skipField (type : TType) (s : σ) (ts : List τ) : Option (σ × List τ) :=
  (prot.skip type ts).map fun ts => (s, ts)

def readCase (cases : List (Case τ σ)) (type : TType) (id : BitVec 16) (s : σ) (ts : List τ) :
    Option (σ × List τ) :=
  match cases.find? (fun c => c.id = id) with
  | some c => if type = c.type then c.read s ts else skipField prot type s ts
  | none => skipField prot type s ts

/-- Every field takes a letter at least, so the stream itself bounds the loop. -/
def readStruct (cases : List (Case τ σ)) (s : σ) (ts : List τ) : Option (σ × List τ) :=
  readFields prot.readFieldBegin (readCase prot cases) (ts.length + 1) s ts

/-- A known field whose value is read on its own and then stored. -/
def Case.of {α : Type} (id : BitVec 16) (type : TType) (read : List τ → Option (α × List τ))
    (store : σ → α → σ) : Case τ σ :=
  ⟨id, type, fun s ts => (read ts).map fun after => (store s after.1, after.2)⟩

/-- A known field whose value is a struct, read over what the field held. -/
def Case.nested {α : Type} (id : BitVec 16) (cases : List (Case τ α)) (held : σ → α)
    (store : σ → α → σ) : Case τ σ :=
  ⟨id, .struct, fun s ts =>
    (readStruct prot cases (held s) ts).map fun after => (store s after.1, after.2)⟩

end Reading

section Consuming

/-- The reader takes just these letters, whatever follows them. -/
def Consumes (read : σ → List τ → Option (σ × List τ)) (ts : List τ) (s s' : σ) : Prop :=
  ∀ rest, read s (ts ++ rest) = some (s', rest)

/-- The fields one after the other take the reader from one state to the other. -/
inductive Folds (read : TType → BitVec 16 → σ → List τ → Option (σ × List τ)) :
    σ → List (WireField τ) → σ → Prop
  | nil (s : σ) : Folds read s [] s
  | cons (f : WireField τ) (fields : List (WireField τ)) (s s' s'' : σ)
      (hhead : Consumes (read f.type f.id) f.bytes s s') (htail : Folds read s' fields s'') :
      Folds read s (f :: fields) s''

variable {read : TType → BitVec 16 → σ → List τ → Option (σ × List τ)} (prot : Protocol τ)

theorem Folds.append {s s' s'' : σ} {fields others : List (WireField τ)}
    (h : Folds read s fields s') (hothers : Folds read s' others s'') :
    Folds read s (fields ++ others) s'' := by
  induction h with
  | nil s => exact hothers
  | cons f fields s t s' hhead _ ih => exact .cons f _ s t s'' hhead (ih hothers)

theorem Folds.same {s : σ} {fields : List (WireField τ)}
    (h : ∀ f ∈ fields, Consumes (read f.type f.id) f.bytes s s) : Folds read s fields s := by
  induction fields with
  | nil => exact .nil s
  | cons f fields ih =>
    exact .cons f fields s s s (h f List.mem_cons_self)
      (ih fun g hg => h g (List.mem_cons_of_mem f hg))

theorem readFields_folds
    (hbegin : ∀ type id rest,
      prot.readFieldBegin (prot.writeFieldBegin type id ++ rest) = some (some (type, id), rest))
    (hstop : ∀ rest, prot.readFieldBegin (prot.writeFieldStop ++ rest) = some (none, rest))
    {s s' : σ} {fields : List (WireField τ)} (h : Folds read s fields s') (fuel : ℕ)
    (hfuel : fields.length < fuel) (rest : List τ) :
    readFields prot.readFieldBegin read fuel s (writeStruct prot fields ++ rest) =
      some (s', rest) := by
  induction h generalizing fuel with
  | nil s =>
    obtain _ | fuel := fuel
    · simp at hfuel
    have hend : writeStruct prot [] ++ rest = prot.writeFieldStop ++ rest := by
      simp [writeStruct]
    rw [hend, readFields, hstop]
    rfl
  | cons f fields s s' s'' hhead htail ih =>
    obtain _ | fuel := fuel
    · simp at hfuel
    have hbytes : writeStruct prot (f :: fields) ++ rest =
        prot.writeFieldBegin f.type f.id ++ (f.bytes ++ (writeStruct prot fields ++ rest)) := by
      simp only [writeStruct, List.flatMap_cons, WireField.write, List.append_assoc]
    rw [hbytes, readFields, hbegin]
    simp only [Option.bind_eq_bind, Option.bind_some, hhead (writeStruct prot fields ++ rest)]
    exact ih fuel (by simpa using hfuel)

theorem length_le_writeStruct (hne : ∀ type id, prot.writeFieldBegin type id ≠ [])
    (fields : List (WireField τ)) : fields.length ≤ (writeStruct prot fields).length := by
  induction fields with
  | nil => exact Nat.zero_le _
  | cons f fields ih =>
    have hpos := List.length_pos_iff.mpr (hne f.type f.id)
    simp only [writeStruct, List.flatMap_cons, WireField.write, List.length_append,
      List.length_cons] at ih ⊢
    omega

theorem readTimes_consumes {α : Type} {read : σ → List τ → Option (σ × List τ)}
    (write : α → List τ) (next : σ → α → σ) (items : List α)
    (hitems : ∀ i ∈ items, ∀ s, Consumes read (write i) s (next s i)) (s : σ) :
    Consumes (readTimes read items.length) (items.flatMap write) s (items.foldl next s) := by
  induction items generalizing s with
  | nil => exact fun rest => rfl
  | cons i items ih =>
    intro rest
    rw [List.flatMap_cons, List.append_assoc, List.length_cons, readTimes,
      hitems i List.mem_cons_self]
    exact ih (fun j hj => hitems j (List.mem_cons_of_mem i hj)) (next s i) rest

end Consuming

section Structs

variable {prot : Protocol τ} (hprot : prot.Lawful) (cases : List (Case τ σ))

/-- A field with the identifier and the type of one that the reader knows. -/
def known (cases : List (Case τ σ)) (f : WireField τ) : Bool :=
  match cases.find? (fun c => c.id = f.id) with
  | some c => f.type = c.type
  | none => false

/-- The fields of a struct, with others of any writer among them that no reader knows. -/
structure Carries (prot : Protocol τ) (cases : List (Case τ σ)) (wire own : List (WireField τ)) :
    Prop where
  own : wire.filter (known cases) = own
  others : ∀ f ∈ wire, known cases f = false → f.Valid prot

theorem carries_self {own : List (WireField τ)} (h : own.filter (known cases) = own) :
    Carries prot cases own own := by
  refine ⟨h, ?_⟩
  intro f hf hunknown
  rw [← h] at hf
  have hknown := (List.mem_filter.mp hf).2
  rw [hunknown] at hknown
  contradiction

theorem readCase_known {id : BitVec 16} {c : Case τ σ}
    (hcase : cases.find? (fun c => c.id = id) = some c) :
    readCase prot cases c.type id = c.read := by
  funext s ts
  rw [readCase, hcase]
  exact if_pos rfl

theorem known_case (f : WireField τ) (hf : known cases f = true) :
    ∃ c ∈ cases, f.type = c.type ∧ readCase prot cases f.type f.id = c.read := by
  unfold known at hf
  split at hf
  · next c hc =>
    have htype := of_decide_eq_true hf
    exact ⟨c, List.mem_of_find?_eq_some hc, htype, htype ▸ readCase_known cases hc⟩
  · contradiction

/-- A field that may be unset, and is stored if it is set. -/
theorem folds_of {α β : Type} (id : BitVec 16) (type : TType)
    (read : List τ → Option (β × List τ)) (store : σ → β → σ)
    (hcase : cases.find? (fun c => c.id = id) = some (.of id type read store))
    (value : Option α) (bytes : α → List τ) (got : α → β)
    (hread : ∀ v, value = some v → ∀ rest, read (bytes v ++ rest) = some (got v, rest)) {s s' : σ}
    (hs : s' = value.elim s fun v => store s (got v)) :
    Folds (readCase prot cases) s (value.map fun v => (⟨id, type, bytes v⟩ : WireField τ)).toList
      s' := by
  rw [hs]
  cases value with
  | none => exact .nil s
  | some v =>
    refine .cons _ [] s _ _ ?_ (.nil _)
    intro rest
    have hknown : readCase prot cases type id = (Case.of id type read store).read :=
      readCase_known cases hcase
    simp only [hknown, Case.of, hread v rfl rest, Option.map_some, Option.elim_some]

include hprot

theorem readCase_unknown (f : WireField τ) (hvalid : f.Valid prot) (hf : known cases f = false)
    (s : σ) : Consumes (readCase prot cases f.type f.id) f.bytes s s := by
  intro rest
  have hskip : skipField prot f.type s (f.bytes ++ rest) = some (s, rest) := by
    rw [skipField, hprot.skip f.type f.bytes rest hvalid]
    rfl
  unfold known at hf
  unfold readCase
  split
  · next c hc =>
    rw [hc, decide_eq_false_iff_not] at hf
    rw [if_neg hf, hskip]
  · exact hskip

/-- Fields that the reader does not know change nothing, wherever they stand. -/
theorem folds_carries {s s' : σ} {wire own : List (WireField τ)}
    (hwire : Carries prot cases wire own) (h : Folds (readCase prot cases) s own s') :
    Folds (readCase prot cases) s wire s' := by
  obtain ⟨rfl, hothers⟩ := hwire
  induction wire generalizing s with
  | nil => exact h
  | cons f wire ih =>
    have hrest := fun g hg => hothers g (List.mem_cons_of_mem f hg)
    cases hf : known cases f with
    | true =>
      rw [List.filter_cons_of_pos hf] at h
      cases h with
      | cons _ _ _ t _ hhead htail => exact .cons f wire s t s' hhead (ih hrest htail)
    | false =>
      rw [List.filter_cons_of_neg (by simp [hf])] at h
      have hskipped := readCase_unknown hprot cases f (hothers f List.mem_cons_self hf) hf s
      exact .cons f wire s s s' hskipped (ih hrest h)

theorem readStruct_folds {s s' : σ} {fields : List (WireField τ)}
    (h : Folds (readCase prot cases) s fields s') :
    Consumes (readStruct prot cases) (writeStruct prot fields) s s' := by
  intro rest
  refine readFields_folds prot hprot.readFieldBegin hprot.readFieldStop h _ ?_ rest
  have hle := length_le_writeStruct prot hprot.fieldBegin_ne fields
  rw [List.length_append]
  omega

theorem nested_consumes {α : Type} (id : BitVec 16) (inner : List (Case τ α)) (held : σ → α)
    (store : σ → α → σ) {s : σ} {value : α} {fields : List (WireField τ)}
    (h : Folds (readCase prot inner) (held s) fields value) :
    Consumes (Case.nested prot id inner held store).read (writeStruct prot fields) s
      (store s value) := by
  intro rest
  have hread := readStruct_folds hprot inner h rest
  simp only [Case.nested, hread, Option.map_some]

theorem folds_string (id : BitVec 16) (store : σ → List UInt8 → σ)
    (hcase : cases.find? (fun c => c.id = id) = some (.of id .string prot.readString store))
    (value : Option (List UInt8)) (hfits : TextFits prot value) {s s' : σ}
    (hs : s' = value.elim s (store s)) :
    Folds (readCase prot cases) s
      (value.map fun v => WireField.scalar prot id (.string v)).toList s' :=
  folds_of cases id .string prot.readString store hcase value _ (fun v => v)
    (fun v hv rest => hprot.readString v rest (hfits v hv)) hs

theorem folds_bool (id : BitVec 16) (store : σ → Bool → σ)
    (hcase : cases.find? (fun c => c.id = id) = some (.of id .bool prot.readBool store))
    (value : Option Bool) {s s' : σ} (hs : s' = value.elim s (store s)) :
    Folds (readCase prot cases) s
      (value.map fun v => WireField.scalar prot id (.bool v)).toList s' :=
  folds_of cases id .bool prot.readBool store hcase value _ (fun v => v)
    (fun v _ rest => hprot.readBool v rest) hs

theorem folds_i16 (id : BitVec 16) (store : σ → BitVec 16 → σ)
    (hcase : cases.find? (fun c => c.id = id) = some (.of id .i16 prot.readI16 store))
    (value : Option (BitVec 16)) {s s' : σ} (hs : s' = value.elim s (store s)) :
    Folds (readCase prot cases) s
      (value.map fun v => WireField.scalar prot id (.i16 v)).toList s' :=
  folds_of cases id .i16 prot.readI16 store hcase value _ (fun v => v)
    (fun v _ rest => hprot.readI16 v rest) hs

theorem folds_i32 {α : Type} (id : BitVec 16) (store : σ → BitVec 32 → σ)
    (hcase : cases.find? (fun c => c.id = id) = some (.of id .i32 prot.readI32 store))
    (value : Option α) (code : α → BitVec 32) {s s' : σ}
    (hs : s' = value.elim s fun v => store s (code v)) :
    Folds (readCase prot cases) s
      (value.map fun v => WireField.scalar prot id (.i32 (code v))).toList s' :=
  folds_of cases id .i32 prot.readI32 store hcase value _ code
    (fun v _ rest => hprot.readI32 (code v) rest) hs

theorem folds_i64 (id : BitVec 16) (store : σ → BitVec 64 → σ)
    (hcase : cases.find? (fun c => c.id = id) = some (.of id .i64 prot.readI64 store))
    (value : Option (BitVec 64)) {s s' : σ} (hs : s' = value.elim s (store s)) :
    Folds (readCase prot cases) s
      (value.map fun v => WireField.scalar prot id (.i64 v)).toList s' :=
  folds_of cases id .i64 prot.readI64 store hcase value _ (fun v => v)
    (fun v _ rest => hprot.readI64 v rest) hs

/-- A struct that may be unset, and is read over what the field held if it is set. -/
theorem folds_nested {α β : Type} (id : BitVec 16) (inner : List (Case τ α)) (held : σ → α)
    (store : σ → α → σ)
    (hcase : cases.find? (fun c => c.id = id) = some (.nested prot id inner held store))
    (value : Option β) (fields : β → List (WireField τ)) (got : β → α) {s s' : σ}
    (hfolds : ∀ v, value = some v → Folds (readCase prot inner) (held s) (fields v) (got v))
    (hs : s' = value.elim s fun v => store s (got v)) :
    Folds (readCase prot cases) s (value.map fun v => WireField.struct prot id (fields v)).toList
      s' := by
  rw [hs]
  cases value with
  | none => exact .nil s
  | some v =>
    refine .cons _ [] s _ _ ?_ (.nil _)
    have hknown : readCase prot cases .struct id = (Case.nested prot id inner held store).read :=
      readCase_known cases hcase
    intro rest
    simp only [WireField.struct, hknown]
    exact nested_consumes hprot id inner held store (hfolds v rfl) rest

end Structs

section Totality

variable {prot : Protocol τ} (hprot : prot.Lawful)

/-- A known field reads every value of its type as it stands. -/
def Case.Sound (prot : Protocol τ) (c : Case τ σ) : Prop :=
  ∀ ts, IsValue prot c.type ts → ∀ s, ∃ s', Consumes c.read ts s s'

theorem of_sound {α : Type} (id : BitVec 16) (type : TType)
    (hscalar : type ∉ [.struct, .map, .set, .list])
    (read : List τ → Option (α × List τ)) (store : σ → α → σ)
    (hread : ∀ v : Scalar, v.type = type → v.Fits prot →
      ∃ a, ∀ rest, read (prot.writeScalar v ++ rest) = some (a, rest)) :
    (Case.of id type read store).Sound prot := by
  intro ts hts s
  rcases isValue_cases hts with ⟨v, hv, hfits, rfl⟩ | ⟨h, _⟩ | h | h | h
  · obtain ⟨a, ha⟩ := hread v hv hfits
    refine ⟨store s a, fun rest => ?_⟩
    simp only [Case.of, ha, Option.map_some]
  all_goals
    change type = _ at h
    exact absurd (by simp [h]) hscalar

include hprot

theorem folds_sound (cases : List (Case τ σ)) (hcases : ∀ c ∈ cases, c.Sound prot) (s : σ)
    (fields : List (WireField τ)) (hvalid : ∀ f ∈ fields, f.Valid prot) :
    ∃ s', Folds (readCase prot cases) s fields s' := by
  induction fields generalizing s with
  | nil => exact ⟨s, .nil s⟩
  | cons f fields ih =>
    have hfirst := hvalid f List.mem_cons_self
    have hstep : ∃ t, Consumes (readCase prot cases f.type f.id) f.bytes s t := by
      cases hf : known cases f with
      | true =>
        obtain ⟨c, hc, htype, hread⟩ := known_case cases f hf
        rw [hread]
        exact hcases c hc f.bytes (htype ▸ hfirst) s
      | false => exact ⟨s, readCase_unknown hprot cases f hfirst hf s⟩
    obtain ⟨t, ht⟩ := hstep
    obtain ⟨s', hs'⟩ := ih t fun g hg => hvalid g (List.mem_cons_of_mem f hg)
    exact ⟨s', .cons f fields s t s' ht hs'⟩

theorem bool_sound (id : BitVec 16) (store : σ → Bool → σ) :
    (Case.of id .bool prot.readBool store).Sound prot := by
  refine of_sound id .bool (by decide) prot.readBool store fun v hv _ => ?_
  cases v <;> cases hv
  exact ⟨_, hprot.readBool _⟩

theorem i32_sound (id : BitVec 16) (store : σ → BitVec 32 → σ) :
    (Case.of id .i32 prot.readI32 store).Sound prot := by
  refine of_sound id .i32 (by decide) prot.readI32 store fun v hv _ => ?_
  cases v <;> cases hv
  exact ⟨_, hprot.readI32 _⟩

theorem i64_sound (id : BitVec 16) (store : σ → BitVec 64 → σ) :
    (Case.of id .i64 prot.readI64 store).Sound prot := by
  refine of_sound id .i64 (by decide) prot.readI64 store fun v hv _ => ?_
  cases v <;> cases hv
  exact ⟨_, hprot.readI64 _⟩

theorem string_sound (id : BitVec 16) (store : σ → List UInt8 → σ) :
    (Case.of id .string prot.readString store).Sound prot := by
  refine of_sound id .string (by decide) prot.readString store fun v hv hfits => ?_
  cases v <;> cases hv
  exact ⟨_, fun rest => hprot.readString _ rest hfits⟩

theorem nested_sound {α : Type} (id : BitVec 16) (inner : List (Case τ α)) (held : σ → α)
    (store : σ → α → σ) (hinner : ∀ c ∈ inner, c.Sound prot) :
    (Case.nested prot id inner held store).Sound prot := by
  intro ts hts s
  rcases isValue_cases hts with ⟨v, hv, _⟩ | ⟨_, fields, hfields, rfl⟩ | h | h | h
  · cases v <;> cases hv
  · obtain ⟨value, hvalue⟩ := folds_sound hprot inner hinner (held s) fields hfields
    exact ⟨store s value, nested_consumes hprot id inner held store hvalue⟩
  · cases h
  · cases h
  · cases h

end Totality

end Gingko.FieldProtocols
