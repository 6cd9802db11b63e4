import Gingko.FieldProtocols

/-!
A protocol over typed tokens, one for each scalar and for the begin of each field and
container. Skipping a value goes by its type, to any depth of nesting.
-/
namespace Gingko.TokenStreams

open FieldProtocols

inductive Token where
  | fieldBegin (type : TType) (id : BitVec 16)
  | fieldStop
  | mapBegin (key value : TType) (size : ℕ)
  | setBegin (elem : TType) (size : ℕ)
  | listBegin (elem : TType) (size : ℕ)
  | scalar (value : Scalar)
  deriving DecidableEq

abbrev Stream := List Token

section Reading

def readFieldBegin : Stream → Option (Option (TType × BitVec 16) × Stream)
  | .fieldBegin type id :: ts => some (some (type, id), ts)
  | .fieldStop :: ts => some (none, ts)
  | _ => none

def readListBegin : Stream → Option ((TType × ℕ) × Stream)
  | .listBegin elem size :: ts => some ((elem, size), ts)
  | _ => none

def readBool : Stream → Option (Bool × Stream)
  | .scalar (.bool value) :: ts => some (value, ts)
  | _ => none

def readI16 : Stream → Option (BitVec 16 × Stream)
  | .scalar (.i16 value) :: ts => some (value, ts)
  | _ => none

def readI32 : Stream → Option (BitVec 32 × Stream)
  | .scalar (.i32 value) :: ts => some (value, ts)
  | _ => none

def readI64 : Stream → Option (BitVec 64 × Stream)
  | .scalar (.i64 value) :: ts => some (value, ts)
  | _ => none

def readString : Stream → Option (List UInt8 × Stream)
  | .scalar (.string bytes) :: ts => some (bytes, ts)
  | _ => none

/-- The bound is on the depth of nesting. -/
def skipWith : ℕ → TType → Unit → Stream → Option (Unit × Stream)
  | fuel + 1, .struct, _, ts =>
    readFields readFieldBegin (fun type _ => skipWith fuel type) (ts.length + 1) () ts
  | fuel + 1, .map, _, .mapBegin key value size :: ts =>
    readTimes (fun _ ts => do
      let (_, ts) ← skipWith fuel key () ts
      skipWith fuel value () ts) size () ts
  | fuel + 1, .set, _, .setBegin elem size :: ts => readTimes (skipWith fuel elem) size () ts
  | fuel + 1, .list, _, .listBegin elem size :: ts => readTimes (skipWith fuel elem) size () ts
  | _ + 1, type, _, .scalar value :: ts => if value.type = type then some ((), ts) else none
  | _, _, _, _ => none

end Reading

def tokens : Protocol Token where
  Fits _ := True
  writeFieldBegin type id := [.fieldBegin type id]
  writeFieldStop := [.fieldStop]
  writeMapBegin key value size := [.mapBegin key value size]
  writeSetBegin elem size := [.setBegin elem size]
  writeListBegin elem size := [.listBegin elem size]
  writeScalar value := [.scalar value]
  readFieldBegin := readFieldBegin
  readListBegin := readListBegin
  readBool := readBool
  readI16 := readI16
  readI32 := readI32
  readI64 := readI64
  readString := readString
  skip type ts := (skipWith ts.length type () ts).map Prod.snd

section Skipping

theorem length_le_flatMap {α : Type} (write : α → Stream) (items : List α) (i : α)
    (hi : i ∈ items) : (write i).length ≤ (items.flatMap write).length := by
  induction items with
  | nil => simp at hi
  | cons j items ih =>
    rw [List.flatMap_cons, List.length_append]
    rcases List.mem_cons.mp hi with rfl | hi
    · omega
    · have h := ih hi
      omega

/-- One value is skipped, however deep it nests, and nothing behind it. -/
theorem skipWith_value {type : TType} {ts : Stream} (h : IsValue tokens type ts) (fuel : ℕ)
    (hfuel : ts.length ≤ fuel) : Consumes (skipWith fuel type) ts () () := by
  induction h generalizing fuel with
  | scalar value =>
    intro rest
    obtain _ | fuel := fuel
    · simp [tokens] at hfuel
    cases value <;> rfl
  | struct fields hfields ih =>
    obtain _ | fuel := fuel
    · simp [writeStruct, tokens] at hfuel
    have hfolds : Folds (fun type _ => skipWith fuel type) () fields () := by
      refine Folds.same fun f hf => ih f hf fuel ?_
      have hle := length_le_flatMap (WireField.write tokens) fields f hf
      have hlen : (f.write tokens).length = f.bytes.length + 1 := List.length_cons
      have hall : (writeStruct tokens fields).length =
          (fields.flatMap (WireField.write tokens)).length + 1 := List.length_append
      omega
    intro rest
    have hbound := length_le_writeStruct tokens (fun _ _ => List.cons_ne_nil _ _) fields
    refine readFields_folds tokens (fun _ _ _ => rfl) (fun _ => rfl) hfolds _ ?_ rest
    rw [List.length_append]
    omega
  | map key value entries _ _ _ ihk ihv =>
    obtain _ | fuel := fuel
    · simp [tokens] at hfuel
    have hall : (entries.flatMap fun e : Stream × Stream => e.1 ++ e.2).length ≤ fuel := by
      simpa [tokens] using hfuel
    refine readTimes_consumes (fun e => e.1 ++ e.2) (fun _ _ => ()) entries ?_ ()
    intro e he _ rest
    dsimp only
    have hle := length_le_flatMap (fun e : Stream × Stream => e.1 ++ e.2) entries e he
    rw [List.length_append] at hle
    rw [List.append_assoc, ihk e he fuel (by omega)]
    exact ihv e he fuel (by omega) rest
  | set elem items _ _ ih =>
    obtain _ | fuel := fuel
    · simp [tokens] at hfuel
    have hall : (items.flatMap id).length ≤ fuel := by
      simpa [tokens] using hfuel
    rw [← List.flatMap_id]
    exact readTimes_consumes id (fun _ _ => ()) items (fun i hi _ =>
      ih i hi fuel (Nat.le_trans (length_le_flatMap id items i hi) hall)) ()
  | list elem items _ _ ih =>
    obtain _ | fuel := fuel
    · simp [tokens] at hfuel
    have hall : (items.flatMap id).length ≤ fuel := by
      simpa [tokens] using hfuel
    rw [← List.flatMap_id]
    exact readTimes_consumes id (fun _ _ => ()) items (fun i hi _ =>
      ih i hi fuel (Nat.le_trans (length_le_flatMap id items i hi) hall)) ()

theorem tokens_lawful : tokens.Lawful where
  fieldBegin_ne _ _ := List.cons_ne_nil _ _
  readFieldBegin _ _ _ := rfl
  readFieldStop _ := rfl
  readListBegin _ _ _ _ := rfl
  readBool _ _ := rfl
  readI16 _ _ := rfl
  readI32 _ _ := rfl
  readI64 _ _ := rfl
  readString _ _ _ := rfl
  skip type value rest hvalue := by
    have hfuel : value.length ≤ (value ++ rest).length := by
      rw [List.length_append]
      exact Nat.le_add_right _ _
    simp only [tokens, skipWith_value hvalue _ hfuel rest, Option.map_some]

end Skipping

end Gingko.TokenStreams
