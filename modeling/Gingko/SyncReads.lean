import Gingko.SocketRuns

/-!
The synchronous reader of a client. It reads one header and as many bytes as the
header names, and it does not look at the type. So it takes a heartbeat for an
empty message, and any header passes whose four words fit together.
-/
namespace Gingko.SyncReads

open Base64Codec SocketFrames SocketRuns

/-- The data are set once there is a valid header, also when too few bytes follow. -/
structure ReadResult where
  ok : Bool
  data : Option ByteString
  stream : ByteString
  deriving DecidableEq

structure AsioRead where
  bytes : ByteString
  stream : ByteString
  ok : Bool

/-- A read that is to fill a buffer takes all there is before it fails. -/
def asioRead (size : ℕ) (stream : ByteString) : AsioRead :=
  ⟨stream.take size, stream.drop size, decide (size ≤ stream.length)⟩

/-- A vector of the given size with zeros in it, filled from its front. -/
def filled (size : ℕ) (bytes : ByteString) : ByteString :=
  bytes ++ List.replicate (size - bytes.length) 0

def readData (stream : ByteString) : ReadResult :=
  let head := asioRead Header.size stream
  if !head.ok then ⟨false, none, head.stream⟩
  else
    let header := Header.ofBytes head.bytes
    if !header.isValid then ⟨false, none, head.stream⟩
    else
      let body := asioRead header.length.toNat head.stream
      ⟨body.ok, some (filled header.length.toNat body.bytes), body.stream⟩

/-- The bytes behind sixteen bytes of a header. -/
theorem readData_head (head rest : ByteString) (hsize : head.length = Header.size) :
    readData (head ++ rest) =
      if (Header.ofBytes head).isValid then
        let length := (Header.ofBytes head).length.toNat
        ⟨decide (length ≤ rest.length), some (filled length (rest.take length)), rest.drop length⟩
      else ⟨false, none, rest⟩ := by
  have hread : asioRead Header.size (head ++ rest) = ⟨head, rest, true⟩ := by
    simp [asioRead, ← hsize]
  simp only [readData, hread, Bool.not_true, Bool.false_eq_true, if_false]
  cases (Header.ofBytes head).isValid <;> rfl

theorem readData_assign (type length : UInt32) (rest : ByteString) :
    readData ((Header.assign type length).bytes ++ rest) =
      ⟨decide (length.toNat ≤ rest.length),
        some (filled length.toNat (rest.take length.toNat)), rest.drop length.toNat⟩ := by
  rw [readData_head _ _ (Header.bytes_length _), Header.ofBytes_bytes, Header.isValid_assign]
  rfl

/-- A heartbeat is returned as if it were an empty message. -/
theorem readData_heartbeat (rest : ByteString) :
    readData (frame heartbeatMessage ++ rest) = ⟨true, some [], rest⟩ := by
  have hframe : frame heartbeatMessage = (Header.assign 0 0).bytes := rfl
  rw [hframe, readData_assign]
  simp [filled]

theorem readData_user (payload rest : ByteString) (h : payload.length < 4294967296) :
    readData (frame (userMessage payload) ++ rest) = ⟨true, some payload, rest⟩ := by
  have hframe : frame (userMessage payload) =
      (Header.assign 1 (UInt32.ofNat payload.length)).bytes ++ payload := rfl
  have hlength : (UInt32.ofNat payload.length).toNat = payload.length :=
    UInt32.toNat_ofNat_of_lt' h
  rw [hframe, List.append_assoc, readData_assign, hlength]
  simp [filled]

/-- Of a longer payload only the part counts that the length word can name. -/
theorem readData_user_long (payload rest : ByteString) (h : 4294967296 ≤ payload.length) :
    (readData (frame (userMessage payload) ++ rest)).data ≠ some payload := by
  have hframe : frame (userMessage payload) =
      (Header.assign 1 (UInt32.ofNat payload.length)).bytes ++ payload := rfl
  have hlt := (UInt32.ofNat payload.length).toNat_lt
  rw [hframe, List.append_assoc, readData_assign]
  intro heq
  have hlength := congrArg List.length (Option.some.inj heq)
  simp only [filled, List.length_append, List.length_replicate, List.length_take] at hlength
  omega

/-- What is expected of a stream with some heartbeats in front of the next message. -/
def ReadsNext (beats : ℕ) (payload rest : ByteString) : Prop :=
  readData (frames (List.replicate beats heartbeatMessage ++ [userMessage payload]) ++ rest) =
    ⟨true, some payload, rest⟩

theorem readsNext_iff (beats : ℕ) (payload rest : ByteString) :
    ReadsNext beats payload rest ↔ beats = 0 ∧ payload.length < 4294967296 := by
  unfold ReadsNext
  cases beats with
  | zero =>
    rw [List.replicate_zero, List.nil_append, frames_cons, frames_nil, List.append_nil]
    constructor
    · intro h
      refine ⟨rfl, ?_⟩
      by_contra hlong
      exact readData_user_long payload rest (Nat.le_of_not_lt hlong) (congrArg ReadResult.data h)
    · rintro ⟨_, hshort⟩
      exact readData_user payload rest hshort
  | succ beats =>
    rw [List.replicate_succ, List.cons_append, frames_cons, List.append_assoc, readData_heartbeat]
    apply iff_of_false
    · -- what is left starts with the frame that should have been read
      intro h
      have hstream := congrArg List.length (congrArg ReadResult.stream h)
      simp [Header.size] at hstream
      omega
    · rintro ⟨hzero, _⟩
      exact Nat.succ_ne_zero beats hzero

/-- The bytes are a header that `Assign` gives for one of the two types. -/
def Assigned (head : ByteString) : Prop :=
  ∃ (type : MessageTypeEnum) (length : UInt32), head = (Header.assign type.code length).bytes

theorem refused_iff (head rest : ByteString) (hsize : head.length = Header.size) :
    (readData (head ++ rest)).ok = false ↔
      (Header.ofBytes head).isValid = false ∨ rest.length < (Header.ofBytes head).length.toNat := by
  rw [readData_head head rest hsize]
  cases (Header.ofBytes head).isValid with
  | true => simp
  | false => simp

/-- The next message is read exactly when no heartbeat comes first and its size fits the
length word. A header that `Assign` gives for no type is refused exactly when its words do
not fit together or the stream is too short for it. -/
theorem sync_reads_iff (beats : ℕ) (payload rest head tail : ByteString) :
    (ReadsNext beats payload rest ↔ beats = 0 ∧ payload.length < 4294967296) ∧
    (head.length = Header.size → ¬ Assigned head →
      ((readData (head ++ tail)).ok = false ↔
        (Header.ofBytes head).isValid = false ∨
          tail.length < (Header.ofBytes head).length.toNat)) :=
  ⟨readsNext_iff beats payload rest, fun hsize _ => refused_iff head tail hsize⟩

section Samples

def zeroHead : ByteString := List.replicate 16 0

theorem zeroHead_not_assigned : ¬ Assigned zeroHead := by
  rintro ⟨type, length, h⟩
  have hmagic : (Header.ofBytes zeroHead).magic = 47417 := by
    rw [h, Header.ofBytes_bytes]
    rfl
  exact absurd hmagic (by decide)

theorem sync_reads_iff_zeroHead :
    (readData (zeroHead ++ [1])).ok = false ↔ (Header.ofBytes zeroHead).isValid = false ∨
      [1].length < (Header.ofBytes zeroHead).length.toNat :=
  (sync_reads_iff 0 [] [] zeroHead [1]).2 rfl zeroHead_not_assigned

/-- A heartbeat in front of a message, and a header of zeros. -/
theorem sync_reads_fail :
    ¬ ((∀ beats payload rest, ReadsNext beats payload rest) ∧
      ∀ head rest : ByteString, head.length = Header.size → ¬ Assigned head →
        (readData (head ++ rest)).ok = false) ∧
    ¬ ReadsNext 1 [7] [] ∧ ¬ Assigned zeroHead ∧ (readData zeroHead).ok = true := by
  have hbeat : ¬ ReadsNext 1 [7] [] := by
    unfold ReadsNext
    decide
  exact ⟨fun hall => hbeat (hall.1 1 [7] []), hbeat, zeroHead_not_assigned, by decide⟩

end Samples

end Gingko.SyncReads
