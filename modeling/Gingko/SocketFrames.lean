import Gingko.Base64Codec
import Gingko.GuardedRuns
import Mathlib.Algebra.Group.Nat.Defs
import Mathlib.Data.List.Infix

/-!
Messages on a unix socket connection. The writer queues messages and writes the
front one, through a header buffer that all messages share. The reader asks for a
header and then for as many bytes as the header names. An outstanding write puts
its bytes on the socket in pieces, and an outstanding read takes them in pieces.
Errors and the receive timer, which close the connection, are left out.
-/
namespace Gingko.SocketFrames

open Base64Codec

/-- A word in memory, low byte first. -/
def wordBytes (n : UInt32) : ByteString :=
  [UInt8.ofNat n.toNat, UInt8.ofNat (n.toNat / 2 ^ 8), UInt8.ofNat (n.toNat / 2 ^ 16),
    UInt8.ofNat (n.toNat / 2 ^ 24)]

def wordOfBytes (bytes : ByteString) : UInt32 :=
  UInt32.ofNat (bytes.foldr (fun b n => b.toNat + 2 ^ 8 * n) 0)

@[simp] theorem wordBytes_length (n : UInt32) : (wordBytes n).length = 4 := rfl

theorem wordOfBytes_wordBytes (n : UInt32) : wordOfBytes (wordBytes n) = n := by
  have hlt : n.toNat < 2 ^ 32 := n.toNat_lt
  apply UInt32.toNat_inj.mp
  simp only [wordOfBytes, wordBytes, List.foldr_cons, List.foldr_nil, UInt8.toNat_ofNat',
    UInt32.toNat_ofNat']
  omega

structure Header where
  length : UInt32
  type : UInt32
  magic : UInt32
  checksum : UInt32
  deriving DecidableEq

namespace Header

def isValid (h : Header) : Bool := (h.length ^^^ h.type ^^^ h.magic) == h.checksum

def assign (type length : UInt32) : Header :=
  ⟨length, type, 47417, length ^^^ type ^^^ 47417⟩

def size : ℕ := 16

/-- The header as it lies in memory, which is what goes over the socket. -/
def bytes (h : Header) : ByteString :=
  wordBytes h.length ++ wordBytes h.type ++ wordBytes h.magic ++ wordBytes h.checksum

def ofBytes (bytes : ByteString) : Header where
  length := wordOfBytes (bytes.take 4)
  type := wordOfBytes ((bytes.drop 4).take 4)
  magic := wordOfBytes ((bytes.drop 8).take 4)
  checksum := wordOfBytes ((bytes.drop 12).take 4)

@[simp] theorem bytes_length (h : Header) : h.bytes.length = size := rfl

theorem ofBytes_bytes (h : Header) : ofBytes h.bytes = h := by
  obtain ⟨length, type, magic, checksum⟩ := h
  have hlength : (bytes ⟨length, type, magic, checksum⟩).take 4 = wordBytes length := rfl
  have htype : ((bytes ⟨length, type, magic, checksum⟩).drop 4).take 4 = wordBytes type := rfl
  have hmagic : ((bytes ⟨length, type, magic, checksum⟩).drop 8).take 4 = wordBytes magic := rfl
  have hchecksum : ((bytes ⟨length, type, magic, checksum⟩).drop 12).take 4 = wordBytes checksum :=
    rfl
  rw [ofBytes, hlength, htype, hmagic, hchecksum]
  simp only [wordOfBytes_wordBytes]

theorem isValid_assign (type length : UInt32) : (assign type length).isValid = true := by
  simp [isValid, assign]

end Header

inductive MessageTypeEnum where
  | heartbeat
  | userdata
  deriving DecidableEq

def MessageTypeEnum.code : MessageTypeEnum → UInt32
  | .heartbeat => 0
  | .userdata => 1

abbrev Message := MessageTypeEnum × Option ByteString

def heartbeatMessage : Message := (.heartbeat, none)

def userMessage (data : ByteString) : Message := (.userdata, some data)

/-- An `async_write` that has not completed. Its first buffer is the connection's
`write_header_`, read when the bytes are written. -/
structure WriteOp where
  payload : ByteString
  transferred : ℕ
  deriving DecidableEq

/-- `posted` holds the calls of `AsyncWrite` that the service has not run. `pushed`
and `sent` record all messages queued and all bytes written. -/
structure Writer where
  posted : List ByteString
  writeMessageQueue : List Message
  writeHeader : Header
  writes : List WriteOp
  acknowledged : List ByteString
  pushed : List Message
  sent : ByteString
  deriving DecidableEq

def writeMessage (message : Message) (w : Writer) : Writer :=
  match message.2 with
  | some data =>
    { w with
      writeHeader := .assign message.1.code (UInt32.ofNat data.length)
      writes := w.writes ++ [⟨data, 0⟩] }
  | none =>
    { w with
      writeHeader := .assign message.1.code 0
      writes := w.writes ++ [⟨[], 0⟩] }

def writeFront (w : Writer) : Writer :=
  match w.writeMessageQueue with
  | front :: _ => writeMessage front w
  | [] => w

def asyncWrite (message : Message) (w : Writer) : Writer :=
  let isWritting := !w.writeMessageQueue.isEmpty
  let w := { w with
    writeMessageQueue := w.writeMessageQueue ++ [message]
    pushed := w.pushed ++ [message] }
  if !isWritting then writeFront w else w

def write (data : Option ByteString) (w : Writer) : Writer :=
  match data with
  | some data => { w with posted := w.posted ++ [data] }
  | none => w

/-- Undefined on an empty queue, whose `front` does not exist. -/
def handleWriteMessage (w : Writer) : Option Writer :=
  match w.writeMessageQueue with
  | [] => none
  | front :: rest =>
    let w := { w with acknowledged := w.acknowledged ++ front.2.toList, writeMessageQueue := rest }
    some (if !rest.isEmpty then writeFront w else w)

inductive ReadOp where
  | head
  | data (length : ℕ)
  deriving DecidableEq

def ReadOp.size : ReadOp → ℕ
  | .head => Header.size
  | .data length => length

/-- `reading` is `none` once the connection is closed. `buffer` holds what the
outstanding read has got so far, and `taken` counts all bytes read. -/
structure Reader where
  reading : Option ReadOp
  buffer : ByteString
  delivered : List ByteString
  heartbeats : ℕ
  taken : ℕ
  deriving DecidableEq

def asyncRead (op : ReadOp) (r : Reader) : Reader := { r with reading := some op, buffer := [] }

def close (r : Reader) : Reader := { r with reading := none }

def handleReadHead (header : Header) (r : Reader) : Reader :=
  if !header.isValid then close r
  else if header.type = MessageTypeEnum.heartbeat.code then
    asyncRead .head { r with heartbeats := r.heartbeats + 1 }
  else if header.type = MessageTypeEnum.userdata.code then
    asyncRead (.data header.length.toNat) r
  else close r

def handleReadData (size : ℕ) (data : ByteString) (r : Reader) : Reader :=
  if size ≠ data.length then close r
  else asyncRead .head { r with delivered := r.delivered ++ [data] }

/-- The writing end of one connection and the reading end of its peer. -/
structure State where
  writer : Writer
  reader : Reader
  deriving DecidableEq

def State.start : State where
  writer := ⟨[], [], ⟨0, 0, 0, 0⟩, [], [], [], []⟩
  reader := ⟨some .head, [], [], 0, 0⟩

/-- Posted calls may be run in any order. Transfers and receptions move any number
of bytes, at most those that are left. -/
inductive Event where
  | write (data : Option ByteString)
  | asyncWrite (index : ℕ)
  | heartbeatSend
  | transfer (index count : ℕ)
  | written (index : ℕ)
  | receive (count : ℕ)
  | readDone
  deriving DecidableEq

def transfer (index count : ℕ) (w : Writer) : Option Writer :=
  match w.writes[index]? with
  | none => none
  | some op =>
    let bytes := ((w.writeHeader.bytes ++ op.payload).drop op.transferred).take count
    some { w with
      writes := w.writes.set index { op with transferred := op.transferred + bytes.length }
      sent := w.sent ++ bytes }

def written (index : ℕ) (w : Writer) : Option Writer :=
  match w.writes[index]? with
  | none => none
  | some op =>
    if op.transferred = Header.size + op.payload.length then
      handleWriteMessage { w with writes := w.writes.eraseIdx index }
    else none

def receive (count : ℕ) (sent : ByteString) (r : Reader) : Option Reader :=
  match r.reading with
  | none => none
  | some op =>
    let bytes := (sent.drop r.taken).take (min count (op.size - r.buffer.length))
    some { r with buffer := r.buffer ++ bytes, taken := r.taken + bytes.length }

def readDone (r : Reader) : Option Reader :=
  match r.reading with
  | none => none
  | some op =>
    if r.buffer.length = op.size then
      match op with
      | .head => some (handleReadHead (.ofBytes r.buffer) r)
      | .data length => some (handleReadData length r.buffer r)
    else none

def step (s : State) : Event → Option State
  | .write data => some { s with writer := write data s.writer }
  | .asyncWrite index =>
    match s.writer.posted[index]? with
    | none => none
    | some data =>
      let w := { s.writer with posted := s.writer.posted.eraseIdx index }
      some { s with writer := asyncWrite (userMessage data) w }
  | .heartbeatSend => some { s with writer := asyncWrite heartbeatMessage s.writer }
  | .transfer index count => (transfer index count s.writer).map fun w => { s with writer := w }
  | .written index => (written index s.writer).map fun w => { s with writer := w }
  | .receive count =>
    (receive count s.writer.sent s.reader).map fun r => { s with reader := r }
  | .readDone => (readDone s.reader).map fun r => { s with reader := r }

end Gingko.SocketFrames
