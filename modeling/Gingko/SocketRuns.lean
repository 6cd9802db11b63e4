import Gingko.SocketFrames
import Mathlib.Data.List.Perm.Basic

/-!
Runs of a connection. What has been written is an exact beginning of the queued
messages, each as one frame, and the reader has consumed whole frames and a
beginning of the next one. The writer and the reader keep these facts separately:
the reader uses of the writer only that its messages and bytes grow at the end. Once
the writer is done, finitely many steps of the reader take all that is left.
-/
namespace Gingko.SocketRuns

open Base64Codec GuardedRuns SocketFrames

def payload (message : Message) : ByteString := message.2.getD []

def headerOf (message : Message) : Header :=
  .assign message.1.code (UInt32.ofNat (payload message).length)

def frame (message : Message) : ByteString := (headerOf message).bytes ++ payload message

def frames (messages : List Message) : ByteString := messages.flatMap frame

def userdata (messages : List Message) : List ByteString := messages.filterMap Prod.snd

def heartbeats (messages : List Message) : ℕ := messages.countP fun message => message.2.isNone

@[simp] theorem frame_length (message : Message) :
    (frame message).length = Header.size + (payload message).length := by simp [frame]

@[simp] theorem frames_nil : frames [] = [] := rfl

@[simp] theorem frames_cons (message : Message) (rest : List Message) :
    frames (message :: rest) = frame message ++ frames rest := rfl

@[simp] theorem frames_append (front rest : List Message) :
    frames (front ++ rest) = frames front ++ frames rest := List.flatMap_append ..

@[simp] theorem userdata_append (front rest : List Message) :
    userdata (front ++ rest) = userdata front ++ userdata rest := List.filterMap_append ..

@[simp] theorem heartbeats_append (front rest : List Message) :
    heartbeats (front ++ rest) = heartbeats front + heartbeats rest := List.countP_append ..

/-- The writer has finished some messages and written `count` bytes of the next one. -/
structure Framed (w : Writer) (finished : List Message) (count : ℕ) : Prop where
  pushed : w.pushed = finished ++ w.writeMessageQueue
  idle : w.writeMessageQueue = [] → w.writes = []
  busy : ∀ front rest, w.writeMessageQueue = front :: rest →
    w.writes = [⟨payload front, count⟩] ∧ w.writeHeader = headerOf front ∧
      count ≤ (frame front).length
  sent : w.sent = frames finished ++ (frames w.writeMessageQueue).take count

theorem writeMessage_eq (message : Message) (w : Writer) :
    writeMessage message w =
      { w with writeHeader := headerOf message, writes := w.writes ++ [⟨payload message, 0⟩] } := by
  obtain ⟨type, data⟩ := message
  cases data <;> rfl

theorem framed_start : Framed State.start.writer [] 0 where
  pushed := rfl
  idle _ := rfl
  busy front rest hqueue := by simp [State.start] at hqueue
  sent := rfl

theorem framed_write (data : Option ByteString) (w : Writer) (finished : List Message) (count : ℕ)
    (h : Framed w finished count) : Framed (write data w) finished count := by
  cases data with
  | none => exact h
  | some data => exact ⟨h.pushed, h.idle, h.busy, h.sent⟩

theorem framed_asyncWrite (message : Message) (w : Writer) (finished : List Message) (count : ℕ)
    (h : Framed w finished count) :
    ∃ count, Framed (asyncWrite message w) finished count := by
  unfold asyncWrite
  cases hqueue : w.writeMessageQueue with
  | nil =>
    refine ⟨0, ?_⟩
    have hsent := h.sent
    rw [hqueue] at hsent
    simp only [List.isEmpty_nil, Bool.not_true, Bool.not_false, if_true, writeFront,
      List.nil_append, writeMessage_eq]
    constructor
    · simp [h.pushed, hqueue]
    · intro hempty
      simp at hempty
    · intro front rest heq
      obtain ⟨rfl, rfl⟩ := List.cons.inj heq
      simp [h.idle hqueue]
    · simpa using hsent
  | cons front rest =>
    refine ⟨count, ?_⟩
    obtain ⟨hwrites, hheader, hcount⟩ := h.busy front rest hqueue
    have hsent := h.sent
    rw [hqueue, frames_cons, List.take_append_of_le_length hcount] at hsent
    simp only [List.isEmpty_cons, Bool.not_false, Bool.not_true, Bool.false_eq_true, if_false]
    constructor
    · simp [h.pushed, hqueue]
    · intro hempty
      simp at hempty
    · intro first others heq
      obtain ⟨rfl, -⟩ := List.cons.inj heq
      exact ⟨hwrites, hheader, hcount⟩
    · simp [hsent, List.take_append_of_le_length hcount]

/-- The outstanding write is that of the front message, and its header is intact. -/
theorem Framed.front_of_write {w : Writer} {finished : List Message} {count : ℕ}
    (h : Framed w finished count) (index : ℕ) (op : WriteOp) (hop : w.writes[index]? = some op) :
    index = 0 ∧ ∃ front rest, w.writeMessageQueue = front :: rest ∧
      w.writes = [⟨payload front, count⟩] ∧ op = ⟨payload front, count⟩ ∧
      w.writeHeader = headerOf front ∧ count ≤ (frame front).length := by
  cases hqueue : w.writeMessageQueue with
  | nil => simp [h.idle hqueue] at hop
  | cons front rest =>
    obtain ⟨hwrites, hheader, hcount⟩ := h.busy front rest hqueue
    rw [hwrites] at hop
    cases index with
    | zero => exact ⟨rfl, front, rest, rfl, hwrites, (Option.some.inj hop).symm, hheader, hcount⟩
    | succ index => simp at hop

theorem framed_transfer (index n : ℕ) (w t : Writer) (finished : List Message) (count : ℕ)
    (h : Framed w finished count) (hstep : transfer index n w = some t) :
    ∃ count, Framed t finished count := by
  unfold transfer at hstep
  cases hop : w.writes[index]? with
  | none => simp [hop] at hstep
  | some op =>
    obtain ⟨rfl, front, rest, hqueue, hwrites, rfl, hheader, hcount⟩ := h.front_of_write index op hop
    rw [hop] at hstep
    obtain rfl := Option.some.inj hstep
    have hframe : w.writeHeader.bytes ++ payload front = frame front := by rw [hheader, frame]
    have hsent := h.sent
    rw [hqueue, frames_cons, List.take_append_of_le_length hcount] at hsent
    have hnext : count + (((frame front).drop count).take n).length ≤ (frame front).length := by
      rw [List.length_take, List.length_drop]
      omega
    simp only [hframe]
    refine ⟨count + (((frame front).drop count).take n).length, ?_⟩
    constructor
    · exact h.pushed
    · intro hempty
      simp [hqueue] at hempty
    · intro first others heq
      rw [hqueue] at heq
      obtain ⟨rfl, -⟩ := List.cons.inj heq
      exact ⟨by simp [hwrites], hheader, hnext⟩
    · have htake : (frame front).take (count + (((frame front).drop count).take n).length) =
          (frame front).take count ++ ((frame front).drop count).take n := by
        rw [List.take_add]
        congr 1
        rw [List.take_eq_take_iff, List.length_take]
        omega
      simp only [hqueue, frames_cons]
      rw [List.take_append_of_le_length hnext, htake, hsent, List.append_assoc]

theorem handleWriteMessage_last (front : Message) (w : Writer)
    (hqueue : w.writeMessageQueue = [front]) :
    handleWriteMessage w = some { w with
      acknowledged := w.acknowledged ++ front.2.toList
      writeMessageQueue := [] } := by
  unfold handleWriteMessage
  rw [hqueue]
  rfl

theorem handleWriteMessage_next (front next : Message) (rest : List Message) (w : Writer)
    (hqueue : w.writeMessageQueue = front :: next :: rest) :
    handleWriteMessage w = some { w with
      acknowledged := w.acknowledged ++ front.2.toList
      writeMessageQueue := next :: rest
      writeHeader := headerOf next
      writes := w.writes ++ [⟨payload next, 0⟩] } := by
  unfold handleWriteMessage
  rw [hqueue]
  simp only [List.isEmpty_cons, Bool.not_false, if_true, writeFront, writeMessage_eq]

/-- A write that has put all its bytes has a front message to acknowledge, and the
next message starts with a new header. -/
theorem framed_written (index : ℕ) (w : Writer) (op : WriteOp) (finished : List Message)
    (count : ℕ) (h : Framed w finished count) (hop : w.writes[index]? = some op)
    (hall : op.transferred = Header.size + op.payload.length) :
    ∃ t front, written index w = some t ∧ Framed t (finished ++ [front]) 0 := by
  obtain ⟨rfl, front, rest, hqueue, hwrites, rfl, hheader, hcount⟩ := h.front_of_write index op hop
  have hcomplete : count = (frame front).length := by
    rw [frame_length]
    exact hall
  have hsent := h.sent
  rw [hqueue, frames_cons, List.take_append_of_le_length hcount, hcomplete, List.take_length]
    at hsent
  have hpushed := h.pushed
  rw [hqueue] at hpushed
  have hdone : written 0 w = handleWriteMessage { w with writes := w.writes.eraseIdx 0 } := by
    unfold written
    rw [hop]
    exact if_pos hall
  rw [hdone]
  cases rest with
  | nil =>
    refine ⟨_, front, handleWriteMessage_last front _ hqueue, ?_⟩
    constructor
    · simpa using hpushed
    · intro _
      simp [hwrites]
    · intro first others heq
      simp at heq
    · simpa using hsent
  | cons next rest =>
    refine ⟨_, front, handleWriteMessage_next front next rest _ hqueue, ?_⟩
    constructor
    · simpa using hpushed
    · intro hempty
      simp at hempty
    · intro first others heq
      obtain ⟨rfl, rfl⟩ := List.cons.inj heq
      simp [hwrites]
    · simpa using hsent

theorem Framed.sent_prefix {w : Writer} {finished : List Message} {count : ℕ}
    (h : Framed w finished count) : w.sent <+: frames w.pushed := by
  rw [h.sent, h.pushed, frames_append]
  exact (List.prefix_append_right_inj _).mpr (List.take_prefix count _)

/-- The messages that callers can queue, with lengths that a header can hold. -/
inductive Sendable : Message → Prop
  | heartbeat : Sendable heartbeatMessage
  | userdata (data : ByteString) (hlength : data.length < 2 ^ 32) : Sendable (userMessage data)

/-- What the reader has consumed ends inside a header, or inside the data that
follows the header of the next message. -/
inductive Place (received rest : List Message) (r : Reader) (consumed : ByteString) : Prop
  | head (hreading : r.reading = some .head) (hbuffer : r.buffer.length ≤ Header.size)
      (hconsumed : consumed = frames received ++ r.buffer)
  | data (data : ByteString) (later : List Message) (hrest : rest = userMessage data :: later)
      (hreading : r.reading = some (.data data.length)) (hbuffer : r.buffer.length ≤ data.length)
      (hconsumed : consumed =
        frames received ++ ((headerOf (userMessage data)).bytes ++ r.buffer))

structure Reading (pushed : List Message) (sent : ByteString) (r : Reader)
    (received rest : List Message) : Prop where
  pushed : pushed = received ++ rest
  delivered : r.delivered = userdata received
  dropped : r.heartbeats = heartbeats received
  taken : r.taken ≤ sent.length
  place : Place received rest r (sent.take r.taken)

theorem reading_start :
    Reading State.start.writer.pushed State.start.writer.sent State.start.reader [] [] where
  pushed := rfl
  delivered := rfl
  dropped := rfl
  taken := Nat.zero_le _
  place := .head rfl (Nat.zero_le _) rfl

theorem Place.more {received rest : List Message} {r : Reader} {consumed : ByteString}
    (h : Place received rest r consumed) (extra : List Message) :
    Place received (rest ++ extra) r consumed := by
  cases h with
  | head hreading hbuffer hconsumed => exact .head hreading hbuffer hconsumed
  | data data later hrest hreading hbuffer hconsumed =>
    exact .data data (later ++ extra) (by rw [hrest, List.cons_append]) hreading hbuffer hconsumed

/-- The reader does not notice that the writer goes on. -/
theorem Reading.grow {pushed pushed' : List Message} {sent sent' : ByteString} {r : Reader}
    {received rest : List Message} (h : Reading pushed sent r received rest)
    (hpushed : pushed <+: pushed') (hsent : sent <+: sent') :
    ∃ rest', Reading pushed' sent' r received rest' := by
  obtain ⟨extra, rfl⟩ := hpushed
  obtain ⟨more, rfl⟩ := hsent
  have htake : (sent ++ more).take r.taken = sent.take r.taken :=
    List.take_append_of_le_length h.taken
  refine ⟨rest ++ extra, ⟨?_, h.delivered, h.dropped, ?_, ?_⟩⟩
  · rw [h.pushed, List.append_assoc]
  · exact le_trans h.taken (by simp)
  · rw [htake]
    exact h.place.more extra

theorem reading_receive (n : ℕ) (pushed : List Message) (sent : ByteString) (r u : Reader)
    (received rest : List Message) (h : Reading pushed sent r received rest)
    (hstep : receive n sent r = some u) : Reading pushed sent u received rest := by
  have htake (count : ℕ) : sent.take (r.taken + ((sent.drop r.taken).take count).length) =
      sent.take r.taken ++ (sent.drop r.taken).take count := by
    rw [List.take_add]
    congr 1
    rw [List.take_eq_take_iff, List.length_take]
    omega
  have htaken (count : ℕ) : r.taken + ((sent.drop r.taken).take count).length ≤ sent.length := by
    have := h.taken
    rw [List.length_take, List.length_drop]
    omega
  have hlength (op : ReadOp) (hbuffer : r.buffer.length ≤ op.size) :
      (r.buffer ++ (sent.drop r.taken).take (min n (op.size - r.buffer.length))).length ≤
        op.size := by
    rw [List.length_append, List.length_take]
    omega
  unfold receive at hstep
  cases h.place with
  | head hreading hbuffer hconsumed =>
    rw [hreading] at hstep
    obtain rfl := Option.some.inj hstep
    refine ⟨h.pushed, h.delivered, h.dropped, htaken _, .head rfl (hlength .head hbuffer) ?_⟩
    rw [htake, hconsumed, List.append_assoc]
  | data data later hrest hreading hbuffer hconsumed =>
    rw [hreading] at hstep
    obtain rfl := Option.some.inj hstep
    refine ⟨h.pushed, h.delivered, h.dropped, htaken _,
      .data data later hrest rfl (hlength (.data data.length) hbuffer) ?_⟩
    rw [htake, hconsumed, List.append_assoc, List.append_assoc]

/-- Sixteen bytes at the start of a message are its header. -/
theorem header_of_prefix (buffer : ByteString) (rest : List Message)
    (hbegins : buffer <+: frames rest) (hlength : buffer.length = Header.size) :
    ∃ message later, rest = message :: later ∧ buffer = (headerOf message).bytes := by
  cases rest with
  | nil =>
    rw [frames_nil, List.prefix_nil] at hbegins
    simp [hbegins, Header.size] at hlength
  | cons message later =>
    refine ⟨message, later, rfl, ?_⟩
    have hheader : (headerOf message).bytes <+: frames (message :: later) := by
      rw [frames_cons, frame, List.append_assoc]
      exact List.prefix_append _ _
    have hle := List.prefix_of_prefix_length_le hbegins hheader (by simp [hlength])
    exact hle.eq_of_length (by simp [hlength])

theorem handleReadHead_heartbeat (r : Reader) :
    handleReadHead (headerOf heartbeatMessage) r =
      asyncRead .head { r with heartbeats := r.heartbeats + 1 } := rfl

theorem handleReadHead_userdata (data : ByteString) (r : Reader) (hlength : data.length < 2 ^ 32) :
    handleReadHead (headerOf (userMessage data)) r = asyncRead (.data data.length) r := by
  have hsize : (UInt32.ofNat data.length).toNat = data.length := by
    rw [UInt32.toNat_ofNat']
    exact Nat.mod_eq_of_lt hlength
  have hread : (headerOf (userMessage data)).length.toNat = data.length := hsize
  have hvalid : (headerOf (userMessage data)).isValid = true := Header.isValid_assign _ _
  have htype : (headerOf (userMessage data)).type = MessageTypeEnum.userdata.code := rfl
  have hother : MessageTypeEnum.userdata.code ≠ MessageTypeEnum.heartbeat.code := by decide
  unfold handleReadHead
  rw [hread, hvalid, htype, if_neg (by simp), if_neg hother, if_pos rfl]

/-- A whole message has been consumed and the next header is awaited. -/
theorem Reading.message {pushed : List Message} {sent : ByteString} {u : Reader}
    {received later : List Message} (message : Message)
    (hpushed : pushed = received ++ message :: later)
    (hdelivered : u.delivered = userdata received ++ userdata [message])
    (hdropped : u.heartbeats = heartbeats received + heartbeats [message])
    (htaken : u.taken ≤ sent.length) (hreading : u.reading = some .head) (hbuffer : u.buffer = [])
    (hconsumed : sent.take u.taken = frames received ++ frame message) :
    Reading pushed sent u (received ++ [message]) later := by
  refine ⟨?_, ?_, ?_, htaken, .head hreading ?_ ?_⟩
  · rw [hpushed, List.append_assoc]
    rfl
  · rw [hdelivered, userdata_append]
  · rw [hdropped, heartbeats_append]
  · simp [hbuffer]
  · rw [hconsumed, hbuffer, frames_append, List.append_nil]
    simp

/-- What the reader has before it: the unread bytes, and for each message the end of the
read of its header and of that of its data. -/
def ahead (sent : ByteString) (r : Reader) (rest : List Message) : ℕ :=
  2 * rest.length + (if r.reading = some .head then 1 else 0) + (sent.length - r.taken)

/-- A finished read consumes a header, and with a heartbeat's header or with the last
byte of its data a whole message. -/
theorem reading_readDone (pushed : List Message) (sent : ByteString) (r u : Reader)
    (received rest : List Message) (h : Reading pushed sent r received rest)
    (hbegins : sent <+: frames pushed) (hsendable : ∀ message ∈ pushed, Sendable message)
    (hstep : readDone r = some u) :
    ∃ received' rest', Reading pushed sent u received' rest' ∧
      ahead sent u rest' < ahead sent r rest := by
  have hconsumed : sent.take r.taken <+: frames received ++ frames rest := by
    rw [← frames_append, ← h.pushed]
    exact (List.take_prefix _ _).trans hbegins
  unfold readDone at hstep
  cases h.place with
  | head hreading hbuffer htake =>
    rw [hreading] at hstep
    simp only [Option.ite_none_right_eq_some, Option.some.injEq] at hstep
    obtain ⟨hsize, rfl⟩ := hstep
    rw [htake, List.prefix_append_right_inj] at hconsumed
    obtain ⟨message, later, rfl, hheader⟩ := header_of_prefix r.buffer rest hconsumed hsize
    have hmem : message ∈ pushed := by
      rw [h.pushed]
      simp
    rw [hheader, Header.ofBytes_bytes]
    cases hsendable message hmem with
    | heartbeat =>
      rw [handleReadHead_heartbeat]
      refine ⟨_, later, Reading.message heartbeatMessage h.pushed ?_ ?_ h.taken rfl rfl ?_, ?_⟩
      · simp [asyncRead, h.delivered, userdata, heartbeatMessage]
      · simp [asyncRead, h.dropped, heartbeats, heartbeatMessage]
      · simp [asyncRead, htake, hheader, frame, payload, heartbeatMessage]
      · simp only [ahead, asyncRead, hreading, List.length_cons]
        omega
    | userdata data hlength =>
      rw [handleReadHead_userdata data r hlength]
      refine ⟨received, userMessage data :: later,
        ⟨h.pushed, h.delivered, h.dropped, h.taken, .data data later rfl rfl ?_ ?_⟩, ?_⟩
      · simp [asyncRead]
      · simp [asyncRead, htake, hheader]
      · simp [ahead, asyncRead, hreading]
  | data data later hrest hreading hbuffer htake =>
    rw [hreading] at hstep
    simp only [Option.ite_none_right_eq_some, Option.some.injEq] at hstep
    obtain ⟨hsize, rfl⟩ := hstep
    have hdata : r.buffer = data := by
      rw [htake, hrest, List.prefix_append_right_inj, frames_cons, frame, List.append_assoc,
        List.prefix_append_right_inj] at hconsumed
      have hwhole : data <+: payload (userMessage data) ++ frames later := List.prefix_append ..
      have hle := List.prefix_of_prefix_length_le hconsumed hwhole hbuffer
      exact hle.eq_of_length hsize
    have hhandled : handleReadData data.length r.buffer r =
        asyncRead .head { r with delivered := r.delivered ++ [data] } := by
      rw [handleReadData, hdata, if_neg (by simp)]
    rw [hhandled]
    have hpushed : pushed = received ++ userMessage data :: later := by rw [h.pushed, hrest]
    refine ⟨_, later, Reading.message (userMessage data) hpushed ?_ ?_ h.taken rfl rfl ?_, ?_⟩
    · simp [asyncRead, h.delivered, userdata, userMessage]
    · simp [asyncRead, h.dropped, heartbeats, userMessage]
    · simp [asyncRead, htake, hdata, frame, payload, userMessage]
    · simp only [ahead, asyncRead, hreading, hrest, List.length_cons, if_true]
      rw [if_neg (by simp)]
      omega

section Steps

/-- The messages that an event asks to be sent. -/
def requests : Event → List Message
  | .write (some data) => [userMessage data]
  | .heartbeatSend => [heartbeatMessage]
  | _ => []

/-- Messages and bytes are only added at the end, and every message asked for is
either posted or pushed, once. -/
structure Moved (w t : Writer) (asked : List Message) : Prop where
  pushed : w.pushed <+: t.pushed
  sent : w.sent <+: t.sent
  ledger : (t.pushed ++ t.posted.map userMessage).Perm
    (w.pushed ++ w.posted.map userMessage ++ asked)

theorem Moved.of_eq {w t : Writer} (hpushed : t.pushed = w.pushed) (hposted : t.posted = w.posted)
    (hsent : w.sent <+: t.sent) : Moved w t [] where
  pushed := by rw [hpushed]
  sent := hsent
  ledger := by rw [hpushed, hposted, List.append_nil]

theorem asyncWrite_kept (message : Message) (w : Writer) :
    (asyncWrite message w).pushed = w.pushed ++ [message] ∧
      (asyncWrite message w).posted = w.posted ∧ (asyncWrite message w).sent = w.sent := by
  unfold asyncWrite
  cases w.writeMessageQueue with
  | nil =>
    simp only [List.isEmpty_nil, Bool.not_true, Bool.not_false, if_true, writeFront,
      List.nil_append, writeMessage_eq, and_self]
  | cons front rest => exact ⟨rfl, rfl, rfl⟩

theorem handleWriteMessage_kept (w t : Writer) (hstep : handleWriteMessage w = some t) :
    t.pushed = w.pushed ∧ t.posted = w.posted ∧ t.sent = w.sent := by
  cases hqueue : w.writeMessageQueue with
  | nil => simp [handleWriteMessage, hqueue] at hstep
  | cons front rest =>
    cases rest with
    | nil =>
      rw [handleWriteMessage_last front w hqueue] at hstep
      obtain rfl := Option.some.inj hstep
      exact ⟨rfl, rfl, rfl⟩
    | cons next rest =>
      rw [handleWriteMessage_next front next rest w hqueue] at hstep
      obtain rfl := Option.some.inj hstep
      exact ⟨rfl, rfl, rfl⟩

theorem written_inv (index : ℕ) (w t : Writer) (hstep : written index w = some t) :
    ∃ op, w.writes[index]? = some op ∧ op.transferred = Header.size + op.payload.length ∧
      handleWriteMessage { w with writes := w.writes.eraseIdx index } = some t := by
  unfold written at hstep
  cases hop : w.writes[index]? with
  | none => simp [hop] at hstep
  | some op =>
    rw [hop] at hstep
    simp only [Option.ite_none_right_eq_some] at hstep
    exact ⟨op, rfl, hstep.1, hstep.2⟩

theorem asyncWrite_inv (index : ℕ) (s t : State) (hstep : step s (.asyncWrite index) = some t) :
    ∃ data, s.writer.posted[index]? = some data ∧
      t = { s with
        writer := asyncWrite (userMessage data)
          { s.writer with posted := s.writer.posted.eraseIdx index } } := by
  simp only [step] at hstep
  cases hposted : s.writer.posted[index]? with
  | none => simp [hposted] at hstep
  | some data =>
    rw [hposted] at hstep
    exact ⟨data, rfl, (Option.some.inj hstep).symm⟩

theorem moved_asyncWrite (index : ℕ) (data : ByteString) (w : Writer)
    (hposted : w.posted[index]? = some data) :
    Moved w (asyncWrite (userMessage data) { w with posted := w.posted.eraseIdx index }) [] := by
  obtain ⟨hpushed, hrest, hsent⟩ :=
    asyncWrite_kept (userMessage data) { w with posted := w.posted.eraseIdx index }
  obtain ⟨hindex, rfl⟩ := List.getElem?_eq_some_iff.mp hposted
  refine ⟨?_, ?_, ?_⟩
  · rw [hpushed]
    exact List.prefix_append _ _
  · rw [hsent]
  · rw [hpushed, hrest, List.append_nil, List.append_assoc]
    apply List.Perm.append_left
    exact (List.getElem_cons_eraseIdx_perm hindex).map userMessage

theorem step_moved (s t : State) (e : Event) (hstep : step s e = some t) :
    Moved s.writer t.writer (requests e) := by
  cases e with
  | write data =>
    obtain rfl := Option.some.inj hstep
    cases data with
    | none => exact .of_eq rfl rfl List.prefix_rfl
    | some data =>
      refine ⟨List.prefix_rfl, List.prefix_rfl, ?_⟩
      simp [write, requests]
  | asyncWrite index =>
    obtain ⟨data, hposted, rfl⟩ := asyncWrite_inv index s t hstep
    exact moved_asyncWrite index data s.writer hposted
  | heartbeatSend =>
    obtain rfl := Option.some.inj hstep
    obtain ⟨hpushed, hposted, hsent⟩ := asyncWrite_kept heartbeatMessage s.writer
    refine ⟨?_, ?_, ?_⟩
    · rw [hpushed]
      exact List.prefix_append _ _
    · rw [hsent]
    · rw [hpushed, hposted, List.append_assoc, List.append_assoc]
      exact List.perm_append_comm.append_left _
  | transfer index count =>
    obtain ⟨w, hw, rfl⟩ := Option.map_eq_some_iff.mp hstep
    unfold transfer at hw
    cases hop : s.writer.writes[index]? with
    | none => simp [hop] at hw
    | some op =>
      rw [hop] at hw
      obtain rfl := Option.some.inj hw
      exact .of_eq rfl rfl (List.prefix_append _ _)
  | written index =>
    obtain ⟨w, hw, rfl⟩ := Option.map_eq_some_iff.mp hstep
    obtain ⟨op, hop, hall, hhandled⟩ := written_inv index s.writer w hw
    obtain ⟨hpushed, hposted, hsent⟩ := handleWriteMessage_kept _ w hhandled
    refine .of_eq hpushed hposted ?_
    rw [hsent]
  | receive count =>
    obtain ⟨r, hr, rfl⟩ := Option.map_eq_some_iff.mp hstep
    exact .of_eq rfl rfl List.prefix_rfl
  | readDone =>
    obtain ⟨r, hr, rfl⟩ := Option.map_eq_some_iff.mp hstep
    exact .of_eq rfl rfl List.prefix_rfl

theorem step_framed (s t : State) (e : Event) (hstep : step s e = some t)
    (h : ∃ finished count, Framed s.writer finished count) :
    ∃ finished count, Framed t.writer finished count := by
  obtain ⟨finished, count, h⟩ := h
  cases e with
  | write data =>
    obtain rfl := Option.some.inj hstep
    exact ⟨finished, count, framed_write data s.writer finished count h⟩
  | asyncWrite index =>
    obtain ⟨data, _, rfl⟩ := asyncWrite_inv index s t hstep
    have hsame : Framed { s.writer with posted := s.writer.posted.eraseIdx index } finished
        count := ⟨h.pushed, h.idle, h.busy, h.sent⟩
    exact ⟨finished, framed_asyncWrite (userMessage data) _ finished count hsame⟩
  | heartbeatSend =>
    obtain rfl := Option.some.inj hstep
    exact ⟨finished, framed_asyncWrite heartbeatMessage s.writer finished count h⟩
  | transfer index n =>
    obtain ⟨w, hw, rfl⟩ := Option.map_eq_some_iff.mp hstep
    exact ⟨finished, framed_transfer index n s.writer w finished count h hw⟩
  | written index =>
    obtain ⟨w, hw, rfl⟩ := Option.map_eq_some_iff.mp hstep
    obtain ⟨op, hop, hall, hhandled⟩ := written_inv index s.writer w hw
    obtain ⟨t, front, ht, hframed⟩ := framed_written index s.writer op finished count h hop hall
    obtain rfl : w = t := Option.some.inj (hw.symm.trans ht)
    exact ⟨finished ++ [front], 0, hframed⟩
  | receive n =>
    obtain ⟨r, hr, rfl⟩ := Option.map_eq_some_iff.mp hstep
    exact ⟨finished, count, h⟩
  | readDone =>
    obtain ⟨r, hr, rfl⟩ := Option.map_eq_some_iff.mp hstep
    exact ⟨finished, count, h⟩

theorem step_reading (s t : State) (e : Event) (hstep : step s e = some t)
    (hframed : ∃ finished count, Framed s.writer finished count)
    (hsendable : ∀ message ∈ s.writer.pushed, Sendable message)
    (h : ∃ received rest, Reading s.writer.pushed s.writer.sent s.reader received rest) :
    ∃ received rest, Reading t.writer.pushed t.writer.sent t.reader received rest := by
  obtain ⟨received, rest, h⟩ := h
  have hmoved := step_moved s t e hstep
  have hgrown (hsame : t.reader = s.reader) :
      ∃ received rest, Reading t.writer.pushed t.writer.sent t.reader received rest := by
    rw [hsame]
    exact ⟨received, h.grow hmoved.pushed hmoved.sent⟩
  cases e with
  | write data =>
    obtain rfl := Option.some.inj hstep
    exact hgrown rfl
  | asyncWrite index =>
    obtain ⟨data, _, rfl⟩ := asyncWrite_inv index s t hstep
    exact hgrown rfl
  | heartbeatSend =>
    obtain rfl := Option.some.inj hstep
    exact hgrown rfl
  | transfer index count =>
    obtain ⟨w, hw, rfl⟩ := Option.map_eq_some_iff.mp hstep
    exact hgrown rfl
  | written index =>
    obtain ⟨w, hw, rfl⟩ := Option.map_eq_some_iff.mp hstep
    exact hgrown rfl
  | receive count =>
    obtain ⟨r, hr, rfl⟩ := Option.map_eq_some_iff.mp hstep
    exact ⟨received, rest,
      reading_receive count s.writer.pushed s.writer.sent s.reader r received rest h hr⟩
  | readDone =>
    obtain ⟨r, hr, rfl⟩ := Option.map_eq_some_iff.mp hstep
    obtain ⟨finished, count, hfront⟩ := hframed
    obtain ⟨received', rest', hnext, -⟩ := reading_readDone s.writer.pushed s.writer.sent
      s.reader r received rest h hfront.sent_prefix hsendable hr
    exact ⟨received', rest', hnext⟩

end Steps

section Runs

theorem run_ledger (s t : State) (es : List Event) (hrun : Path step (fun _ _ => True) s es t) :
    (t.writer.pushed ++ t.writer.posted.map userMessage).Perm
      (s.writer.pushed ++ s.writer.posted.map userMessage ++ es.flatMap requests) := by
  induction hrun with
  | nil s => simp
  | cons s t u e es hstep hguard hrest ih =>
    have hmoved := (step_moved s t e hstep).ledger
    rw [List.flatMap_cons, ← List.append_assoc]
    exact ih.trans (hmoved.append_right _)

theorem run_framed (s : State) (es : List Event)
    (hrun : Path step (fun _ _ => True) State.start es s) :
    ∃ finished count, Framed s.writer finished count := by
  apply hrun.invariant (fun s => ∃ finished count, Framed s.writer finished count)
  · intro s e t h _ hstep
    exact step_framed s t e hstep h
  · exact ⟨[], 0, framed_start⟩

theorem sendable_requests (e : Event)
    (hlength : ∀ data, e = .write (some data) → data.length < 2 ^ 32) :
    ∀ message ∈ requests e, Sendable message := by
  intro message hmem
  cases e with
  | write data =>
    cases data with
    | none => simp [requests] at hmem
    | some data =>
      obtain rfl := List.mem_singleton.mp hmem
      exact .userdata data (hlength data rfl)
  | heartbeatSend =>
    obtain rfl := List.mem_singleton.mp hmem
    exact .heartbeat
  | asyncWrite index => simp [requests] at hmem
  | transfer index count => simp [requests] at hmem
  | written index => simp [requests] at hmem
  | receive count => simp [requests] at hmem
  | readDone => simp [requests] at hmem

theorem run_sendable (s t : State) (es : List Event)
    (hrun : Path step (fun _ _ => True) s es t)
    (hlength : ∀ data, Event.write (some data) ∈ es → data.length < 2 ^ 32)
    (hs : ∀ message ∈ s.writer.pushed ++ s.writer.posted.map userMessage, Sendable message) :
    ∀ message ∈ t.writer.pushed ++ t.writer.posted.map userMessage, Sendable message := by
  intro message hmem
  rw [(run_ledger s t es hrun).mem_iff] at hmem
  rcases List.mem_append.mp hmem with hold | hasked
  · exact hs message hold
  · obtain ⟨e, he, hrequest⟩ := List.mem_flatMap.mp hasked
    refine sendable_requests e ?_ message hrequest
    intro data hdata
    exact hlength data (hdata ▸ he)

structure Sound (s : State) : Prop where
  framed : ∃ finished count, Framed s.writer finished count
  sendable : ∀ message ∈ s.writer.pushed ++ s.writer.posted.map userMessage, Sendable message
  reading : ∃ received rest, Reading s.writer.pushed s.writer.sent s.reader received rest

theorem run_sound (s : State) (es : List Event)
    (hrun : Path step (fun _ _ => True) State.start es s)
    (hlength : ∀ data, Event.write (some data) ∈ es → data.length < 2 ^ 32) : Sound s := by
  apply hrun.invariant_of_mem Sound
  · intro s e t he h hguard hstep
    refine ⟨step_framed s t e hstep h.framed, ?_, ?_⟩
    · apply run_sendable s t [e] (.cons s t t e [] hstep hguard (.nil t))
      · intro data hdata
        obtain rfl := List.mem_singleton.mp hdata
        exact hlength data he
      · exact h.sendable
    · refine step_reading s t e hstep h.framed ?_ h.reading
      intro message hmem
      exact h.sendable message (List.mem_append_left _ hmem)
  · refine ⟨⟨[], 0, framed_start⟩, ?_, ⟨[], [], reading_start⟩⟩
    intro message hmem
    simp [State.start] at hmem

/-- What one connection writes. A write that has put all its bytes can always be
completed, so `front` is never called on an empty queue. -/
structure WritesFrames (w : Writer) : Prop where
  single : w.writes.length ≤ 1
  framed : ∃ finished count, Framed w finished count
  whole : w.writes = [] → w.writeMessageQueue = [] ∧ w.sent = frames w.pushed
  handled : ∀ index op, w.writes[index]? = some op →
    op.transferred = Header.size + op.payload.length → (written index w).isSome

theorem Framed.writesFrames {w : Writer} {finished : List Message} {count : ℕ}
    (h : Framed w finished count) : WritesFrames w := by
  refine ⟨?_, ⟨finished, count, h⟩, ?_, ?_⟩
  · cases hqueue : w.writeMessageQueue with
    | nil => simp [h.idle hqueue]
    | cons front rest => simp [(h.busy front rest hqueue).1]
  · intro hnone
    cases hqueue : w.writeMessageQueue with
    | nil => exact ⟨rfl, by simp [h.sent, h.pushed, hqueue]⟩
    | cons front rest =>
      have hwrites := (h.busy front rest hqueue).1
      simp [hnone] at hwrites
  · intro index op hop hall
    obtain ⟨t, front, hstep, -⟩ := framed_written index w op finished count h hop hall
    rw [hstep]
    rfl

/-- The steps of the reading end. -/
def IsRead : Event → Prop
  | .receive _ | .readDone => True
  | _ => False

/-- What the peer hands to its read callback. Once everything has been written, it reads on
to a state in which all user data has been handed over, in order, and every heartbeat has
been dropped; there is no other state in which it has nothing to do. -/
structure DeliversUserdata (s : State) : Prop where
  isOpen : s.reader.reading ≠ none
  inOrder : s.reader.delivered <+: userdata s.writer.pushed
  whole : s.writer.writes = [] → s.reader.taken = s.writer.sent.length →
    readDone s.reader = none → s.reader.delivered = userdata s.writer.pushed
  finishes : s.writer.writes = [] → ∃ (reads : List Event) (r : Reader),
    (∀ e ∈ reads, IsRead e) ∧ Path step (fun _ _ => True) s reads { s with reader := r } ∧
      r.delivered = userdata s.writer.pushed ∧ r.heartbeats = heartbeats s.writer.pushed

theorem frames_eq_short (rest : List Message) (h : (frames rest).length < Header.size) :
    rest = [] := by
  cases rest with
  | nil => rfl
  | cons message later =>
    rw [frames_cons, List.length_append, frame_length] at h
    omega

/-- An outstanding read that cannot finish has bytes to wait for. -/
theorem Place.unfinished {received rest : List Message} {r : Reader} {consumed : ByteString}
    (h : Place received rest r consumed) (hdone : readDone r = none) :
    ∃ op, r.reading = some op ∧ r.buffer.length < op.size := by
  have hshort (op : ReadOp) (hreading : r.reading = some op) : r.buffer.length ≠ op.size := by
    intro hfull
    unfold readDone at hdone
    cases op <;> simp [hreading, hfull] at hdone
  cases h with
  | head hreading hbuffer _ => exact ⟨_, hreading, lt_of_le_of_ne hbuffer (hshort _ hreading)⟩
  | data data later _ hreading hbuffer _ =>
    exact ⟨_, hreading, lt_of_le_of_ne hbuffer (hshort _ hreading)⟩

/-- With all bytes read and no read to finish there is no message left. -/
theorem Reading.none_left {pushed : List Message} {sent : ByteString} {r : Reader}
    {received rest : List Message} (h : Reading pushed sent r received rest)
    (hsent : sent = frames pushed) (htaken : r.taken = sent.length) (hdone : readDone r = none) :
    rest = [] := by
  have hconsumed : sent.take r.taken = frames received ++ frames rest := by
    rw [htaken, List.take_length, hsent, h.pushed, frames_append]
  obtain ⟨op, hop, hshort⟩ := h.place.unfinished hdone
  cases h.place with
  | head hreading hbuffer htake =>
    obtain rfl := Option.some.inj (hreading.symm.trans hop)
    have hrest : frames rest = r.buffer :=
      List.append_cancel_left (hconsumed.symm.trans htake)
    exact frames_eq_short rest (by rw [hrest]; exact hshort)
  | data data later hrest hreading hbuffer htake =>
    obtain rfl := Option.some.inj (hreading.symm.trans hop)
    have hlater := List.append_cancel_left (hconsumed.symm.trans htake)
    rw [hrest, frames_cons, frame, List.append_assoc] at hlater
    have hbytes := congrArg List.length (List.append_cancel_left hlater)
    simp only [payload, userMessage, Option.getD_some, List.length_append] at hbytes
    simp only [ReadOp.size] at hshort
    omega

theorem Reading.all_delivered {pushed : List Message} {sent : ByteString} {r : Reader}
    {received : List Message} (h : Reading pushed sent r received []) :
    r.delivered = userdata pushed ∧ r.heartbeats = heartbeats pushed := by
  rw [h.pushed, List.append_nil]
  exact ⟨h.delivered, h.dropped⟩

/-- While a message is left, some read brings the reader nearer to the end. -/
theorem read_down (s : State) (received rest : List Message)
    (h : Reading s.writer.pushed s.writer.sent s.reader received rest)
    (hsent : s.writer.sent = frames s.writer.pushed)
    (hsendable : ∀ message ∈ s.writer.pushed, Sendable message) (hmore : rest ≠ []) :
    ∃ e r received' rest', IsRead e ∧ step s e = some { s with reader := r } ∧
      Reading s.writer.pushed s.writer.sent r received' rest' ∧
      ahead s.writer.sent r rest' < ahead s.writer.sent s.reader rest := by
  cases hdone : readDone s.reader with
  | some r =>
    obtain ⟨received', rest', hnext, hless⟩ := reading_readDone s.writer.pushed s.writer.sent
      s.reader r received rest h (by rw [hsent]) hsendable hdone
    exact ⟨.readDone, r, received', rest', trivial, by simp [step, hdone], hnext, hless⟩
  | none =>
    obtain ⟨op, hop, hshort⟩ := h.place.unfinished hdone
    have hunread : s.reader.taken < s.writer.sent.length :=
      lt_of_le_of_ne h.taken fun hall => hmore (h.none_left hsent hall hdone)
    have hstep : ∃ r, receive op.size s.writer.sent s.reader = some r ∧
        r.reading = s.reader.reading ∧ s.reader.taken < r.taken := by
      unfold receive
      rw [hop]
      refine ⟨_, rfl, rfl, ?_⟩
      simp only [List.length_take, List.length_drop]
      omega
    obtain ⟨r, hr, hsame, hmoved⟩ := hstep
    have hnext := reading_receive op.size s.writer.pushed s.writer.sent s.reader r received rest
      h hr
    refine ⟨.receive op.size, r, received, rest, trivial, by simp [step, hr], hnext, ?_⟩
    simp only [ahead, hsame]
    have hbound := hnext.taken
    omega

/-- Finitely many reads take all the messages of the stream. -/
theorem reads_finish (s : State) (received rest : List Message)
    (h : Reading s.writer.pushed s.writer.sent s.reader received rest)
    (hsent : s.writer.sent = frames s.writer.pushed)
    (hsendable : ∀ message ∈ s.writer.pushed, Sendable message) :
    ∃ (reads : List Event) (r : Reader), (∀ e ∈ reads, IsRead e) ∧
      Path step (fun _ _ => True) s reads { s with reader := r } ∧
      r.delivered = userdata s.writer.pushed ∧ r.heartbeats = heartbeats s.writer.pushed := by
  induction hleft : ahead s.writer.sent s.reader rest using Nat.strong_induction_on
    generalizing s received rest with
  | _ n ih =>
    by_cases hmore : rest = []
    · subst hmore
      exact ⟨[], s.reader, by simp, .nil s, h.all_delivered⟩
    · obtain ⟨e, r, received', rest', hread, hstep, hnext, hless⟩ :=
        read_down s received rest h hsent hsendable hmore
      obtain ⟨reads, u, hreads, hpath, hall⟩ := ih _ (hleft ▸ hless) { s with reader := r }
        received' rest' hnext hsent hsendable rfl
      refine ⟨e :: reads, u, ?_, .cons _ _ _ e reads hstep trivial hpath, hall⟩
      exact List.forall_mem_cons.mpr ⟨hread, hreads⟩

theorem Sound.deliversUserdata {s : State} (h : Sound s) : DeliversUserdata s := by
  obtain ⟨finished, count, hframed⟩ := h.framed
  obtain ⟨received, rest, hreading⟩ := h.reading
  refine ⟨?_, ?_, ?_, ?_⟩
  · intro hclosed
    cases hreading.place with
    | head hhead => simp [hclosed] at hhead
    | data data later hrest hdata => simp [hclosed] at hdata
  · rw [hreading.delivered, hreading.pushed, userdata_append]
    exact List.prefix_append _ _
  · intro hidle htaken hdone
    have hnil := hreading.none_left (hframed.writesFrames.whole hidle).2 htaken hdone
    subst hnil
    exact hreading.all_delivered.1
  · intro hidle
    exact reads_finish s received rest hreading (hframed.writesFrames.whole hidle).2
      fun message hmem => h.sendable message (List.mem_append_left _ hmem)

/-- Every message asked for is queued once or still posted; what is written is the
frames of the queued messages in order; and the peer delivers their user data. -/
theorem connection_run (es : List Event) (s : State)
    (hrun : Path step (fun _ _ => True) State.start es s) :
    (s.writer.pushed ++ s.writer.posted.map userMessage).Perm (es.flatMap requests) ∧
      WritesFrames s.writer ∧
      ((∀ data, Event.write (some data) ∈ es → data.length < 2 ^ 32) → DeliversUserdata s) := by
  refine ⟨run_ledger State.start s es hrun, ?_, ?_⟩
  · obtain ⟨finished, count, hframed⟩ := run_framed s es hrun
    exact hframed.writesFrames
  · intro hlength
    exact (run_sound s es hrun hlength).deliversUserdata

/-- A heartbeat is queued while the header of a message is on its way. At the end all is
written, and the heartbeat is still to be read. -/
def overlappingWrites : List Event :=
  [.write (some [7]), .asyncWrite 0, .transfer 0 10, .heartbeatSend, .receive 8, .transfer 0 10,
    .written 0, .receive 16, .readDone, .receive 1, .readDone, .transfer 0 16, .written 0]

theorem connection_run_overlapping :
    ∃ s, Path step (fun _ _ => True) State.start overlappingWrites s ∧
      s.reader.delivered = [[7]] ∧ s.writer.writes = [] ∧ WritesFrames s.writer ∧
      DeliversUserdata s := by
  have hsteps : ∃ s, overlappingWrites.foldlM step State.start = some s ∧
      s.reader.delivered = [[7]] ∧ s.writer.writes = [] := ⟨_, rfl, rfl, rfl⟩
  obtain ⟨s, hfold, hdelivered, hidle⟩ := hsteps
  have hrun : Path step (fun _ _ => True) State.start overlappingWrites s :=
    path_of_steps State.start s overlappingWrites (fun _ _ _ => trivial) hfold
  obtain ⟨-, hwrites, hreads⟩ := connection_run overlappingWrites s hrun
  refine ⟨s, hrun, hdelivered, hidle, hwrites, hreads ?_⟩
  intro data hdata
  simp [overlappingWrites] at hdata
  simp [hdata]

end Runs
end Gingko.SocketRuns
