import Gingko.AsyncOperations
import Gingko.SocketFrames

/-!
The life of one connection, with errors, timers and the owner's callbacks. All handlers
run in one thread, each whole, in any order in which they are queued. A handler keeps a
reference to its connection; with the last reference the connection is released, and the
close callback is called. `Close` cancels what still waits, but not a handler that is
queued with its result already, and a timer can be armed again afterwards.
-/
namespace Gingko.ConnectionLives

open Base64Codec GuardedRuns SocketFrames AsyncOperations

/-- `posted` are the calls of `AsyncWrite` that have not been run, `held` the references of
the owner. The last three record the callbacks. -/
structure Connection where
  socketOpen : Bool
  reads : List (ReadOp × Progress ByteString)
  writes : List (Progress Unit)
  writeMessageQueue : List Message
  posted : List ByteString
  heartbeatRecvTimer : Timer
  heartbeadSendTimer : Timer
  held : ℕ
  readBack : List ByteString
  writtenBack : List ByteString
  closedBack : ℕ
  deriving DecidableEq

def Connection.create (socketOpen : Bool) (posted : List ByteString) (held : ℕ) : Connection :=
  ⟨socketOpen, [], [], [], posted, .idle, .idle, held, [], [], 0⟩

def close (c : Connection) : Connection :=
  { c with
    heartbeatRecvTimer := c.heartbeatRecvTimer.cancel
    heartbeadSendTimer := c.heartbeadSendTimer.cancel
    socketOpen := false
    reads := c.reads.map fun r => (r.1, r.2.abort)
    writes := c.writes.map Progress.abort }

def write (data : Option ByteString) (c : Connection) : Connection :=
  match data with
  | some data => { c with posted := c.posted ++ [data] }
  | none => c

/-- What the owner may do with a connection, in a callback too. -/
inductive Call where
  | write (data : Option ByteString)
  | close
  | hold
  deriving DecidableEq

def call (c : Connection) : Call → Connection
  | .write data => write data c
  | .close => close c
  | .hold => { c with held := c.held + 1 }

def callback (calls : List Call) (c : Connection) : Connection := calls.foldl call c

/-- A closed socket refuses at once, but a read of no bytes succeeds on it. -/
def asyncRead (op : ReadOp) (c : Connection) : Connection :=
  let progress : Progress ByteString :=
    if op.size = 0 then .finished [] else if c.socketOpen then .waiting else .failed
  { c with reads := c.reads ++ [(op, progress)] }

def writeMessage (c : Connection) : Connection :=
  { c with writes := c.writes ++ [if c.socketOpen then .waiting else .failed] }

def asyncWrite (message : Message) (c : Connection) : Connection :=
  let isWritting := !c.writeMessageQueue.isEmpty
  let c := { c with writeMessageQueue := c.writeMessageQueue ++ [message] }
  if !isWritting then writeMessage c else c

def updateHeartbeatRecvTimer (heartbeatRecvCycle : ℤ) (c : Connection) : Connection :=
  if heartbeatRecvCycle > 0 then
    { c with heartbeatRecvTimer := c.heartbeatRecvTimer.cancel.expiresFromNow.asyncWait }
  else c

def updateHeartbeatSendTimer (heartbeatSendCycle : ℤ) (c : Connection) : Connection :=
  if heartbeatSendCycle > 0 then
    { c with heartbeadSendTimer := c.heartbeadSendTimer.expiresFromNow.asyncWait }
  else c

def acknowledge (message : Message) (calls : List Call) (c : Connection) : Connection :=
  match message.2 with
  | some data => callback calls { c with writtenBack := c.writtenBack ++ [data] }
  | none => c

def writeNext (c : Connection) : Connection :=
  let c := { c with writeMessageQueue := c.writeMessageQueue.tail }
  if !c.writeMessageQueue.isEmpty then writeMessage c else c

def handleWriteMessage (result : Option Unit) (calls : List Call) (c : Connection) :
    Option Connection :=
  match result with
  | none => some (close c)
  | some _ =>
    match c.writeMessageQueue with
    | [] => none
    | front :: _ => some (writeNext (acknowledge front calls c))

def handleReadData (size : ℕ) (result : Option ByteString) (calls : List Call) (c : Connection) :
    Connection :=
  match result with
  | none => close c
  | some data =>
    if size ≠ data.length then close c
    else asyncRead .head (callback calls { c with readBack := c.readBack ++ [data] })

def handleReadHead (heartbeatRecvCycle : ℤ) (result : Option ByteString) (c : Connection) :
    Connection :=
  match result with
  | none => close c
  | some bytes =>
    let readHeader := Header.ofBytes bytes
    if !readHeader.isValid then close c
    else if readHeader.type = MessageTypeEnum.heartbeat.code then
      asyncRead .head (updateHeartbeatRecvTimer heartbeatRecvCycle c)
    else if readHeader.type = MessageTypeEnum.userdata.code then
      asyncRead (.data readHeader.length.toNat) c
    else close c

def handleHeartbeatRecv (expired : Bool) (c : Connection) : Connection :=
  if !expired then c else close c

def handleHeartbeatSend (heartbeatSendCycle : ℤ) (expired : Bool) (c : Connection) :
    Connection :=
  if !expired then c
  else updateHeartbeatSendTimer heartbeatSendCycle (asyncWrite heartbeatMessage c)

def start (heartbeatRecvCycle heartbeatSendCycle : ℤ) (c : Connection) : Connection :=
  updateHeartbeatSendTimer heartbeatSendCycle
    (updateHeartbeatRecvTimer heartbeatRecvCycle (asyncRead .head c))

def references (c : Connection) : ℕ :=
  c.held + c.reads.length + c.writes.length + c.posted.length + c.heartbeatRecvTimer.waits +
    c.heartbeadSendTimer.waits

/-- The destructor, when the last reference is gone. -/
def letGo (c : Connection) : Connection :=
  if references c = 0 then { close c with closedBack := c.closedBack + 1 } else c

/-- What the owner does, what happens to an operation, and the handlers. The callback of a
handler, if it has one, makes the calls that come with it. -/
inductive Event where
  | call (call : Call)
  | drop
  | readDone (index : ℕ) (result : Option ByteString)
  | writeDone (index : ℕ) (result : Option Unit)
  | recvExpires
  | sendExpires
  | handleRead (index : ℕ) (calls : List Call)
  | handleWriteMessage (index : ℕ) (calls : List Call)
  | asyncWrite (index : ℕ)
  | handleHeartbeatRecv (expired : Bool)
  | handleHeartbeatSend (expired : Bool)
  deriving DecidableEq

/-- A read succeeds only with all the bytes it was asked for. -/
def fills (op : ReadOp) : Option ByteString → Bool
  | none => true
  | some bytes => bytes.length == op.size

def act (heartbeatRecvCycle heartbeatSendCycle : ℤ) (c : Connection) :
    Event → Option Connection
  | .call owners => if c.held = 0 then none else some (call c owners)
  | .drop => if c.held = 0 then none else some { c with held := c.held - 1 }
  | .readDone index result =>
    match c.reads[index]? with
    | some (op, .waiting) =>
      if fills op result then
        some { c with reads := c.reads.set index (op, .ofResult result) }
      else none
    | _ => none
  | .writeDone index result =>
    match c.writes[index]? with
    | some .waiting => some { c with writes := c.writes.set index (.ofResult result) }
    | _ => none
  | .recvExpires => c.heartbeatRecvTimer.expire.map fun t => { c with heartbeatRecvTimer := t }
  | .sendExpires => c.heartbeadSendTimer.expire.map fun t => { c with heartbeadSendTimer := t }
  | .handleRead index calls =>
    match c.reads[index]? with
    | some (op, progress) =>
      progress.result.map fun result =>
        let c := { c with reads := c.reads.eraseIdx index }
        match op with
        | .head => handleReadHead heartbeatRecvCycle result c
        | .data size => handleReadData size result calls c
    | none => none
  | .handleWriteMessage index calls =>
    match c.writes[index]? with
    | some progress =>
      progress.result.bind fun result =>
        handleWriteMessage result calls { c with writes := c.writes.eraseIdx index }
    | none => none
  | .asyncWrite index =>
    match c.posted[index]? with
    | some data =>
      some (asyncWrite (userMessage data) { c with posted := c.posted.eraseIdx index })
    | none => none
  | .handleHeartbeatRecv expired =>
    (c.heartbeatRecvTimer.take expired).map fun t =>
      handleHeartbeatRecv expired { c with heartbeatRecvTimer := t }
  | .handleHeartbeatSend expired =>
    (c.heartbeadSendTimer.take expired).map fun t =>
      handleHeartbeatSend heartbeatSendCycle expired { c with heartbeadSendTimer := t }

def step (heartbeatRecvCycle heartbeatSendCycle : ℤ) (c : Connection) (e : Event) :
    Option Connection :=
  (act heartbeatRecvCycle heartbeatSendCycle c e).map letGo

/-- What an event does, branch by branch of its handler. -/
inductive Does (heartbeatRecvCycle heartbeatSendCycle : ℤ) (c : Connection) :
    Event → Connection → Prop
  | call (owners : Call) (hheld : 0 < c.held) :
    Does heartbeatRecvCycle heartbeatSendCycle c (.call owners) (call c owners)
  | drop (hheld : 0 < c.held) :
    Does heartbeatRecvCycle heartbeatSendCycle c .drop { c with held := c.held - 1 }
  | readDone (index : ℕ) (op : ReadOp) (result : Option ByteString)
      (hread : c.reads[index]? = some (op, .waiting)) :
    Does heartbeatRecvCycle heartbeatSendCycle c (.readDone index result)
      { c with reads := c.reads.set index (op, .ofResult result) }
  | writeDone (index : ℕ) (result : Option Unit) (hwrite : c.writes[index]? = some .waiting) :
    Does heartbeatRecvCycle heartbeatSendCycle c (.writeDone index result)
      { c with writes := c.writes.set index (.ofResult result) }
  | recvExpires (t : Timer) (ht : c.heartbeatRecvTimer.expire = some t) :
    Does heartbeatRecvCycle heartbeatSendCycle c .recvExpires { c with heartbeatRecvTimer := t }
  | sendExpires (t : Timer) (ht : c.heartbeadSendTimer.expire = some t) :
    Does heartbeatRecvCycle heartbeatSendCycle c .sendExpires { c with heartbeadSendTimer := t }
  | readCloses (index : ℕ) (calls : List Call) (op : ReadOp) (progress : Progress ByteString)
      (hread : c.reads[index]? = some (op, progress)) (hdone : progress ≠ .waiting) :
    Does heartbeatRecvCycle heartbeatSendCycle c (.handleRead index calls)
      (close { c with reads := c.reads.eraseIdx index })
  | headRead (index : ℕ) (calls : List Call) (bytes : ByteString)
      (hread : c.reads[index]? = some (.head, .finished bytes)) :
    Does heartbeatRecvCycle heartbeatSendCycle c (.handleRead index calls)
      (asyncRead .head (updateHeartbeatRecvTimer heartbeatRecvCycle
        { c with reads := c.reads.eraseIdx index }))
  | userdata (index : ℕ) (calls : List Call) (bytes : ByteString) (size : ℕ)
      (hread : c.reads[index]? = some (.head, .finished bytes)) :
    Does heartbeatRecvCycle heartbeatSendCycle c (.handleRead index calls)
      (asyncRead (.data size) { c with reads := c.reads.eraseIdx index })
  | dataRead (index : ℕ) (calls : List Call) (size : ℕ) (data : ByteString)
      (hread : c.reads[index]? = some (.data size, .finished data)) :
    Does heartbeatRecvCycle heartbeatSendCycle c (.handleRead index calls)
      (asyncRead .head (callback calls
        { c with reads := c.reads.eraseIdx index, readBack := c.readBack ++ [data] }))
  | writeCloses (index : ℕ) (calls : List Call) (hwrite : c.writes[index]? = some .failed) :
    Does heartbeatRecvCycle heartbeatSendCycle c (.handleWriteMessage index calls)
      (close { c with writes := c.writes.eraseIdx index })
  | written (index : ℕ) (calls : List Call) (front : Message) (rest : List Message)
      (hwrite : c.writes[index]? = some (.finished ()))
      (hqueue : c.writeMessageQueue = front :: rest) :
    Does heartbeatRecvCycle heartbeatSendCycle c (.handleWriteMessage index calls)
      (writeNext (acknowledge front calls { c with writes := c.writes.eraseIdx index }))
  | asyncWrite (index : ℕ) (data : ByteString) (hposted : c.posted[index]? = some data) :
    Does heartbeatRecvCycle heartbeatSendCycle c (.asyncWrite index)
      (asyncWrite (userMessage data) { c with posted := c.posted.eraseIdx index })
  | recvCanceled (t : Timer) (ht : c.heartbeatRecvTimer.take false = some t) :
    Does heartbeatRecvCycle heartbeatSendCycle c (.handleHeartbeatRecv false)
      { c with heartbeatRecvTimer := t }
  | recvExpired (t : Timer) (ht : c.heartbeatRecvTimer.take true = some t) :
    Does heartbeatRecvCycle heartbeatSendCycle c (.handleHeartbeatRecv true)
      (close { c with heartbeatRecvTimer := t })
  | sendCanceled (t : Timer) (ht : c.heartbeadSendTimer.take false = some t) :
    Does heartbeatRecvCycle heartbeatSendCycle c (.handleHeartbeatSend false)
      { c with heartbeadSendTimer := t }
  | sendExpired (t : Timer) (ht : c.heartbeadSendTimer.take true = some t) :
    Does heartbeatRecvCycle heartbeatSendCycle c (.handleHeartbeatSend true)
      (updateHeartbeatSendTimer heartbeatSendCycle
        (asyncWrite heartbeatMessage { c with heartbeadSendTimer := t }))

variable {recvCycle sendCycle : ℤ} {c d : Connection}

theorem handleRead_does (index : ℕ) (calls : List Call)
    (hact : act recvCycle sendCycle c (.handleRead index calls) = some d) :
    Does recvCycle sendCycle c (.handleRead index calls) d := by
  simp only [act] at hact
  cases hread : c.reads[index]? with
  | none => simp [hread] at hact
  | some read =>
    obtain ⟨op, progress⟩ := read
    rw [hread] at hact
    cases progress with
    | waiting => cases hact
    | failed =>
      cases op <;> obtain rfl := Option.some.inj hact <;>
        exact .readCloses index calls _ .failed hread (by simp)
    | finished bytes =>
      cases op with
      | head =>
        obtain rfl := Option.some.inj hact
        simp only [handleReadHead]
        split
        · exact .readCloses index calls _ _ hread (by simp)
        split
        · exact .headRead index calls bytes hread
        split
        · exact .userdata index calls bytes _ hread
        · exact .readCloses index calls _ _ hread (by simp)
      | data size =>
        obtain rfl := Option.some.inj hact
        simp only [handleReadData]
        split
        · exact .readCloses index calls _ _ hread (by simp)
        · exact .dataRead index calls size bytes hread

theorem handleWriteMessage_front (front : Message) (rest : List Message) (u : Unit)
    (calls : List Call) (hqueue : c.writeMessageQueue = front :: rest) :
    handleWriteMessage (some u) calls c = some (writeNext (acknowledge front calls c)) := by
  simp only [handleWriteMessage]
  split
  · next hnil =>
    rw [hnil] at hqueue
    cases hqueue
  · next first others hcons =>
    rw [hcons] at hqueue
    obtain ⟨rfl, -⟩ := List.cons.inj hqueue
    rfl

theorem handleWriteMessage_does (index : ℕ) (calls : List Call)
    (hact : act recvCycle sendCycle c (.handleWriteMessage index calls) = some d) :
    Does recvCycle sendCycle c (.handleWriteMessage index calls) d := by
  simp only [act] at hact
  cases hwrite : c.writes[index]? with
  | none => simp [hwrite] at hact
  | some progress =>
    rw [hwrite] at hact
    cases progress with
    | waiting => cases hact
    | failed =>
      obtain rfl := Option.some.inj hact
      exact .writeCloses index calls hwrite
    | finished u =>
      cases hqueue : c.writeMessageQueue with
      | nil => simp [Progress.result, handleWriteMessage, hqueue] at hact
      | cons front rest =>
        simp only [Progress.result, Option.bind_some] at hact
        have hfront := handleWriteMessage_front (c := { c with writes := c.writes.eraseIdx index })
          front rest u calls hqueue
        rw [hfront] at hact
        obtain rfl := Option.some.inj hact
        exact .written index calls front rest hwrite hqueue

theorem act_does (e : Event) (hact : act recvCycle sendCycle c e = some d) :
    Does recvCycle sendCycle c e d := by
  cases e with
  | call owners =>
    simp only [act, Option.ite_none_left_eq_some] at hact
    obtain ⟨hheld, hact⟩ := hact
    obtain rfl := Option.some.inj hact
    exact .call owners (by omega)
  | drop =>
    simp only [act, Option.ite_none_left_eq_some] at hact
    obtain ⟨hheld, hact⟩ := hact
    obtain rfl := Option.some.inj hact
    exact .drop (by omega)
  | readDone index result =>
    simp only [act] at hact
    split at hact
    · next op hread =>
      obtain ⟨-, hact⟩ := Option.ite_none_right_eq_some.mp hact
      obtain rfl := Option.some.inj hact
      exact .readDone index op result hread
    · cases hact
  | writeDone index result =>
    simp only [act] at hact
    split at hact
    · next hwrite =>
      obtain rfl := Option.some.inj hact
      exact .writeDone index result hwrite
    · cases hact
  | recvExpires =>
    obtain ⟨t, ht, rfl⟩ := Option.map_eq_some_iff.mp hact
    exact .recvExpires t ht
  | sendExpires =>
    obtain ⟨t, ht, rfl⟩ := Option.map_eq_some_iff.mp hact
    exact .sendExpires t ht
  | handleRead index calls => exact handleRead_does index calls hact
  | handleWriteMessage index calls => exact handleWriteMessage_does index calls hact
  | asyncWrite index =>
    simp only [act] at hact
    split at hact
    · next data hposted =>
      obtain rfl := Option.some.inj hact
      exact .asyncWrite index data hposted
    · cases hact
  | handleHeartbeatRecv expired =>
    obtain ⟨t, ht, rfl⟩ := Option.map_eq_some_iff.mp hact
    cases expired with
    | false => exact .recvCanceled t ht
    | true => exact .recvExpired t ht
  | handleHeartbeatSend expired =>
    obtain ⟨t, ht, rfl⟩ := Option.map_eq_some_iff.mp hact
    cases expired with
    | false => exact .sendCanceled t ht
    | true => exact .sendExpired t ht

theorem callback_keeps (P : Connection → Prop) (hwrite : ∀ c data, P c → P (write data c))
    (hclose : ∀ c, P c → P (close c)) (hhold : ∀ c n, P c → P { c with held := n })
    (calls : List Call) (h : P c) : P (callback calls c) := by
  induction calls generalizing c with
  | nil => exact h
  | cons owners rest ih =>
    apply ih
    cases owners with
    | write data => exact hwrite c data h
    | close => exact hclose c h
    | hold => exact hhold c (c.held + 1) h

/-! What the parts of the handlers leave alone. -/

theorem updateHeartbeatRecvTimer_timer (recvCycle : ℤ) (c : Connection) :
    ∃ t, updateHeartbeatRecvTimer recvCycle c = { c with heartbeatRecvTimer := t } := by
  unfold updateHeartbeatRecvTimer
  split
  · exact ⟨_, rfl⟩
  · exact ⟨c.heartbeatRecvTimer, rfl⟩

theorem updateHeartbeatSendTimer_timer (sendCycle : ℤ) (c : Connection) :
    ∃ t, updateHeartbeatSendTimer sendCycle c = { c with heartbeadSendTimer := t } := by
  unfold updateHeartbeatSendTimer
  split
  · exact ⟨_, rfl⟩
  · exact ⟨c.heartbeadSendTimer, rfl⟩

theorem asyncWrite_writer (message : Message) (c : Connection) :
    ∃ writes, asyncWrite message c = { c with
      writeMessageQueue := c.writeMessageQueue ++ [message]
      writes } := by
  simp only [asyncWrite, writeMessage]
  split
  · exact ⟨_, rfl⟩
  · exact ⟨c.writes, rfl⟩

theorem writeNext_writer (c : Connection) :
    ∃ writes, writeNext c = { c with writeMessageQueue := c.writeMessageQueue.tail, writes } := by
  simp only [writeNext, writeMessage]
  split
  · exact ⟨_, rfl⟩
  · exact ⟨c.writes, rfl⟩

theorem acknowledge_keeps (P : Connection → Prop) (hback : ∀ c data, P c → P { c with
      writtenBack := c.writtenBack ++ [data] })
    (hcallback : ∀ c calls, P c → P (callback calls c)) (message : Message) (calls : List Call)
    (h : P c) : P (acknowledge message calls c) := by
  unfold acknowledge
  split
  · exact hcallback _ calls (hback c _ h)
  · exact h

/-- `running` is one while the handler of a read runs. -/
structure Reading (running : ℕ) (socketOpen : Bool)
    (reads : List (ReadOp × Progress ByteString)) : Prop where
  one : socketOpen = true → reads.length + running = 1
  atMost : reads.length + running ≤ 1
  settled : socketOpen = false → ∀ r ∈ reads, r.2 ≠ .waiting

/-- `running` is one while the handler of a write runs, whose message is still in front. -/
structure Writing (running : ℕ) (socketOpen : Bool) (queue : List Message)
    (writes : List (Progress Unit)) : Prop where
  one : socketOpen = true → queue ≠ [] → writes.length + running = 1
  atMost : writes.length + running ≤ 1
  queued : 0 < writes.length + running → queue ≠ []
  settled : socketOpen = false → ∀ w ∈ writes, w ≠ .waiting

structure Timing (recvCycle sendCycle : ℤ) (socketOpen : Bool) (recv send : Timer) : Prop where
  recvAtMost : recv.running ≤ 1
  recvLive : socketOpen = true → 0 < recvCycle → 0 < recv.live
  sendOne : socketOpen = true → 0 < sendCycle → send.live = 1
  sendAtMost : send.live ≤ 1
  sendNone : sendCycle ≤ 0 → send.live = 0

def ReadingAt (running : ℕ) (c : Connection) : Prop := Reading running c.socketOpen c.reads

def WritingAt (running : ℕ) (c : Connection) : Prop :=
  Writing running c.socketOpen c.writeMessageQueue c.writes

def TimingAt (recvCycle sendCycle : ℤ) (c : Connection) : Prop :=
  Timing recvCycle sendCycle c.socketOpen c.heartbeatRecvTimer c.heartbeadSendTimer

section ReadSide

variable {running : ℕ}

theorem ReadingAt.close (h : ReadingAt running c) : ReadingAt running (close c) where
  one hopen := by cases hopen
  atMost := by simpa [ConnectionLives.close] using h.atMost
  settled _ r hr := by
    obtain ⟨q, -, rfl⟩ := List.mem_map.mp hr
    exact q.2.abort_ne_waiting

theorem ReadingAt.callback (h : ReadingAt running c) (calls : List Call) :
    ReadingAt running (callback calls c) := by
  apply callback_keeps (ReadingAt running) _ (fun c h => h.close) (fun c n h => h) calls h
  intro c data hc
  cases data <;> exact hc

/-- What a handler takes out of the list is running, and is replaced or not. -/
theorem ReadingAt.erase (h : ReadingAt 0 c) (index : ℕ) (r : ReadOp × Progress ByteString)
    (hread : c.reads[index]? = some r) :
    ReadingAt 1 { c with reads := c.reads.eraseIdx index } := by
  have hindex : index < c.reads.length := (List.getElem?_eq_some_iff.mp hread).1
  have hlength : (c.reads.eraseIdx index).length + 1 = c.reads.length := by
    rw [List.length_eraseIdx_of_lt hindex]
    omega
  have hmost := h.atMost
  constructor
  · intro hopen
    have := h.one hopen
    simp only
    omega
  · simp only
    omega
  · intro hclosed q hq
    exact h.settled hclosed q (List.mem_of_mem_eraseIdx hq)

theorem ReadingAt.asyncRead (op : ReadOp) (h : ReadingAt 1 c) :
    ReadingAt 0 (asyncRead op c) where
  one hopen := by simpa [ConnectionLives.asyncRead] using h.one hopen
  atMost := by simpa [ConnectionLives.asyncRead] using h.atMost
  settled hclosed r hr := by
    have hfalse : c.socketOpen = false := hclosed
    obtain hold | hnew := List.mem_append.mp hr
    · exact h.settled hclosed r hold
    · rw [List.mem_singleton.mp hnew, hfalse]
      by_cases hsize : op.size = 0 <;> simp [hsize]

theorem ReadingAt.finish (h : ReadingAt 1 (ConnectionLives.close c)) :
    ReadingAt 0 (ConnectionLives.close c) where
  one hopen := by cases hopen
  atMost := by
    have := h.atMost
    omega
  settled := h.settled

theorem ReadingAt.set (h : ReadingAt 0 c) (index : ℕ) (op : ReadOp) (result : Option ByteString)
    (hread : c.reads[index]? = some (op, .waiting)) :
    ReadingAt 0 { c with reads := c.reads.set index (op, .ofResult result) } where
  one hopen := by simpa using h.one hopen
  atMost := by simpa using h.atMost
  settled hclosed r hr :=
    absurd rfl (h.settled hclosed _ (List.mem_of_getElem? hread))

theorem ReadingAt.act (h : ReadingAt 0 c) (e : Event) (hdoes : Does recvCycle sendCycle c e d) :
    ReadingAt 0 d := by
  cases hdoes with
  | call owners hheld => exact h.callback [owners]
  | drop hheld => exact h
  | readDone index op result hread => exact h.set index op result hread
  | writeDone index result hwrite => exact h
  | recvExpires t ht => exact h
  | sendExpires t ht => exact h
  | readCloses index calls op progress hread hdone => exact (h.erase index _ hread).close.finish
  | headRead index calls bytes hread =>
    obtain ⟨t, ht⟩ := updateHeartbeatRecvTimer_timer recvCycle
      { c with reads := c.reads.eraseIdx index }
    rw [ht]
    exact ReadingAt.asyncRead .head (h.erase index _ hread)
  | userdata index calls bytes size hread =>
    exact (h.erase index _ hread).asyncRead (.data size)
  | dataRead index calls size data hread =>
    have hback : ReadingAt 1
        { c with reads := c.reads.eraseIdx index, readBack := c.readBack ++ [data] } :=
      h.erase index _ hread
    exact (hback.callback calls).asyncRead .head
  | writeCloses index calls hwrite => exact ReadingAt.close h
  | written index calls front rest hwrite hqueue =>
    obtain ⟨writes, hwrites⟩ := writeNext_writer
      (acknowledge front calls { c with writes := c.writes.eraseIdx index })
    rw [hwrites]
    exact acknowledge_keeps (ReadingAt 0) (fun c data h => h) (fun c calls h => h.callback calls)
      front calls h
  | asyncWrite index data hposted =>
    obtain ⟨writes, hwrites⟩ := asyncWrite_writer (userMessage data)
      { c with posted := c.posted.eraseIdx index }
    rw [hwrites]
    exact h
  | recvCanceled t ht => exact h
  | recvExpired t ht => exact ReadingAt.close h
  | sendCanceled t ht => exact h
  | sendExpired t ht =>
    obtain ⟨writes, hwrites⟩ := asyncWrite_writer heartbeatMessage
      { c with heartbeadSendTimer := t }
    rw [hwrites]
    obtain ⟨u, hu⟩ := updateHeartbeatSendTimer_timer sendCycle { c with
      heartbeadSendTimer := t
      writeMessageQueue := c.writeMessageQueue ++ [heartbeatMessage]
      writes := writes }
    rw [hu]
    exact h

end ReadSide

section WriteSide

variable {running : ℕ}

theorem WritingAt.close (h : WritingAt running c) : WritingAt running (close c) where
  one hopen := by cases hopen
  atMost := by simpa [ConnectionLives.close] using h.atMost
  queued := by simpa [ConnectionLives.close] using h.queued
  settled _ w hw := by
    obtain ⟨v, -, rfl⟩ := List.mem_map.mp hw
    exact v.abort_ne_waiting

theorem WritingAt.callback (h : WritingAt running c) (calls : List Call) :
    WritingAt running (callback calls c) := by
  apply callback_keeps (WritingAt running) _ (fun c h => h.close) (fun c n h => h) calls h
  intro c data hc
  cases data <;> exact hc

theorem WritingAt.erase (h : WritingAt 0 c) (index : ℕ) (w : Progress Unit)
    (hwrite : c.writes[index]? = some w) :
    WritingAt 1 { c with writes := c.writes.eraseIdx index } := by
  have hindex : index < c.writes.length := (List.getElem?_eq_some_iff.mp hwrite).1
  have hlength : (c.writes.eraseIdx index).length + 1 = c.writes.length := by
    rw [List.length_eraseIdx_of_lt hindex]
    omega
  have hmost := h.atMost
  constructor
  · intro hopen hqueue
    have := h.one hopen hqueue
    simp only
    omega
  · simp only
    omega
  · intro _
    exact h.queued (by omega)
  · intro hclosed v hv
    exact h.settled hclosed v (List.mem_of_mem_eraseIdx hv)

theorem WritingAt.set (h : WritingAt 0 c) (index : ℕ) (result : Option Unit)
    (hwrite : c.writes[index]? = some .waiting) :
    WritingAt 0 { c with writes := c.writes.set index (.ofResult result) } where
  one hopen hqueue := by simpa using h.one hopen hqueue
  atMost := by simpa using h.atMost
  queued hlength := h.queued (by simpa using hlength)
  settled hclosed w hw := absurd rfl (h.settled hclosed _ (List.mem_of_getElem? hwrite))

theorem WritingAt.finish (h : WritingAt 1 (ConnectionLives.close c)) :
    WritingAt 0 (ConnectionLives.close c) where
  one hopen := by cases hopen
  atMost := by
    have := h.atMost
    omega
  queued _ := h.queued (by omega)
  settled := h.settled

theorem settled_append (hsettled : c.socketOpen = false → ∀ w ∈ c.writes, w ≠ .waiting)
    (hclosed : c.socketOpen = false) (w : Progress Unit)
    (hw : w ∈ c.writes ++ [if c.socketOpen then .waiting else .failed]) : w ≠ .waiting := by
  obtain hold | hnew := List.mem_append.mp hw
  · exact hsettled hclosed w hold
  · rw [List.mem_singleton.mp hnew, hclosed]
    simp

/-- A message that finds the queue empty is written at once. -/
theorem WritingAt.asyncWrite (h : WritingAt 0 c) (message : Message) :
    WritingAt 0 (asyncWrite message c) := by
  unfold ConnectionLives.asyncWrite writeMessage
  cases hqueue : c.writeMessageQueue with
  | nil =>
    have hidle : c.writes = [] := by
      by_contra hbusy
      exact h.queued (List.length_pos_iff.mpr hbusy) hqueue
    constructor
    · intro _ _
      simp [hidle]
    · simp [hidle]
    · intro _
      simp
    · intro hclosed w hw
      exact settled_append h.settled hclosed w hw
  | cons front rest =>
    have hne : c.writeMessageQueue ≠ [] := by simp [hqueue]
    exact ⟨fun hopen _ => h.one hopen hne, h.atMost, fun _ => by simp, h.settled⟩

/-- The message in front is done with, and the next one, if there is one, is written. -/
theorem WritingAt.writeNext (h : WritingAt 1 c) : WritingAt 0 (writeNext c) := by
  have hidle : c.writes = [] := List.length_eq_zero_iff.mp (by
    have := h.atMost
    omega)
  unfold ConnectionLives.writeNext writeMessage
  cases hqueue : c.writeMessageQueue.tail with
  | nil =>
    constructor
    · intro _ hne
      exact absurd rfl hne
    · simp [hidle]
    · intro hbusy
      simp [hidle] at hbusy
    · exact h.settled
  | cons front rest =>
    constructor
    · intro _ _
      simp [hidle]
    · simp [hidle]
    · intro _
      simp
    · intro hclosed w hw
      exact settled_append h.settled hclosed w hw

theorem WritingAt.act (h : WritingAt 0 c) (e : Event) (hdoes : Does recvCycle sendCycle c e d) :
    WritingAt 0 d := by
  cases hdoes with
  | call owners hheld => exact h.callback [owners]
  | drop hheld => exact h
  | readDone index op result hread => exact h
  | writeDone index result hwrite => exact h.set index result hwrite
  | recvExpires t ht => exact h
  | sendExpires t ht => exact h
  | readCloses index calls op progress hread hdone => exact WritingAt.close h
  | headRead index calls bytes hread =>
    obtain ⟨t, ht⟩ := updateHeartbeatRecvTimer_timer recvCycle
      { c with reads := c.reads.eraseIdx index }
    rw [ht]
    exact h
  | userdata index calls bytes size hread => exact h
  | dataRead index calls size data hread =>
    have hback : WritingAt 0
        { c with reads := c.reads.eraseIdx index, readBack := c.readBack ++ [data] } := h
    exact hback.callback calls
  | writeCloses index calls hwrite => exact (h.erase index _ hwrite).close.finish
  | written index calls front rest hwrite hqueue =>
    have hback : WritingAt 1
        (acknowledge front calls { c with writes := c.writes.eraseIdx index }) :=
      acknowledge_keeps (WritingAt 1) (fun c data h => h) (fun c calls h => h.callback calls)
        front calls (h.erase index _ hwrite)
    exact hback.writeNext
  | asyncWrite index data hposted =>
    have hposting : WritingAt 0 { c with posted := c.posted.eraseIdx index } := h
    exact hposting.asyncWrite (userMessage data)
  | recvCanceled t ht => exact h
  | recvExpired t ht => exact WritingAt.close h
  | sendCanceled t ht => exact h
  | sendExpired t ht =>
    have htaken : WritingAt 0 { c with heartbeadSendTimer := t } := h
    obtain ⟨u, hu⟩ := updateHeartbeatSendTimer_timer sendCycle
      (ConnectionLives.asyncWrite heartbeatMessage { c with heartbeadSendTimer := t })
    rw [hu]
    exact htaken.asyncWrite heartbeatMessage

end WriteSide

section TimerSide

theorem TimingAt.close (h : TimingAt recvCycle sendCycle c) :
    TimingAt recvCycle sendCycle (close c) where
  recvAtMost := Nat.zero_le 1
  recvLive hopen := by cases hopen
  sendOne hopen := by cases hopen
  sendAtMost := by
    have hmost := h.sendAtMost
    simp only [ConnectionLives.close, Timer.live_cancel]
    unfold Timer.live at hmost
    omega
  sendNone hcycle := by
    have hnone := h.sendNone hcycle
    simp only [ConnectionLives.close, Timer.live_cancel]
    unfold Timer.live at hnone
    omega

theorem TimingAt.callback (h : TimingAt recvCycle sendCycle c) (calls : List Call) :
    TimingAt recvCycle sendCycle (callback calls c) := by
  apply callback_keeps (TimingAt recvCycle sendCycle) _ (fun c h => h.close) (fun c n h => h)
    calls h
  intro c data hc
  cases data <;> exact hc

theorem TimingAt.updateRecv (h : TimingAt recvCycle sendCycle c) :
    TimingAt recvCycle sendCycle (updateHeartbeatRecvTimer recvCycle c) := by
  unfold updateHeartbeatRecvTimer
  split
  · constructor
    · exact Nat.le_refl 1
    · intro _ _
      simp only [Timer.live, Timer.asyncWait]
      omega
    · exact h.sendOne
    · exact h.sendAtMost
    · exact h.sendNone
  · exact h

/-- The wait of the send timer that has just been handled is replaced by a new one. -/
theorem TimingAt.updateSend (t : Timer) (h : TimingAt recvCycle sendCycle c)
    (ht : c.heartbeadSendTimer.take true = some t) (queue : List Message)
    (writes : List (Progress Unit)) :
    TimingAt recvCycle sendCycle (updateHeartbeatSendTimer sendCycle { c with
      heartbeadSendTimer := t
      writeMessageQueue := queue
      writes }) := by
  obtain ⟨hexpired, rfl⟩ := Timer.take_expired_inv _ _ ht
  have hmost := h.sendAtMost
  have hcycle : 0 < sendCycle := by
    by_contra hnot
    have hnone := h.sendNone (by omega)
    unfold Timer.live at hnone
    omega
  unfold updateHeartbeatSendTimer
  rw [if_pos hcycle]
  unfold Timer.live at hmost
  constructor
  · exact h.recvAtMost
  · exact h.recvLive
  · intro _ _
    simp only [Timer.live, Timer.asyncWait, Timer.expiresFromNow, Timer.cancel]
    omega
  · simp only [Timer.live, Timer.asyncWait, Timer.expiresFromNow, Timer.cancel]
    omega
  · intro hnot
    omega

/-- The number of waits that are live stays, or it does not matter any more. -/
theorem TimingAt.set (h : TimingAt recvCycle sendCycle c) (recv send : Timer)
    (hrunning : recv.running ≤ c.heartbeatRecvTimer.running)
    (hrecv : recv.live = c.heartbeatRecvTimer.live)
    (hsend : send.live = c.heartbeadSendTimer.live) :
    TimingAt recvCycle sendCycle
      { c with heartbeatRecvTimer := recv, heartbeadSendTimer := send } where
  recvAtMost := hrunning.trans h.recvAtMost
  recvLive hopen hcycle := hrecv ▸ h.recvLive hopen hcycle
  sendOne hopen hcycle := hsend.trans (h.sendOne hopen hcycle)
  sendAtMost := hsend ▸ h.sendAtMost
  sendNone hcycle := hsend.trans (h.sendNone hcycle)

theorem live_expire (t u : Timer) (ht : t.expire = some u) :
    u.running ≤ t.running ∧ u.live = t.live := by
  obtain ⟨hrunning, rfl⟩ := Timer.expire_inv t u ht
  simp only [Timer.live]
  omega

theorem live_canceled (t u : Timer) (ht : t.take false = some u) :
    u.running ≤ t.running ∧ u.live = t.live := by
  obtain ⟨hcanceled, rfl⟩ := Timer.take_canceled_inv t u ht
  exact ⟨Nat.le_refl _, rfl⟩

theorem TimingAt.act (h : TimingAt recvCycle sendCycle c) (e : Event)
    (hdoes : Does recvCycle sendCycle c e d) : TimingAt recvCycle sendCycle d := by
  cases hdoes with
  | call owners hheld => exact h.callback [owners]
  | drop hheld => exact h
  | readDone index op result hread => exact h
  | writeDone index result hwrite => exact h
  | recvExpires t ht =>
    obtain ⟨hrunning, hlive⟩ := live_expire _ t ht
    exact h.set t c.heartbeadSendTimer hrunning hlive rfl
  | sendExpires t ht =>
    obtain ⟨-, hlive⟩ := live_expire _ t ht
    exact h.set c.heartbeatRecvTimer t (Nat.le_refl _) rfl hlive
  | readCloses index calls op progress hread hdone => exact TimingAt.close h
  | headRead index calls bytes hread =>
    have htaken : TimingAt recvCycle sendCycle { c with reads := c.reads.eraseIdx index } := h
    exact htaken.updateRecv
  | userdata index calls bytes size hread => exact h
  | dataRead index calls size data hread =>
    have hback : TimingAt recvCycle sendCycle
        { c with reads := c.reads.eraseIdx index, readBack := c.readBack ++ [data] } := h
    exact hback.callback calls
  | writeCloses index calls hwrite => exact TimingAt.close h
  | written index calls front rest hwrite hqueue =>
    obtain ⟨writes, hwrites⟩ := writeNext_writer
      (acknowledge front calls { c with writes := c.writes.eraseIdx index })
    rw [hwrites]
    exact acknowledge_keeps (TimingAt recvCycle sendCycle) (fun c data h => h)
      (fun c calls h => h.callback calls) front calls h
  | asyncWrite index data hposted =>
    obtain ⟨writes, hwrites⟩ := asyncWrite_writer (userMessage data)
      { c with posted := c.posted.eraseIdx index }
    rw [hwrites]
    exact h
  | recvCanceled t ht =>
    obtain ⟨hrunning, hlive⟩ := live_canceled _ t ht
    exact h.set t c.heartbeadSendTimer hrunning hlive rfl
  | recvExpired t ht =>
    constructor
    · exact Nat.zero_le 1
    · intro hopen
      cases hopen
    · intro hopen
      cases hopen
    · exact h.close.sendAtMost
    · exact h.close.sendNone
  | sendCanceled t ht =>
    obtain ⟨-, hlive⟩ := live_canceled _ t ht
    exact h.set c.heartbeatRecvTimer t (Nat.le_refl _) rfl hlive
  | sendExpired t ht =>
    obtain ⟨writes, hwrites⟩ := asyncWrite_writer heartbeatMessage
      { c with heartbeadSendTimer := t }
    rw [hwrites]
    exact h.updateSend t ht _ writes

end TimerSide

section Whole

@[simp] theorem references_close (c : Connection) : references (close c) = references c := by
  simp [references, close]

theorem does_references (e : Event) (hdoes : Does recvCycle sendCycle c e d) :
    0 < references c := by
  unfold references
  cases hdoes with
  | call owners hheld => omega
  | drop hheld => omega
  | readDone index op result hread =>
    have := (List.getElem?_eq_some_iff.mp hread).1
    omega
  | writeDone index result hwrite =>
    have := (List.getElem?_eq_some_iff.mp hwrite).1
    omega
  | recvExpires t ht =>
    have := (Timer.expire_inv _ t ht).1
    unfold Timer.waits
    omega
  | sendExpires t ht =>
    have := (Timer.expire_inv _ t ht).1
    unfold Timer.waits
    omega
  | readCloses index calls op progress hread hdone =>
    have := (List.getElem?_eq_some_iff.mp hread).1
    omega
  | headRead index calls bytes hread =>
    have := (List.getElem?_eq_some_iff.mp hread).1
    omega
  | userdata index calls bytes size hread =>
    have := (List.getElem?_eq_some_iff.mp hread).1
    omega
  | dataRead index calls size data hread =>
    have := (List.getElem?_eq_some_iff.mp hread).1
    omega
  | writeCloses index calls hwrite =>
    have := (List.getElem?_eq_some_iff.mp hwrite).1
    omega
  | written index calls front rest hwrite hqueue =>
    have := (List.getElem?_eq_some_iff.mp hwrite).1
    omega
  | asyncWrite index data hposted =>
    have := (List.getElem?_eq_some_iff.mp hposted).1
    omega
  | recvCanceled t ht =>
    have := (Timer.take_canceled_inv _ t ht).1
    unfold Timer.waits
    omega
  | recvExpired t ht =>
    have := (Timer.take_expired_inv _ t ht).1
    unfold Timer.waits
    omega
  | sendCanceled t ht =>
    have := (Timer.take_canceled_inv _ t ht).1
    unfold Timer.waits
    omega
  | sendExpired t ht =>
    have := (Timer.take_expired_inv _ t ht).1
    unfold Timer.waits
    omega

theorem callback_closedBack (calls : List Call) (c : Connection) :
    (callback calls c).closedBack = c.closedBack := by
  apply callback_keeps (fun d => d.closedBack = c.closedBack) _ (fun _ h => h) (fun _ _ h => h)
    calls rfl
  intro d data hd
  cases data <;> exact hd

theorem does_closedBack (e : Event) (hdoes : Does recvCycle sendCycle c e d) :
    d.closedBack = c.closedBack := by
  cases hdoes with
  | call owners hheld => exact callback_closedBack [owners] c
  | headRead index calls bytes hread =>
    obtain ⟨t, ht⟩ := updateHeartbeatRecvTimer_timer recvCycle
      { c with reads := c.reads.eraseIdx index }
    rw [ht]
    rfl
  | dataRead index calls size data hread => exact callback_closedBack calls _
  | written index calls front rest hwrite hqueue =>
    obtain ⟨writes, hwrites⟩ := writeNext_writer
      (acknowledge front calls { c with writes := c.writes.eraseIdx index })
    rw [hwrites]
    exact acknowledge_keeps (fun d => d.closedBack = c.closedBack) (fun _ _ h => h)
      (fun d calls h => (callback_closedBack calls d).trans h) front calls rfl
  | asyncWrite index data hposted =>
    obtain ⟨writes, hwrites⟩ := asyncWrite_writer (userMessage data)
      { c with posted := c.posted.eraseIdx index }
    rw [hwrites]
  | sendExpired t ht =>
    obtain ⟨writes, hwrites⟩ := asyncWrite_writer heartbeatMessage
      { c with heartbeadSendTimer := t }
    rw [hwrites]
    obtain ⟨u, hu⟩ := updateHeartbeatSendTimer_timer sendCycle { c with
      heartbeadSendTimer := t
      writeMessageQueue := c.writeMessageQueue ++ [heartbeatMessage]
      writes := writes }
    rw [hu]
  | _ => rfl

/-- The close callback has been called once if no reference is left, and else not yet. -/
structure Sound (recvCycle sendCycle : ℤ) (c : Connection) : Prop where
  reading : ReadingAt 0 c
  writing : WritingAt 0 c
  timing : TimingAt recvCycle sendCycle c
  released : c.closedBack = if references c = 0 then 1 else 0

theorem sound_step (e : Event) (h : Sound recvCycle sendCycle c)
    (hstep : step recvCycle sendCycle c e = some d) : Sound recvCycle sendCycle d := by
  obtain ⟨u, hact, rfl⟩ := Option.map_eq_some_iff.mp hstep
  have hdoes := act_does e hact
  have hpos := does_references e hdoes
  have hreading := h.reading.act e hdoes
  have hwriting := h.writing.act e hdoes
  have htiming := h.timing.act e hdoes
  have hnotYet : u.closedBack = 0 := by
    rw [does_closedBack e hdoes, h.released, if_neg (Nat.ne_of_gt hpos)]
  unfold letGo
  split
  · next hnone =>
    refine ⟨hreading.close, hwriting.close, htiming.close, ?_⟩
    exact (congrArg (· + 1) hnotYet).trans (if_pos ((references_close u).trans hnone)).symm
  · next hsome => exact ⟨hreading, hwriting, htiming, hnotYet.trans (if_neg hsome).symm⟩

theorem sound_start (recvCycle sendCycle : ℤ) (socketOpen : Bool) (posted : List ByteString)
    (held : ℕ) :
    Sound recvCycle sendCycle (start recvCycle sendCycle (.create socketOpen posted held)) := by
  have hreading : ReadingAt 0 (asyncRead .head (.create socketOpen posted held)) := by
    apply ReadingAt.asyncRead
    exact ⟨fun _ => rfl, Nat.le_refl 1, fun _ r hr => absurd hr List.not_mem_nil⟩
  have hwriting : WritingAt 0 (asyncRead .head (.create socketOpen posted held)) :=
    ⟨fun _ hne => absurd rfl hne, Nat.zero_le 1, fun hpos => absurd hpos (Nat.lt_irrefl 0),
      fun _ w hw => absurd hw List.not_mem_nil⟩
  have htiming : TimingAt recvCycle sendCycle
      (start recvCycle sendCycle (.create socketOpen posted held)) := by
    unfold start updateHeartbeatSendTimer updateHeartbeatRecvTimer
    by_cases hrecv : recvCycle > 0 <;> by_cases hsend : sendCycle > 0 <;>
      simp only [hrecv, hsend, if_true, if_false] <;>
      constructor <;> simp [asyncRead, Connection.create, Timer.live, Timer.asyncWait,
        Timer.expiresFromNow, Timer.cancel, Timer.idle, hrecv, hsend]
  obtain ⟨t, ht⟩ := updateHeartbeatRecvTimer_timer recvCycle
    (asyncRead .head (.create socketOpen posted held))
  obtain ⟨u, hu⟩ := updateHeartbeatSendTimer_timer sendCycle
    { asyncRead .head (.create socketOpen posted held) with heartbeatRecvTimer := t }
  have hstart : start recvCycle sendCycle (.create socketOpen posted held) =
      { asyncRead .head (.create socketOpen posted held) with
        heartbeatRecvTimer := t
        heartbeadSendTimer := u } := by
    unfold start
    rw [ht, hu]
  rw [hstart] at htiming ⊢
  refine ⟨hreading, hwriting, htiming, ?_⟩
  have hone : (asyncRead .head (.create socketOpen posted held)).reads.length = 1 := rfl
  have hpos : references { asyncRead .head (.create socketOpen posted held) with
      heartbeatRecvTimer := t
      heartbeadSendTimer := u } ≠ 0 := by
    simp only [references, hone]
    omega
  exact (if_neg hpos).symm

theorem sound_path (socketOpen : Bool) (posted : List ByteString) (held : ℕ) (es : List Event)
    (hrun : Path (step recvCycle sendCycle) (fun _ _ => True)
      (start recvCycle sendCycle (.create socketOpen posted held)) es c) :
    Sound recvCycle sendCycle c :=
  hrun.invariant (Sound recvCycle sendCycle) (fun _ e _ h _ hstep => sound_step e h hstep)
    (sound_start recvCycle sendCycle socketOpen posted held)

/-- In every run a connection whose socket is open reads, writes what is queued, and has
its timers set; it never reads or writes twice at a time; and the close callback is called
once, when the last reference goes. -/
theorem connection_lives (socketOpen : Bool) (posted : List ByteString) (held : ℕ)
    (es : List Event) (hrun : Path (step recvCycle sendCycle) (fun _ _ => True)
      (start recvCycle sendCycle (.create socketOpen posted held)) es c) :
    (c.socketOpen = true →
      c.reads.length = 1 ∧ (c.writeMessageQueue ≠ [] ↔ c.writes.length = 1) ∧
        (0 < recvCycle → 0 < c.heartbeatRecvTimer.live) ∧
        (0 < sendCycle → c.heartbeadSendTimer.live = 1)) ∧
      c.reads.length ≤ 1 ∧ c.writes.length ≤ 1 ∧ c.heartbeatRecvTimer.running ≤ 1 ∧
      c.closedBack = if references c = 0 then 1 else 0 := by
  have h := sound_path socketOpen posted held es hrun
  refine ⟨fun hopen => ⟨h.reading.one hopen, ⟨?_, ?_⟩, h.timing.recvLive hopen,
    h.timing.sendOne hopen⟩, h.reading.atMost, h.writing.atMost, h.timing.recvAtMost, h.released⟩
  · exact h.writing.one hopen
  · intro hone
    exact h.writing.queued (by omega)

/-- A message comes in and is answered, a heartbeat is due meanwhile, and the peer goes away. -/
def answeredRun : List Event :=
  [.readDone 0 (some (Header.assign 1 2).bytes), .handleRead 0 [],
    .readDone 0 (some [1, 2]), .sendExpires, .handleRead 0 [.write (some [3])], .asyncWrite 0,
    .handleHeartbeatSend true, .writeDone 0 (some ()), .handleWriteMessage 0 [.hold],
    .readDone 0 none, .handleRead 0 []]

def afterAnswer : Connection :=
  (answeredRun.foldlM (step 60 20) (start 60 20 (.create true [] 0))).getD (.create false [] 0)

theorem connection_lives_sample :
    afterAnswer.readBack = [[1, 2]] ∧ afterAnswer.writtenBack = [[3]] ∧
      afterAnswer.writes.length ≤ 1 := by
  have hrun : answeredRun.foldlM (step 60 20) (start 60 20 (.create true [] 0)) =
    some afterAnswer := rfl
  exact ⟨rfl, rfl, (connection_lives true [] 0 answeredRun
    (path_of_steps _ _ answeredRun (fun _ _ _ => trivial) hrun)).2.2.1⟩

end Whole

end Gingko.ConnectionLives
