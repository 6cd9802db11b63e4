import Gingko.ConnectionLives
import Mathlib.Algebra.Order.BigOperators.Group.List
import Mathlib.Algebra.Order.Group.Nat
import Mathlib.Algebra.GroupWithZero.Nat

/-!
How a connection ends. After `Close` the socket stays closed, and each callback gets at
most one message more, of a handler that was queued. What is left then runs out, and the
connection is released, unless a wait of the send timer has expired by then: its handler
queues a heartbeat behind the message that was not written, so nothing is written, nothing
fails and nothing cancels the timer, which it sets again.
-/
namespace Gingko.ConnectionEnds

open Base64Codec GuardedRuns AsyncOperations ConnectionLives
open SocketFrames (ReadOp Message Header heartbeatMessage userMessage)

def finished {α : Type*} : Progress α → Bool
  | .finished _ => true
  | _ => false

/-- A header that has been read may bring a read of no bytes, which a closed socket allows. -/
def dueReads (c : Connection) : ℕ := c.reads.countP fun r => finished r.2

def dueWrites (c : Connection) : ℕ := c.writes.countP finished

/-- At most `reads` and `writes` callbacks will have been made in the end. -/
structure Spent (reads writes : ℕ) (c : Connection) : Prop where
  closed : c.socketOpen = false
  reads : c.readBack.length + dueReads c ≤ reads
  writes : c.writtenBack.length + dueWrites c ≤ writes

variable {recvCycle sendCycle : ℤ} {c d : Connection} {reads writes : ℕ}

theorem finished_abort {α : Type*} (p : Progress α) : finished p.abort = finished p := by
  cases p <;> rfl

theorem Spent.close (h : Spent reads writes c) : Spent reads writes (close c) where
  closed := rfl
  reads := by
    have hreads := h.reads
    simpa [dueReads, ConnectionLives.close, List.countP_map, Function.comp_def, finished_abort]
      using hreads
  writes := by
    have hwrites := h.writes
    simpa [dueWrites, ConnectionLives.close, List.countP_map, Function.comp_def, finished_abort]
      using hwrites

theorem Spent.callback (h : Spent reads writes c) (calls : List Call) :
    Spent reads writes (callback calls c) := by
  apply callback_keeps (Spent reads writes) _ (fun c h => h.close)
    (fun c n h => ⟨h.closed, h.reads, h.writes⟩) calls h
  intro c data hc
  cases data <;> exact ⟨hc.closed, hc.reads, hc.writes⟩

/-- A handler of a read finds no other read. -/
theorem only_read (h : ReadingAt 0 c) (index : ℕ) (r : ReadOp × Progress ByteString)
    (hread : c.reads[index]? = some r) : c.reads = [r] ∧ c.reads.eraseIdx index = [] := by
  obtain ⟨hindex, hget⟩ := List.getElem?_eq_some_iff.mp hread
  have hmost := h.atMost
  obtain ⟨q, hq⟩ := List.length_eq_one_iff.mp (show c.reads.length = 1 by omega)
  obtain rfl : index = 0 := by omega
  rw [hq] at hread ⊢
  obtain rfl := Option.some.inj hread
  exact ⟨rfl, rfl⟩

theorem only_write (h : WritingAt 0 c) (index : ℕ) (w : Progress Unit)
    (hwrite : c.writes[index]? = some w) : c.writes = [w] ∧ c.writes.eraseIdx index = [] := by
  obtain ⟨hindex, hget⟩ := List.getElem?_eq_some_iff.mp hwrite
  have hmost := h.atMost
  obtain ⟨v, hv⟩ := List.length_eq_one_iff.mp (show c.writes.length = 1 by omega)
  obtain rfl : index = 0 := by omega
  rw [hv] at hwrite ⊢
  obtain rfl := Option.some.inj hwrite
  exact ⟨rfl, rfl⟩

/-- What a closed socket makes of a read that is asked for now. -/
theorem asyncRead_closed (op : ReadOp) (hclosed : c.socketOpen = false) :
    asyncRead op c = { c with
      reads := c.reads ++ [(op, if op.size = 0 then .finished [] else .failed)] } := by
  simp [asyncRead, hclosed]

theorem head_size : ReadOp.head.size ≠ 0 := by decide

theorem asyncRead_head_closed (hclosed : c.socketOpen = false) :
    asyncRead .head c = { c with reads := c.reads ++ [(.head, .failed)] } := by
  rw [asyncRead_closed .head hclosed, if_neg head_size]

/-- A write that is asked for now fails. -/
theorem asyncWrite_closed (message : Message) (hclosed : c.socketOpen = false) :
    asyncWrite message c = { c with
      writeMessageQueue := c.writeMessageQueue ++ [message]
      writes := c.writes ++ (if c.writeMessageQueue = [] then [.failed] else []) } := by
  unfold asyncWrite writeMessage
  cases hqueue : c.writeMessageQueue with
  | nil => simp [hclosed]
  | cons front rest => simp

theorem writeNext_closed (hclosed : c.socketOpen = false) :
    writeNext c = { c with
      writeMessageQueue := c.writeMessageQueue.tail
      writes := c.writes ++ (if c.writeMessageQueue.tail = [] then [] else [.failed]) } := by
  unfold writeNext writeMessage
  cases hqueue : c.writeMessageQueue.tail with
  | nil => simp
  | cons front rest => simp [hclosed]

theorem Spent.asyncWrite (h : Spent reads writes c) (message : Message) :
    Spent reads writes (asyncWrite message c) := by
  rw [asyncWrite_closed message h.closed]
  refine ⟨h.closed, h.reads, ?_⟩
  have hwrites := h.writes
  unfold dueWrites at hwrites ⊢
  rw [List.countP_append]
  split <;> simpa [finished] using hwrites

section Spending

variable (h : Spent reads writes c)
include h

theorem Spent.readCloses (hreading : ReadingAt 0 c) (index : ℕ)
    (r : ReadOp × Progress ByteString) (hread : c.reads[index]? = some r) :
    Spent reads writes (ConnectionLives.close { c with reads := c.reads.eraseIdx index }) := by
  rw [(only_read hreading index _ hread).2]
  refine Spent.close ⟨h.closed, ?_, h.writes⟩
  have hreads := h.reads
  simp only [dueReads, List.countP_nil]
  omega

theorem Spent.headRead (hreading : ReadingAt 0 c) (recvCycle : ℤ) (index : ℕ)
    (bytes : ByteString) (hread : c.reads[index]? = some (.head, .finished bytes)) :
    Spent reads writes (asyncRead .head (updateHeartbeatRecvTimer recvCycle
      { c with reads := c.reads.eraseIdx index })) := by
  obtain ⟨t, ht⟩ := updateHeartbeatRecvTimer_timer recvCycle
    { c with reads := c.reads.eraseIdx index }
  rw [ht, asyncRead_head_closed]
  · refine ⟨h.closed, ?_, h.writes⟩
    have hreads := h.reads
    simp only [dueReads, (only_read hreading index _ hread).2, List.nil_append,
      List.countP_singleton, finished, Bool.false_eq_true, if_false]
    omega
  · exact h.closed

/-- A read that has come in is counted in its callback from now on. -/
theorem Spent.userdata (hreading : ReadingAt 0 c) (index size : ℕ) (bytes : ByteString)
    (hread : c.reads[index]? = some (.head, .finished bytes)) :
    Spent reads writes (asyncRead (.data size) { c with reads := c.reads.eraseIdx index }) := by
  obtain ⟨hone, hnone⟩ := only_read hreading index _ hread
  have hreads := h.reads
  unfold dueReads at hreads
  rw [hone] at hreads
  simp only [List.countP_singleton, finished, if_true] at hreads
  rw [asyncRead_closed]
  · refine ⟨h.closed, ?_, h.writes⟩
    simp only [dueReads, hnone, List.nil_append, List.countP_singleton]
    by_cases hsize : (ReadOp.data size).size = 0 <;>
      simp only [hsize, if_true, if_false, finished, Bool.false_eq_true] <;> omega
  · exact h.closed

theorem Spent.dataRead (hreading : ReadingAt 0 c) (index size : ℕ) (data : ByteString)
    (calls : List Call) (hread : c.reads[index]? = some (.data size, .finished data)) :
    Spent reads writes (asyncRead .head (ConnectionLives.callback calls
      { c with reads := c.reads.eraseIdx index, readBack := c.readBack ++ [data] })) := by
  obtain ⟨hone, hnone⟩ := only_read hreading index _ hread
  have hreads := h.reads
  unfold dueReads at hreads
  rw [hone] at hreads
  simp only [List.countP_singleton, finished, if_true] at hreads
  have hback : Spent reads writes { c with
      reads := c.reads.eraseIdx index
      readBack := c.readBack ++ [data] } := by
    refine ⟨h.closed, ?_, h.writes⟩
    simp only [dueReads, hnone, List.countP_nil, List.length_append, List.length_singleton]
    omega
  have hcalled := hback.callback calls
  rw [asyncRead_head_closed hcalled.closed]
  refine ⟨hcalled.closed, ?_, hcalled.writes⟩
  simpa [dueReads, finished] using hcalled.reads

theorem Spent.writeCloses (hwriting : WritingAt 0 c) (index : ℕ)
    (hwrite : c.writes[index]? = some .failed) :
    Spent reads writes (ConnectionLives.close { c with writes := c.writes.eraseIdx index }) := by
  rw [(only_write hwriting index _ hwrite).2]
  refine Spent.close ⟨h.closed, h.reads, ?_⟩
  have hwrites := h.writes
  simp only [dueWrites, List.countP_nil]
  omega

theorem Spent.writeNext : Spent reads writes (ConnectionLives.writeNext c) := by
  rw [writeNext_closed h.closed]
  refine ⟨h.closed, h.reads, ?_⟩
  have hdue := h.writes
  unfold dueWrites at hdue ⊢
  rw [List.countP_append]
  split <;> simpa [finished] using hdue

theorem Spent.acknowledge (hwriting : WritingAt 0 c) (index : ℕ) (calls : List Call)
    (front : Message) (hwrite : c.writes[index]? = some (.finished ())) :
    Spent reads writes
      (ConnectionLives.acknowledge front calls { c with writes := c.writes.eraseIdx index }) := by
  obtain ⟨hone, hnone⟩ := only_write hwriting index _ hwrite
  have hwrites := h.writes
  unfold dueWrites at hwrites
  rw [hone] at hwrites
  simp only [List.countP_singleton, finished, if_true] at hwrites
  rw [hnone]
  unfold ConnectionLives.acknowledge
  split
  · apply Spent.callback
    refine ⟨h.closed, h.reads, ?_⟩
    simp only [dueWrites, List.countP_nil, List.length_append, List.length_singleton]
    omega
  · refine ⟨h.closed, h.reads, ?_⟩
    simp only [dueWrites, List.countP_nil]
    omega

theorem Spent.sendExpired (sendCycle : ℤ) (t : Timer) :
    Spent reads writes (updateHeartbeatSendTimer sendCycle
      (ConnectionLives.asyncWrite heartbeatMessage { c with heartbeadSendTimer := t })) := by
  have hqueued : Spent reads writes
      (ConnectionLives.asyncWrite heartbeatMessage { c with heartbeadSendTimer := t }) := by
    apply Spent.asyncWrite
    exact ⟨h.closed, h.reads, h.writes⟩
  obtain ⟨u, hu⟩ := updateHeartbeatSendTimer_timer sendCycle
    (ConnectionLives.asyncWrite heartbeatMessage { c with heartbeadSendTimer := t })
  rw [hu]
  exact ⟨hqueued.closed, hqueued.reads, hqueued.writes⟩

end Spending

theorem Spent.act (hsound : Sound recvCycle sendCycle c) (h : Spent reads writes c) (e : Event)
    (hdoes : Does recvCycle sendCycle c e d) : Spent reads writes d := by
  cases hdoes with
  | call owners hheld => exact h.callback [owners]
  | readDone index op result hread =>
    exact absurd rfl (hsound.reading.settled h.closed _ (List.mem_of_getElem? hread))
  | writeDone index result hwrite =>
    exact absurd rfl (hsound.writing.settled h.closed _ (List.mem_of_getElem? hwrite))
  | readCloses index calls op progress hread hdone =>
    exact h.readCloses hsound.reading index _ hread
  | headRead index calls bytes hread => exact h.headRead hsound.reading recvCycle index bytes hread
  | userdata index calls bytes size hread =>
    exact h.userdata hsound.reading index size bytes hread
  | dataRead index calls size data hread =>
    exact h.dataRead hsound.reading index size data calls hread
  | writeCloses index calls hwrite => exact h.writeCloses hsound.writing index hwrite
  | written index calls front rest hwrite hqueue =>
    exact (h.acknowledge hsound.writing index calls front hwrite).writeNext
  | asyncWrite index data hposted =>
    apply Spent.asyncWrite
    exact ⟨h.closed, h.reads, h.writes⟩
  | recvExpired t ht =>
    apply Spent.close
    exact ⟨h.closed, h.reads, h.writes⟩
  | sendExpired t ht => exact h.sendExpired sendCycle t
  | _ => exact ⟨h.closed, h.reads, h.writes⟩

theorem spent_step (hsound : Sound recvCycle sendCycle c) (h : Spent reads writes c) (e : Event)
    (hstep : step recvCycle sendCycle c e = some d) : Spent reads writes d := by
  obtain ⟨u, hact, rfl⟩ := Option.map_eq_some_iff.mp hstep
  have hspent := h.act hsound e (act_does e hact)
  unfold letGo
  split
  · exact ⟨hspent.close.closed, hspent.close.reads, hspent.close.writes⟩
  · exact hspent

/-- A closed connection stays closed, and each callback is made at most once more. -/
theorem closed_callbacks (socketOpen : Bool) (posted : List ByteString) (held : ℕ)
    (es more : List Event) (hrun : Path (step recvCycle sendCycle) (fun _ _ => True)
      (start recvCycle sendCycle (.create socketOpen posted held)) es c)
    (hclosed : c.socketOpen = false)
    (hmore : Path (step recvCycle sendCycle) (fun _ _ => True) c more d) :
    d.socketOpen = false ∧ d.readBack.length ≤ c.readBack.length + 1 ∧
      d.writtenBack.length ≤ c.writtenBack.length + 1 := by
  have hsound := sound_path socketOpen posted held es hrun
  have hspent : Spent (c.readBack.length + 1) (c.writtenBack.length + 1) c := by
    refine ⟨hclosed, ?_, ?_⟩
    · have hle := List.countP_le_length (p := fun r => finished r.2) (l := c.reads)
      have hmost := hsound.reading.atMost
      unfold dueReads
      omega
    · have hle := List.countP_le_length (p := finished) (l := c.writes)
      have hmost := hsound.writing.atMost
      unfold dueWrites
      omega
  obtain ⟨-, hend⟩ := hmore.invariant
    (fun u => Sound recvCycle sendCycle u ∧
      Spent (c.readBack.length + 1) (c.writtenBack.length + 1) u)
    (fun u e v h _ hstep => ⟨sound_step e h.1 hstep, spent_step h.1 h.2 e hstep⟩)
    ⟨hsound, hspent⟩
  exact ⟨hend.closed, (Nat.le_add_right _ _).trans hend.reads,
    (Nat.le_add_right _ _).trans hend.writes⟩

/-- A header comes in and the write is done, then the timer of the other side closes. -/
def latePayload : List Event :=
  [.call (.write (some [9])), .asyncWrite 0, .readDone 0 (some (Header.assign 1 1).bytes),
    .handleRead 0 [], .readDone 0 (some [5]), .writeDone 0 (some ()), .recvExpires,
    .handleHeartbeatRecv true]

def lateHandlers : List Event :=
  [.handleRead 0 [.write (some [6])], .handleWriteMessage 0 [], .asyncWrite 0, .handleRead 0 [],
    .handleWriteMessage 0 []]

def afterClose : Connection :=
  (latePayload.foldlM (step 60 0) (start 60 0 (.create true [] 1))).getD (.create false [] 0)

def afterHandlers : Connection :=
  (lateHandlers.foldlM (step 60 0) afterClose).getD (.create false [] 0)

theorem closed_callbacks_sample :
    afterClose.readBack = [] ∧ afterHandlers.readBack = [[5]] ∧
      afterHandlers.writtenBack.length ≤ afterClose.writtenBack.length + 1 := by
  have hrun : latePayload.foldlM (step 60 0) (start 60 0 (.create true [] 1)) =
    some afterClose := rfl
  have hmore : lateHandlers.foldlM (step 60 0) afterClose = some afterHandlers := rfl
  exact ⟨rfl, rfl, (closed_callbacks true [] 1 latePayload lateHandlers
    (path_of_steps _ _ latePayload (fun _ _ _ => trivial) hrun) rfl
    (path_of_steps _ _ lateHandlers (fun _ _ _ => trivial) hmore)).2.2⟩

section Release

/-- The owner asks for nothing more, in a callback either. -/
def quiet : Event → Bool
  | .call _ => false
  | .handleRead _ calls => calls.isEmpty
  | .handleWriteMessage _ calls => calls.isEmpty
  | _ => true

def readWeight : ReadOp × Progress ByteString → ℕ
  | (_, .waiting) => 5
  | (_, .failed) => 1
  | (.head, .finished _) => 4
  | (.data _, .finished _) => 2

def writeWeight : Progress Unit → ℕ
  | .waiting => 3
  | .failed => 1
  | .finished _ => 2

def timerWeight (t : Timer) : ℕ := 2 * t.running + t.expired + t.canceled

/-- A bound for what is left to be done: a read may be followed by another that fails, a
write and a posted message by a write that fails, and a wait has to end before its handler
is run. -/
def rank (c : Connection) : ℕ :=
  c.held + 2 * c.posted.length + (c.reads.map readWeight).sum + (c.writes.map writeWeight).sum +
    timerWeight c.heartbeatRecvTimer + timerWeight c.heartbeadSendTimer

theorem timerWeight_cancel (t : Timer) : timerWeight t.cancel ≤ timerWeight t := by
  simp only [timerWeight, Timer.cancel]
  omega

theorem readWeight_abort (r : ReadOp × Progress ByteString) :
    readWeight (r.1, r.2.abort) ≤ readWeight r := by
  obtain ⟨op, progress⟩ := r
  cases progress <;> simp [readWeight]

theorem writeWeight_abort (w : Progress Unit) : writeWeight w.abort ≤ writeWeight w := by
  cases w <;> simp [writeWeight]

theorem rank_close (c : Connection) : rank (close c) ≤ rank c := by
  have hreads : ((close c).reads.map readWeight).sum ≤ (c.reads.map readWeight).sum := by
    simp only [ConnectionLives.close, List.map_map]
    exact List.sum_le_sum fun r _ => readWeight_abort r
  have hwrites : ((close c).writes.map writeWeight).sum ≤ (c.writes.map writeWeight).sum := by
    simp only [ConnectionLives.close, List.map_map]
    exact List.sum_le_sum fun w _ => writeWeight_abort w
  have hrecv := timerWeight_cancel c.heartbeatRecvTimer
  have hsend := timerWeight_cancel c.heartbeadSendTimer
  unfold rank
  simp only [ConnectionLives.close] at *
  omega

theorem timerWeight_expire (t u : Timer) (h : t.expire = some u) :
    timerWeight u < timerWeight t := by
  obtain ⟨hrunning, rfl⟩ := Timer.expire_inv t u h
  simp only [timerWeight]
  omega

theorem timerWeight_take (expired : Bool) (t u : Timer) (h : t.take expired = some u) :
    timerWeight u < timerWeight t := by
  cases expired with
  | false =>
    obtain ⟨hcanceled, rfl⟩ := Timer.take_canceled_inv t u h
    simp only [timerWeight]
    omega
  | true =>
    obtain ⟨hexpired, rfl⟩ := Timer.take_expired_inv t u h
    simp only [timerWeight]
    omega

/-- What runs out: no socket, and no wait of the send timer that would queue a heartbeat. -/
structure Ending (c : Connection) : Prop where
  closed : c.socketOpen = false
  mute : c.heartbeadSendTimer.live = 0

theorem Ending.close (h : Ending c) : Ending (close c) where
  closed := rfl
  mute := by
    have hmute := h.mute
    simp only [ConnectionLives.close, Timer.live_cancel]
    unfold Timer.live at hmute
    omega

section Ends

variable (h : Ending c)
include h

theorem Ending.readCloses (hreading : ReadingAt 0 c) (index : ℕ) (op : ReadOp)
    (progress : Progress ByteString) (hread : c.reads[index]? = some (op, progress)) :
    Ending (ConnectionLives.close { c with reads := c.reads.eraseIdx index }) ∧
      rank (ConnectionLives.close { c with reads := c.reads.eraseIdx index }) < rank c := by
  obtain ⟨hone, hnone⟩ := only_read hreading index _ hread
  have hending : Ending { c with reads := c.reads.eraseIdx index } := ⟨h.closed, h.mute⟩
  rw [hnone] at hending ⊢
  refine ⟨hending.close, (rank_close _).trans_lt ?_⟩
  have hpos : 0 < readWeight (op, progress) := by
    cases op <;> cases progress <;> simp [readWeight]
  simp only [rank, hone, List.map_nil, List.sum_nil, List.map_cons, List.sum_cons]
  omega

/-- The header asks for another that fails, and the wait for the other side may start anew. -/
theorem Ending.headRead (hreading : ReadingAt 0 c) (recvCycle : ℤ) (index : ℕ)
    (bytes : ByteString) (hread : c.reads[index]? = some (.head, .finished bytes)) :
    Ending (asyncRead .head (updateHeartbeatRecvTimer recvCycle
        { c with reads := c.reads.eraseIdx index })) ∧
      rank (asyncRead .head (updateHeartbeatRecvTimer recvCycle
        { c with reads := c.reads.eraseIdx index })) < rank c := by
  obtain ⟨hone, hnone⟩ := only_read hreading index _ hread
  rw [hnone, asyncRead_head_closed]
  · unfold updateHeartbeatRecvTimer
    split
    · refine ⟨⟨h.closed, h.mute⟩, ?_⟩
      simp only [rank, hone, List.nil_append, List.map_cons, List.map_nil, List.sum_cons,
        List.sum_nil, readWeight, timerWeight, Timer.asyncWait, Timer.expiresFromNow,
        Timer.cancel]
      omega
    · refine ⟨⟨h.closed, h.mute⟩, ?_⟩
      simp only [rank, hone, List.nil_append, List.map_cons, List.map_nil, List.sum_cons,
        List.sum_nil, readWeight]
      omega
  · obtain ⟨t, ht⟩ := updateHeartbeatRecvTimer_timer recvCycle { c with reads := [] }
    rw [ht]
    exact h.closed

theorem Ending.userdata (hreading : ReadingAt 0 c) (index size : ℕ) (bytes : ByteString)
    (hread : c.reads[index]? = some (.head, .finished bytes)) :
    Ending (asyncRead (.data size) { c with reads := c.reads.eraseIdx index }) ∧
      rank (asyncRead (.data size) { c with reads := c.reads.eraseIdx index }) < rank c := by
  obtain ⟨hone, hnone⟩ := only_read hreading index _ hread
  rw [hnone, asyncRead_closed]
  · refine ⟨⟨h.closed, h.mute⟩, ?_⟩
    have hle : readWeight (.data size, if (ReadOp.data size).size = 0 then .finished []
        else .failed) ≤ 2 := by
      split <;> simp [readWeight]
    simp only [rank, hone, List.nil_append, List.map_cons, List.map_nil, List.sum_cons,
      List.sum_nil] at hle ⊢
    have hfour : readWeight (.head, .finished bytes) = 4 := rfl
    omega
  · exact h.closed

theorem Ending.dataRead (hreading : ReadingAt 0 c) (index size : ℕ) (data : ByteString)
    (hread : c.reads[index]? = some (.data size, .finished data)) :
    Ending (asyncRead .head
        { c with reads := c.reads.eraseIdx index, readBack := c.readBack ++ [data] }) ∧
      rank (asyncRead .head
        { c with reads := c.reads.eraseIdx index, readBack := c.readBack ++ [data] }) < rank c := by
  obtain ⟨hone, hnone⟩ := only_read hreading index _ hread
  rw [hnone, asyncRead_head_closed]
  · refine ⟨⟨h.closed, h.mute⟩, ?_⟩
    simp only [rank, hone, List.nil_append, List.map_cons, List.map_nil, List.sum_cons,
      List.sum_nil, readWeight]
    omega
  · exact h.closed

theorem Ending.writeCloses (hwriting : WritingAt 0 c) (index : ℕ)
    (hwrite : c.writes[index]? = some .failed) :
    Ending (ConnectionLives.close { c with writes := c.writes.eraseIdx index }) ∧
      rank (ConnectionLives.close { c with writes := c.writes.eraseIdx index }) < rank c := by
  obtain ⟨hone, hnone⟩ := only_write hwriting index _ hwrite
  have hending : Ending { c with writes := c.writes.eraseIdx index } := ⟨h.closed, h.mute⟩
  rw [hnone] at hending ⊢
  refine ⟨hending.close, (rank_close _).trans_lt ?_⟩
  simp only [rank, hone, List.map_nil, List.sum_nil, List.map_cons, List.sum_cons, writeWeight]
  omega

theorem Ending.written (hwriting : WritingAt 0 c) (index : ℕ) (front : Message)
    (hwrite : c.writes[index]? = some (.finished ())) :
    Ending (writeNext (acknowledge front [] { c with writes := c.writes.eraseIdx index })) ∧
      rank (writeNext (acknowledge front [] { c with writes := c.writes.eraseIdx index })) <
        rank c := by
  obtain ⟨hone, hnone⟩ := only_write hwriting index _ hwrite
  have hback : ∃ back, acknowledge front [] { c with writes := c.writes.eraseIdx index } =
      { c with writes := [], writtenBack := back } := by
    rw [hnone]
    unfold acknowledge
    split
    · exact ⟨_, rfl⟩
    · exact ⟨c.writtenBack, rfl⟩
  obtain ⟨back, hback⟩ := hback
  rw [hback, writeNext_closed]
  · refine ⟨⟨h.closed, h.mute⟩, ?_⟩
    simp only [rank, hone, List.nil_append, List.map_cons, List.map_nil, List.sum_cons,
      List.sum_nil, writeWeight]
    split <;> simp only [List.map_cons, List.map_nil, List.sum_cons, List.sum_nil,
      writeWeight] <;> omega
  · exact h.closed

theorem Ending.asyncWrite (index : ℕ) (data : ByteString) (message : Message)
    (hposted : c.posted[index]? = some data) :
    Ending (ConnectionLives.asyncWrite message { c with posted := c.posted.eraseIdx index }) ∧
      rank (ConnectionLives.asyncWrite message { c with posted := c.posted.eraseIdx index }) <
        rank c := by
  have hindex := (List.getElem?_eq_some_iff.mp hposted).1
  have hlength : (c.posted.eraseIdx index).length + 1 = c.posted.length := by
    rw [List.length_eraseIdx_of_lt hindex]
    omega
  rw [asyncWrite_closed]
  · refine ⟨⟨h.closed, h.mute⟩, ?_⟩
    simp only [rank, List.map_append, List.sum_append]
    split <;> simp only [List.map_cons, List.map_nil, List.sum_cons, List.sum_nil,
      writeWeight] <;> omega
  · exact h.closed

/-- A wait of either timer that ends, or a handler of one that is run. -/
theorem Ending.timers (t u : Timer) (hlive : u.live = 0)
    (hlt : timerWeight t + timerWeight u <
      timerWeight c.heartbeatRecvTimer + timerWeight c.heartbeadSendTimer) :
    Ending { c with heartbeatRecvTimer := t, heartbeadSendTimer := u } ∧
      rank { c with heartbeatRecvTimer := t, heartbeadSendTimer := u } < rank c := by
  refine ⟨⟨h.closed, hlive⟩, ?_⟩
  simp only [rank]
  omega

end Ends

/-- Each event that the owner does not cause takes something away. -/
theorem Ending.act (hsound : Sound recvCycle sendCycle c) (h : Ending c) (e : Event)
    (hquiet : quiet e = true) (hdoes : Does recvCycle sendCycle c e d) :
    Ending d ∧ rank d < rank c := by
  have hmute := h.mute
  unfold Timer.live at hmute
  cases hdoes with
  | call owners hheld => cases hquiet
  | drop hheld =>
    refine ⟨⟨h.closed, h.mute⟩, ?_⟩
    simp only [rank]
    omega
  | readDone index op result hread =>
    exact absurd rfl (hsound.reading.settled h.closed _ (List.mem_of_getElem? hread))
  | writeDone index result hwrite =>
    exact absurd rfl (hsound.writing.settled h.closed _ (List.mem_of_getElem? hwrite))
  | recvExpires t ht =>
    exact h.timers t _ h.mute (Nat.add_lt_add_right (timerWeight_expire _ t ht) _)
  | sendExpires t ht =>
    have hrunning := (Timer.expire_inv _ t ht).1
    omega
  | readCloses index calls op progress hread hdone =>
    exact h.readCloses hsound.reading index op progress hread
  | headRead index calls bytes hread => exact h.headRead hsound.reading recvCycle index bytes hread
  | userdata index calls bytes size hread =>
    exact h.userdata hsound.reading index size bytes hread
  | dataRead index calls size data hread =>
    obtain rfl : calls = [] := List.isEmpty_iff.mp hquiet
    exact h.dataRead hsound.reading index size data hread
  | writeCloses index calls hwrite => exact h.writeCloses hsound.writing index hwrite
  | written index calls front rest hwrite hqueue =>
    obtain rfl : calls = [] := List.isEmpty_iff.mp hquiet
    exact h.written hsound.writing index front hwrite
  | asyncWrite index data hposted => exact h.asyncWrite index data _ hposted
  | recvCanceled t ht =>
    exact h.timers t _ h.mute (Nat.add_lt_add_right (timerWeight_take false _ t ht) _)
  | recvExpired t ht =>
    obtain ⟨hending, hlt⟩ :=
      h.timers t _ h.mute (Nat.add_lt_add_right (timerWeight_take true _ t ht) _)
    exact ⟨hending.close, (rank_close _).trans_lt hlt⟩
  | sendCanceled t ht =>
    obtain ⟨-, hlive⟩ := live_canceled _ t ht
    exact h.timers _ t (hlive.trans h.mute)
      (Nat.add_lt_add_left (timerWeight_take false _ t ht) _)
  | sendExpired t ht =>
    have hexpired := (Timer.take_expired_inv _ t ht).1
    omega

theorem ending_step (hsound : Sound recvCycle sendCycle c) (h : Ending c) (e : Event)
    (hquiet : quiet e = true) (hstep : step recvCycle sendCycle c e = some d) :
    Ending d ∧ rank d < rank c := by
  obtain ⟨u, hact, rfl⟩ := Option.map_eq_some_iff.mp hstep
  obtain ⟨hending, hrank⟩ := h.act hsound e hquiet (act_does e hact)
  unfold letGo
  split
  · exact ⟨⟨hending.close.closed, hending.close.mute⟩, (rank_close u).trans_lt hrank⟩
  · exact ⟨hending, hrank⟩

/-- As long as a handler is queued, or a wait is running, there is something to be done. -/
theorem something_left (hsound : Sound recvCycle sendCycle c) (h : Ending c)
    (hheld : c.held = 0) (hstuck : ∀ e, quiet e = true → step recvCycle sendCycle c e = none) :
    references c = 0 := by
  have hidle : ∀ e, quiet e = true → act recvCycle sendCycle c e = none := by
    intro e hquiet
    exact Option.map_eq_none_iff.mp (hstuck e hquiet)
  have hreads : c.reads = [] := by
    by_contra hsome
    obtain ⟨r, rest, hreads⟩ := List.exists_cons_of_ne_nil hsome
    obtain ⟨op, progress⟩ := r
    have hwaiting := hsound.reading.settled h.closed (op, progress) (by simp [hreads])
    obtain ⟨result, hresult, -⟩ := progress.result_eq hwaiting
    have hnone := hidle (.handleRead 0 []) rfl
    simp [act, hreads, hresult] at hnone
  have hwrites : c.writes = [] := by
    by_contra hsome
    obtain ⟨w, rest, hwrites⟩ := List.exists_cons_of_ne_nil hsome
    have hwaiting := hsound.writing.settled h.closed w (by simp [hwrites])
    have hnone := hidle (.handleWriteMessage 0 []) rfl
    obtain ⟨front, later, hqueue⟩ := List.exists_cons_of_ne_nil
      (hsound.writing.queued (by simp [hwrites]))
    cases w with
    | waiting => exact absurd rfl hwaiting
    | failed => simp [act, hwrites, Progress.result, handleWriteMessage] at hnone
    | finished u =>
      simp [act, hwrites, Progress.result, handleWriteMessage, hqueue] at hnone
  have hposted : c.posted = [] := by
    by_contra hsome
    obtain ⟨data, rest, hposted⟩ := List.exists_cons_of_ne_nil hsome
    have hnone := hidle (.asyncWrite 0) rfl
    simp [act, hposted] at hnone
  have hrecv : c.heartbeatRecvTimer.waits = 0 := by
    have hrunning : ¬ 0 < c.heartbeatRecvTimer.running := by
      intro hpos
      obtain ⟨t, ht⟩ := Timer.expire_running _ hpos
      have hnone := hidle .recvExpires rfl
      simp [act, ht] at hnone
    have hexpired : ¬ 0 < c.heartbeatRecvTimer.expired := by
      intro hpos
      obtain ⟨t, ht⟩ := Timer.take_expired _ hpos
      have hnone := hidle (.handleHeartbeatRecv true) rfl
      simp [act, ht] at hnone
    have hcanceled : ¬ 0 < c.heartbeatRecvTimer.canceled := by
      intro hpos
      obtain ⟨t, ht⟩ := Timer.take_canceled _ hpos
      have hnone := hidle (.handleHeartbeatRecv false) rfl
      simp [act, ht] at hnone
    unfold Timer.waits
    omega
  have hsend : c.heartbeadSendTimer.waits = 0 := by
    have hcanceled : ¬ 0 < c.heartbeadSendTimer.canceled := by
      intro hpos
      obtain ⟨t, ht⟩ := Timer.take_canceled _ hpos
      have hnone := hidle (.handleHeartbeatSend false) rfl
      simp [act, ht] at hnone
    have hmute := h.mute
    unfold Timer.live at hmute
    unfold Timer.waits
    omega
  simp [references, hheld, hreads, hwrites, hposted, hrecv, hsend]

/-- A closed connection that sends no heartbeats, or whose send timer has no wait left that
could expire, comes to its end in a bounded number of steps, and is released there with one
call of the close callback, unless the owner keeps it. -/
theorem closed_ends (socketOpen : Bool) (posted : List ByteString) (held : ℕ)
    (es more : List Event) (hrun : Path (step recvCycle sendCycle) (fun _ _ => True)
      (start recvCycle sendCycle (.create socketOpen posted held)) es c)
    (hclosed : c.socketOpen = false)
    (hmute : sendCycle ≤ 0 ∨ c.heartbeadSendTimer.live = 0)
    (hmore : Path (step recvCycle sendCycle) (fun _ e => quiet e = true) c more d) :
    more.length + rank d ≤ rank c ∧
      (d.held = 0 → (∀ e, quiet e = true → step recvCycle sendCycle d e = none) →
        d.closedBack = 1) := by
  have hsound := sound_path socketOpen posted held es hrun
  have hending : Ending c := by
    refine ⟨hclosed, ?_⟩
    obtain hcycle | hlive := hmute
    · exact hsound.timing.sendNone hcycle
    · exact hlive
  clear hrun hclosed hmute
  induction hmore with
  | nil c =>
    refine ⟨by simp, ?_⟩
    intro hheld hstuck
    rw [hsound.released, if_pos (something_left hsound hending hheld hstuck)]
  | cons c u d e more henabled hguard hrest ih =>
    obtain ⟨hnext, hrank⟩ := ending_step hsound hending e hguard henabled
    obtain ⟨hlength, hreleased⟩ := ih (sound_step e hsound henabled) hnext
    refine ⟨?_, hreleased⟩
    rw [List.length_cons]
    omega

/-- The peer of a server goes away while a reply is written and the receive timer expires. -/
def serverRun : List Event :=
  [.asyncWrite 0, .recvExpires, .readDone 0 none, .handleRead 0 []]

def leftHandlers : List Event :=
  [.handleHeartbeatRecv true, .handleWriteMessage 0 []]

def afterServer : Connection :=
  (serverRun.foldlM (step 120 0) (start 120 0 (.create true [[1]] 0))).getD (.create false [] 0)

def afterLeft : Connection :=
  (leftHandlers.foldlM (step 120 0) afterServer).getD (.create false [] 0)

theorem closed_ends_sample : rank afterLeft + 2 ≤ rank afterServer ∧ afterLeft.closedBack = 1 := by
  have hrun : serverRun.foldlM (step 120 0) (start 120 0 (.create true [[1]] 0)) =
    some afterServer := rfl
  have hmore : leftHandlers.foldlM (step 120 0) afterServer = some afterLeft := rfl
  have hquiet : ∀ e ∈ leftHandlers, quiet e = true := by decide
  have h := closed_ends true [[1]] 0 serverRun leftHandlers
    (path_of_steps _ _ serverRun (fun _ _ _ => trivial) hrun) rfl (Or.inl (by omega))
    (path_of_steps _ _ leftHandlers (fun _ e he => hquiet e he) hmore)
  exact ⟨(Nat.add_comm _ _).trans_le h.1, rfl⟩

end Release

section Orphans

/-- Nothing is left of the connection but a wait of the send timer and a message that was
not written. -/
structure Orphan (c : Connection) : Prop where
  closed : c.socketOpen = false
  unread : c.reads = []
  unwritten : c.writes = []
  queued : c.writeMessageQueue ≠ []
  dropped : c.held = 0
  unguarded : c.heartbeatRecvTimer.live = 0
  live : c.heartbeadSendTimer.live = 1

/-- The messages that an event puts behind the one that was not written. -/
def pushes : Event → ℕ
  | .asyncWrite _ => 1
  | .handleHeartbeatSend true => 1
  | _ => 0

theorem Orphan.act (hsound : Sound recvCycle sendCycle c) (h : Orphan c) (e : Event)
    (hdoes : Does recvCycle sendCycle c e d) :
    Orphan d ∧ d.writeMessageQueue.length = c.writeMessageQueue.length + pushes e := by
  have hlive := h.live
  have hunguarded := h.unguarded
  unfold Timer.live at hlive hunguarded
  cases hdoes with
  | call owners hheld => exact absurd h.dropped (Nat.ne_of_gt hheld)
  | drop hheld => exact absurd h.dropped (Nat.ne_of_gt hheld)
  | readDone index op result hread => simp [h.unread] at hread
  | writeDone index result hwrite => simp [h.unwritten] at hwrite
  | recvExpires t ht =>
    have hrunning := (Timer.expire_inv _ t ht).1
    omega
  | sendExpires t ht =>
    obtain ⟨-, hsame⟩ := live_expire _ t ht
    exact ⟨⟨h.closed, h.unread, h.unwritten, h.queued, h.dropped, h.unguarded,
      hsame.trans h.live⟩, rfl⟩
  | readCloses index calls op progress hread hdone => simp [h.unread] at hread
  | headRead index calls bytes hread => simp [h.unread] at hread
  | userdata index calls bytes size hread => simp [h.unread] at hread
  | dataRead index calls size data hread => simp [h.unread] at hread
  | writeCloses index calls hwrite => simp [h.unwritten] at hwrite
  | written index calls front rest hwrite hqueue => simp [h.unwritten] at hwrite
  | asyncWrite index data hposted =>
    rw [asyncWrite_closed]
    · refine ⟨⟨h.closed, h.unread, ?_, by simp, h.dropped, h.unguarded, h.live⟩, by simp [pushes]⟩
      simp [h.unwritten, h.queued]
    · exact h.closed
  | recvCanceled t ht =>
    obtain ⟨-, hsame⟩ := live_canceled _ t ht
    exact ⟨⟨h.closed, h.unread, h.unwritten, h.queued, h.dropped, hsame.trans h.unguarded,
      h.live⟩, rfl⟩
  | recvExpired t ht =>
    have hexpired := (Timer.take_expired_inv _ t ht).1
    omega
  | sendCanceled t ht =>
    obtain ⟨-, hsame⟩ := live_canceled _ t ht
    exact ⟨⟨h.closed, h.unread, h.unwritten, h.queued, h.dropped, h.unguarded,
      hsame.trans h.live⟩, rfl⟩
  | sendExpired t ht =>
    obtain ⟨hexpired, rfl⟩ := Timer.take_expired_inv _ t ht
    have hcycle : sendCycle > 0 := by
      by_contra hnot
      have hnone := hsound.timing.sendNone (by omega)
      have := h.live
      omega
    rw [asyncWrite_closed]
    · unfold updateHeartbeatSendTimer
      rw [if_pos hcycle]
      refine ⟨⟨h.closed, h.unread, ?_, by simp, h.dropped, h.unguarded, ?_⟩, by simp [pushes]⟩
      · simp [h.unwritten, h.queued]
      · simp only [Timer.live, Timer.asyncWait, Timer.expiresFromNow, Timer.cancel]
        omega
    · exact h.closed

theorem Orphan.referenced (h : Orphan c) : references c ≠ 0 := by
  have hlive := h.live
  unfold Timer.live at hlive
  unfold references Timer.waits
  omega

theorem orphan_step (hsound : Sound recvCycle sendCycle c) (h : Orphan c) (e : Event)
    (hstep : step recvCycle sendCycle c e = some d) :
    Orphan d ∧ d.writeMessageQueue.length = c.writeMessageQueue.length + pushes e := by
  obtain ⟨u, hact, rfl⟩ := Option.map_eq_some_iff.mp hstep
  obtain ⟨horphan, hlength⟩ := h.act hsound e (act_does e hact)
  unfold letGo
  rw [if_neg horphan.referenced]
  exact ⟨horphan, hlength⟩

/-- An orphan is never released, whatever happens: its timer expires again and again, and
every time the queue grows by a heartbeat. -/
theorem orphan_stays (socketOpen : Bool) (posted : List ByteString) (held : ℕ)
    (es more : List Event) (hrun : Path (step recvCycle sendCycle) (fun _ _ => True)
      (start recvCycle sendCycle (.create socketOpen posted held)) es c)
    (horphan : Orphan c)
    (hmore : Path (step recvCycle sendCycle) (fun _ _ => True) c more d) :
    Orphan d ∧ d.closedBack = 0 ∧
      d.writeMessageQueue.length = c.writeMessageQueue.length + (more.map pushes).sum ∧
      ((step recvCycle sendCycle d .sendExpires).isSome ∨
        (step recvCycle sendCycle d (.handleHeartbeatSend true)).isSome) := by
  have hsound := sound_path socketOpen posted held es hrun
  clear hrun
  induction hmore with
  | nil c =>
    refine ⟨horphan, ?_, by simp, ?_⟩
    · rw [hsound.released, if_neg horphan.referenced]
    · have hlive := horphan.live
      unfold Timer.live at hlive
      by_cases hrunning : 0 < c.heartbeadSendTimer.running
      · obtain ⟨t, ht⟩ := Timer.expire_running _ hrunning
        left
        simp [step, ConnectionLives.act, ht]
      · obtain ⟨t, ht⟩ := Timer.take_expired c.heartbeadSendTimer (by omega)
        right
        simp [step, ConnectionLives.act, ht]
  | cons c u d e more henabled hguard hrest ih =>
    obtain ⟨hnext, hlength⟩ := orphan_step hsound horphan e henabled
    obtain ⟨hend, hcalled, hgrown, hagain⟩ := ih hnext (sound_step e hsound henabled)
    refine ⟨hend, hcalled, ?_, hagain⟩
    rw [List.map_cons, List.sum_cons]
    omega

/-- The send timer expires, the peer goes away, and only then the handlers are run. -/
def orphaningRun : List Event :=
  [.asyncWrite 0, .sendExpires, .readDone 0 none, .handleRead 0 [], .handleWriteMessage 0 [],
    .handleHeartbeatRecv false]

def orphanRun : List Event :=
  [.handleHeartbeatSend true, .sendExpires, .handleHeartbeatSend true]

def afterOrphaning : Connection :=
  (orphaningRun.foldlM (step 60 20) (start 60 20 (.create true [[1]] 0))).getD
    (.create false [] 0)

def afterOrphan : Connection :=
  (orphanRun.foldlM (step 60 20) afterOrphaning).getD (.create false [] 0)

theorem orphan_stays_sample :
    afterOrphan.closedBack = 0 ∧ afterOrphan.writeMessageQueue.length = 3 := by
  have hrun : orphaningRun.foldlM (step 60 20) (start 60 20 (.create true [[1]] 0)) =
    some afterOrphaning := rfl
  have hmore : orphanRun.foldlM (step 60 20) afterOrphaning = some afterOrphan := rfl
  have horphan : Orphan afterOrphaning :=
    ⟨rfl, rfl, rfl, List.cons_ne_nil _ _, rfl, rfl, rfl⟩
  have h := orphan_stays true [[1]] 0 orphaningRun orphanRun
    (path_of_steps _ _ orphaningRun (fun _ _ _ => trivial) hrun) horphan
    (path_of_steps _ _ orphanRun (fun _ _ _ => trivial) hmore)
  exact ⟨h.2.1, h.2.2.1.trans rfl⟩

end Orphans

end Gingko.ConnectionEnds
