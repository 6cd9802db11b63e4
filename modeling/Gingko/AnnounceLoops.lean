import Gingko.AnnounceDelays
import Gingko.AnnounceServices
import Gingko.GuardedRuns
import Gingko.TaskPools

/-!
The announces of one torrent from its start to its end. An announce is posted to the threads
that call the trackers; the reply comes back to the torrent, which arms its timer for the next
announce. Setting the timer drops the wait that was there, but not a wait that has already
expired. Starting and stopping announce at once, so several announces can be under way.
-/
namespace Gingko.AnnounceLoops

open Base64Codec GuardedRuns TaskPools AnnounceServices

inductive TorrentState where
  | queuedForChecking
  | checkingFiles
  | downloadingMetadata
  | downloading
  | finished
  | seeding
  | allocating
  | checkingResumeData
  deriving DecidableEq

/-- What an announce reads of the torrent and its session. -/
structure Torrent where
  infohash : ByteString
  peer : ExAnnouncePeer
  totalPayloadUpload : BitVec 64
  totalPayloadDownload : BitVec 64
  bytesLeft : BitVec 64
  realSeed : Bool
  thriftTrackers : List Address
  numWant : BitVec 32
  abort : Bool
  paused : Bool
  state : TorrentState

def status (t : Torrent) : ExStatus :=
  if t.abort then .stopped
  else if t.paused then .paused
  else
    match t.state with
    | .downloadingMetadata => .metadata
    | .downloading => .download
    | .finished | .seeding => .seeding
    | .allocating | .checkingFiles | .checkingResumeData | .queuedForChecking => .paused

def exTrackerRequest (t : Torrent) : ExAnnounceRequest where
  infohash := t.infohash
  peer := t.peer
  uploaded := t.totalPayloadUpload
  downloaded := t.totalPayloadDownload
  left := t.bytesLeft
  isSeed := t.realSeed
  numWant := if t.abort then 0 else t.numWant
  status := status t
  trackers := t.thriftTrackers

/-- `armed` is the wait on the timer, `expired` counts the waits that ended without an error
and whose handlers are still to run. `starts` counts the announces that no wait led to, and
`ended` is set when the torrent stops announcing after it was aborted. -/
structure Loop where
  torrent : Torrent
  armed : Bool
  expired : ℕ
  exTrackerFailedCount : ℕ
  pool : Pool ExAnnounceRequest
  replies : List ExAnnounceResponse
  starts : ℕ
  ended : Bool

def Loop.new (t : Torrent) : Loop := ⟨t, false, 0, 0, .new, [], 0, false⟩

/-- Without an error; a wait that was dropped ends with one and does nothing. -/
def exTrackerAnnounce (s : Loop) : Loop :=
  { s with pool := s.pool.post (exTrackerRequest s.torrent) }

def addExTrackerTimer (s : Loop) : Loop := { s with armed := true }

def startAnnouncing (s : Loop) : Loop := exTrackerAnnounce { s with starts := s.starts + 1 }

def stopAnnouncing (s : Loop) : Loop :=
  exTrackerAnnounce
    { s with armed := false, starts := s.starts + 1, ended := s.ended || s.torrent.abort }

/-- What the delay is computed from when a reply comes. -/
structure Pace where
  torrent : AnnounceDelays.Torrent
  settings : AnnounceDelays.SessionSettings

/-- None is a division by zero. -/
def recvExTrackerAnnounceReply (pace : Pace) (response : ExAnnounceResponse) (s : Loop) :
    Option Loop :=
  (AnnounceDelays.Torrent.recvExTrackerAnnounceReply { pace.torrent with abort := s.torrent.abort }
    pace.settings ⟨response.ret, (response.minInterval.getD 0).toInt⟩
    s.exTrackerFailedCount).map fun done =>
      let s := { s with exTrackerFailedCount := done.1 }
      if done.2.isSome then addExTrackerTimer s else s

inductive Event where
  | change (t : Torrent)
  | startAnnouncing
  | stopAnnouncing
  | expire
  | runExpired
  | take
  | finish (i : ℕ) (response : ExAnnounceResponse)
  | deliver (pace : Pace)

/-- The torrent changes in any way, but an abort is for good. -/
def step (threads : ℕ) (s : Loop) : Event → Option Loop
  | .change t => if s.torrent.abort && !t.abort then none else some { s with torrent := t }
  | .startAnnouncing => some (startAnnouncing s)
  | .stopAnnouncing => some (stopAnnouncing s)
  | .expire => if s.armed then some { s with armed := false, expired := s.expired + 1 } else none
  | .runExpired =>
    match s.expired with
    | 0 => none
    | n + 1 => some (exTrackerAnnounce { s with expired := n })
  | .take => (s.pool.take threads).map fun pool => { s with pool := pool }
  | .finish i response => (s.pool.finish i).map fun done =>
      { s with pool := done.2, replies := s.replies ++ [response] }
  | .deliver pace =>
    match s.replies with
    | [] => none
    | response :: replies => recvExTrackerAnnounceReply pace response { s with replies := replies }

section Steps

variable {threads : ℕ} {s s' : Loop}

theorem deliver_some {pace : Pace} {response : ExAnnounceResponse}
    (h : recvExTrackerAnnounceReply pace response s = some s') :
    ∃ count armed, s' = { s with exTrackerFailedCount := count, armed := armed } ∧
      (s.exTrackerFailedCount ≤ 60 → count ≤ 60) ∧
      (s.torrent.abort = true → armed = s.armed) ∧ (s.torrent.abort = false → armed = true) := by
  obtain ⟨⟨count, delay⟩, hdone, rfl⟩ := Option.map_eq_some_iff.mp h
  unfold AnnounceDelays.Torrent.recvExTrackerAnnounceReply at hdone
  cases habort : s.torrent.abort with
  | true =>
    rw [habort, if_pos rfl] at hdone
    cases hdone
    exact ⟨_, s.armed, rfl, id, fun _ => rfl, nofun⟩
  | false =>
    rw [habort, if_neg Bool.false_ne_true] at hdone
    split at hdone
    · cases hdone
      exact ⟨_, true, rfl, fun hle => (AnnounceDelays.countFailure_bounds hle).2, nofun,
        fun _ => rfl⟩
    · obtain ⟨interval, -, heq⟩ := Option.map_eq_some_iff.mp hdone
      cases heq
      exact ⟨0, true, rfl, fun _ => Nat.zero_le _, nofun, fun _ => rfl⟩

/-- What each event does, with the state it needs. -/
inductive Moved (threads : ℕ) (s : Loop) : Event → Loop → Prop
  | change (t : Torrent) (habort : s.torrent.abort = true → t.abort = true) :
      Moved threads s (.change t) { s with torrent := t }
  | startAnnouncing : Moved threads s .startAnnouncing (startAnnouncing s)
  | stopAnnouncing : Moved threads s .stopAnnouncing (stopAnnouncing s)
  | expire (harmed : s.armed = true) :
      Moved threads s .expire { s with armed := false, expired := s.expired + 1 }
  | runExpired (n : ℕ) (hexpired : s.expired = n + 1) :
      Moved threads s .runExpired (exTrackerAnnounce { s with expired := n })
  | take (pool : Pool ExAnnounceRequest) (htake : s.pool.take threads = some pool) :
      Moved threads s .take { s with pool := pool }
  | finish (i : ℕ) (response : ExAnnounceResponse) (request : ExAnnounceRequest)
      (pool : Pool ExAnnounceRequest) (hfinish : s.pool.finish i = some (request, pool)) :
      Moved threads s (.finish i response)
        { s with pool := pool, replies := s.replies ++ [response] }
  | deliver (pace : Pace) (response : ExAnnounceResponse) (replies : List ExAnnounceResponse)
      (count : ℕ) (armed : Bool) (hreplies : s.replies = response :: replies)
      (hcount : s.exTrackerFailedCount ≤ 60 → count ≤ 60)
      (habort : s.torrent.abort = true → armed = s.armed)
      (harmed : s.torrent.abort = false → armed = true) :
      Moved threads s (.deliver pace)
        { s with replies := replies, exTrackerFailedCount := count, armed := armed }

theorem step_moved {e : Event} (h : step threads s e = some s') : Moved threads s e s' := by
  cases e with
  | change t =>
    simp only [step] at h
    split at h
    · cases h
    · next habort =>
      cases h
      refine .change t fun hs => ?_
      rw [hs, Bool.true_and, Bool.not_eq_true, Bool.not_eq_false'] at habort
      exact habort
  | startAnnouncing =>
    cases h
    exact .startAnnouncing
  | stopAnnouncing =>
    cases h
    exact .stopAnnouncing
  | expire =>
    simp only [step] at h
    split at h
    · next harmed =>
      cases h
      exact .expire harmed
    · cases h
  | runExpired =>
    simp only [step] at h
    split at h
    · cases h
    · next n hn =>
      cases h
      exact .runExpired n hn
  | take =>
    obtain ⟨pool, htake, rfl⟩ := Option.map_eq_some_iff.mp h
    exact .take pool htake
  | finish i response =>
    obtain ⟨⟨request, pool⟩, hfinish, rfl⟩ := Option.map_eq_some_iff.mp h
    exact .finish i response request pool hfinish
  | deliver pace =>
    simp only [step] at h
    split at h
    · cases h
    · next response replies hreplies =>
      obtain ⟨count, armed, rfl, hcount, habort, harmed⟩ := deliver_some h
      exact .deliver pace response replies count armed hreplies hcount habort harmed

end Steps

section Runs

/-- The announces under way, as waits, calls or replies. -/
def underWay (s : Loop) : ℕ := s.armed.toNat + s.expired + s.pool.load + s.replies.length

structure Alive (s : Loop) : Prop where
  alive : s.pool.tasks ≠ [] → s.torrent.abort = false → 0 < underWay s
  bound : underWay s ≤ s.starts
  count : s.exTrackerFailedCount ≤ 60
  ended : s.ended = true → s.torrent.abort = true ∧ s.armed = false

variable {threads : ℕ} {s s' : Loop}

theorem load_post (a : ExAnnounceRequest) (p : Pool ExAnnounceRequest) :
    (p.post a).load = p.load + 1 := by
  simp only [Pool.load, Pool.post, List.length_append, List.length_singleton]
  omega

theorem Alive.moved (h : Alive s) {e : Event} (hm : Moved threads s e s') : Alive s' := by
  obtain ⟨halive, hbound, hcount, hended⟩ := h
  cases hm with
  | change t habort =>
    refine ⟨fun htasks ht => halive htasks ?_, hbound, hcount, fun he => ?_⟩
    · by_contra hs
      rw [Bool.not_eq_false] at hs
      rw [habort hs] at ht
      cases ht
    · exact ⟨habort (hended he).1, (hended he).2⟩
  | startAnnouncing =>
    unfold underWay at hbound
    have hload := load_post (exTrackerRequest s.torrent) s.pool
    refine ⟨fun _ _ => ?_, ?_, hcount, hended⟩
    · simp only [underWay, startAnnouncing, exTrackerAnnounce, hload]
      omega
    · simp only [underWay, startAnnouncing, exTrackerAnnounce, hload]
      omega
  | stopAnnouncing =>
    unfold underWay at hbound
    have hload := load_post (exTrackerRequest s.torrent) s.pool
    refine ⟨fun _ _ => ?_, ?_, hcount, fun he => ⟨?_, rfl⟩⟩
    · simp only [underWay, stopAnnouncing, exTrackerAnnounce, hload]
      omega
    · simp only [underWay, stopAnnouncing, exTrackerAnnounce, hload, Bool.toNat_false]
      omega
    · rcases Bool.or_eq_true_iff.mp he with he | he
      · exact (hended he).1
      · exact he
  | expire harmed =>
    unfold underWay at halive hbound
    rw [harmed, Bool.toNat_true] at hbound
    refine ⟨fun _ _ => ?_, ?_, hcount, fun he => ?_⟩
    · simp only [underWay]
      omega
    · simp only [underWay, Bool.toNat_false]
      omega
    · rw [(hended he).2] at harmed
      cases harmed
  | runExpired n hexpired =>
    unfold underWay at hbound
    have hload := load_post (exTrackerRequest s.torrent) s.pool
    refine ⟨fun _ _ => ?_, ?_, hcount, hended⟩
    · simp only [underWay, exTrackerAnnounce, hload]
      omega
    · simp only [underWay, exTrackerAnnounce, hload]
      omega
  | take pool htake =>
    obtain ⟨htasks, -, hposted, hworking, -⟩ := Pool.take_some htake
    unfold underWay Pool.load at halive hbound
    refine ⟨fun hne hs => ?_, ?_, hcount, hended⟩
    · have hpos := halive (htasks ▸ hne) hs
      simp only [underWay, Pool.load]
      omega
    · simp only [underWay, Pool.load]
      omega
  | finish i response request pool hfinish =>
    obtain ⟨-, hposted, hworking, -, -⟩ := Pool.finish_some hfinish
    unfold underWay Pool.load at hbound
    refine ⟨fun _ _ => ?_, ?_, hcount, hended⟩
    · simp only [underWay, List.length_append, List.length_singleton]
      omega
    · simp only [underWay, Pool.load, hposted, List.length_append, List.length_singleton]
      omega
  | deliver pace response replies count armed hreplies hcount' habort harmed =>
    unfold underWay at hbound
    rw [hreplies, List.length_cons] at hbound
    refine ⟨fun _ hs => ?_, ?_, hcount' hcount, fun he => ?_⟩
    · simp only [underWay, harmed hs, Bool.toNat_true]
      omega
    · have hle : armed.toNat ≤ 1 := Bool.toNat_le armed
      simp only [underWay]
      omega
    · obtain ⟨hs, hoff⟩ := hended he
      exact ⟨hs, (habort hs).trans hoff⟩

theorem alive_new (t : Torrent) : Alive (Loop.new t) :=
  ⟨fun h => absurd rfl h, le_rfl, Nat.zero_le _, nofun⟩

theorem Alive.path {t : Torrent} {es : List Event}
    (h : Path (step threads) (fun _ _ => True) (Loop.new t) es s) : Alive s :=
  h.invariant Alive (fun _ _ _ hs _ hstep => hs.moved (step_moved hstep)) (alive_new t)

/-- Until it is aborted a torrent that has announced itself once always has an announce under
way, whatever the trackers answer, and never more than it was started and stopped. -/
theorem announces_survive {t : Torrent} {es : List Event}
    (h : Path (step threads) (fun _ _ => True) (Loop.new t) es s) :
    (s.pool.tasks ≠ [] → s.torrent.abort = false → 0 < underWay s) ∧ underWay s ≤ s.starts ∧
      s.exTrackerFailedCount ≤ 60 :=
  ⟨(Alive.path h).alive, (Alive.path h).bound, (Alive.path h).count⟩

def sampleTorrent : Torrent where
  infohash := [1]
  peer := ⟨[2], [3], 4⟩
  totalPayloadUpload := 0
  totalPayloadDownload := 0
  bytesLeft := 9
  realSeed := false
  thriftTrackers := [([5], 80)]
  numWant := 50
  abort := false
  paused := false
  state := .downloading

def samplePace : Pace := ⟨⟨false, false, 0, 0, 0, 0⟩, ⟨2, 100, 0⟩⟩

/-- The first announce fails at every tracker. -/
def failedRun : List Event :=
  [.startAnnouncing, .take, .finish 0 notAnnounced, .deliver samplePace]

def afterFailure : Loop :=
  (failedRun.foldlM (step 1) (Loop.new sampleTorrent)).getD (Loop.new sampleTorrent)

theorem announces_survive_sample : 0 < underWay afterFailure := by
  have hrun : failedRun.foldlM (step 1) (Loop.new sampleTorrent) = some afterFailure := rfl
  exact (announces_survive (path_of_steps _ _ failedRun (fun _ _ _ => trivial) hrun)).1
    (by decide) rfl

end Runs

section Goodbyes

/-- The torrent has gone and asks for no peers. -/
def Goodbye (r : ExAnnounceRequest) : Prop := r.status = .stopped ∧ r.numWant = 0

theorem goodbye_of_abort {t : Torrent} (h : t.abort = true) : Goodbye (exTrackerRequest t) := by
  simp only [Goodbye, exTrackerRequest, status, h, if_true, and_self]

theorem abort_of_stopped {t : Torrent} (h : (exTrackerRequest t).status = .stopped) :
    t.abort = true := by
  by_contra habort
  simp only [exTrackerRequest, status, if_neg habort] at h
  split at h
  · cases h
  · split at h <;> cases h

structure Ordered (s : Loop) : Prop where
  one : s.pool.working.length ≤ 1
  stopped : ∀ r ∈ s.pool.tasks, r.status = .stopped → s.torrent.abort = true
  sorted : s.pool.tasks.Pairwise fun a b => a.status = .stopped → Goodbye b
  last : s.ended = true → ∃ r, s.pool.tasks.getLast? = some r ∧ Goodbye r

variable {s s' : Loop}

theorem Ordered.announce (h : Ordered s) (u : Loop) (hpool : u.pool = s.pool)
    (htorrent : u.torrent = s.torrent) (hended : u.ended = true → s.torrent.abort = true) :
    Ordered (exTrackerAnnounce u) := by
  have htasks : (exTrackerAnnounce u).pool.tasks =
      s.pool.tasks ++ [exTrackerRequest s.torrent] := by
    rw [exTrackerAnnounce, Pool.tasks_post, hpool, htorrent]
  have htorrent' : (exTrackerAnnounce u).torrent = s.torrent := htorrent
  refine ⟨?_, ?_, ?_, ?_⟩
  · change u.pool.working.length ≤ 1
    rw [hpool]
    exact h.one
  · rw [htasks, htorrent']
    intro r hr hstatus
    rcases List.mem_append.mp hr with hr | hr
    · exact h.stopped r hr hstatus
    · obtain rfl := List.mem_singleton.mp hr
      exact abort_of_stopped hstatus
  · rw [htasks, List.pairwise_append]
    refine ⟨h.sorted, List.pairwise_singleton _ _, fun a ha b hb hstatus => ?_⟩
    obtain rfl := List.mem_singleton.mp hb
    exact goodbye_of_abort (h.stopped a ha hstatus)
  · intro he
    rw [htasks, List.getLast?_concat]
    exact ⟨_, rfl, goodbye_of_abort (hended he)⟩

theorem Ordered.moved (h : Ordered s) (halive : Alive s) {e : Event} (hm : Moved 1 s e s') :
    Ordered s' := by
  cases hm with
  | change t habort =>
    exact ⟨h.one, fun r hr hstatus => habort (h.stopped r hr hstatus), h.sorted, h.last⟩
  | startAnnouncing => exact h.announce _ rfl rfl fun he => (halive.ended he).1
  | stopAnnouncing =>
    refine h.announce _ rfl rfl fun he => ?_
    rcases Bool.or_eq_true_iff.mp he with he | he
    · exact (halive.ended he).1
    · exact he
  | expire => exact ⟨h.one, h.stopped, h.sorted, h.last⟩
  | runExpired n => exact h.announce _ rfl rfl fun he => (halive.ended he).1
  | take pool htake =>
    obtain ⟨htasks, hroom, -, hworking, -⟩ := Pool.take_some htake
    have hone : pool.working.length ≤ 1 := by omega
    exact ⟨hone, htasks ▸ h.stopped, htasks ▸ h.sorted, htasks ▸ h.last⟩
  | finish i response request pool hfinish =>
    obtain ⟨-, -, hworking, -, hsame⟩ := Pool.finish_some hfinish
    have htasks := hsame h.one
    have hone : pool.working.length ≤ 1 := by
      have hone := h.one
      omega
    exact ⟨hone, htasks ▸ h.stopped, htasks ▸ h.sorted, htasks ▸ h.last⟩
  | deliver => exact ⟨h.one, h.stopped, h.sorted, h.last⟩

theorem ordered_new (t : Torrent) : Ordered (Loop.new t) :=
  ⟨Nat.zero_le _, nofun, List.Pairwise.nil, nofun⟩

/-- A single thread has called the trackers in the order of the announces, so the last call
for a torrent that has stopped for good says that it has gone, and so does every call after
the first that says so. No timer is left. -/
theorem last_call_says_goodbye {t : Torrent} {es : List Event}
    (h : Path (step 1) (fun _ _ => True) (Loop.new t) es s) (hended : s.ended = true)
    (hquiet : s.pool.load = 0) :
    (∃ r, s.pool.finished.getLast? = some r ∧ Goodbye r) ∧
      (s.pool.finished.Pairwise fun a b => a.status = .stopped → Goodbye b) ∧
      s.armed = false := by
  have hboth := h.invariant (fun s => Alive s ∧ Ordered s)
    (fun a e b hs _ hstep => ⟨hs.1.moved (step_moved hstep), hs.2.moved hs.1 (step_moved hstep)⟩)
    ⟨alive_new t, ordered_new t⟩
  obtain ⟨halive, hordered⟩ := hboth
  have hposted : s.pool.posted = [] := List.length_eq_zero_iff.mp (by
    unfold Pool.load at hquiet
    omega)
  have hworking : s.pool.working = [] := List.length_eq_zero_iff.mp (by
    unfold Pool.load at hquiet
    omega)
  have htasks : s.pool.tasks = s.pool.finished := by
    rw [Pool.tasks, hposted, hworking, List.append_nil, List.append_nil]
  rw [← htasks]
  exact ⟨hordered.last hended, hordered.sorted, (halive.ended hended).2⟩

/-- Aborted while the first announce waits for the thread. -/
def abortedRun : List Event :=
  [.startAnnouncing, .change { sampleTorrent with abort := true }, .stopAnnouncing]

def goodbyeRun : List Event := [.take, .finish 0 notAnnounced, .take, .finish 0 notAnnounced]

def afterGoodbye : Loop :=
  ((abortedRun ++ goodbyeRun).foldlM (step 1) (Loop.new sampleTorrent)).getD
    (Loop.new sampleTorrent)

theorem last_call_says_goodbye_sample :
    ∃ r, afterGoodbye.pool.finished.getLast? = some r ∧ Goodbye r := by
  have hrun : (abortedRun ++ goodbyeRun).foldlM (step 1) (Loop.new sampleTorrent) =
    some afterGoodbye := rfl
  exact (last_call_says_goodbye (path_of_steps _ _ _ (fun _ _ _ => trivial) hrun) rfl rfl).1

/-- An event that neither starts nor stops the announces nor changes the torrent. -/
def Event.own : Event → Bool
  | .change _ | .startAnnouncing | .stopAnnouncing => false
  | _ => true

/-- The steps that are left of the announces under way. -/
def left (s : Loop) : ℕ :=
  4 * s.expired + 3 * s.pool.posted.length + 2 * s.pool.working.length + s.replies.length

theorem left_moved (halive : Alive s) (hended : s.ended = true) {threads : ℕ} {e : Event}
    (hown : e.own = true) (hm : Moved threads s e s') :
    s'.ended = true ∧ left s' + 1 = left s := by
  cases hm with
  | change => cases hown
  | startAnnouncing => cases hown
  | stopAnnouncing => cases hown
  | expire harmed =>
    rw [(halive.ended hended).2] at harmed
    cases harmed
  | runExpired n hexpired =>
    refine ⟨hended, ?_⟩
    simp only [left, exTrackerAnnounce, Pool.post, List.length_append, List.length_singleton]
    omega
  | take pool htake =>
    obtain ⟨-, -, hposted, hworking, -⟩ := Pool.take_some htake
    refine ⟨hended, ?_⟩
    simp only [left]
    omega
  | finish i response request pool hfinish =>
    obtain ⟨-, hposted, hworking, -, -⟩ := Pool.finish_some hfinish
    refine ⟨hended, ?_⟩
    simp only [left, hposted, List.length_append, List.length_singleton]
    omega
  | deliver pace response replies count armed hreplies =>
    refine ⟨hended, ?_⟩
    simp only [left, hreplies, List.length_cons]
    omega

theorem own_run {threads : ℕ} {own : List Event} (halive : Alive s) (hended : s.ended = true)
    (hown : Path (step threads) (fun _ e => e.own = true) s own s') :
    Alive s' ∧ s'.ended = true ∧ left s' + own.length = left s := by
  induction hown with
  | nil => exact ⟨halive, hended, rfl⟩
  | cons s u s' e own henabled hguard _ ih =>
    have hmoved := step_moved henabled
    obtain ⟨hended', hleft⟩ := left_moved halive hended hguard hmoved
    obtain ⟨hlast, hstill, hrest⟩ := ih (halive.moved hmoved) hended'
    refine ⟨hlast, hstill, ?_⟩
    rw [List.length_cons]
    omega

/-- The reply to an aborted torrent arms no timer, so there is no delay to compute. -/
theorem deliver_aborted (pace : Pace) (response : ExAnnounceResponse)
    (habort : s.torrent.abort = true) :
    (recvExTrackerAnnounceReply pace response s).isSome = true := by
  unfold recvExTrackerAnnounceReply AnnounceDelays.Torrent.recvExTrackerAnnounceReply
  rw [habort, if_pos rfl, Option.map_some]
  rfl

/-- One thread is enough for a step to be possible while something is left. -/
theorem own_step {threads : ℕ} (hthreads : 0 < threads) (habort : s.torrent.abort = true)
    (hleft : 0 < left s) : ∃ e u, e.own = true ∧ step threads s e = some u := by
  suffices h : ∃ e : Event, e.own = true ∧ (step threads s e).isSome = true by
    obtain ⟨e, hown, hsome⟩ := h
    obtain ⟨u, hu⟩ := Option.isSome_iff_exists.mp hsome
    exact ⟨e, u, hown, hu⟩
  by_cases hexpired : s.expired = 0
  · cases hreplies : s.replies with
    | cons response replies =>
      refine ⟨.deliver samplePace, rfl, ?_⟩
      simp only [step, hreplies]
      exact deliver_aborted samplePace response habort
    | nil =>
      cases hworking : s.pool.working with
      | cons request working =>
        exact ⟨.finish 0 notAnnounced, rfl, by simp [step, Pool.finish, hworking]⟩
      | nil =>
        -- nobody is at work, so a thread is free for the first that waits
        cases hposted : s.pool.posted with
        | cons request posted =>
          exact ⟨.take, rfl, by simp [step, Pool.take, hposted, hworking, hthreads]⟩
        | nil => simp [left, hexpired, hreplies, hworking, hposted] at hleft
  · obtain ⟨n, hn⟩ := Nat.exists_eq_succ_of_ne_zero hexpired
    exact ⟨.runExpired, rfl, by simp [step, hn]⟩

theorem own_run_ends {threads : ℕ} (hthreads : 0 < threads) (n : ℕ) (halive : Alive s)
    (hended : s.ended = true) (hleft : left s = n) :
    ∃ own u, Path (step threads) (fun _ e => e.own = true) s own u ∧ left u = 0 := by
  induction n generalizing s with
  | zero => exact ⟨[], s, .nil s, hleft⟩
  | succ n ih =>
    obtain ⟨e, t, hown, hstep⟩ := own_step hthreads (halive.ended hended).1 (by omega)
    have hmoved := step_moved hstep
    obtain ⟨hended', hless⟩ := left_moved halive hended hown hmoved
    obtain ⟨own, u, hrun, hdone⟩ := ih (halive.moved hmoved) hended' (by omega)
    exact ⟨e :: own, u, .cons s t u e own hstep hown hrun, hdone⟩

/-- What is under way when the torrent has stopped for good comes to its end, in a number of
steps that the answers of the trackers do not change: a step is possible as long as something
is left, and from wherever the steps have led they can go on until nothing is. -/
theorem announces_end {t : Torrent} {threads : ℕ} (hthreads : 0 < threads) {es own : List Event}
    (h : Path (step threads) (fun _ _ => True) (Loop.new t) es s) (hended : s.ended = true)
    (hown : Path (step threads) (fun _ e => e.own = true) s own s') :
    left s' + own.length = left s ∧
      (0 < left s' → ∃ e u, e.own = true ∧ step threads s' e = some u) ∧
      ∃ rest u, Path (step threads) (fun _ e => e.own = true) s' rest u ∧ left u = 0 ∧
        own.length + rest.length = left s := by
  obtain ⟨halive, hstill, hcount⟩ := own_run (Alive.path h) hended hown
  refine ⟨hcount, own_step hthreads (halive.ended hstill).1, ?_⟩
  obtain ⟨rest, u, hrest, hdone⟩ := own_run_ends hthreads (left s') halive hstill rfl
  obtain ⟨_, _, hmore⟩ := own_run halive hstill hrest
  exact ⟨rest, u, hrest, hdone, by omega⟩

theorem announces_end_sample : left afterGoodbye + goodbyeRun.length = 6 ∧
    ∃ rest u, Path (step 1) (fun _ e => e.own = true) afterGoodbye rest u ∧ left u = 0 ∧
      goodbyeRun.length + rest.length = 6 := by
  have hrun : abortedRun.foldlM (step 1) (Loop.new sampleTorrent) =
    some ((abortedRun.foldlM (step 1) (Loop.new sampleTorrent)).getD (Loop.new sampleTorrent)) :=
    rfl
  have hown : goodbyeRun.foldlM (step 1)
      ((abortedRun.foldlM (step 1) (Loop.new sampleTorrent)).getD (Loop.new sampleTorrent)) =
    some afterGoodbye := rfl
  have hends := announces_end Nat.one_pos
    (path_of_steps _ _ abortedRun (fun _ _ _ => trivial) hrun) rfl
    (path_of_steps _ _ goodbyeRun (fun _ e he => by
      simp only [goodbyeRun, List.mem_cons, List.not_mem_nil, or_false] at he
      rcases he with rfl | rfl | rfl | rfl <;> rfl) hown)
  exact ⟨hends.1, hends.2.2⟩

end Goodbyes

end Gingko.AnnounceLoops
