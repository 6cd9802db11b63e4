import Gingko.GuardedRuns
import Mathlib.Data.Int.Basic

/-!
The event loop of a download up to its return value. One thread runs the
callbacks one after another: the alerts of the torrent, the three timers and the
replies of trackers. What libtorrent, the file system and the clock answer comes
with the event. A timer may fire after it was cancelled, when it had expired
before. An exception in a callback ends the loop.
-/
namespace Gingko.Downloads

open GuardedRuns

structure Params where
  seedingTime : ℤ
  timeout : ℤ
  hangTimeout : ℤ
  memLimit : ℤ
  dynamicAllocate : ℤ
  needDownToTmpFirst : Bool
  quitByTrackerFailed : Bool

inductive TorrentState where
  | downloadingMetadata
  | downloading
  | other
  deriving DecidableEq

structure TorrentStatus where
  isFinished : Bool
  progressPpm : ℤ
  state : TorrentState
  totalPayloadDownload : ℤ

structure ClusterStatus where
  stopped : Bool
  retval : ℤ
  isFinished : Bool

/-- Where `Download` is. While it runs, a call of `ProcessAlert` is queued with its
argument `loop`; after the last one the loop runs out of work. -/
inductive Stage where
  | starting
  | running (loop : Bool)
  | draining
  | returned (ret : ℤ)
  deriving DecidableEq

/-- `removed` is set when libtorrent is told to remove the torrent, and `corrected`
once `OnStorageMoved` has been run and `CorrectModeAndSymlinks` returned true. -/
structure State where
  stage : Stage
  ret : ℤ
  shouldStop : Bool
  isTimeout : Bool
  isMemExceed : Bool
  lastCheckTime : ℤ
  lastCheckDownloaded : ℤ
  timeoutArmed : Bool
  hangArmed : Bool
  seedingArmed : Bool
  moving : Bool
  removed : Bool
  corrected : Bool

def State.initial (now : ℤ) : State where
  stage := .starting
  ret := 0
  shouldStop := false
  isTimeout := false
  isMemExceed := false
  lastCheckTime := now
  lastCheckDownloaded := 0
  timeoutArmed := false
  hangArmed := false
  seedingArmed := false
  moving := false
  removed := false
  corrected := false

/-- The alerts that do something, with what their handlers see: whether a listen
failure is fatal, the outcome of a change of state, the numbers of pieces there,
wanted and in the torrent, and what `CorrectModeAndSymlinks` returns. -/
inductive Alert where
  | listenFailed (fatal : Bool)
  | stateChanged (ok : Bool)
  | torrentFinished (pieces orgPieces numPieces : ℕ) (corrects : Bool)
  | storageMoved (corrects : Bool)
  | torrentError
  | torrentRemoved
  | storageMovedFailed
  | other

inductive Event where
  | start (ok : Bool)
  | processAlert (signalled : Bool) (alerts : List Alert) (cluster : Option ClusterStatus)
  | timeoutTimer (ts : TorrentStatus)
  | hangCheck (ts : TorrentStatus) (now : ℤ) (haveSeed : Bool) (rss : ℤ)
  | seedingTimer
  | announce (ret : ℤ)
  | exception
  | finish

section Callbacks

variable (params : Params)

def removeTorrent (s : State) : State := { s with removed := true }

/-- The torrent is removed and the return value says why. -/
def fail (code : ℤ) (s : State) : State := { removeTorrent s with ret := code }

def timeoutTimerCallback (ts : TorrentStatus) (s : State) : State :=
  removeTorrent { s with
    isTimeout := s.isTimeout || !ts.isFinished
    timeoutArmed := false }

/-- The last check in `HangCheckCallback`, which else starts its timer again. -/
def checkMemory (rss : ℤ) (s : State) : State :=
  if 0 < params.memLimit ∧ params.memLimit < rss then
    removeTorrent { s with
      isMemExceed := true
      hangArmed := false }
  else s

def Stalled (ts : TorrentStatus) (haveSeed : Bool) (s : State) : Prop :=
  (ts.state = .downloading ∧ ts.totalPayloadDownload = s.lastCheckDownloaded) ∨
    (ts.state = .downloadingMetadata ∧ haveSeed = false)

instance (ts : TorrentStatus) (haveSeed : Bool) (s : State) : Decidable (Stalled ts haveSeed s) :=
  inferInstanceAs (Decidable (_ ∨ _))

def hangCheckCallback (ts : TorrentStatus) (now : ℤ) (haveSeed : Bool) (rss : ℤ) (s : State) :
    State :=
  if ts.progressPpm = 1000000 then { s with hangArmed := false }
  else if Stalled ts haveSeed s then
    if s.lastCheckTime + params.hangTimeout - now ≤ 0 then
      removeTorrent { s with
        isTimeout := true
        hangArmed := false }
    else checkMemory params rss s
  else
    checkMemory params rss { s with
      lastCheckTime := now
      lastCheckDownloaded := ts.totalPayloadDownload }

def seedingTimerCallback (s : State) : State := removeTorrent { s with seedingArmed := false }

def announceCallback (ret : ℤ) (s : State) : State :=
  if ret = 26234 then fail 50 s
  else if ret = 10000 then
    if params.quitByTrackerFailed then fail 51 s else s
  else s

def toSeeding (s : State) : State :=
  if params.seedingTime = -1 then s else { s with seedingArmed := true }

def onStorageMoved (corrects : Bool) (s : State) : Bool × State :=
  if corrects then (true, toSeeding params { s with corrected := true }) else (false, s)

def onTorrentFinished (pieces orgPieces numPieces : ℕ) (corrects : Bool) (s : State) :
    Bool × State :=
  if 0 ≤ params.dynamicAllocate ∧ pieces < orgPieces ∧ 0 < numPieces then (true, s)
  else if params.needDownToTmpFirst then (true, { s with moving := true })
  else onStorageMoved params corrects s

/-- A handler that returns false ends the download. -/
def failUnless (code : ℤ) (result : Bool × State) : State :=
  if result.1 then result.2 else fail code result.2

def onTorrentRemoved (s : State) : State :=
  { s with
    ret := if s.isTimeout then -7 else if s.isMemExceed then -9 else s.ret
    shouldStop := true }

/-- One round of the loop over the alerts. The torrent is reported removed only
after it was. -/
def handleAlert (s : State) : Alert → Option State
  | .listenFailed fatal => some (failUnless (-2) (!fatal, s))
  | .stateChanged ok => some (failUnless (-3) (ok, s))
  | .torrentFinished pieces orgPieces numPieces corrects =>
    some (failUnless (-4) (onTorrentFinished params pieces orgPieces numPieces corrects s))
  | .storageMoved corrects => some (failUnless (-5) (onStorageMoved params corrects s))
  | .torrentError => some (fail (-6) s)
  | .torrentRemoved => if s.removed then some (onTorrentRemoved s) else none
  | .storageMovedFailed => some (fail (-8) s)
  | .other => some s

def checkCluster (cluster : Option ClusterStatus) (s : State) : State :=
  match cluster with
  | none => s
  | some c =>
    if c.stopped ∧ c.retval ≠ 0 ∧ c.isFinished = false then fail c.retval s else s

def queueNext (loop : Bool) (s : State) : State :=
  { s with stage := if loop then .running (!s.shouldStop) else .draining }

def processAlert (loop signalled : Bool) (alerts : List Alert) (cluster : Option ClusterStatus)
    (s : State) : Option State :=
  match alerts.foldlM (handleAlert params) (if signalled then fail 20 s else s) with
  | none => none
  | some handled => some (queueNext loop (checkCluster cluster handled))

def startDownload (s : State) : State :=
  { s with
    stage := .running true
    hangArmed := true
    timeoutArmed := decide (0 < params.timeout) }

def State.active (s : State) : Bool :=
  match s.stage with
  | .running _ => true
  | .draining => true
  | _ => false

def step (s : State) : Event → Option State
  | .start ok =>
    if s.stage = .starting then
      some (if ok then startDownload params s else { s with stage := .returned (-1) })
    else none
  | .processAlert signalled alerts cluster =>
    match s.stage with
    | .running loop => processAlert params loop signalled alerts cluster s
    | _ => none
  | .timeoutTimer ts =>
    if s.active && s.timeoutArmed then some (timeoutTimerCallback ts s) else none
  | .hangCheck ts now haveSeed rss =>
    if s.active && s.hangArmed then some (hangCheckCallback params ts now haveSeed rss s) else none
  | .seedingTimer =>
    if s.active && s.seedingArmed then some (seedingTimerCallback s) else none
  | .announce ret => if s.active then some (announceCallback params ret s) else none
  | .exception => if s.active then some { s with stage := .returned (-1) } else none
  | .finish => if s.stage = .draining then some { s with stage := .returned s.ret } else none

end Callbacks

section Sound

/-- The download is either in place or known to have failed. -/
def Accounted (s : State) : Prop :=
  s.corrected = true ∨ s.ret ≠ 0 ∨ s.isTimeout = true ∨ s.isMemExceed = true

/-- The torrent is removed and the loop is stopped for a reason that is recorded. -/
structure Sound (s : State) : Prop where
  removed : s.removed = true → Accounted s
  seeding : s.seedingArmed = true → s.corrected = true
  stopped : s.shouldStop = true → s.corrected = true ∨ s.ret ≠ 0

/-- The loop is left only when it is stopped. -/
def Staged (s : State) : Prop :=
  match s.stage with
  | .starting => True
  | .running loop => loop = false → s.shouldStop = true
  | .draining => s.shouldStop = true
  | .returned ret => ret = 0 → s.corrected = true

theorem sound_initial (now : ℤ) : Sound (State.initial now) where
  removed h := by simp [State.initial] at h
  seeding h := by simp [State.initial] at h
  stopped h := by simp [State.initial] at h

theorem onTorrentRemoved_ret (s : State)
    (h : s.ret ≠ 0 ∨ s.isTimeout = true ∨ s.isMemExceed = true) : (onTorrentRemoved s).ret ≠ 0 := by
  show (if s.isTimeout = true then (-7 : ℤ) else if s.isMemExceed = true then -9 else s.ret) ≠ 0
  by_cases htimeout : s.isTimeout = true
  · rw [if_pos htimeout]
    decide
  · rw [if_neg htimeout]
    by_cases hmem : s.isMemExceed = true
    · rw [if_pos hmem]
      decide
    · rw [if_neg hmem]
      obtain hret | hbad | hbad := h
      · exact hret
      · exact absurd hbad htimeout
      · exact absurd hbad hmem

/-- What a callback may do: it leaves the stage alone, never takes back a stop, and
keeps every removal accounted for. -/
structure Carried (s s' : State) : Prop where
  stage : s'.stage = s.stage
  stop : s.shouldStop = true → s'.shouldStop = true
  sound : Sound s → Sound s'

theorem Carried.refl (s : State) : Carried s s := ⟨rfl, fun h => h, fun h => h⟩

theorem Carried.trans {s t u : State} (h : Carried s t) (h' : Carried t u) : Carried s u :=
  ⟨h'.stage.trans h.stage, fun hstop => h'.stop (h.stop hstop), fun hs => h'.sound (h.sound hs)⟩

/-- Removing the torrent is fine once there is a reason on record. -/
theorem carried_removeTorrent {s t : State} (h : Carried s t) (hreason : Accounted t) :
    Carried s (removeTorrent t) where
  stage := h.stage
  stop := h.stop
  sound hs := ⟨fun _ => hreason, (h.sound hs).seeding, (h.sound hs).stopped⟩

theorem carried_fail (code : ℤ) (s : State) (hcode : code ≠ 0) : Carried s (fail code s) where
  stage := rfl
  stop h := h
  sound hs := ⟨fun _ => .inr (.inl hcode), hs.seeding, fun _ => .inr hcode⟩

theorem carried_failUnless (code : ℤ) (s : State) (result : Bool × State) (hcode : code ≠ 0)
    (h : Carried s result.2) : Carried s (failUnless code result) := by
  unfold failUnless
  split
  · exact h
  · exact h.trans (carried_fail code result.2 hcode)

variable (params : Params)

theorem carried_onStorageMoved (corrects : Bool) (s : State) :
    Carried s (onStorageMoved params corrects s).2 := by
  unfold onStorageMoved toSeeding
  split
  · split
    · exact ⟨rfl, fun h => h, fun _ => ⟨fun _ => .inl rfl, fun _ => rfl, fun _ => .inl rfl⟩⟩
    · exact ⟨rfl, fun h => h, fun _ => ⟨fun _ => .inl rfl, fun _ => rfl, fun _ => .inl rfl⟩⟩
  · exact Carried.refl s

theorem carried_onTorrentFinished (pieces orgPieces numPieces : ℕ) (corrects : Bool) (s : State) :
    Carried s (onTorrentFinished params pieces orgPieces numPieces corrects s).2 := by
  unfold onTorrentFinished
  split
  · exact Carried.refl s
  · split
    · exact ⟨rfl, fun h => h, fun hs => ⟨hs.removed, hs.seeding, hs.stopped⟩⟩
    · exact carried_onStorageMoved params corrects s

/-- A recorded timeout or excess becomes the return value when the torrent is gone. -/
theorem carried_onTorrentRemoved (s : State) (hremoved : s.removed = true) :
    Carried s (onTorrentRemoved s) := by
  refine ⟨rfl, fun _ => rfl, ?_⟩
  intro hs
  obtain hcorrected | hreason := hs.removed hremoved
  · exact ⟨fun _ => .inl hcorrected, hs.seeding, fun _ => .inl hcorrected⟩
  · have hret := onTorrentRemoved_ret s hreason
    exact ⟨fun _ => .inr (.inl hret), hs.seeding, fun _ => .inr hret⟩

theorem carried_handleAlert (a : Alert) (s s' : State) (hstep : handleAlert params s a = some s') :
    Carried s s' := by
  cases a with
  | listenFailed fatal =>
    obtain rfl := Option.some.inj hstep
    exact carried_failUnless (-2) s _ (by decide) (Carried.refl s)
  | stateChanged ok =>
    obtain rfl := Option.some.inj hstep
    exact carried_failUnless (-3) s _ (by decide) (Carried.refl s)
  | torrentFinished pieces orgPieces numPieces corrects =>
    obtain rfl := Option.some.inj hstep
    exact carried_failUnless (-4) s _ (by decide)
      (carried_onTorrentFinished params pieces orgPieces numPieces corrects s)
  | storageMoved corrects =>
    obtain rfl := Option.some.inj hstep
    exact carried_failUnless (-5) s _ (by decide) (carried_onStorageMoved params corrects s)
  | torrentError =>
    obtain rfl := Option.some.inj hstep
    exact carried_fail (-6) s (by decide)
  | torrentRemoved =>
    obtain ⟨hremoved, heq⟩ := Option.ite_none_right_eq_some.mp hstep
    obtain rfl := Option.some.inj heq
    exact carried_onTorrentRemoved s hremoved
  | storageMovedFailed =>
    obtain rfl := Option.some.inj hstep
    exact carried_fail (-8) s (by decide)
  | other =>
    obtain rfl := Option.some.inj hstep
    exact Carried.refl s

theorem carried_handleAlerts (alerts : List Alert) (s s' : State)
    (hstep : alerts.foldlM (handleAlert params) s = some s') : Carried s s' := by
  induction alerts generalizing s with
  | nil =>
    obtain rfl := Option.some.inj hstep
    exact Carried.refl s
  | cons a alerts ih =>
    obtain ⟨t, hfirst, hrest⟩ := Option.bind_eq_some_iff.mp hstep
    exact (carried_handleAlert params a s t hfirst).trans (ih t hrest)

theorem carried_checkCluster (cluster : Option ClusterStatus) (s : State) :
    Carried s (checkCluster cluster s) := by
  cases cluster with
  | none => exact Carried.refl s
  | some c =>
    unfold checkCluster
    dsimp only
    split
    · next hfailed => exact carried_fail c.retval s hfailed.2.1
    · exact Carried.refl s

/-- A reason is put on record and a timer is done with. -/
theorem carried_record (s : State) (isTimeout isMemExceed : Bool) (hangArmed timeoutArmed : Bool)
    (htimeout : s.isTimeout = true → isTimeout = true)
    (hmem : s.isMemExceed = true → isMemExceed = true) :
    Carried s { s with
      isTimeout := isTimeout
      isMemExceed := isMemExceed
      hangArmed := hangArmed
      timeoutArmed := timeoutArmed } := by
  refine ⟨rfl, fun h => h, fun hs => ⟨?_, hs.seeding, hs.stopped⟩⟩
  intro hremoved
  obtain hcorrected | hret | hbefore | hbefore := hs.removed hremoved
  · exact .inl hcorrected
  · exact .inr (.inl hret)
  · exact .inr (.inr (.inl (htimeout hbefore)))
  · exact .inr (.inr (.inr (hmem hbefore)))

theorem carried_checkMemory (rss : ℤ) (s : State) : Carried s (checkMemory params rss s) := by
  unfold checkMemory
  split
  · exact carried_removeTorrent
      (carried_record s s.isTimeout true false s.timeoutArmed (fun h => h) (fun _ => rfl))
      (.inr (.inr (.inr rfl)))
  · exact Carried.refl s

theorem carried_hangCheckCallback (ts : TorrentStatus) (now : ℤ) (haveSeed : Bool) (rss : ℤ)
    (s : State) : Carried s (hangCheckCallback params ts now haveSeed rss s) := by
  unfold hangCheckCallback
  split
  · exact carried_record s s.isTimeout s.isMemExceed false s.timeoutArmed (fun h => h) (fun h => h)
  · split
    · split
      · exact carried_removeTorrent
          (carried_record s true s.isMemExceed false s.timeoutArmed (fun _ => rfl) (fun h => h))
          (.inr (.inr (.inl rfl)))
      · exact carried_checkMemory params rss s
    · have hchecked : Carried s { s with
          lastCheckTime := now
          lastCheckDownloaded := ts.totalPayloadDownload } :=
        ⟨rfl, fun h => h, fun hs => ⟨hs.removed, hs.seeding, hs.stopped⟩⟩
      exact hchecked.trans (carried_checkMemory params rss _)

theorem carried_announceCallback (ret : ℤ) (s : State) :
    Carried s (announceCallback params ret s) := by
  unfold announceCallback
  split
  · exact carried_fail 50 s (by decide)
  · split
    · split
      · exact carried_fail 51 s (by decide)
      · exact Carried.refl s
    · exact Carried.refl s

/-- The seeding timer runs only once the files are in place. -/
theorem carried_seedingTimerCallback (s : State) (harmed : s.seedingArmed = true) :
    Carried s (seedingTimerCallback s) := by
  refine ⟨rfl, fun h => h, ?_⟩
  intro hs
  have hcorrected := hs.seeding harmed
  exact ⟨fun _ => .inl hcorrected, fun _ => hcorrected, hs.stopped⟩

theorem carried_timeoutTimerCallback (ts : TorrentStatus) (s : State)
    (hreason : ts.isFinished = true → Accounted s) : Carried s (timeoutTimerCallback ts s) := by
  refine carried_removeTorrent
    (carried_record s (s.isTimeout || !ts.isFinished) s.isMemExceed s.hangArmed false ?_
      (fun h => h)) ?_
  · intro htimeout
    rw [htimeout, Bool.true_or]
  · cases hfinished : ts.isFinished with
    | false => exact .inr (.inr (.inl (Bool.or_true _)))
    | true =>
      obtain hcorrected | hret | htimeout | hmem := hreason hfinished
      · exact .inl hcorrected
      · exact .inr (.inl hret)
      · exact .inr (.inr (.inl (by simp [htimeout])))
      · exact .inr (.inr (.inr hmem))

/-- A callback of an active loop stays within its stage. -/
theorem staged_of_carried (s s' : State) (hactive : s.active = true) (hcarried : Carried s s')
    (h : Staged s) : Staged s' := by
  unfold Staged at h ⊢
  unfold State.active at hactive
  rw [hcarried.stage]
  cases hstage : s.stage with
  | starting => trivial
  | running loop =>
    rw [hstage] at h
    exact fun hloop => hcarried.stop (h hloop)
  | draining =>
    rw [hstage] at h
    exact hcarried.stop h
  | returned ret =>
    rw [hstage] at hactive
    contradiction

end Sound

section Runs

variable (params : Params)

/-- A timeout that finds the torrent finished comes after the files are in place,
or when the download is known to have failed. -/
def TimesOutAccounted (s : State) : Event → Prop
  | .timeoutTimer ts => ts.isFinished = true → Accounted s
  | _ => True

structure Safe (s : State) : Prop where
  sound : Sound s
  staged : Staged s

theorem safe_initial (now : ℤ) : Safe (State.initial now) := ⟨sound_initial now, trivial⟩

theorem safe_of_carried (s s' : State) (hactive : s.active = true) (hcarried : Carried s s')
    (h : Safe s) : Safe s' :=
  ⟨hcarried.sound h.sound, staged_of_carried s s' hactive hcarried h.staged⟩

theorem safe_processAlert (loop signalled : Bool) (alerts : List Alert)
    (cluster : Option ClusterStatus) (s s' : State) (hstage : s.stage = .running loop)
    (hstep : processAlert params loop signalled alerts cluster s = some s') (h : Safe s) :
    Safe s' := by
  unfold processAlert at hstep
  split at hstep
  · contradiction
  · next handled halerts =>
    obtain rfl := Option.some.inj hstep
    have hfirst : Carried s (if signalled then fail 20 s else s) := by
      split
      · exact carried_fail 20 s (by decide)
      · exact Carried.refl s
    have hcarried := (hfirst.trans (carried_handleAlerts params alerts _ handled halerts)).trans
      (carried_checkCluster cluster handled)
    have hsound := hcarried.sound h.sound
    refine ⟨⟨hsound.removed, hsound.seeding, hsound.stopped⟩, ?_⟩
    cases loop with
    | true =>
      intro hlast
      simpa [queueNext] using hlast
    | false =>
      have hstopped := h.staged
      unfold Staged at hstopped
      rw [hstage] at hstopped
      exact hcarried.stop (hstopped rfl)

theorem safe_step (s s' : State) (e : Event) (h : Safe s) (hguard : TimesOutAccounted s e)
    (hstep : step params s e = some s') : Safe s' := by
  cases e with
  | start ok =>
    obtain ⟨_, heq⟩ := Option.ite_none_right_eq_some.mp hstep
    obtain rfl := Option.some.inj heq
    cases ok with
    | true =>
      exact ⟨⟨h.sound.removed, h.sound.seeding, h.sound.stopped⟩,
        by simp [Staged, startDownload]⟩
    | false => exact ⟨⟨h.sound.removed, h.sound.seeding, h.sound.stopped⟩, by simp [Staged]⟩
  | processAlert signalled alerts cluster =>
    change (match s.stage with
      | .running loop => processAlert params loop signalled alerts cluster s
      | _ => none) = some s' at hstep
    split at hstep
    · next loop hstage =>
      exact safe_processAlert params loop signalled alerts cluster s s' hstage hstep h
    · contradiction
  | timeoutTimer ts =>
    obtain ⟨henabled, heq⟩ := Option.ite_none_right_eq_some.mp hstep
    obtain rfl := Option.some.inj heq
    rw [Bool.and_eq_true] at henabled
    exact safe_of_carried s _ henabled.1 (carried_timeoutTimerCallback ts s hguard) h
  | hangCheck ts now haveSeed rss =>
    obtain ⟨henabled, heq⟩ := Option.ite_none_right_eq_some.mp hstep
    obtain rfl := Option.some.inj heq
    rw [Bool.and_eq_true] at henabled
    exact safe_of_carried s _ henabled.1
      (carried_hangCheckCallback params ts now haveSeed rss s) h
  | seedingTimer =>
    obtain ⟨henabled, heq⟩ := Option.ite_none_right_eq_some.mp hstep
    obtain rfl := Option.some.inj heq
    rw [Bool.and_eq_true] at henabled
    exact safe_of_carried s _ henabled.1 (carried_seedingTimerCallback s henabled.2) h
  | announce ret =>
    obtain ⟨hactive, heq⟩ := Option.ite_none_right_eq_some.mp hstep
    obtain rfl := Option.some.inj heq
    exact safe_of_carried s _ hactive (carried_announceCallback params ret s) h
  | exception =>
    obtain ⟨_, heq⟩ := Option.ite_none_right_eq_some.mp hstep
    obtain rfl := Option.some.inj heq
    exact ⟨⟨h.sound.removed, h.sound.seeding, h.sound.stopped⟩, by simp [Staged]⟩
  | finish =>
    obtain ⟨hdraining, heq⟩ := Option.ite_none_right_eq_some.mp hstep
    obtain rfl := Option.some.inj heq
    have hstopped := h.staged
    unfold Staged at hstopped
    rw [hdraining] at hstopped
    refine ⟨⟨h.sound.removed, h.sound.seeding, h.sound.stopped⟩, ?_⟩
    intro hzero
    obtain hcorrected | hret := h.sound.stopped hstopped
    · exact hcorrected
    · exact absurd hzero hret

/-- In every run whose timeouts are accounted for, a return value of 0 means that
the files are in place with their modes and links. -/
theorem success_is_real (now : ℤ) (es : List Event) (s : State)
    (hrun : Path (step params) TimesOutAccounted (State.initial now) es s)
    (hreturned : s.stage = .returned 0) : s.corrected = true := by
  have hsafe := hrun.invariant Safe
    (fun s e t h hguard hstep => safe_step params s t e h hguard hstep) (safe_initial now)
  have hstaged := hsafe.staged
  unfold Staged at hstaged
  rw [hreturned] at hstaged
  exact hstaged rfl

/-- After any other timeout of a running download the loop can end with 0. -/
theorem false_success_of_timeout (s s' : State) (ts : TorrentStatus)
    (hstage : s.stage = .running true) (hstep : step params s (.timeoutTimer ts) = some s')
    (hguard : ¬ TimesOutAccounted s (.timeoutTimer ts)) : ∃ u,
    Path (step params) (fun _ _ => True) s'
      [.processAlert false [.torrentRemoved] none, .processAlert false [] none, .finish] u ∧
    u.stage = .returned 0 ∧ u.corrected = false := by
  obtain ⟨_, heq⟩ := Option.ite_none_right_eq_some.mp hstep
  obtain rfl := Option.some.inj heq
  obtain ⟨hfinished, hunaccounted⟩ := Classical.not_imp.mp hguard
  simp only [Accounted, not_or, ne_eq, not_not, Bool.not_eq_true] at hunaccounted
  obtain ⟨hcorrected, hret, htimeout, hmem⟩ := hunaccounted
  obtain ⟨stage, ret, shouldStop, isTimeout, isMemExceed, lastCheckTime, lastCheckDownloaded,
    timeoutArmed, hangArmed, seedingArmed, moving, removed, corrected⟩ := s
  obtain ⟨isFinished, progressPpm, state, totalPayloadDownload⟩ := ts
  dsimp only at hstage hfinished hcorrected hret htimeout hmem
  subst hstage hfinished hcorrected hret htimeout hmem
  exact ⟨_, path_of_steps _ _ _ (fun _ _ _ => trivial) rfl, rfl, rfl⟩

end Runs

section Samples

/-- The download goes to a temporary directory first and has ten seconds. -/
def movedDownload : Params where
  seedingTime := 0
  timeout := 10
  hangTimeout := 600
  memLimit := 0
  dynamicAllocate := -1
  needDownToTmpFirst := true
  quitByTrackerFailed := false

def movedInTime : List Event :=
  [.start true, .processAlert false [.torrentFinished 1 1 1 true] none,
    .processAlert false [.storageMoved true] none, .seedingTimer,
    .processAlert false [.torrentRemoved] none, .processAlert false [] none, .finish]

theorem success_is_real_moved : ∃ s : State,
    Path (step movedDownload) TimesOutAccounted (State.initial 0) movedInTime s ∧
      s.corrected = true := by
  have hsteps : ∃ s, movedInTime.foldlM (step movedDownload) (State.initial 0) = some s ∧
      s.stage = .returned 0 := ⟨_, rfl, rfl⟩
  obtain ⟨s, hs, hreturned⟩ := hsteps
  have hguard : ∀ s, ∀ e ∈ movedInTime, TimesOutAccounted s e := by
    simp [movedInTime, TimesOutAccounted]
  have hrun := path_of_steps _ s _ hguard hs
  exact ⟨s, hrun, success_is_real movedDownload 0 _ s hrun hreturned⟩

/-- The files are still being moved when the ten seconds are over. -/
def overtakenMove : List Event :=
  [.start true, .processAlert false [.torrentFinished 1 1 1 true] none,
    .timeoutTimer ⟨true, 1000000, .other, 1⟩, .processAlert false [.torrentRemoved] none,
    .processAlert false [] none, .finish]

theorem overtakenMove_succeeds : ∃ s : State,
    Path (step movedDownload) (fun _ _ => True) (State.initial 0) overtakenMove s ∧
      s.stage = .returned 0 ∧ s.moving = true ∧ s.corrected = false :=
  ⟨_, path_of_steps _ _ _ (fun _ _ _ => trivial) rfl, rfl, rfl, rfl⟩

end Samples
end Gingko.Downloads
