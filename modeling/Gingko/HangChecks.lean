import Gingko.GroupCalls

/-!
The hang check of a group task over its whole life: downloads, pauses, resumes, ends
and restarts of the process, and the checks of the timer. Progress is downloaded
payload, which libtorrent counts anew in every process. Besides what the task keeps,
the model keeps since when the task has run without a pause and without progress.
-/
namespace Gingko.HangChecks

open GuardedRuns GroupTasks GroupCalls

inductive TorrentState where
  | queuedForChecking
  | checkingFiles
  | downloadingMetadata
  | downloading
  | finished
  | seeding
  | allocating
  | checkingResumeData
  deriving DecidableEq

/-- The members of a task that the check reads; all of them are in the resume file. -/
structure Checks where
  controlStatus : ControlTaskStatus
  lastCheckTime : ℤ
  lastCheckDownloaded : ℤ
  deriving DecidableEq

/-- The task in a running process. `activeSince` is the last of the start of the
process, the last end of a pause and the last progress; `recorded` says that the
time and the byte count were taken in this process, with no pause then or since. -/
structure Process where
  checks : Checks
  hasMetadata : Bool
  totalPayloadDownload : ℤ
  torrentPaused : Bool
  activeSince : ℤ
  recorded : Bool

def Process.paused (p : Process) : Bool :=
  p.checks.controlStatus = .paused || p.torrentPaused

/-- How the task was when the check removed it. -/
structure Removal where
  paused : Bool
  idle : ℤ
  deriving DecidableEq

structure Life where
  now : ℤ
  file : Option Checks
  process : Option Process
  removal : Option Removal

inductive Event where
  | elapse (seconds : ℕ)
  | download (bytes : ℕ)
  | receiveMetadata
  | control (type : ControlTaskType)
  | tick (progressPpm : ℕ) (state : TorrentState) (haveSeed : Bool)
  | shutdown (opens : Bool)
  | kill
  | restart (hasMetadata : Bool)

/-- A task that has just been created, with its resume file. -/
def Life.start (now : ℤ) (hasMetadata : Bool) : Life where
  now := now
  file := some ⟨.normal, now, 0⟩
  process := some ⟨⟨.normal, now, 0⟩, hasMetadata, 0, false, now, true⟩
  removal := none

def stalled (p : Process) (state : TorrentState) (haveSeed : Bool) : Bool :=
  (state = .downloading && p.totalPayloadDownload = p.checks.lastCheckDownloaded) ||
    (state = .downloadingMetadata && !haveSeed)

section Steps

variable (hangTimeout : ℤ)

/-- The check finds the task hanging. -/
def hangs (now : ℤ) (p : Process) (progressPpm : ℕ) (state : TorrentState) (haveSeed : Bool) :
    Bool :=
  progressPpm ≠ 1000000 && stalled p state haveSeed &&
    p.checks.lastCheckTime + hangTimeout - now ≤ 0

def Life.remove (s : Life) (p : Process) : Life :=
  { s with file := none, process := none, removal := some ⟨p.paused, s.now - p.activeSince⟩ }

def Life.record (s : Life) (p : Process) : Life :=
  { s with process := some { p with
      checks := { p.checks with
        lastCheckTime := s.now
        lastCheckDownloaded := p.totalPayloadDownload }
      recorded := !p.paused } }

def hangCheckCallback (s : Life) (p : Process) (progressPpm : ℕ) (state : TorrentState)
    (haveSeed : Bool) : Life :=
  if progressPpm = 1000000 then s
  else if stalled p state haveSeed then
    if p.checks.lastCheckTime + hangTimeout - s.now ≤ 0 then s.remove p else s
  else s.record p

def controlTask (s : Life) (p : Process) : ControlTaskType → Life
  | .unknown => s
  | .cancel => { s with file := none, process := none }
  | .pause => { s with process := some { p with
      checks := { p.checks with controlStatus := .paused }
      torrentPaused := true
      recorded := false } }
  | .resume => { s with process := some { p with
      checks := { p.checks with controlStatus := .resume }
      torrentPaused := false
      activeSince := if p.paused then s.now else p.activeSince
      recorded := p.recorded && !p.paused } }

/-- Payload comes in only when there is metadata, and with it the torrent is past
the state of downloading it. -/
def taskStep (s : Life) (p : Process) : Event → Option Life
  | .elapse _ => none
  | .download bytes =>
    if p.hasMetadata = true ∧ 0 < bytes then
      some { s with process := some { p with
        totalPayloadDownload := p.totalPayloadDownload + bytes
        activeSince := s.now } }
    else none
  | .receiveMetadata => some { s with process := some { p with hasMetadata := true } }
  | .control type => some (controlTask s p type)
  | .tick progressPpm state haveSeed =>
    if state = .downloadingMetadata ∧ p.hasMetadata = true then none
    else some (hangCheckCallback hangTimeout s p progressPpm state haveSeed)
  | .shutdown opens =>
    some { s with file := if opens then some p.checks else s.file, process := none }
  | .kill => some { s with process := none }
  | .restart _ => none

/-- A resumed task is started like a fresh one, whatever its file says. -/
def restart (s : Life) (hasMetadata : Bool) : Option Life :=
  s.file.map fun checks =>
    { s with process := some ⟨checks, hasMetadata, 0, false, s.now, false⟩ }

def step (s : Life) (e : Event) : Option Life :=
  match e, s.process with
  | .elapse seconds, _ => some { s with now := s.now + seconds }
  | .restart hasMetadata, none => restart s hasMetadata
  | e, some p => taskStep hangTimeout s p e
  | _, none => none

/-- A check that finds the task hanging goes by a record of the present run. -/
def GoesByRecord (s : Life) : Event → Prop
  | .tick progressPpm state haveSeed => ∀ p, s.process = some p →
      hangs hangTimeout s.now p progressPpm state haveSeed = true → p.recorded = true
  | _ => True

end Steps

/-- A record of the present run is not older than the last pause or progress. -/
structure Sound (now : ℤ) (p : Process) : Prop where
  unpaused : p.recorded = true → p.paused = false
  bytes : p.recorded = true → 0 ≤ p.checks.lastCheckDownloaded ∧
    p.checks.lastCheckDownloaded ≤ p.totalPayloadDownload
  still : p.recorded = true → p.checks.lastCheckDownloaded = p.totalPayloadDownload →
    p.activeSince ≤ p.checks.lastCheckTime
  payload : 0 ≤ p.totalPayloadDownload
  metadata : p.hasMetadata = false → p.totalPayloadDownload = 0
  past : p.activeSince ≤ now

/-- A removal for hanging that is as it should be. -/
def Rightful (hangTimeout : ℤ) (r : Removal) : Prop := r.paused = false ∧ hangTimeout ≤ r.idle

structure LifeSound (hangTimeout : ℤ) (s : Life) : Prop where
  process : ∀ p, s.process = some p → Sound s.now p
  removal : ∀ r, s.removal = some r → Rightful hangTimeout r

/-- A task that is gone has nothing left to be sound. -/
theorem LifeSound.ended {hangTimeout : ℤ} {s : Life} (hprocess : s.process = none)
    (hremoval : ∀ r, s.removal = some r → Rightful hangTimeout r) : LifeSound hangTimeout s := by
  refine ⟨?_, hremoval⟩
  intro p hp
  rw [hprocess] at hp
  contradiction

theorem LifeSound.runs {hangTimeout : ℤ} {s : Life} {p : Process} (hprocess : s.process = some p)
    (hsound : Sound s.now p) (hremoval : ∀ r, s.removal = some r → Rightful hangTimeout r) :
    LifeSound hangTimeout s := by
  refine ⟨?_, hremoval⟩
  intro q hq
  obtain rfl := Option.some.inj (hprocess.symm.trans hq)
  exact hsound

theorem Sound.later {now : ℤ} {p : Process} (h : Sound now p) (seconds : ℕ) :
    Sound (now + seconds) p :=
  ⟨h.unpaused, h.bytes, h.still, h.payload, h.metadata, by have := h.past; omega⟩

theorem Sound.download {now : ℤ} {p : Process} (h : Sound now p) (bytes : ℕ)
    (hmeta : p.hasMetadata = true) (hpos : 0 < bytes) :
    Sound now { p with
      totalPayloadDownload := p.totalPayloadDownload + bytes
      activeSince := now } := by
  have hpayload := h.payload
  refine ⟨h.unpaused, ?_, ?_, ?_, ?_, le_refl now⟩
  · intro hrecorded
    have hbytes := h.bytes hrecorded
    simp only
    omega
  · -- new payload is more than what was recorded
    intro hrecorded hsame
    have hbytes := h.bytes hrecorded
    simp only at hsame
    omega
  · simp only
    omega
  · intro hnone
    rw [show p.hasMetadata = false from hnone] at hmeta
    contradiction

theorem Sound.receiveMetadata {now : ℤ} {p : Process} (h : Sound now p) :
    Sound now { p with hasMetadata := true } :=
  ⟨h.unpaused, h.bytes, h.still, h.payload, nofun, h.past⟩

theorem sound_controlTask {s : Life} {p : Process} (h : Sound s.now p)
    (hprocess : s.process = some p) (type : ControlTaskType) :
    ∀ q, (controlTask s p type).process = some q → Sound s.now q := by
  intro q hq
  cases type with
  | unknown =>
    obtain rfl := Option.some.inj (hprocess.symm.trans hq)
    exact h
  | cancel => contradiction
  | pause =>
    obtain rfl := Option.some.inj hq
    exact ⟨nofun, nofun, nofun, h.payload, h.metadata, h.past⟩
  | resume =>
    obtain rfl := Option.some.inj hq
    cases hpaused : p.paused with
    | true =>
      simp only [Bool.not_true, Bool.and_false, if_true]
      exact ⟨nofun, nofun, nofun, h.payload, h.metadata, le_refl _⟩
    | false =>
      simp only [Bool.not_false, Bool.and_true, Bool.false_eq_true, if_false]
      exact ⟨fun _ => rfl, h.bytes, h.still, h.payload, h.metadata, h.past⟩

theorem Sound.record {now : ℤ} {p : Process} (h : Sound now p) :
    Sound now { p with
      checks := { p.checks with
        lastCheckTime := now
        lastCheckDownloaded := p.totalPayloadDownload }
      recorded := !p.paused } := by
  refine ⟨?_, fun _ => ⟨h.payload, le_refl _⟩, fun _ _ => h.past, h.payload, h.metadata, h.past⟩
  intro hrecorded
  rw [Bool.not_eq_true'] at hrecorded
  exact hrecorded

/-- No progress since the record: the byte count is the same, or there is no
metadata and nothing has ever come in. -/
theorem Sound.activeSince_le {now : ℤ} {p : Process} (h : Sound now p) (hrecorded : p.recorded = true)
    (state : TorrentState) (haveSeed : Bool)
    (hstate : ¬ (state = .downloadingMetadata ∧ p.hasMetadata = true))
    (hstalled : stalled p state haveSeed = true) : p.activeSince ≤ p.checks.lastCheckTime := by
  apply h.still hrecorded
  simp only [stalled, Bool.or_eq_true, Bool.and_eq_true, decide_eq_true_eq] at hstalled
  rcases hstalled with hdownloading | hmetadata
  · exact hdownloading.2.symm
  · have hnone : p.hasMetadata = false := by
      rw [← Bool.not_eq_true]
      exact fun hmeta => hstate ⟨hmetadata.1, hmeta⟩
    have hzero := h.metadata hnone
    have hbytes := h.bytes hrecorded
    omega

theorem lifeSound_tick (hangTimeout : ℤ) (s : Life) (h : LifeSound hangTimeout s) (p : Process)
    (hprocess : s.process = some p) (progressPpm : ℕ) (state : TorrentState) (haveSeed : Bool)
    (hstate : ¬ (state = .downloadingMetadata ∧ p.hasMetadata = true))
    (hguard : hangs hangTimeout s.now p progressPpm state haveSeed = true → p.recorded = true) :
    LifeSound hangTimeout (hangCheckCallback hangTimeout s p progressPpm state haveSeed) := by
  have hsound := h.process p hprocess
  unfold hangCheckCallback
  split
  · exact h
  · rename_i hunfinished
    split
    · rename_i hstalled
      split
      · rename_i hdue
        have hrecorded := hguard (by simp [hangs, hunfinished, hstalled, hdue])
        have hidle := hsound.activeSince_le hrecorded state haveSeed hstate hstalled
        refine .ended rfl ?_
        intro r hr
        obtain rfl := Option.some.inj hr
        refine ⟨hsound.unpaused hrecorded, ?_⟩
        simp only
        omega
      · exact h
    · exact .runs rfl hsound.record h.removal

theorem lifeSound_taskStep (hangTimeout : ℤ) (s t : Life) (h : LifeSound hangTimeout s)
    (p : Process) (hprocess : s.process = some p) (e : Event)
    (hguard : GoesByRecord hangTimeout s e) (hstep : taskStep hangTimeout s p e = some t) :
    LifeSound hangTimeout t := by
  have hsound := h.process p hprocess
  cases e with
  | elapse seconds => contradiction
  | download bytes =>
    simp only [taskStep] at hstep
    split at hstep
    · rename_i hmore
      obtain rfl := Option.some.inj hstep
      exact .runs rfl (hsound.download bytes hmore.1 hmore.2) h.removal
    · contradiction
  | receiveMetadata =>
    obtain rfl := Option.some.inj hstep
    exact .runs rfl hsound.receiveMetadata h.removal
  | control type =>
    obtain rfl := Option.some.inj hstep
    have hcontrol := sound_controlTask hsound hprocess type
    cases type <;> exact ⟨hcontrol, h.removal⟩
  | tick progressPpm state haveSeed =>
    simp only [taskStep] at hstep
    split at hstep
    · contradiction
    · rename_i hstate
      obtain rfl := Option.some.inj hstep
      exact lifeSound_tick hangTimeout s h p hprocess progressPpm state haveSeed hstate
        (hguard p hprocess)
  | shutdown opens =>
    obtain rfl := Option.some.inj hstep
    exact .ended rfl h.removal
  | kill =>
    obtain rfl := Option.some.inj hstep
    exact .ended rfl h.removal
  | restart hasMetadata => contradiction

theorem lifeSound_step (hangTimeout : ℤ) (s t : Life) (e : Event) (h : LifeSound hangTimeout s)
    (hguard : GoesByRecord hangTimeout s e) (hstep : step hangTimeout s e = some t) :
    LifeSound hangTimeout t := by
  unfold step at hstep
  split at hstep
  · rename_i seconds
    obtain rfl := Option.some.inj hstep
    exact ⟨fun p hp => (h.process p hp).later seconds, h.removal⟩
  · rename_i hasMetadata hprocess
    obtain ⟨checks, hfile, rfl⟩ := Option.map_eq_some_iff.mp hstep
    exact .runs rfl ⟨nofun, nofun, nofun, le_refl _, fun _ => rfl, le_refl _⟩ h.removal
  · rename_i e' p _ hprocess
    exact lifeSound_taskStep hangTimeout s t h p hprocess _ hguard hstep
  · contradiction

/-- As long as every check that finds the task hanging goes by a record of the
present run, the task is removed for hanging only when it is not paused and has run
without progress for the whole timeout. -/
theorem removal_rightful (hangTimeout now : ℤ) (hasMetadata : Bool) (s : Life) (es : List Event)
    (h : Path (step hangTimeout) (GoesByRecord hangTimeout) (Life.start now hasMetadata) es s)
    (r : Removal) (hr : s.removal = some r) : r.paused = false ∧ hangTimeout ≤ r.idle := by
  have hsound := h.invariant (LifeSound hangTimeout)
    (fun s e t hs hguard hstep => lifeSound_step hangTimeout s t e hs hguard hstep) (by
      refine ⟨?_, nofun⟩
      intro p hp
      obtain rfl := Option.some.inj hp
      exact ⟨fun _ => rfl, fun _ => ⟨le_refl _, le_refl _⟩, fun _ _ => le_refl _, le_refl _,
        fun _ => rfl, le_refl _⟩)
  exact hsound.removal r hr

theorem removal_rightful_minute :
    ∃ s es r, Path (step 60) (GoesByRecord 60) (Life.start 0 false) es s ∧ s.removal = some r ∧
      r.paused = false ∧ 60 ≤ r.idle := by
  have hrun : ∃ s, Path (step 60) (GoesByRecord 60) (Life.start 0 false)
      [.elapse 75, .tick 0 .downloadingMetadata false] s ∧ s.removal = some ⟨false, 75⟩ :=
    ⟨_, .cons _ _ _ _ _ rfl trivial <|
      .cons _ _ _ _ _ rfl (fun _ hp _ => by obtain rfl := Option.some.inj hp; rfl) <| .nil _, rfl⟩
  obtain ⟨s, hpath, hremoval⟩ := hrun
  exact ⟨s, _, _, hpath, hremoval, removal_rightful 60 0 false s _ hpath _ hremoval⟩

/-- With a timeout of a minute: a paused task is removed, and a task that has just
been resumed, by a request or by a restart, is removed for the time before. -/
theorem removal_wrongful :
    (∃ s es r, Path (step 60) (fun _ _ => True) (Life.start 0 true) es s ∧
      s.removal = some r ∧ r.paused = true) ∧
    (∃ s es r, Path (step 60) (fun _ _ => True) (Life.start 0 true) es s ∧
      s.removal = some r ∧ r.paused = false ∧ r.idle = 0) ∧
    (∃ s es r, Path (step 60) (fun _ _ => True) (Life.start 0 true) es s ∧
      Event.restart true ∈ es ∧ s.removal = some r ∧ r.paused = false ∧ r.idle = 0) := by
  have hpaused : ∃ s, [Event.control .pause, .elapse 75, .tick 0 .downloading true].foldlM
      (step 60) (Life.start 0 true) = some s ∧ s.removal = some ⟨true, 75⟩ := ⟨_, rfl, rfl⟩
  have hresumed : ∃ s, [Event.control .pause, .elapse 75, .control .resume,
      .tick 0 .downloading true].foldlM (step 60) (Life.start 0 true) = some s ∧
        s.removal = some ⟨false, 0⟩ := ⟨_, rfl, rfl⟩
  have hrestarted : ∃ s, [Event.shutdown true, .elapse 75, .restart true,
      .tick 0 .downloading true].foldlM (step 60) (Life.start 0 true) = some s ∧
        s.removal = some ⟨false, 0⟩ := ⟨_, rfl, rfl⟩
  obtain ⟨s, hsteps, hremoval⟩ := hpaused
  obtain ⟨t, htsteps, htremoval⟩ := hresumed
  obtain ⟨u, husteps, huremoval⟩ := hrestarted
  exact ⟨⟨s, _, _, path_of_steps _ s _ (fun _ _ _ => trivial) hsteps, hremoval, rfl⟩,
    ⟨t, _, _, path_of_steps _ t _ (fun _ _ _ => trivial) htsteps, htremoval, rfl, rfl⟩,
    ⟨u, _, _, path_of_steps _ u _ (fun _ _ _ => trivial) husteps, by simp, huremoval, rfl, rfl⟩⟩

end Gingko.HangChecks
