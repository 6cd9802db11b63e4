import Gingko.GuardedRuns
import Gingko.Interleavings
import Mathlib.Data.Int.Basic

/-!
The threads that download the pieces of a torrent from a cluster. A thread takes
pieces that libtorrent lacks, and once there are none, pieces whose hash failed.
Everything between two accesses to shared data is one step; the stop flag is read
and written without the mutex. A thread that found no piece and saw no stop holds
the mutex until it blocks on the condition variable.
-/
namespace Gingko.ClusterWorkers

open GuardedRuns Interleavings

inductive Kind where
  | clusterDownloader
  | groupClusterTask
  deriving DecidableEq

structure Params where
  kind : Kind
  ignoreError : Bool
  numPieces : ℕ

inductive Phase where
  | looping
  | checking
  | locking
  | deciding
  | waiting
  | got
  | reading
  | counting
  | hashing
  | adding
  | added
  | accounting
  | sleeping
  | notifying
  | exiting
  | ended
  deriving DecidableEq

structure Worker where
  phase : Phase
  pieceIndex : Option ℕ
  getFromHashFailed : Bool
  deriving DecidableEq

def Worker.start : Worker := ⟨.looping, none, false⟩

/-- `locked` says that the mutex is held across steps. `owed` lists the pieces pushed
as hash-failed that have not been handed to `add_piece` since. The two counters are
calls that have not notified yet. -/
structure Shared where
  piecesHave : ℕ → Bool
  piecesDownloading : ℕ → Bool
  hashFailedPieces : List ℕ
  shouldStop : Bool
  retval : ℤ
  completeThreads : ℕ
  locked : Bool
  owed : List ℕ
  failedNotifies : ℕ
  stopNotifies : ℕ

/-- At the start, pieces of priority zero count as there. -/
def Shared.start (skipped : ℕ → Bool) : Shared :=
  ⟨skipped, fun _ => false, [], false, 0, 0, false, [], 0, 0⟩

/-- The rest of the cycle over the pieces, with the last piece seen that another
thread is downloading. -/
def scanPieces (torrentHas downloading : ℕ → Bool) :
    List ℕ → (ℕ → Bool) → Option ℕ → (ℕ → Bool) × Option ℕ
  | [], piecesHave, pieceDownloading => (piecesHave, pieceDownloading)
  | i :: rest, piecesHave, pieceDownloading =>
    if piecesHave i then scanPieces torrentHas downloading rest piecesHave pieceDownloading
    else if torrentHas i then
      scanPieces torrentHas downloading rest (Function.update piecesHave i true) pieceDownloading
    else if downloading i then scanPieces torrentHas downloading rest piecesHave (some i)
    else (piecesHave, some i)

def getUndownloadedPiece (numPieces : ℕ) (torrentHas : ℕ → Bool) (random : ℕ)
    (downloading piecesHave : ℕ → Bool) : (ℕ → Bool) × Option ℕ :=
  scanPieces torrentHas downloading ((List.range numPieces).rotate (random % numPieces))
    piecesHave none

def popHashFailed (sh : Shared) (w : Worker) : Shared × Worker :=
  match sh.hashFailedPieces with
  | [] => (sh, { w with pieceIndex := none, getFromHashFailed := true })
  | piece :: rest =>
    ({ sh with hashFailedPieces := rest },
      { w with pieceIndex := some piece, getFromHashFailed := true })

def clearLast (last : Option ℕ) (downloading : ℕ → Bool) : ℕ → Bool :=
  match last with
  | none => downloading
  | some piece => Function.update downloading piece false

def getPieceToDownload (numPieces : ℕ) (torrentHas : ℕ → Bool) (random : ℕ) (sh : Shared)
    (w : Worker) : Shared × Worker :=
  if w.getFromHashFailed then popHashFailed sh w
  else
    let downloading := clearLast w.pieceIndex sh.piecesDownloading
    let found := getUndownloadedPiece numPieces torrentHas random downloading sh.piecesHave
    match found.2 with
    | some piece =>
      ({ sh with
          piecesHave := found.1
          piecesDownloading := Function.update downloading piece true },
        { w with pieceIndex := some piece })
    | none => popHashFailed { sh with piecesHave := found.1, piecesDownloading := downloading } w

/-- Taking a piece changes the bit fields and the queue only. -/
theorem getPieceToDownload_shared (numPieces : ℕ) (torrentHas : ℕ → Bool) (random : ℕ)
    (sh : Shared) (w : Worker) : ∃ piecesHave piecesDownloading hashFailedPieces,
      (getPieceToDownload numPieces torrentHas random sh w).1 =
        { sh with
          piecesHave := piecesHave
          piecesDownloading := piecesDownloading
          hashFailedPieces := hashFailedPieces } := by
  have hpop (sh : Shared) : ∃ hashFailedPieces,
      (popHashFailed sh w).1 = { sh with hashFailedPieces := hashFailedPieces } := by
    unfold popHashFailed
    cases hqueue : sh.hashFailedPieces with
    | nil => exact ⟨sh.hashFailedPieces, rfl⟩
    | cons piece rest => exact ⟨rest, rfl⟩
  unfold getPieceToDownload
  by_cases hfailed : w.getFromHashFailed = true
  · rw [if_pos hfailed]
    obtain ⟨queue, hqueue⟩ := hpop sh
    exact ⟨sh.piecesHave, sh.piecesDownloading, queue, hqueue⟩
  · rw [if_neg hfailed]
    simp only
    split
    · exact ⟨_, _, sh.hashFailedPieces, rfl⟩
    · obtain ⟨queue, hqueue⟩ := hpop { sh with
        piecesHave := (getUndownloadedPiece numPieces torrentHas random
          (clearLast w.pieceIndex sh.piecesDownloading) sh.piecesHave).1
        piecesDownloading := clearLast w.pieceIndex sh.piecesDownloading }
      exact ⟨_, _, queue, hqueue⟩

/-- The steps of one thread, with what the outside answers. -/
inductive Act where
  | loop
  | checkPaused (paused : Bool)
  | enter (torrentHas : ℕ → Bool) (random : ℕ)
  | block
  | testStop
  | read (ok : Bool)
  | count
  | hash (ok : Bool)
  | addPiece
  | testStopAdded
  | account
  | wake
  | notify
  | exit

/-- A failure is retried after a sleep, or stops all threads. -/
def failWith (params : Params) (retval : ℤ) (sh : Shared) (w : Worker) : Shared × Worker :=
  if params.ignoreError then (sh, { w with phase := .sleeping })
  else ({ sh with shouldStop := true, retval := retval }, { w with phase := .notifying })

def afterLoop (params : Params) (sh : Shared) : Phase :=
  if sh.shouldStop then .exiting
  else match params.kind with
    | .clusterDownloader => .locking
    | .groupClusterTask => .checking

/-- The critical section up to leaving the mutex or to the call of `wait`. -/
def enterSection (params : Params) (torrentHas : ℕ → Bool) (random : ℕ) (sh : Shared)
    (w : Worker) : Shared × Worker :=
  let next := getPieceToDownload params.numPieces torrentHas random sh w
  if next.2.pieceIndex.isSome || next.1.shouldStop then (next.1, { next.2 with phase := .got })
  else ({ next.1 with locked := true }, { next.2 with phase := .deciding })

/-- One step of a thread; steps that need the mutex are disabled while it is held. -/
def workerStep (params : Params) (sh : Shared) (w : Worker) (a : Act) : Option (Shared × Worker) :=
  match w.phase, a with
  | .looping, .loop => some (sh, { w with phase := afterLoop params sh })
  | .checking, .checkPaused paused =>
    some (sh, { w with phase := if paused then .looping else .locking })
  | .locking, .enter torrentHas random =>
    if sh.locked then none else some (enterSection params torrentHas random sh w)
  | .deciding, .block => some ({ sh with locked := false }, { w with phase := .waiting })
  | .got, .testStop => some (sh, { w with phase := if sh.shouldStop then .exiting else .reading })
  | .reading, .read ok =>
    some (if ok then (sh, { w with phase := .counting }) else failWith params (-1) sh w)
  | .counting, .count => if sh.locked then none else some (sh, { w with phase := .hashing })
  | .hashing, .hash ok =>
    some (if ok then (sh, { w with phase := .adding }) else failWith params (-2) sh w)
  | .adding, .addPiece =>
    some ({ sh with owed := sh.owed.filter (fun piece => some piece ≠ w.pieceIndex) },
      { w with phase := .added })
  | .added, .testStopAdded =>
    some (sh, { w with phase := if sh.shouldStop then .exiting else .accounting })
  | .accounting, .account => if sh.locked then none else some (sh, { w with phase := .looping })
  | .sleeping, .wake => some (sh, { w with phase := .looping })
  | .notifying, .notify => some (sh, { w with phase := .exiting })
  | .exiting, .exit =>
    if sh.locked then none
    else some ({ sh with completeThreads := sh.completeThreads + 1 }, { w with phase := .ended })
  | _, _ => none

/-- What a thread does, case by case. -/
inductive WorkerCase (params : Params) (sh : Shared) (w : Worker) : Act → Shared × Worker → Prop
  | loop (hphase : w.phase = .looping) :
      WorkerCase params sh w .loop (sh, { w with phase := afterLoop params sh })
  | checkPaused (paused : Bool) (hphase : w.phase = .checking) :
      WorkerCase params sh w (.checkPaused paused)
        (sh, { w with phase := if paused then .looping else .locking })
  | enter (torrentHas : ℕ → Bool) (random : ℕ) (hphase : w.phase = .locking)
      (hfree : sh.locked = false) :
      WorkerCase params sh w (.enter torrentHas random) (enterSection params torrentHas random sh w)
  | block (hphase : w.phase = .deciding) :
      WorkerCase params sh w .block ({ sh with locked := false }, { w with phase := .waiting })
  | testStop (hphase : w.phase = .got) :
      WorkerCase params sh w .testStop
        (sh, { w with phase := if sh.shouldStop then .exiting else .reading })
  | readOk (hphase : w.phase = .reading) :
      WorkerCase params sh w (.read true) (sh, { w with phase := .counting })
  | readFailed (hphase : w.phase = .reading) :
      WorkerCase params sh w (.read false) (failWith params (-1) sh w)
  | count (hphase : w.phase = .counting) :
      WorkerCase params sh w .count (sh, { w with phase := .hashing })
  | hashOk (hphase : w.phase = .hashing) :
      WorkerCase params sh w (.hash true) (sh, { w with phase := .adding })
  | hashFailed (hphase : w.phase = .hashing) :
      WorkerCase params sh w (.hash false) (failWith params (-2) sh w)
  | addPiece (hphase : w.phase = .adding) :
      WorkerCase params sh w .addPiece
        ({ sh with owed := sh.owed.filter (fun piece => some piece ≠ w.pieceIndex) },
          { w with phase := .added })
  | testStopAdded (hphase : w.phase = .added) :
      WorkerCase params sh w .testStopAdded
        (sh, { w with phase := if sh.shouldStop then .exiting else .accounting })
  | account (hphase : w.phase = .accounting) :
      WorkerCase params sh w .account (sh, { w with phase := .looping })
  | wake (hphase : w.phase = .sleeping) :
      WorkerCase params sh w .wake (sh, { w with phase := .looping })
  | notify (hphase : w.phase = .notifying) :
      WorkerCase params sh w .notify (sh, { w with phase := .exiting })
  | exit (hphase : w.phase = .exiting) :
      WorkerCase params sh w .exit
        ({ sh with completeThreads := sh.completeThreads + 1 }, { w with phase := .ended })

theorem workerStep_cases (params : Params) (sh : Shared) (w : Worker) (a : Act)
    (moved : Shared × Worker) (h : workerStep params sh w a = some moved) :
    WorkerCase params sh w a moved := by
  unfold workerStep at h
  split at h
  · rename_i hphase
    exact Option.some.inj h ▸ .loop hphase
  · rename_i paused hphase
    exact Option.some.inj h ▸ .checkPaused paused hphase
  · rename_i torrentHas random hphase
    cases hlocked : sh.locked with
    | true => simp [hlocked] at h
    | false =>
      simp only [hlocked, Bool.false_eq_true, if_false] at h
      exact Option.some.inj h ▸ .enter torrentHas random hphase hlocked
  · rename_i hphase
    exact Option.some.inj h ▸ .block hphase
  · rename_i hphase
    exact Option.some.inj h ▸ .testStop hphase
  · rename_i ok hphase
    cases ok with
    | true => exact Option.some.inj h ▸ .readOk hphase
    | false => exact Option.some.inj h ▸ .readFailed hphase
  · rename_i hphase
    simp only [Option.ite_none_left_eq_some] at h
    exact Option.some.inj h.2 ▸ .count hphase
  · rename_i ok hphase
    cases ok with
    | true => exact Option.some.inj h ▸ .hashOk hphase
    | false => exact Option.some.inj h ▸ .hashFailed hphase
  · rename_i hphase
    exact Option.some.inj h ▸ .addPiece hphase
  · rename_i hphase
    exact Option.some.inj h ▸ .testStopAdded hphase
  · rename_i hphase
    simp only [Option.ite_none_left_eq_some] at h
    exact Option.some.inj h.2 ▸ .account hphase
  · rename_i hphase
    exact Option.some.inj h ▸ .wake hphase
  · rename_i hphase
    exact Option.some.inj h ▸ .notify hphase
  · rename_i hphase
    simp only [Option.ite_none_left_eq_some] at h
    exact Option.some.inj h.2 ▸ .exit hphase
  · simp at h

/-- A thread blocked on the condition variable goes for the mutex when it is woken. -/
def Worker.woken (w : Worker) : Worker :=
  if w.phase = .waiting then { w with phase := .locking } else w

variable {T : Type} [DecidableEq T]

abbrev State (T : Type) := System T Shared Worker

def State.start (skipped : ℕ → Bool) : State T := ⟨Shared.start skipped, fun _ => .start⟩

def wakeAll (s : State T) : State T := { s with threads := fun t => (s.threads t).woken }

/-- Steps of the workers, and of the callers of `add_hash_failed_piece` and
`StopDownload`, whose notifications are steps of their own. A waiting thread may also
wake up for no reason. -/
inductive Event (T : Type) where
  | act (t : T) (a : Act)
  | notifyAll (t : T)
  | addHashFailedPiece (piece : ℕ)
  | notifyOne (target : Option T)
  | stopDownload
  | notifyStop
  | wakeSpuriously (t : T)

/-- A thread that is named but does not wait is left alone. -/
def wakeOne (target : Option T) (s : State T) : State T :=
  match target with
  | none => s
  | some t => s.act t (s.shared, (s.threads t).woken)

theorem wakeOne_threads (target : Option T) (s : State T) (u : T) :
    (wakeOne target s).threads u = s.threads u ∨
      (wakeOne target s).threads u = (s.threads u).woken := by
  cases target with
  | none => exact Or.inl rfl
  | some t =>
    by_cases hu : u = t
    · subst hu
      exact Or.inr (System.act_self ..)
    · exact Or.inl (System.act_other s t u _ hu)

theorem wakeOne_shared (target : Option T) (s : State T) :
    (wakeOne target s).shared = s.shared := by
  cases target <;> rfl

def stopDownload (params : Params) (sh : Shared) : Shared :=
  match params.kind with
  | .clusterDownloader => { sh with shouldStop := true }
  | .groupClusterTask => { sh with shouldStop := true, stopNotifies := sh.stopNotifies + 1 }

def step (params : Params) (s : State T) : Event T → Option (State T)
  | .act t a =>
    if (s.threads t).phase = .notifying then none
    else (workerStep params s.shared (s.threads t) a).map (s.act t)
  | .notifyAll t =>
    if (s.threads t).phase = .notifying then
      (workerStep params s.shared (s.threads t) .notify).map fun moved => (wakeAll s).act t moved
    else none
  | .addHashFailedPiece piece =>
    if s.shared.locked then none
    else some { s with shared := { s.shared with
      hashFailedPieces := s.shared.hashFailedPieces ++ [piece]
      owed := s.shared.owed ++ [piece]
      failedNotifies := s.shared.failedNotifies + 1 } }
  | .notifyOne target =>
    if s.shared.failedNotifies = 0 then none
    else some (wakeOne target { s with shared := { s.shared with
      failedNotifies := s.shared.failedNotifies - 1 } })
  | .stopDownload => some { s with shared := stopDownload params s.shared }
  | .notifyStop =>
    if s.shared.stopNotifies = 0 then none
    else some (wakeAll { s with shared := { s.shared with
      stopNotifies := s.shared.stopNotifies - 1 } })
  | .wakeSpuriously t => some (wakeOne (some t) s)

end Gingko.ClusterWorkers
