import Gingko.ClusterWorkers

/-!
Where a hash-failed piece is. A worker takes it out of the queue before reading it,
and carries it up to `add_piece`. A failed read or hash check sends the worker back
to the queue without the piece, so nothing is lost only as long as no piece from the
queue fails again.
-/
namespace Gingko.ClusterPieces

open GuardedRuns Interleavings ClusterWorkers

def working : Phase → Bool
  | .got | .reading | .counting | .hashing | .adding => true
  | _ => false

/-- Where a thread is before it takes its next piece. -/
def between : Phase → Bool
  | .sleeping | .looping | .checking | .locking => true
  | _ => false

/-- A worker holds a piece while it works on it; with pieces of libtorrent it also
comes back to one that failed, which is still missing. -/
def Holds (w : Worker) (piece : ℕ) : Prop :=
  w.pieceIndex = some piece ∧
    (working w.phase = true ∨ (w.getFromHashFailed = false ∧ between w.phase = true))

/-- A worker on a piece from the queue of hash-failed pieces. -/
def Carries (w : Worker) (piece : ℕ) : Prop :=
  w.pieceIndex = some piece ∧ w.getFromHashFailed = true ∧ working w.phase = true

theorem Carries.holds {w : Worker} {piece : ℕ} (h : Carries w piece) : Holds w piece :=
  ⟨h.1, Or.inl h.2.2⟩

theorem Carries.woken {w : Worker} {piece : ℕ} (h : Carries w piece) : Carries w.woken piece := by
  have hphase : w.phase ≠ .waiting := by
    intro hwaiting
    have hworking := h.2.2
    rw [hwaiting] at hworking
    simp [working] at hworking
  rw [Worker.woken, if_neg hphase]
  exact h

/-- What a step of a thread leaves of the pieces that are owed. -/
structure Spares (sh : Shared) (w : Worker) (moved : Shared × Worker) : Prop where
  going : moved.1.shouldStop = false
  owed : ∀ piece ∈ moved.1.owed, piece ∈ sh.owed
  queued : ∀ piece ∈ moved.1.owed, piece ∈ sh.hashFailedPieces →
    piece ∈ moved.1.hashFailedPieces ∨ Carries moved.2 piece
  carried : ∀ piece ∈ moved.1.owed, Carries w piece → Carries moved.2 piece

/-- A step that touches neither the queue nor the pieces owed and keeps the worker's piece. -/
theorem Spares.of_phase (sh : Shared) (w : Worker) (moved : Shared × Worker)
    (hgoing : moved.1.shouldStop = false) (howed : moved.1.owed = sh.owed)
    (hqueue : moved.1.hashFailedPieces = sh.hashFailedPieces)
    (hcarried : ∀ piece, Carries w piece → Carries moved.2 piece) : Spares sh w moved where
  going := hgoing
  owed _ hpiece := howed ▸ hpiece
  queued _ _ hqueued := Or.inl (hqueue ▸ hqueued)
  carried piece _ hpiece := hcarried piece hpiece

/-- A worker that is not working on a piece carries none. -/
theorem not_carries (w : Worker) (piece : ℕ) (h : working w.phase = false) :
    ¬ Carries w piece := by
  intro hcarries
  have hworking := hcarries.2.2
  rw [h] at hworking
  simp at hworking

theorem carries_phase (w : Worker) (phase : Phase) (piece : ℕ) (hphase : working phase = true)
    (h : Carries w piece) : Carries { w with phase := phase } piece :=
  ⟨h.1, h.2.1, hphase⟩

theorem popHashFailed_cases (sh : Shared) (w : Worker) :
    (sh.hashFailedPieces = [] ∧
        popHashFailed sh w = (sh, { w with pieceIndex := none, getFromHashFailed := true })) ∨
      ∃ piece rest, sh.hashFailedPieces = piece :: rest ∧
        popHashFailed sh w = ({ sh with hashFailedPieces := rest },
          { w with pieceIndex := some piece, getFromHashFailed := true }) := by
  unfold popHashFailed
  cases hqueue : sh.hashFailedPieces with
  | nil => exact Or.inl ⟨rfl, rfl⟩
  | cons piece rest => exact Or.inr ⟨piece, rest, rfl, rfl⟩

/-- Taking a piece leaves the queue alone, or takes its front piece. -/
structure Takes (sh : Shared) (moved : Shared × Worker) : Prop where
  going : moved.1.shouldStop = sh.shouldStop
  owed : moved.1.owed = sh.owed
  queue : moved.1.hashFailedPieces = sh.hashFailedPieces ∨
    ∃ piece, sh.hashFailedPieces = piece :: moved.1.hashFailedPieces ∧
      moved.2.pieceIndex = some piece ∧ moved.2.getFromHashFailed = true

theorem takes_popHashFailed (sh : Shared) (w : Worker) : Takes sh (popHashFailed sh w) := by
  rcases popHashFailed_cases sh w with ⟨hempty, heq⟩ | ⟨piece, rest, hqueue, heq⟩
  · rw [heq]
    exact ⟨rfl, rfl, Or.inl rfl⟩
  · rw [heq]
    exact ⟨rfl, rfl, Or.inr ⟨piece, hqueue, rfl, rfl⟩⟩

theorem takes_getPieceToDownload (numPieces : ℕ) (torrentHas : ℕ → Bool) (random : ℕ)
    (sh : Shared) (w : Worker) :
    Takes sh (getPieceToDownload numPieces torrentHas random sh w) := by
  unfold getPieceToDownload
  by_cases hfailed : w.getFromHashFailed = true
  · rw [if_pos hfailed]
    exact takes_popHashFailed sh w
  · rw [if_neg hfailed]
    simp only
    cases (getUndownloadedPiece numPieces torrentHas random
      (clearLast w.pieceIndex sh.piecesDownloading) sh.piecesHave).2 with
    | some piece => exact ⟨rfl, rfl, Or.inl rfl⟩
    | none =>
      have h := takes_popHashFailed { sh with
        piecesHave := (getUndownloadedPiece numPieces torrentHas random
          (clearLast w.pieceIndex sh.piecesDownloading) sh.piecesHave).1
        piecesDownloading := clearLast w.pieceIndex sh.piecesDownloading } w
      exact ⟨h.going, h.owed, h.queue⟩

theorem spares_enterSection (params : Params) (torrentHas : ℕ → Bool) (random : ℕ) (sh : Shared)
    (w : Worker) (hphase : w.phase = .locking) (hgoing : sh.shouldStop = false) :
    Spares sh w (enterSection params torrentHas random sh w) := by
  have htakes := takes_getPieceToDownload params.numPieces torrentHas random sh w
  have hnone (piece : ℕ) : ¬ Carries w piece := not_carries w piece (by rw [hphase]; rfl)
  unfold enterSection
  simp only
  generalize getPieceToDownload params.numPieces torrentHas random sh w = next at htakes
  split
  · refine ⟨htakes.going.trans hgoing, ?_, ?_, ?_⟩
    · intro piece hpiece
      exact htakes.owed ▸ hpiece
    · intro piece _ hqueued
      rcases htakes.queue with hsame | ⟨front, hqueue, hindex, hmode⟩
      · exact Or.inl (hsame ▸ hqueued)
      · rw [hqueue] at hqueued
        rcases List.mem_cons.mp hqueued with rfl | hrest
        · exact Or.inr ⟨hindex, hmode, rfl⟩
        · exact Or.inl hrest
    · intro piece _ hcarries
      exact absurd hcarries (hnone piece)
  · rename_i hnothing
    refine ⟨htakes.going.trans hgoing, ?_, ?_, ?_⟩
    · intro piece hpiece
      exact htakes.owed ▸ hpiece
    · intro piece _ hqueued
      rcases htakes.queue with hsame | ⟨front, hqueue, hindex, hmode⟩
      · exact Or.inl (hsame ▸ hqueued)
      · simp [hindex] at hnothing
    · intro piece _ hcarries
      exact absurd hcarries (hnone piece)

/-- A failure of a piece that is not from the queue. -/
theorem spares_failWith (params : Params) (retval : ℤ) (sh : Shared) (w : Worker)
    (higno : params.ignoreError = true) (hmode : w.getFromHashFailed = false)
    (hgoing : sh.shouldStop = false) : Spares sh w (failWith params retval sh w) := by
  unfold failWith
  rw [if_pos higno]
  apply Spares.of_phase sh w _ hgoing rfl rfl
  intro piece hcarries
  rw [hcarries.2.1] at hmode
  simp at hmode

/-- What may fail: the piece must not come from the queue. -/
def FailsOutsideQueue (w : Worker) : Act → Prop
  | .read false | .hash false => w.getFromHashFailed = false
  | _ => True

theorem spares_workerStep (params : Params) (sh : Shared) (w : Worker) (a : Act)
    (moved : Shared × Worker) (higno : params.ignoreError = true) (hgoing : sh.shouldStop = false)
    (hguard : FailsOutsideQueue w a) (h : workerStep params sh w a = some moved) :
    Spares sh w moved := by
  have hidle (phase : Phase) (hphase : working w.phase = false) :
      Spares sh w (sh, { w with phase := phase }) := by
    apply Spares.of_phase sh w _ hgoing rfl rfl
    intro piece hcarries
    exact absurd hcarries (not_carries w piece hphase)
  have hwork (phase : Phase) (hphase : working phase = true) :
      Spares sh w (sh, { w with phase := phase }) := by
    apply Spares.of_phase sh w _ hgoing rfl rfl
    intro piece hcarries
    exact carries_phase w phase piece hphase hcarries
  cases workerStep_cases params sh w a moved h with
  | loop hphase => exact hidle _ (by rw [hphase]; rfl)
  | checkPaused paused hphase => exact hidle _ (by rw [hphase]; rfl)
  | enter torrentHas random hphase hfree =>
    exact spares_enterSection params torrentHas random sh w hphase hgoing
  | block hphase =>
    apply Spares.of_phase sh w _ hgoing rfl rfl
    intro piece hcarries
    exact absurd hcarries (not_carries w piece (by rw [hphase]; rfl))
  | testStop hphase =>
    rw [hgoing]
    exact hwork .reading rfl
  | readOk hphase => exact hwork .counting rfl
  | readFailed hphase => exact spares_failWith params (-1) sh w higno hguard hgoing
  | count hphase => exact hwork .hashing rfl
  | hashOk hphase => exact hwork .adding rfl
  | hashFailed hphase => exact spares_failWith params (-2) sh w higno hguard hgoing
  | addPiece hphase =>
    refine ⟨hgoing, ?_, ?_, ?_⟩
    · intro piece hpiece
      exact (List.mem_filter.mp hpiece).1
    · intro piece _ hqueued
      exact Or.inl hqueued
    · intro piece hpiece hcarries
      have hother := (List.mem_filter.mp hpiece).2
      simp [hcarries.1] at hother
  | testStopAdded hphase => exact hidle _ (by rw [hphase]; rfl)
  | account hphase => exact hidle _ (by rw [hphase]; rfl)
  | wake hphase => exact hidle _ (by rw [hphase]; rfl)
  | notify hphase => exact hidle _ (by rw [hphase]; rfl)
  | exit hphase =>
    apply Spares.of_phase sh w _ hgoing rfl rfl
    intro piece hcarries
    exact absurd hcarries (not_carries w piece (by rw [hphase]; rfl))

variable {T : Type}

/-- Every piece pushed as hash-failed is in the queue, held by a worker, or has been
handed to `add_piece` since. -/
def NoneForgotten (s : State T) : Prop :=
  ∀ piece ∈ s.shared.owed, piece ∈ s.shared.hashFailedPieces ∨ ∃ t, Holds (s.threads t) piece

/-- No stop is requested, and no piece taken from the queue fails again. -/
def RetriesNothingQueued (s : State T) : Event T → Prop
  | .act t a => FailsOutsideQueue (s.threads t) a
  | .stopDownload => False
  | _ => True

structure Accounted (s : State T) : Prop where
  going : s.shared.shouldStop = false
  pieces : ∀ piece ∈ s.shared.owed,
    piece ∈ s.shared.hashFailedPieces ∨ ∃ t, Carries (s.threads t) piece

theorem Accounted.noneForgotten {s : State T} (h : Accounted s) : NoneForgotten s := by
  intro piece hpiece
  rcases h.pieces piece hpiece with hqueued | ⟨t, hcarries⟩
  · exact Or.inl hqueued
  · exact Or.inr ⟨t, hcarries.holds⟩

/-- Waking threads up and counting notifications changes no piece. -/
theorem Accounted.wakes {s t : State T} (h : Accounted s)
    (hstop : t.shared.shouldStop = s.shared.shouldStop) (howed : t.shared.owed = s.shared.owed)
    (hqueue : t.shared.hashFailedPieces = s.shared.hashFailedPieces)
    (hthreads : ∀ u, t.threads u = s.threads u ∨ t.threads u = (s.threads u).woken) :
    Accounted t where
  going := hstop.trans h.going
  pieces := by
    intro piece hpiece
    rw [howed] at hpiece
    rw [hqueue]
    rcases h.pieces piece hpiece with hqueued | ⟨u, hcarries⟩
    · exact Or.inl hqueued
    · refine Or.inr ⟨u, ?_⟩
      rcases hthreads u with hsame | hwoken
      · rw [hsame]
        exact hcarries
      · rw [hwoken]
        exact hcarries.woken

variable [DecidableEq T]

theorem Accounted.act {s : State T} (h : Accounted s) (t : T) (moved : Shared × Worker)
    (hspares : Spares s.shared (s.threads t) moved) : Accounted (s.act t moved) where
  going := hspares.going
  pieces := by
    intro piece hpiece
    rcases h.pieces piece (hspares.owed piece hpiece) with hqueued | hcarried
    · rcases hspares.queued piece hpiece hqueued with hstill | hcarries
      · exact Or.inl hstill
      · refine Or.inr ⟨t, ?_⟩
        rw [System.act_self]
        exact hcarries
    · right
      apply System.exists_act s t moved (fun _ w => Carries w piece) hcarried
      exact hspares.carried piece hpiece

theorem Accounted.wokenOne {s : State T} (h : Accounted s) (target : Option T) :
    Accounted (wakeOne target s) := by
  apply h.wakes
  · rw [wakeOne_shared]
  · rw [wakeOne_shared]
  · rw [wakeOne_shared]
  · exact wakeOne_threads target s

theorem step_accounted (params : Params) (higno : params.ignoreError = true) (s t : State T)
    (e : Event T) (h : Accounted s) (hguard : RetriesNothingQueued s e)
    (hstep : step params s e = some t) : Accounted t := by
  cases e with
  | act u a =>
    simp only [step, Option.ite_none_left_eq_some] at hstep
    obtain ⟨moved, hmoved, rfl⟩ := Option.map_eq_some_iff.mp hstep.2
    exact h.act u moved (spares_workerStep params _ _ a moved higno h.going hguard hmoved)
  | notifyAll u =>
    simp only [step, Option.ite_none_right_eq_some] at hstep
    obtain ⟨moved, hmoved, rfl⟩ := Option.map_eq_some_iff.mp hstep.2
    have hwoken : Accounted (wakeAll s) := h.wakes rfl rfl rfl (fun u => Or.inr rfl)
    have hsame : (s.threads u).woken = s.threads u := by
      rw [Worker.woken, if_neg (by rw [hstep.1]; decide)]
    apply hwoken.act u moved
    have hspares := spares_workerStep params _ _ .notify moved higno h.going trivial hmoved
    show Spares s.shared (s.threads u).woken moved
    rw [hsame]
    exact hspares
  | addHashFailedPiece piece =>
    simp only [step, Option.ite_none_left_eq_some] at hstep
    obtain rfl := Option.some.inj hstep.2
    refine ⟨h.going, ?_⟩
    intro other hother
    rcases List.mem_append.mp hother with hold | hnew
    · rcases h.pieces other hold with hqueued | hcarried
      · exact Or.inl (List.mem_append_left _ hqueued)
      · exact Or.inr hcarried
    · exact Or.inl (List.mem_append_right _ hnew)
  | notifyOne target =>
    simp only [step, Option.ite_none_left_eq_some] at hstep
    obtain rfl := Option.some.inj hstep.2
    apply Accounted.wokenOne
    exact h.wakes rfl rfl rfl (fun u => Or.inl rfl)
  | stopDownload => exact absurd hguard (fun hfalse => hfalse)
  | notifyStop =>
    simp only [step, Option.ite_none_left_eq_some] at hstep
    obtain rfl := Option.some.inj hstep.2
    exact h.wakes rfl rfl rfl (fun u => Or.inr rfl)
  | wakeSpuriously u =>
    obtain rfl := Option.some.inj hstep
    exact h.wokenOne (some u)

/-- With errors ignored and no stop, no hash-failed piece is forgotten as long as
none that came from the queue fails again. -/
theorem run_noneForgotten (params : Params) (higno : params.ignoreError = true)
    (skipped : ℕ → Bool) (es : List (Event T)) (s : State T)
    (hrun : Path (step params) RetriesNothingQueued (State.start skipped) es s) :
    NoneForgotten s := by
  have hstart : Accounted (State.start skipped : State T) := by
    refine ⟨rfl, ?_⟩
    intro piece hpiece
    simp [State.start, Shared.start] at hpiece
  have haccounted : Accounted s := by
    apply hrun.invariant Accounted _ hstart
    intro s e t h hguard hstep
    exact step_accounted params higno s t e h hguard hstep
  exact haccounted.noneForgotten

section Samples

/-- A worker that finds nothing to do waits, takes the piece that is pushed then, and
fails to read it, unless `ok` says that the read succeeds. -/
def pushedThenRead (kind : Kind) (ok : Bool) : List (Event Unit) :=
  [.act () .loop] ++
    (match kind with
      | .clusterDownloader => []
      | .groupClusterTask => [.act () (.checkPaused false)]) ++
    [.act () (.enter (fun _ => true) 0), .act () .block, .addHashFailedPiece 0,
      .notifyOne (some ()), .act () (.enter (fun _ => true) 0), .act () .testStop,
      .act () (.read ok)]

def NoStopRequested : State Unit → Event Unit → Prop
  | _, .stopDownload => False
  | _, _ => True

theorem pushedThenRead_unstopped (kind : Kind) (ok : Bool) (s : State Unit) :
    ∀ e ∈ pushedThenRead kind ok, NoStopRequested s e := by
  intro e he
  cases kind <;> simp [pushedThenRead] at he <;>
    rcases he with rfl | rfl | rfl | rfl | rfl | rfl | rfl | rfl | rfl <;> trivial

theorem run_noneForgotten_read :
    ∃ s, Path (step ⟨.clusterDownloader, true, 1⟩) RetriesNothingQueued
        (State.start (fun _ => false)) (pushedThenRead .clusterDownloader true) s ∧
      s.shared.owed = [0] ∧ NoneForgotten s := by
  have hsteps : ∃ s, (pushedThenRead .clusterDownloader true).foldlM
        (step ⟨.clusterDownloader, true, 1⟩) (State.start (fun _ => false)) = some s ∧
      s.shared.owed = [0] := ⟨_, rfl, rfl⟩
  obtain ⟨s, hfold, howed⟩ := hsteps
  have hguard : ∀ s, ∀ e ∈ pushedThenRead .clusterDownloader true, RetriesNothingQueued s e := by
    intro s e he
    simp [pushedThenRead] at he
    rcases he with rfl | rfl | rfl | rfl | rfl | rfl | rfl | rfl <;> trivial
  have hrun := path_of_steps _ s _ hguard hfold
  exact ⟨s, hrun, howed, run_noneForgotten _ rfl _ _ s hrun⟩

/-- After the failed read the piece is in no queue and no worker comes back to it. -/
theorem failed_read_run (kind : Kind) :
    ∃ s, Path (step ⟨kind, true, 1⟩) NoStopRequested (State.start (fun _ => false))
      (pushedThenRead kind false) s ∧ ¬ NoneForgotten s := by
  have hsteps : ∃ s, (pushedThenRead kind false).foldlM (step ⟨kind, true, 1⟩)
        (State.start (fun _ => false)) = some s ∧ s.shared.owed = [0] ∧
      s.shared.hashFailedPieces = [] ∧ s.threads () = ⟨.sleeping, some 0, true⟩ := by
    cases kind
    · exact ⟨_, rfl, rfl, rfl, rfl⟩
    · exact ⟨_, rfl, rfl, rfl, rfl⟩
  obtain ⟨s, hfold, howed, hqueue, hworker⟩ := hsteps
  refine ⟨s, path_of_steps _ s _ (pushedThenRead_unstopped kind false) hfold, ?_⟩
  intro hnone
  rcases hnone 0 (by rw [howed]; simp) with hqueued | ⟨t, hholds⟩
  · rw [hqueue] at hqueued
    simp at hqueued
  · rw [hworker] at hholds
    rcases hholds.2 with hworking | ⟨hmode, -⟩
    · simp [working] at hworking
    · simp at hmode

theorem failed_read_forgets :
    (∃ s, Path (step ⟨.clusterDownloader, true, 1⟩) NoStopRequested (State.start (fun _ => false))
      (pushedThenRead .clusterDownloader false) s ∧ ¬ NoneForgotten s) ∧
    ∃ s, Path (step ⟨.groupClusterTask, true, 1⟩) NoStopRequested (State.start (fun _ => false))
      (pushedThenRead .groupClusterTask false) s ∧ ¬ NoneForgotten s :=
  ⟨failed_read_run .clusterDownloader, failed_read_run .groupClusterTask⟩

end Samples
end Gingko.ClusterPieces
