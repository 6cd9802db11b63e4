import Gingko.ClusterWorkers

/-!
Stopping the workers. A worker that found no piece reads the stop flag and then
blocks; whoever sets the flag does not take the mutex. So a worker can miss the stop
when the flag is set without a notification, or notified too early. While the flag is
up, a blocked worker must have a notification coming.
-/
namespace Gingko.ClusterStops

open GuardedRuns Interleavings ClusterWorkers

variable {T : Type}

/-- A worker that sleeps on the condition variable, or is about to. -/
def Blocking (w : Worker) : Prop := w.phase = .waiting ∨ w.phase = .deciding

theorem not_blocking_woken (w : Worker) (h : ¬ Blocking w) : ¬ Blocking w.woken := by
  have hphase : w.phase ≠ .waiting := fun hwaiting => h (Or.inl hwaiting)
  rw [Worker.woken, if_neg hphase]
  exact h

/-- A notification of all leaves no worker blocked that has blocked already. -/
theorem not_blocking_of_woken (w : Worker) (h : w.phase ≠ .deciding) : ¬ Blocking w.woken := by
  unfold Worker.woken
  split
  · intro hblocking
    rcases hblocking with hwaiting | hdeciding
    · simp at hwaiting
    · simp at hdeciding
  · rename_i hphase
    intro hblocking
    rcases hblocking with hwaiting | hdeciding
    · exact hphase hwaiting
    · exact h hdeciding

/-- Someone is about to notify all threads. -/
def NotifyComes (s : State T) : Prop :=
  0 < s.shared.stopNotifies ∨ ∃ t, (s.threads t).phase = .notifying

structure Woken (s : State T) : Prop where
  owner : s.shared.locked = true → ∃ t, (s.threads t).phase = .deciding
  seen : s.shared.shouldStop = true → (∀ t, ¬ Blocking (s.threads t)) ∨ NotifyComes s

/-- What a step of a thread means for a stop. -/
structure Obeys (sh : Shared) (w : Worker) (moved : Shared × Worker) : Prop where
  stop : moved.1.shouldStop = sh.shouldStop ∨ moved.2.phase = .notifying
  blocks : sh.shouldStop = true → Blocking moved.2 → Blocking w
  stopNotifies : moved.1.stopNotifies = sh.stopNotifies
  locked : moved.1.locked = true →
    moved.2.phase = .deciding ∨ (sh.locked = true ∧ w.phase ≠ .deciding)

theorem obeys_phase (sh : Shared) (w : Worker) (phase : Phase) (hold : w.phase ≠ .deciding)
    (hnew : phase ≠ .waiting ∧ phase ≠ .deciding) : Obeys sh w (sh, { w with phase := phase }) where
  stop := Or.inl rfl
  blocks := by
    intro _ hblocking
    rcases hblocking with hwaiting | hdeciding
    · exact absurd hwaiting hnew.1
    · exact absurd hdeciding hnew.2
  stopNotifies := rfl
  locked hlocked := Or.inr ⟨hlocked, hold⟩

theorem obeys_enterSection (params : Params) (torrentHas : ℕ → Bool) (random : ℕ) (sh : Shared)
    (w : Worker) (hfree : sh.locked = false) :
    Obeys sh w (enterSection params torrentHas random sh w) := by
  obtain ⟨piecesHave, piecesDownloading, queue, heq⟩ :=
    getPieceToDownload_shared params.numPieces torrentHas random sh w
  unfold enterSection
  simp only
  generalize getPieceToDownload params.numPieces torrentHas random sh w = next at heq
  rw [heq]
  split
  · refine ⟨Or.inl rfl, ?_, rfl, ?_⟩
    · intro _ hblocking
      rcases hblocking with hwaiting | hdeciding
      · simp at hwaiting
      · simp at hdeciding
    · intro hlocked
      simp [hfree] at hlocked
  · rename_i hnothing
    refine ⟨Or.inl rfl, ?_, rfl, ?_⟩
    · intro hstop
      simp [hstop] at hnothing
    · intro _
      exact Or.inl rfl

theorem obeys_failWith (params : Params) (retval : ℤ) (sh : Shared) (w : Worker)
    (hold : w.phase ≠ .deciding) : Obeys sh w (failWith params retval sh w) := by
  unfold failWith
  split
  · exact obeys_phase sh w .sleeping hold ⟨by simp, by simp⟩
  · refine ⟨Or.inr rfl, ?_, rfl, fun hlocked => Or.inr ⟨hlocked, hold⟩⟩
    intro _ hblocking
    rcases hblocking with hwaiting | hdeciding
    · simp at hwaiting
    · simp at hdeciding

theorem obeys_workerStep (params : Params) (sh : Shared) (w : Worker) (a : Act)
    (moved : Shared × Worker) (h : workerStep params sh w a = some moved) : Obeys sh w moved := by
  cases workerStep_cases params sh w a moved h with
  | loop hphase =>
    apply obeys_phase sh w _ (by simp [hphase])
    unfold afterLoop
    split
    · exact ⟨by simp, by simp⟩
    · cases params.kind <;> exact ⟨by simp, by simp⟩
  | checkPaused paused hphase =>
    apply obeys_phase sh w _ (by simp [hphase])
    cases paused <;> exact ⟨by simp, by simp⟩
  | enter torrentHas random hphase hfree =>
    exact obeys_enterSection params torrentHas random sh w hfree
  | block hphase =>
    refine ⟨Or.inl rfl, ?_, rfl, ?_⟩
    · intro _ _
      exact Or.inr hphase
    · intro hlocked
      simp at hlocked
  | testStop hphase =>
    apply obeys_phase sh w _ (by simp [hphase])
    cases sh.shouldStop <;> exact ⟨by simp, by simp⟩
  | readOk hphase => exact obeys_phase sh w _ (by simp [hphase]) ⟨by simp, by simp⟩
  | readFailed hphase => exact obeys_failWith params (-1) sh w (by simp [hphase])
  | count hphase => exact obeys_phase sh w _ (by simp [hphase]) ⟨by simp, by simp⟩
  | hashOk hphase => exact obeys_phase sh w _ (by simp [hphase]) ⟨by simp, by simp⟩
  | hashFailed hphase => exact obeys_failWith params (-2) sh w (by simp [hphase])
  | addPiece hphase =>
    have hphase' := obeys_phase sh w .added (by simp [hphase]) ⟨by simp, by simp⟩
    exact ⟨Or.inl rfl, hphase'.blocks, rfl, hphase'.locked⟩
  | testStopAdded hphase =>
    apply obeys_phase sh w _ (by simp [hphase])
    cases sh.shouldStop <;> exact ⟨by simp, by simp⟩
  | account hphase => exact obeys_phase sh w _ (by simp [hphase]) ⟨by simp, by simp⟩
  | wake hphase => exact obeys_phase sh w _ (by simp [hphase]) ⟨by simp, by simp⟩
  | notify hphase => exact obeys_phase sh w _ (by simp [hphase]) ⟨by simp, by simp⟩
  | exit hphase =>
    have hphase' := obeys_phase sh w .ended (by simp [hphase]) ⟨by simp, by simp⟩
    exact ⟨Or.inl rfl, hphase'.blocks, rfl, hphase'.locked⟩

theorem woken_phase (w : Worker) (phase : Phase) (hwaiting : phase ≠ .waiting)
    (h : w.phase = phase) : w.woken.phase = phase := by
  rw [Worker.woken, if_neg (by rw [h]; exact hwaiting)]
  exact h

/-- Waking some threads up changes neither the flag nor who is about to notify. -/
theorem Woken.wakes {s t : State T} (h : Woken s) (hlocked : t.shared.locked = s.shared.locked)
    (hstop : t.shared.shouldStop = s.shared.shouldStop)
    (hnotifies : t.shared.stopNotifies = s.shared.stopNotifies)
    (hthreads : ∀ u, t.threads u = s.threads u ∨ t.threads u = (s.threads u).woken) :
    Woken t := by
  have hkept (u : T) (phase : Phase) (hwaiting : phase ≠ .waiting)
      (hphase : (s.threads u).phase = phase) : (t.threads u).phase = phase := by
    rcases hthreads u with hsame | hwoken
    · rw [hsame]
      exact hphase
    · rw [hwoken]
      exact woken_phase _ phase hwaiting hphase
  refine ⟨?_, ?_⟩
  · intro hl
    obtain ⟨u, hu⟩ := h.owner (hlocked.symm.trans hl)
    exact ⟨u, hkept u .deciding (by simp) hu⟩
  · intro hs
    rcases h.seen (hstop.symm.trans hs) with hnone | hpending | ⟨u, hu⟩
    · left
      intro u
      rcases hthreads u with hsame | hwoken
      · rw [hsame]
        exact hnone u
      · rw [hwoken]
        exact not_blocking_woken _ (hnone u)
    · exact Or.inr (Or.inl (hnotifies ▸ hpending))
    · exact Or.inr (Or.inr ⟨u, hkept u .notifying (by simp) hu⟩)

/-- After all threads have been woken, none is blocked if none was about to block. -/
theorem woken_of_wakeAll {s t : State T} (h : Woken s) (hlocked : t.shared.locked = s.shared.locked)
    (hdeciding : ∀ u, (s.threads u).phase ≠ .deciding)
    (hthreads : ∀ u, ¬ Blocking (t.threads u)) : Woken t := by
  refine ⟨?_, fun _ => Or.inl hthreads⟩
  intro hl
  obtain ⟨u, hu⟩ := h.owner (hlocked.symm.trans hl)
  exact absurd hu (hdeciding u)

theorem stopDownload_locked (params : Params) (sh : Shared) :
    (stopDownload params sh).locked = sh.locked := by
  unfold stopDownload
  cases params.kind <;> rfl

theorem woken_stopDownload (params : Params) (s : State T) (h : Woken s)
    (hguard : params.kind = .clusterDownloader → s.shared.shouldStop = false →
      ∀ t, ¬ Blocking (s.threads t)) :
    Woken { s with shared := stopDownload params s.shared } where
  owner hlocked := h.owner ((stopDownload_locked params s.shared).symm.trans hlocked)
  seen _ := by
    cases hkind : params.kind with
    | groupClusterTask =>
      refine Or.inr (Or.inl ?_)
      simp [stopDownload, hkind]
    | clusterDownloader =>
      cases hbefore : s.shared.shouldStop with
      | false => exact Or.inl (hguard hkind hbefore)
      | true =>
        rcases h.seen hbefore with hnone | hpending | hsome
        · exact Or.inl hnone
        · refine Or.inr (Or.inl ?_)
          simpa [stopDownload, hkind] using hpending
        · exact Or.inr (Or.inr hsome)

variable [DecidableEq T]

/-- No worker has a step, and no call is on its way. -/
structure Quiet (params : Params) (s : State T) : Prop where
  acts : ∀ t a, step params s (.act t a) = none
  notifies : ∀ t, step params s (.notifyAll t) = none
  notifiesOne : ∀ target, step params s (.notifyOne target) = none
  notifiesStop : step params s .notifyStop = none

def NoneStuck (params : Params) (s : State T) : Prop :=
  s.shared.shouldStop = true → Quiet params s → ∀ t, (s.threads t).phase = .ended

/-- The flag goes up without a notification only while no worker is blocking, and
no worker is between its test and its wait when all are notified. -/
def StopsAreSeen (params : Params) (s : State T) : Event T → Prop
  | .stopDownload => params.kind = .clusterDownloader → s.shared.shouldStop = false →
      ∀ t, ¬ Blocking (s.threads t)
  | .notifyStop | .notifyAll _ => ∀ t, (s.threads t).phase ≠ .deciding
  | _ => True

theorem Quiet.unlocked {params : Params} {s : State T} (hquiet : Quiet params s)
    (h : Woken s) : s.shared.locked = false := by
  cases hlocked : s.shared.locked with
  | false => rfl
  | true =>
    obtain ⟨t, ht⟩ := h.owner hlocked
    have hstep := hquiet.acts t .block
    simp [step, workerStep, ht] at hstep

theorem Quiet.phases {params : Params} {s : State T} (hquiet : Quiet params s) (h : Woken s)
    (t : T) : (s.threads t).phase = .waiting ∨ (s.threads t).phase = .ended := by
  have hlocked := hquiet.unlocked h
  have hacts := hquiet.acts t
  simp only [step] at hacts
  cases hphase : (s.threads t).phase with
  | waiting => exact Or.inl rfl
  | ended => exact Or.inr rfl
  | looping => simpa [hphase, workerStep] using hacts .loop
  | checking => simpa [hphase, workerStep] using hacts (.checkPaused true)
  | locking => simpa [hphase, workerStep, hlocked] using hacts (.enter (fun _ => false) 0)
  | deciding => simpa [hphase, workerStep] using hacts .block
  | got => simpa [hphase, workerStep] using hacts .testStop
  | reading => simpa [hphase, workerStep] using hacts (.read true)
  | counting => simpa [hphase, workerStep, hlocked] using hacts .count
  | hashing => simpa [hphase, workerStep] using hacts (.hash true)
  | adding => simpa [hphase, workerStep] using hacts .addPiece
  | added => simpa [hphase, workerStep] using hacts .testStopAdded
  | accounting => simpa [hphase, workerStep, hlocked] using hacts .account
  | sleeping => simpa [hphase, workerStep] using hacts .wake
  | notifying => simpa [hphase, workerStep, step] using hquiet.notifies t
  | exiting => simpa [hphase, workerStep, hlocked] using hacts .exit

theorem Woken.noneStuck {params : Params} {s : State T} (h : Woken s) : NoneStuck params s := by
  intro hstop hquiet t
  rcases hquiet.phases h t with hwaiting | hended
  · exfalso
    rcases h.seen hstop with hnone | hpending | ⟨u, hnotifying⟩
    · exact hnone t (Or.inl hwaiting)
    · have hstep := hquiet.notifiesStop
      simp only [step] at hstep
      rw [if_neg (by omega)] at hstep
      simp at hstep
    · rcases hquiet.phases h u with hu | hu
      · simp [hnotifying] at hu
      · simp [hnotifying] at hu
  · exact hended

/-- A step of a thread. A thread that was about to notify is not the one that acts. -/
theorem Woken.act {s : State T} (h : Woken s) (t : T) (moved : Shared × Worker)
    (hphase : (s.threads t).phase ≠ .notifying)
    (hobeys : Obeys s.shared (s.threads t) moved) : Woken (s.act t moved) where
  owner := by
    intro hlocked
    rcases hobeys.locked hlocked with hdeciding | ⟨hbefore, hother⟩
    · refine ⟨t, ?_⟩
      rw [System.act_self]
      exact hdeciding
    · apply System.exists_act s t moved (fun _ w => w.phase = .deciding) (h.owner hbefore)
      intro hdeciding
      exact absurd hdeciding hother
  seen := by
    intro hstop
    rcases hobeys.stop with hsame | hnotifying
    · have hbefore : s.shared.shouldStop = true := hsame.symm.trans hstop
      rcases h.seen hbefore with hnone | hpending | hsome
      · left
        apply System.forall_act s t moved (fun _ w => ¬ Blocking w)
        · intro hblocking
          exact hnone t (hobeys.blocks hbefore hblocking)
        · intro u _
          exact hnone u
      · refine Or.inr (Or.inl ?_)
        rw [System.act_shared, hobeys.stopNotifies]
        exact hpending
      · refine Or.inr (Or.inr ?_)
        apply System.exists_act s t moved (fun _ w => w.phase = .notifying) hsome
        intro hnotifying
        exact absurd hnotifying hphase
    · refine Or.inr (Or.inr ⟨t, ?_⟩)
      rw [System.act_self]
      exact hnotifying

/-- A failing worker that notifies all goes on to its end. -/
theorem woken_notifyAll (params : Params) (s : State T) (u : T) (h : Woken s)
    (hguard : ∀ v, (s.threads v).phase ≠ .deciding) (moved : Shared × Worker)
    (hmoved : workerStep params s.shared (s.threads u) .notify = some moved) :
    Woken ((wakeAll s).act u moved) := by
  obtain rfl : (s.shared, { s.threads u with phase := .exiting }) = moved := by
    cases workerStep_cases params _ _ .notify moved hmoved with
    | notify hphase => rfl
  apply woken_of_wakeAll h
  · rfl
  · exact hguard
  · apply System.forall_act (wakeAll s) u _ (fun _ w => ¬ Blocking w)
    · intro hblocking
      rcases hblocking with hwaiting | hdeciding
      · simp at hwaiting
      · simp at hdeciding
    · intro v _
      exact not_blocking_of_woken _ (hguard v)

theorem woken_wakeOne (s : State T) (target : Option T) (h : Woken s) :
    Woken (wakeOne target s) := by
  apply h.wakes
  · rw [wakeOne_shared]
  · rw [wakeOne_shared]
  · rw [wakeOne_shared]
  · exact wakeOne_threads target s

theorem step_woken (params : Params) (s t : State T) (e : Event T) (h : Woken s)
    (hguard : StopsAreSeen params s e) (hstep : step params s e = some t) : Woken t := by
  cases e with
  | act u a =>
    simp only [step, Option.ite_none_left_eq_some] at hstep
    obtain ⟨moved, hmoved, rfl⟩ := Option.map_eq_some_iff.mp hstep.2
    exact h.act u moved hstep.1 (obeys_workerStep params _ _ a moved hmoved)
  | notifyAll u =>
    simp only [step, Option.ite_none_right_eq_some] at hstep
    obtain ⟨moved, hmoved, rfl⟩ := Option.map_eq_some_iff.mp hstep.2
    exact woken_notifyAll params s u h hguard moved hmoved
  | addHashFailedPiece piece =>
    simp only [step, Option.ite_none_left_eq_some] at hstep
    obtain rfl := Option.some.inj hstep.2
    exact h.wakes rfl rfl rfl (fun u => Or.inl rfl)
  | notifyOne target =>
    simp only [step, Option.ite_none_left_eq_some] at hstep
    obtain rfl := Option.some.inj hstep.2
    exact woken_wakeOne _ target (h.wakes rfl rfl rfl (fun u => Or.inl rfl))
  | stopDownload =>
    obtain rfl := Option.some.inj hstep
    exact woken_stopDownload params s h hguard
  | notifyStop =>
    simp only [step, Option.ite_none_left_eq_some] at hstep
    obtain rfl := Option.some.inj hstep.2
    apply woken_of_wakeAll h
    · rfl
    · exact hguard
    · intro u
      exact not_blocking_of_woken _ (hguard u)
  | wakeSpuriously u =>
    obtain rfl := Option.some.inj hstep
    exact woken_wakeOne s (some u) h

/-- Once the flag is up and nothing moves, every worker has ended, in every run in
which each stop is seen. -/
theorem run_noneStuck (params : Params) (skipped : ℕ → Bool) (es : List (Event T)) (s : State T)
    (hrun : Path (step params) (StopsAreSeen params) (State.start skipped) es s) :
    NoneStuck params s := by
  have hstart : Woken (State.start skipped : State T) :=
    ⟨by simp [State.start, Shared.start], by simp [State.start, Shared.start]⟩
  have hwoken : Woken s := by
    apply hrun.invariant Woken _ hstart
    intro s e t h hguard hstep
    exact step_woken params s t e h hguard hstep
  exact hwoken.noneStuck

section Samples

/-- A worker that finds no piece, and a stop: without a notification for a worker
that waits, or notified while the worker has tested the flag and not blocked yet. -/
def missedStop : Kind → List (Event Unit)
  | .clusterDownloader =>
    [.act () .loop, .act () (.enter (fun _ => true) 0), .act () .block, .stopDownload]
  | .groupClusterTask =>
    [.act () .loop, .act () (.checkPaused false), .act () (.enter (fun _ => true) 0),
      .stopDownload, .notifyStop, .act () .block]

def seenStop : List (Event Unit) :=
  [.act () .loop, .stopDownload, .act () (.enter (fun _ => true) 0), .act () .testStop,
    .act () .exit]

theorem run_noneStuck_seen :
    ∃ s, Path (step ⟨.clusterDownloader, true, 1⟩) (StopsAreSeen ⟨.clusterDownloader, true, 1⟩)
        (State.start (fun _ => false)) seenStop s ∧ s.shared.shouldStop = true ∧
      NoneStuck ⟨.clusterDownloader, true, 1⟩ s := by
  have hrun : ∃ s, Path (step ⟨.clusterDownloader, true, 1⟩)
      (StopsAreSeen ⟨.clusterDownloader, true, 1⟩) (State.start (fun _ => false)) seenStop s ∧
      s.shared.shouldStop = true := by
    refine ⟨_, .cons _ _ _ _ _ rfl trivial (.cons _ _ _ _ _ rfl ?_ (.cons _ _ _ _ _ rfl trivial
      (.cons _ _ _ _ _ rfl trivial (.cons _ _ _ _ _ rfl trivial (.nil _))))), rfl⟩
    intro _ _ t hblocking
    rcases hblocking with hwaiting | hdeciding
    · exact Phase.noConfusion (show Phase.locking = Phase.waiting from hwaiting)
    · exact Phase.noConfusion (show Phase.locking = Phase.deciding from hdeciding)
  obtain ⟨s, hrun, hstop⟩ := hrun
  exact ⟨s, hrun, hstop, run_noneStuck _ _ _ s hrun⟩

theorem quiet_of_waiting (params : Params) (s : State Unit)
    (hworker : (s.threads ()).phase = .waiting) (hfailed : s.shared.failedNotifies = 0)
    (hstop : s.shared.stopNotifies = 0) : Quiet params s where
  acts t a := by cases a <;> simp [step, workerStep, hworker]
  notifies t := by simp [step, hworker]
  notifiesOne target := by simp [step, hfailed]
  notifiesStop := by simp [step, hstop]

theorem missed_stop_run (kind : Kind) :
    ∃ s, Path (step ⟨kind, true, 1⟩) (fun _ _ => True) (State.start (fun _ => false))
      (missedStop kind) s ∧ ¬ NoneStuck ⟨kind, true, 1⟩ s := by
  have hsteps : ∃ s, (missedStop kind).foldlM (step ⟨kind, true, 1⟩)
        (State.start (fun _ => false)) = some s ∧ s.shared.shouldStop = true ∧
      (s.threads ()).phase = .waiting ∧ s.shared.failedNotifies = 0 ∧
      s.shared.stopNotifies = 0 := by
    cases kind
    · exact ⟨_, rfl, rfl, rfl, rfl, rfl⟩
    · exact ⟨_, rfl, rfl, rfl, rfl, rfl⟩
  obtain ⟨s, hfold, hflag, hworker, hfailed, hstop⟩ := hsteps
  refine ⟨s, path_of_steps _ s _ (fun _ _ _ => trivial) hfold, ?_⟩
  intro hnone
  have hended := hnone hflag (quiet_of_waiting _ s hworker hfailed hstop) ()
  rw [hworker] at hended
  contradiction

theorem missed_stop_sticks :
    (∃ s, Path (step ⟨.clusterDownloader, true, 1⟩) (fun _ _ => True)
      (State.start (fun _ => false)) (missedStop .clusterDownloader) s ∧
        ¬ NoneStuck ⟨.clusterDownloader, true, 1⟩ s) ∧
    ∃ s, Path (step ⟨.groupClusterTask, true, 1⟩) (fun _ _ => True)
      (State.start (fun _ => false)) (missedStop .groupClusterTask) s ∧
        ¬ NoneStuck ⟨.groupClusterTask, true, 1⟩ s :=
  ⟨missed_stop_run .clusterDownloader, missed_stop_run .groupClusterTask⟩

end Samples
end Gingko.ClusterStops
