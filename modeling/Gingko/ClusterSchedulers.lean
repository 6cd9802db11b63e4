import Gingko.GuardedRuns
import Mathlib.Data.Int.Notation
import Mathlib.Data.List.Count
import Mathlib.Logic.Function.Basic

/-!
The scheduler that creates the download threads of cluster tasks. It takes a task
from the queue while the number of threads is below the configured maximum and
then creates threads for that task in an inner loop; a thread that ends lowers the
number again. What lies between two accesses to shared data is one step, and the
steps of the scheduler, of the threads and of the callers interleave freely. The
configured maximum is the same throughout a run: a reload of it is left out.
-/
namespace Gingko.ClusterSchedulers

open GuardedRuns

inductive Phase where
  | created
  | downloading
  | ended
  deriving DecidableEq

structure Thread (T : Type*) where
  task : T
  phase : Phase
  deriving DecidableEq

/-- Where the scheduler is. `looping` is the head of the inner loop, `raising` the
place between creating a thread and counting it. -/
inductive Scheduler (T : Type*) where
  | top
  | admitting
  | popped (task : T)
  | testingStop (task : T)
  | entering (task : T)
  | looping (task : T) (i : ℕ)
  | raising (task : T) (i : ℕ)
  | exited

structure Params (T : Type*) where
  maxClusterThreadNum : ℤ
  threadsNum : T → ℤ

structure Manager (T : Type*) where
  currentClusterThreadNum : ℕ
  clusterQueueTasks : List T
  clusterShouldStop : Bool
  currentStartThreadNum : T → ℕ
  isStoped : T → Bool
  scheduler : Scheduler T
  threads : List (Thread T)

inductive Event (T : Type*) where
  | pushClusterThreadQueue (task : T)
  | stopDownload (task : T)
  | wakeUpAllClusterDownThread
  | advance
  | start (k : ℕ)
  | finish (k : ℕ)

def Manager.start (T : Type*) : Manager T :=
  ⟨0, [], false, fun _ => 0, fun _ => false, .top, []⟩

def checkIfThreadnumOut {T : Type*} (params : Params T) (s : Manager T) (task : T) : Bool :=
  params.threadsNum task ≤ s.currentStartThreadNum task

def deleteClusterThreadNum (current : ℕ) : ℕ := if 0 < current then current - 1 else current

/-- One step of the scheduler thread. -/
def clusterDownload {T : Type*} (params : Params T) (s : Manager T) : Option (Manager T) :=
  match s.scheduler with
  | .top => some { s with scheduler := if s.clusterShouldStop then .exited else .admitting }
  | .admitting =>
    if (s.currentClusterThreadNum : ℤ) < params.maxClusterThreadNum then
      match s.clusterQueueTasks with
      | [] => some { s with scheduler := .top }
      | task :: rest => some { s with clusterQueueTasks := rest, scheduler := .popped task }
    else some { s with scheduler := .top }
  | .popped task =>
    some { s with scheduler := if checkIfThreadnumOut params s task then .top else .testingStop task }
  | .testingStop task =>
    some { s with scheduler := if s.isStoped task then .top else .entering task }
  | .entering task => some { s with scheduler := .looping task (s.currentStartThreadNum task) }
  | .looping task i =>
    if (i : ℤ) < params.threadsNum task then
      some { s with threads := s.threads ++ [⟨task, .created⟩], scheduler := .raising task i }
    else some { s with scheduler := .top }
  | .raising task i =>
    if params.maxClusterThreadNum < (s.currentClusterThreadNum + 1 : ℕ) then
      some { s with
        currentClusterThreadNum := s.currentClusterThreadNum + 1
        clusterQueueTasks := s.clusterQueueTasks ++ [task]
        scheduler := .top }
    else
      some { s with
        currentClusterThreadNum := s.currentClusterThreadNum + 1
        scheduler := .looping task (i + 1) }
  | .exited => none

section Steps

variable {T : Type*} [DecidableEq T] (params : Params T)

/-- A created thread raises the counter of its task when it first runs, and
lowers the number of threads with its last action. -/
def step (s : Manager T) : Event T → Option (Manager T)
  | .pushClusterThreadQueue task =>
    some { s with clusterQueueTasks := s.clusterQueueTasks ++ [task] }
  | .stopDownload task => some { s with isStoped := Function.update s.isStoped task true }
  | .wakeUpAllClusterDownThread => some { s with clusterShouldStop := true }
  | .advance => clusterDownload params s
  | .start k =>
    match s.threads[k]? with
    | some ⟨task, .created⟩ =>
      some { s with
        currentStartThreadNum := Function.update s.currentStartThreadNum task
          (s.currentStartThreadNum task + 1)
        threads := s.threads.set k ⟨task, .downloading⟩ }
    | _ => none
  | .finish k =>
    match s.threads[k]? with
    | some ⟨task, .downloading⟩ =>
      some { s with
        currentClusterThreadNum := deleteClusterThreadNum s.currentClusterThreadNum
        threads := s.threads.set k ⟨task, .ended⟩ }
    | _ => none

end Steps

section Counts

variable {T : Type*}

def Scheduler.insideLoop : Scheduler T → Bool
  | .looping _ _ => true
  | .raising _ _ => true
  | _ => false

/-- Threads that are created and not counted yet. -/
def Scheduler.uncounted : Scheduler T → ℕ
  | .raising _ _ => 1
  | _ => 0

def Thread.unfinished (th : Thread T) : Bool :=
  match th.phase with
  | .ended => false
  | _ => true

/-- Threads created and not yet finished. -/
def Manager.live (s : Manager T) : ℕ := s.threads.countP Thread.unfinished

def Thread.belongs [DecidableEq T] (task : T) (th : Thread T) : Bool := th.task = task

def Manager.created [DecidableEq T] (s : Manager T) (task : T) : ℕ :=
  s.threads.countP (Thread.belongs task)

theorem uncounted_of_outside (pc : Scheduler T) (h : pc.insideLoop = false) : pc.uncounted = 0 := by
  cases pc <;> first | rfl | contradiction

theorem countP_set_of_getElem? {α : Type*} (p : α → Bool) (l : List α) (k : ℕ) (a b : α)
    (h : l[k]? = some a) :
    (l.set k b).countP p + (if p a then 1 else 0) = l.countP p + (if p b then 1 else 0) := by
  obtain ⟨hk, rfl⟩ := List.getElem?_eq_some_iff.mp h
  have hset := List.countP_set (p := p) (a := b) hk
  have hpos : p l[k] = true → 0 < l.countP p := fun hp =>
    List.countP_pos_iff.mpr ⟨l[k], List.getElem_mem hk, hp⟩
  rw [hset]
  by_cases hp : p l[k] = true
  · have := hpos hp
    simp only [hp, if_true]
    omega
  · simp only [hp]
    simp

end Counts

section Moves

variable {T : Type*} [DecidableEq T] (params : Params T)

/-- What a step can do. -/
inductive Moved (s : Manager T) : Event T → Manager T → Prop
  | aside (e : Event T) (he : ∀ k, e ≠ .finish k) (queue : List T) (stop : Bool)
      (stoped : T → Bool) (pc : Scheduler T)
      (hpc : pc = s.scheduler ∨ s.scheduler.uncounted = 0 ∧ pc.insideLoop = false) :
      Moved s e { s with
        clusterQueueTasks := queue
        clusterShouldStop := stop
        isStoped := stoped
        scheduler := pc }
  | entered (task : T) (hpc : s.scheduler = .entering task) :
      Moved s .advance { s with scheduler := .looping task (s.currentStartThreadNum task) }
  | created (task : T) (i : ℕ) (hpc : s.scheduler = .looping task i)
      (hmore : (i : ℤ) < params.threadsNum task) :
      Moved s .advance { s with
        threads := s.threads ++ [⟨task, .created⟩]
        scheduler := .raising task i }
  | counted (task : T) (i : ℕ) (queue : List T) (pc : Scheduler T)
      (hpc : s.scheduler = .raising task i)
      (hnext : pc = .looping task (i + 1) ∨ pc = .top) :
      Moved s .advance { s with
        currentClusterThreadNum := s.currentClusterThreadNum + 1
        clusterQueueTasks := queue
        scheduler := pc }
  | started (k : ℕ) (task : T) (hthread : s.threads[k]? = some ⟨task, .created⟩) :
      Moved s (.start k) { s with
        currentStartThreadNum := Function.update s.currentStartThreadNum task
          (s.currentStartThreadNum task + 1)
        threads := s.threads.set k ⟨task, .downloading⟩ }
  | finished (k : ℕ) (task : T) (hthread : s.threads[k]? = some ⟨task, .downloading⟩) :
      Moved s (.finish k) { s with
        currentClusterThreadNum := deleteClusterThreadNum s.currentClusterThreadNum
        threads := s.threads.set k ⟨task, .ended⟩ }

theorem moved_of_clusterDownload (s t : Manager T) (h : clusterDownload params s = some t) :
    Moved params s .advance t := by
  have haside (queue : List T) (pc : Scheduler T) (hold : s.scheduler.uncounted = 0)
      (hnew : pc.insideLoop = false) :
      Moved params s .advance { s with clusterQueueTasks := queue, scheduler := pc } :=
    .aside .advance (by simp) queue s.clusterShouldStop s.isStoped pc (Or.inr ⟨hold, hnew⟩)
  unfold clusterDownload at h
  split at h
  case h_1 hpc =>
    obtain rfl := Option.some.inj h
    exact haside s.clusterQueueTasks _ (by simp [hpc, Scheduler.uncounted])
      (by split <;> rfl)
  case h_2 hpc =>
    have hold : s.scheduler.uncounted = 0 := by simp [hpc, Scheduler.uncounted]
    split at h
    · split at h
      · obtain rfl := Option.some.inj h
        exact haside _ .top hold rfl
      · rename_i task rest hqueue
        obtain rfl := Option.some.inj h
        exact haside rest (.popped task) hold rfl
    · obtain rfl := Option.some.inj h
      exact haside _ .top hold rfl
  case h_3 task hpc =>
    obtain rfl := Option.some.inj h
    exact haside _ _ (by simp [hpc, Scheduler.uncounted]) (by split <;> rfl)
  case h_4 task hpc =>
    obtain rfl := Option.some.inj h
    exact haside _ _ (by simp [hpc, Scheduler.uncounted]) (by split <;> rfl)
  case h_5 task hpc =>
    obtain rfl := Option.some.inj h
    exact .entered task hpc
  case h_6 task i hpc =>
    split at h
    · rename_i hmore
      obtain rfl := Option.some.inj h
      exact .created task i hpc hmore
    · obtain rfl := Option.some.inj h
      exact haside _ .top (by simp [hpc, Scheduler.uncounted]) rfl
  case h_7 task i hpc =>
    split at h
    · obtain rfl := Option.some.inj h
      exact .counted task i _ .top hpc (Or.inr rfl)
    · obtain rfl := Option.some.inj h
      exact .counted task i s.clusterQueueTasks _ hpc (Or.inl rfl)
  case h_8 hpc => contradiction

theorem moved_of_step (s t : Manager T) (e : Event T) (h : step params s e = some t) :
    Moved params s e t := by
  cases e with
  | pushClusterThreadQueue task =>
    obtain rfl := Option.some.inj h
    exact .aside _ (by simp) _ s.clusterShouldStop s.isStoped s.scheduler (Or.inl rfl)
  | stopDownload task =>
    obtain rfl := Option.some.inj h
    exact .aside _ (by simp) s.clusterQueueTasks s.clusterShouldStop _ s.scheduler (Or.inl rfl)
  | wakeUpAllClusterDownThread =>
    obtain rfl := Option.some.inj h
    exact .aside _ (by simp) s.clusterQueueTasks true s.isStoped s.scheduler (Or.inl rfl)
  | advance => exact moved_of_clusterDownload params s t h
  | start k =>
    simp only [step] at h
    split at h
    · rename_i task hthread
      obtain rfl := Option.some.inj h
      exact .started k task hthread
    · contradiction
  | finish k =>
    simp only [step] at h
    split at h
    · rename_i task hthread
      obtain rfl := Option.some.inj h
      exact .finished k task hthread
    · contradiction

/-- The number of threads exceeds those created and not finished. -/
def Exceeds (excess : ℕ) (s : Manager T) : Prop :=
  s.currentClusterThreadNum + s.scheduler.uncounted = s.live + excess

/-- A thread that ends finds itself counted. -/
def FinishCounted (s : Manager T) (e : Event T) : Prop :=
  ∀ k, e = .finish k → 0 < s.currentClusterThreadNum

theorem exceeds_step (excess : ℕ) (s t : Manager T) (e : Event T) (h : Moved params s e t)
    (hs : Exceeds excess s) :
    ∃ lost, Exceeds (excess + lost) t ∧ (lost = 0 ↔ FinishCounted s e) := by
  unfold Exceeds at hs ⊢
  cases h with
  | aside e he queue stop stoped pc hpc =>
    have hsame : pc.uncounted = s.scheduler.uncounted := by
      rcases hpc with rfl | ⟨hold, hnew⟩
      · rfl
      · rw [hold, uncounted_of_outside pc hnew]
    refine ⟨0, ?_, by simp [FinishCounted, he]⟩
    simp only [hsame, Nat.add_zero]
    exact hs
  | entered task hpc =>
    refine ⟨0, ?_, by simp [FinishCounted]⟩
    rw [hpc] at hs
    exact hs
  | created task i hpc hmore =>
    refine ⟨0, ?_, by simp [FinishCounted]⟩
    simp only [hpc, Scheduler.uncounted, Manager.live] at hs ⊢
    simp only [List.countP_append, List.countP_singleton, Thread.unfinished, if_true]
    omega
  | counted task i queue pc hpc hnext =>
    refine ⟨0, ?_, by simp [FinishCounted]⟩
    have hnone : pc.uncounted = 0 := by
      rcases hnext with rfl | rfl <;> rfl
    simp only [hpc, hnone, Manager.live] at hs ⊢
    simp only [Scheduler.uncounted] at hs
    omega
  | started k task hthread =>
    refine ⟨0, ?_, by simp [FinishCounted]⟩
    have hset := countP_set_of_getElem? Thread.unfinished s.threads k _ ⟨task, .downloading⟩ hthread
    simp only [Thread.unfinished, if_true] at hset
    simp only [Manager.live] at hs ⊢
    omega
  | finished k task hthread =>
    have hset := countP_set_of_getElem? Thread.unfinished s.threads k _ ⟨task, .ended⟩ hthread
    simp only [Thread.unfinished, if_true, Bool.false_eq_true, if_false] at hset
    simp only [Manager.live] at hs ⊢
    by_cases hpos : 0 < s.currentClusterThreadNum
    · refine ⟨0, ?_, by simp [FinishCounted, hpos]⟩
      simp only [deleteClusterThreadNum, if_pos hpos]
      omega
    · refine ⟨1, ?_, by simp [FinishCounted, hpos]⟩
      simp only [deleteClusterThreadNum, if_neg hpos]
      omega

theorem exceeds_path (excess : ℕ) (s t : Manager T) (es : List (Event T))
    (h : Path (step params) (fun _ _ => True) s es t) (hs : Exceeds excess s) :
    ∃ lost, Exceeds (excess + lost) t ∧ (lost = 0 ↔ Path (step params) FinishCounted s es t) := by
  induction h generalizing excess with
  | nil s => exact ⟨0, hs, by simp [Path.nil]⟩
  | cons s u t e es henabled hguard hrest ih =>
    obtain ⟨lost, hu, hlost⟩ := exceeds_step params excess s u e
      (moved_of_step params s u e henabled) hs
    obtain ⟨later, ht, hlater⟩ := ih (excess + lost) hu
    refine ⟨lost + later, by rw [← Nat.add_assoc]; exact ht, ?_⟩
    rw [Nat.add_eq_zero_iff, hlost, hlater]
    constructor
    · intro hboth
      exact .cons s u t e es henabled hboth.1 hboth.2
    · intro hpath
      cases hpath with
      | cons _ v _ _ _ hstep hcounted hafter =>
        obtain rfl := Option.some.inj (henabled.symm.trans hstep)
        exact ⟨hcounted, hafter⟩

/-- Outside the inner loop, the number of threads is exact just in the runs in
which no thread ended before it was counted. -/
theorem current_eq_live_iff (s : Manager T) (es : List (Event T))
    (h : Path (step params) (fun _ _ => True) (Manager.start T) es s)
    (hout : s.scheduler.insideLoop = false) :
    s.currentClusterThreadNum = s.live ↔
      Path (step params) FinishCounted (Manager.start T) es s := by
  obtain ⟨lost, hexceeds, hlost⟩ := exceeds_path params 0 _ s es h rfl
  rw [← hlost]
  unfold Exceeds at hexceeds
  rw [uncounted_of_outside _ hout] at hexceeds
  omega

theorem current_eq_live_counted :
    ∃ s es, Path (step (⟨2, fun _ => 1⟩ : Params ℕ)) (fun _ _ => True) (Manager.start ℕ) es s ∧
      s.scheduler.insideLoop = false ∧ s.currentClusterThreadNum = s.live ∧
        (s.currentClusterThreadNum = s.live ↔
          Path (step ⟨2, fun _ => 1⟩) FinishCounted (Manager.start ℕ) es s) := by
  have hrun : ∃ s, [Event.pushClusterThreadQueue 0, .advance, .advance, .advance, .advance,
      .advance, .advance, .advance, .advance, .start 0, .finish 0].foldlM
        (step (⟨2, fun _ => 1⟩ : Params ℕ)) (Manager.start ℕ) = some s ∧
      s.scheduler.insideLoop = false ∧ s.currentClusterThreadNum = s.live :=
    ⟨_, rfl, rfl, rfl⟩
  obtain ⟨s, hsteps, hout, hcount⟩ := hrun
  have hpath : Path (step (⟨2, fun _ => 1⟩ : Params ℕ)) (fun _ _ => True) (Manager.start ℕ) _ s :=
    path_of_steps _ s _ (fun _ _ _ => trivial) hsteps
  exact ⟨s, _, hpath, hout, hcount, current_eq_live_iff _ s _ hpath hout⟩

/-- A thread that ends before it is counted leaves a thread too many in the count. -/
theorem current_leaks :
    ∃ s es, Path (step (⟨2, fun _ => 1⟩ : Params ℕ)) (fun _ _ => True) (Manager.start ℕ) es s ∧
      s.scheduler.insideLoop = false ∧ s.live = 0 ∧ s.currentClusterThreadNum = 1 := by
  have hrun : ∃ s, [Event.pushClusterThreadQueue 0, .advance, .advance, .advance, .advance,
      .advance, .advance, .start 0, .finish 0, .advance, .advance].foldlM
        (step (⟨2, fun _ => 1⟩ : Params ℕ)) (Manager.start ℕ) = some s ∧
      s.scheduler.insideLoop = false ∧ s.live = 0 ∧ s.currentClusterThreadNum = 1 :=
    ⟨_, rfl, rfl, rfl, rfl⟩
  obtain ⟨s, hsteps, hend⟩ := hrun
  exact ⟨s, _, path_of_steps _ s _ (fun _ _ _ => trivial) hsteps, hend⟩

/-- The scheduler creates a thread only while the number of threads is below the
maximum; the inner loop itself goes on at the maximum. -/
def CreatesBelowMax (s : Manager T) : Event T → Prop
  | .advance =>
    match s.scheduler with
    | .looping task i => (i : ℤ) < params.threadsNum task →
        (s.currentClusterThreadNum : ℤ) < params.maxClusterThreadNum
    | _ => True
  | _ => True

/-- The number of threads, with the one that is about to be counted. -/
def WithinMax (s : Manager T) : Prop :=
  ((s.currentClusterThreadNum + s.scheduler.uncounted : ℕ) : ℤ) ≤ params.maxClusterThreadNum

theorem deleteClusterThreadNum_le (current : ℕ) : deleteClusterThreadNum current ≤ current := by
  unfold deleteClusterThreadNum
  split <;> omega

theorem withinMax_step (s t : Manager T) (e : Event T) (h : Moved params s e t)
    (hguard : CreatesBelowMax params s e) (hs : WithinMax params s) : WithinMax params t := by
  unfold WithinMax at hs ⊢
  cases h with
  | aside e he queue stop stoped pc hpc =>
    rcases hpc with rfl | ⟨hold, hnew⟩
    · exact hs
    · simp only [uncounted_of_outside pc hnew]
      rw [hold] at hs
      exact hs
  | entered task hpc =>
    rw [hpc] at hs
    exact hs
  | created task i hpc hmore =>
    simp only [CreatesBelowMax, hpc] at hguard
    have hbelow := hguard hmore
    simp only [Scheduler.uncounted]
    omega
  | counted task i queue pc hpc hnext =>
    have hnone : pc.uncounted = 0 := by
      rcases hnext with rfl | rfl <;> rfl
    simp only [hnone]
    simpa only [hpc, Scheduler.uncounted] using hs
  | started k task hthread => exact hs
  | finished k task hthread =>
    have hle := deleteClusterThreadNum_le s.currentClusterThreadNum
    simp only
    omega

/-- When the scheduler reads the counter of a task, every thread created for the
task has started. -/
def ReadsStarted (s : Manager T) : Event T → Prop
  | .advance =>
    match s.scheduler with
    | .entering task => s.currentStartThreadNum task = s.created task
    | _ => True
  | _ => True

/-- No task has more threads than it asks for, and inside the inner loop the index
counts the threads of its task. -/
structure CreatedWithin (s : Manager T) : Prop where
  within : ∀ task, s.created task ≤ (params.threadsNum task).toNat
  looping : ∀ task i, s.scheduler = .looping task i → s.created task = i
  raising : ∀ task i, s.scheduler = .raising task i → s.created task = i + 1

theorem created_set (s : Manager T) (k : ℕ) (task : T) (old new : Phase)
    (hthread : s.threads[k]? = some ⟨task, old⟩) (other : T) :
    (s.threads.set k ⟨task, new⟩).countP (Thread.belongs other) = s.created other := by
  have hset := countP_set_of_getElem? (Thread.belongs other) s.threads k _ ⟨task, new⟩ hthread
  exact Nat.add_right_cancel hset

theorem created_push (s : Manager T) (task other : T) :
    (s.threads ++ [(⟨task, .created⟩ : Thread T)]).countP (Thread.belongs other) =
      s.created other + if task = other then 1 else 0 := by
  simp only [List.countP_append, List.countP_singleton, Thread.belongs, decide_eq_true_eq,
    Manager.created]

/-- A step of a thread creates none and leaves the scheduler where it is. -/
theorem CreatedWithin.of_same {s t : Manager T} (hs : CreatedWithin params s)
    (hscheduler : t.scheduler = s.scheduler) (hsame : ∀ task, t.created task = s.created task) :
    CreatedWithin params t := by
  refine ⟨?_, ?_, ?_⟩
  · intro task
    exact (hsame task).trans_le (hs.within task)
  · intro task i hloop
    rw [hscheduler] at hloop
    exact (hsame task).trans (hs.looping task i hloop)
  · intro task i hraise
    rw [hscheduler] at hraise
    exact (hsame task).trans (hs.raising task i hraise)

theorem createdWithin_step (s t : Manager T) (e : Event T) (h : Moved params s e t)
    (hguard : ReadsStarted s e) (hs : CreatedWithin params s) : CreatedWithin params t := by
  cases h with
  | aside e he queue stop stoped pc hpc =>
    refine ⟨hs.within, ?_, ?_⟩
    · intro task i hloop
      rcases hpc with rfl | ⟨_, hnew⟩
      · exact hs.looping task i hloop
      · rw [show pc = .looping task i from hloop] at hnew
        contradiction
    · intro task i hraise
      rcases hpc with rfl | ⟨_, hnew⟩
      · exact hs.raising task i hraise
      · rw [show pc = .raising task i from hraise] at hnew
        contradiction
  | entered task hpc =>
    simp only [ReadsStarted, hpc] at hguard
    refine ⟨hs.within, ?_, nofun⟩
    intro other i hloop
    obtain ⟨rfl, rfl⟩ := Scheduler.looping.inj hloop
    exact hguard.symm
  | created task i hpc hmore =>
    have hcreated := hs.looping task i hpc
    refine ⟨?_, nofun, ?_⟩
    · intro other
      have hold := hs.within other
      have hnew := created_push s task other
      show (s.threads ++ [(⟨task, .created⟩ : Thread T)]).countP (Thread.belongs other) ≤ _
      by_cases hsame : task = other
      · subst hsame
        rw [if_pos rfl] at hnew
        omega
      · rw [if_neg hsame] at hnew
        omega
    · intro other j hraise
      obtain ⟨rfl, rfl⟩ := Scheduler.raising.inj hraise
      have hnew := created_push s task task
      rw [if_pos rfl, hcreated] at hnew
      exact hnew
  | counted task i queue pc hpc hnext =>
    have hcreated := hs.raising task i hpc
    refine ⟨hs.within, ?_, ?_⟩
    · intro other j hloop
      rcases hnext with rfl | rfl
      · obtain ⟨rfl, rfl⟩ := Scheduler.looping.inj hloop
        exact hcreated
      · contradiction
    · intro other j hraise
      rcases hnext with rfl | rfl <;> contradiction
  | started k task hthread =>
    exact hs.of_same params rfl (created_set s k task .created .downloading hthread)
  | finished k task hthread =>
    exact hs.of_same params rfl (created_set s k task .downloading .ended hthread)

/-- As long as the counter is never read while created threads have yet to start,
a task gets no more threads than it asks for. -/
theorem created_le_threadsNum (s : Manager T) (es : List (Event T))
    (h : Path (step params) ReadsStarted (Manager.start T) es s) (task : T) :
    s.created task ≤ (params.threadsNum task).toNat := by
  have hwithin := h.invariant (CreatedWithin params) (fun s e t hs hguard hstep =>
    createdWithin_step params s t e (moved_of_step params s t e hstep) hguard hs)
    ⟨fun _ => Nat.zero_le _, nofun, nofun⟩
  exact hwithin.within task

theorem created_le_threadsNum_one :
    ∃ s es, Path (step (⟨1, fun _ => 1⟩ : Params ℕ)) ReadsStarted (Manager.start ℕ) es s ∧
      s.created 0 = 1 ∧ s.created 0 ≤ 1 := by
  have hrun : ∃ s, Path (step (⟨1, fun _ => 1⟩ : Params ℕ)) ReadsStarted (Manager.start ℕ)
      [.pushClusterThreadQueue 0, .advance, .advance, .advance, .advance, .advance, .advance] s ∧
      s.created 0 = 1 :=
    ⟨_, .cons _ _ _ _ _ rfl trivial <| .cons _ _ _ _ _ rfl trivial <|
      .cons _ _ _ _ _ rfl trivial <| .cons _ _ _ _ _ rfl trivial <|
      .cons _ _ _ _ _ rfl trivial <| .cons _ _ _ _ _ rfl rfl <|
      .cons _ _ _ _ _ rfl trivial <| .nil _, rfl⟩
  obtain ⟨s, hpath, hcreated⟩ := hrun
  exact ⟨s, _, hpath, hcreated, created_le_threadsNum _ s _ hpath 0⟩

/-- Two of three threads have run when the third, still to start, is created again. -/
theorem created_beyond_threadsNum :
    ∃ s es, Path (step (⟨2, fun _ => 3⟩ : Params ℕ)) (fun _ _ => True) (Manager.start ℕ) es s ∧
      s.created 0 = 4 := by
  have hrun : ∃ s, [Event.pushClusterThreadQueue 0, .advance, .advance, .advance, .advance,
      .advance, .advance, .advance, .advance, .advance, .advance, .advance, .start 0, .finish 0,
      .start 1, .finish 1, .advance, .advance, .advance, .advance, .advance, .advance].foldlM
        (step (⟨2, fun _ => 3⟩ : Params ℕ)) (Manager.start ℕ) = some s ∧ s.created 0 = 4 :=
    ⟨_, rfl, rfl⟩
  obtain ⟨s, hsteps, hcreated⟩ := hrun
  exact ⟨s, _, path_of_steps _ s _ (fun _ _ _ => trivial) hsteps, hcreated⟩

end Moves
end Gingko.ClusterSchedulers
