import Gingko.BelledQueues
import Gingko.EventLoops
import Gingko.GuardedRuns

/-!
What other threads leave for the thread of an event loop. An installation that is not
asked for in that thread, and every cancellation, is put in the list of pending functors
under the lock; then some bytes are written to the wake-up socket. The handler of that
socket reads first, takes the list, and runs the functors. The socket does not block, so a
write fails when its buffer is full, and then there are bytes to read.
-/
namespace Gingko.PendingFunctors

open Interleavings EventLoops

inductive Functor
  | installTimerEvent (timerId : ℕ) (type : ℤ)
  | innerCancel (timerId : ℕ)
  deriving DecidableEq

/-- `wakeupBytes` have been written to the socket and not read; `returned` are the ids that
`runEvery` and `runAfter` have returned. -/
structure Shared where
  run : Run
  pendingFunctors : List Functor
  wakeupBytes : ℕ
  returned : List ℕ
  entered : List Functor
  ran : List Functor

/-- Where a thread stands: after `newTimerId`, before `wakeup`, and for the thread of the
loop between the read and the swap, and with the functors it has still to run. -/
inductive Place
  | away
  | numbered (timerId : ℕ) (type : ℤ)
  | pushed (result : Option ℕ)
  | heard
  | running (functors : List Functor)

abbrev State (T : Type) := System T Shared Place

namespace Shared

def start : Shared := ⟨Run.start, [], 0, [], [], []⟩

def push (sh : Shared) (f : Functor) : Shared :=
  { sh with pendingFunctors := sh.pendingFunctors ++ [f], entered := sh.entered ++ [f] }

def wakeupSize : ℕ := 8

def wakeup (sh : Shared) (written : ℕ) : Shared :=
  { sh with wakeupBytes := sh.wakeupBytes + written }

def wakeupHandler (sh : Shared) : Shared :=
  { sh with wakeupBytes := sh.wakeupBytes - wakeupSize }

def returns (sh : Shared) (result : Option ℕ) : Shared :=
  { sh with returned := sh.returned ++ result.toList }

/-- A call that fails ends the program. -/
def call (sh : Shared) (c : Call) : Option Shared :=
  match sh.run.step c with
  | .ok run => some { sh with run }
  | .error _ => none

def runFunctor (sh : Shared) (f : Functor) (deadline : ℤ) (made added : Bool) : Option Shared :=
  let ran := { sh with ran := sh.ran ++ [f] }
  match f with
  | .installTimerEvent timerId type =>
    ran.call (.installTimerEvent timerId deadline type made added)
  | .innerCancel timerId => ran.call (.innerCancel timerId)

end Shared

/-- `newTimerId`, then `install` or `push`, is `runEvery` for type 0 and `runAfter` for type
1. What is not said of a thread is said of the thread of the loop. -/
inductive Event (T : Type)
  | newTimerId (t : T) (type : ℤ)
  | install (deadline : ℤ) (made added : Bool)
  | push (t : T)
  | cancel (t : T) (timerId : ℕ)
  | wakeup (t : T) (written : ℕ)
  | wakeupHandler
  | doPendingFunctors
  | runFunctor (deadline : ℤ) (made added : Bool)
  | done
  | heartbeat (current : ℤ)

variable {T : Type} [DecidableEq T]

def State.start : State T := ⟨Shared.start, fun _ => .away⟩

def step (loopThread : T) (s : State T) : Event T → Option (State T)
  | .newTimerId t type =>
    match s.threads t with
    | .away =>
      let run := s.shared.run.request
      some (s.act t ({ s.shared with run }, .numbered run.loop.timerNumsCreated type))
    | _ => none
  | .install deadline made added =>
    match s.threads loopThread with
    | .numbered timerId type =>
      (s.shared.call (.installTimerEvent timerId deadline type made added)).map fun sh =>
        s.act loopThread (sh.returns (some timerId), .away)
    | _ => none
  | .push t =>
    match s.threads t with
    | .numbered timerId type =>
      if t = loopThread then none
      else some (s.act t (s.shared.push (.installTimerEvent timerId type), .pushed (some timerId)))
    | _ => none
  | .cancel t timerId =>
    match s.threads t with
    | .away => some (s.act t (s.shared.push (.innerCancel timerId), .pushed none))
    | _ => none
  | .wakeup t written =>
    match s.threads t with
    | .pushed result =>
      if written ≤ Shared.wakeupSize ∧ (written = 0 → 0 < s.shared.wakeupBytes) then
        some (s.act t ((s.shared.wakeup written).returns result, .away))
      else none
    | _ => none
  | .wakeupHandler =>
    match s.threads loopThread with
    | .away =>
      if 0 < s.shared.wakeupBytes then some (s.act loopThread (s.shared.wakeupHandler, .heard))
      else none
    | _ => none
  | .doPendingFunctors =>
    match s.threads loopThread with
    | .heard =>
      some (s.act loopThread ({ s.shared with pendingFunctors := [] },
        .running s.shared.pendingFunctors))
    | _ => none
  | .runFunctor deadline made added =>
    match s.threads loopThread with
    | .running (f :: rest) =>
      (s.shared.runFunctor f deadline made added).map fun sh =>
        s.act loopThread (sh, .running rest)
    | _ => none
  | .done =>
    match s.threads loopThread with
    | .running [] => some (s.act loopThread (s.shared, .away))
    | _ => none
  | .heartbeat current =>
    match s.threads loopThread with
    | .away => (s.shared.call (.heartbeat current)).map fun sh => s.act loopThread (sh, .away)
    | _ => none

/-- What a step does. -/
inductive Moved (loopThread : T) (s : State T) : Event T → State T → Prop
  | newTimerId (t : T) (type : ℤ) (haway : s.threads t = .away) :
      Moved loopThread s (.newTimerId t type) (s.act t
        ({ s.shared with run := s.shared.run.request },
          .numbered s.shared.run.request.loop.timerNumsCreated type))
  | install (timerId : ℕ) (type deadline : ℤ) (made added : Bool) (run : Run)
      (hplace : s.threads loopThread = .numbered timerId type)
      (hok : s.shared.run.step (.installTimerEvent timerId deadline type made added) = .ok run) :
      Moved loopThread s (.install deadline made added) (s.act loopThread
        ({ s.shared with run, returned := s.shared.returned ++ [timerId] }, .away))
  | push (t : T) (timerId : ℕ) (type : ℤ) (hplace : s.threads t = .numbered timerId type) :
      Moved loopThread s (.push t) (s.act t (s.shared.push (.installTimerEvent timerId type),
        .pushed (some timerId)))
  | cancel (t : T) (timerId : ℕ) (haway : s.threads t = .away) :
      Moved loopThread s (.cancel t timerId) (s.act t
        (s.shared.push (.innerCancel timerId), .pushed none))
  | wakeup (t : T) (written : ℕ) (result : Option ℕ) (hplace : s.threads t = .pushed result)
      (hfull : written = 0 → 0 < s.shared.wakeupBytes) :
      Moved loopThread s (.wakeup t written) (s.act t
        ((s.shared.wakeup written).returns result, .away))
  | wakeupHandler (haway : s.threads loopThread = .away) :
      Moved loopThread s .wakeupHandler (s.act loopThread (s.shared.wakeupHandler, .heard))
  | doPendingFunctors (hheard : s.threads loopThread = .heard) :
      Moved loopThread s .doPendingFunctors (s.act loopThread
        ({ s.shared with pendingFunctors := [] }, .running s.shared.pendingFunctors))
  | runInstall (timerId : ℕ) (type deadline : ℤ) (made added : Bool) (rest : List Functor)
      (run : Run)
      (hplace : s.threads loopThread = .running (.installTimerEvent timerId type :: rest))
      (hok : s.shared.run.step (.installTimerEvent timerId deadline type made added) = .ok run) :
      Moved loopThread s (.runFunctor deadline made added) (s.act loopThread
        ({ s.shared with run, ran := s.shared.ran ++ [.installTimerEvent timerId type] },
          .running rest))
  | runCancel (timerId : ℕ) (deadline : ℤ) (made added : Bool) (rest : List Functor)
      (hplace : s.threads loopThread = .running (.innerCancel timerId :: rest)) :
      Moved loopThread s (.runFunctor deadline made added) (s.act loopThread
        ({ s.shared with
            run := { s.shared.run with loop := s.shared.run.loop.innerCancel timerId }
            ran := s.shared.ran ++ [.innerCancel timerId] }, .running rest))
  | done (hplace : s.threads loopThread = .running []) :
      Moved loopThread s .done (s.act loopThread (s.shared, .away))
  | heartbeat (current : ℤ) (run : Run) (haway : s.threads loopThread = .away)
      (hok : s.shared.run.step (.heartbeat current) = .ok run) :
      Moved loopThread s (.heartbeat current) (s.act loopThread ({ s.shared with run }, .away))

theorem call_eq_some {sh sh' : Shared} {c : Call} (h : sh.call c = some sh') :
    ∃ run, sh.run.step c = .ok run ∧ sh' = { sh with run } := by
  unfold Shared.call at h
  split at h
  · next run hok => exact ⟨run, hok, (Option.some.inj h).symm⟩
  · cases h

theorem step_moved {loopThread : T} {s s' : State T} {e : Event T}
    (h : step loopThread s e = some s') : Moved loopThread s e s' := by
  cases e with
  | newTimerId t type =>
    simp only [step] at h
    split at h <;> cases h
    next haway => exact .newTimerId t type haway
  | install deadline made added =>
    simp only [step] at h
    split at h
    · next timerId type hplace =>
      obtain ⟨sh, hcall, rfl⟩ := Option.map_eq_some_iff.mp h
      obtain ⟨run, hok, rfl⟩ := call_eq_some hcall
      exact .install timerId type deadline made added run hplace hok
    · cases h
  | push t =>
    simp only [step] at h
    split at h
    · next timerId type hplace =>
      split at h <;> cases h
      exact .push t timerId type hplace
    · cases h
  | cancel t timerId =>
    simp only [step] at h
    split at h <;> cases h
    next haway => exact .cancel t timerId haway
  | wakeup t written =>
    simp only [step] at h
    split at h
    · next result hplace =>
      split at h <;> cases h
      next hwritten => exact .wakeup t written result hplace hwritten.2
    · cases h
  | wakeupHandler =>
    simp only [step] at h
    split at h
    · next haway =>
      split at h <;> cases h
      exact .wakeupHandler haway
    · cases h
  | doPendingFunctors =>
    simp only [step] at h
    split at h <;> cases h
    next hheard => exact .doPendingFunctors hheard
  | runFunctor deadline made added =>
    simp only [step] at h
    split at h
    · next f rest hplace =>
      obtain ⟨sh, hrun, rfl⟩ := Option.map_eq_some_iff.mp h
      cases f with
      | installTimerEvent timerId type =>
        rw [Shared.runFunctor] at hrun
        obtain ⟨run, hok, rfl⟩ := call_eq_some hrun
        exact .runInstall timerId type deadline made added rest run hplace hok
      | innerCancel timerId =>
        rw [Shared.runFunctor] at hrun
        obtain ⟨run, hok, rfl⟩ := call_eq_some hrun
        cases hok
        exact .runCancel timerId deadline made added rest hplace
    · cases h
  | done =>
    simp only [step] at h
    split at h <;> cases h
    next hplace => exact .done hplace
  | heartbeat current =>
    simp only [step] at h
    split at h
    · next haway =>
      obtain ⟨sh, hcall, rfl⟩ := Option.map_eq_some_iff.mp h
      obtain ⟨run, hok, rfl⟩ := call_eq_some hcall
      exact .heartbeat current run haway hok
    · cases h

section Bells

/-- As a thread at a bell, one that has a number and has put nothing in is away. -/
def Place.bell : Place → BelledQueues.Place Functor
  | .away | .numbered .. => .away
  | .pushed _ => .ringing
  | .heard => .heard
  | .running functors => .handling functors

def bell (s : State T) : BelledQueues.State T Functor where
  shared := ⟨s.shared.pendingFunctors, s.shared.wakeupBytes, s.shared.entered, s.shared.ran⟩
  threads t := (s.threads t).bell

theorem bell_act (s : State T) (t : T) (sh : Shared) (place : Place) :
    bell (s.act t (sh, place)) = (bell s).act t
      (⟨sh.pendingFunctors, sh.wakeupBytes, sh.entered, sh.ran⟩, place.bell) := by
  have hthreads : (fun u => ((s.act t (sh, place)).threads u).bell) =
      Function.update (fun u => (s.threads u).bell) t place.bell := by
    funext u
    by_cases hu : u = t
    · rw [hu, System.act_self, Function.update_self]
    · rw [System.act_other s t u _ hu, Function.update_of_ne hu]
  rw [bell, hthreads]
  rfl

/-- A step that changes neither the queue nor the place at the bell is none there. -/
theorem bell_act_same {s : State T} {t : T} {sh : Shared} {place : Place}
    (hplace : (s.threads t).bell = place.bell)
    (hpending : sh.pendingFunctors = s.shared.pendingFunctors)
    (hbytes : sh.wakeupBytes = s.shared.wakeupBytes) (hentered : sh.entered = s.shared.entered)
    (hran : sh.ran = s.shared.ran) : bell (s.act t (sh, place)) = bell s := by
  rw [bell_act, ← hplace, hpending, hbytes, hentered, hran, System.act]
  show System.mk _ (Function.update (bell s).threads t ((bell s).threads t)) = _
  rw [Function.update_eq_self]
  rfl

/-- The loop and its callers are a queue with a bell. -/
theorem Moved.bell {loopThread : T} {s s' : State T} {e : Event T} (h : Moved loopThread s e s') :
    bell s' = bell s ∨ BelledQueues.Step loopThread (bell s) (bell s') := by
  cases h with
  | newTimerId t type haway =>
    exact .inl (bell_act_same (by rw [haway]; rfl) rfl rfl rfl rfl)
  | install timerId type deadline made added run hplace hok =>
    exact .inl (bell_act_same (by rw [hplace]; rfl) rfl rfl rfl rfl)
  | push t timerId type hplace =>
    rw [bell_act]
    exact .inr (.enter (PendingFunctors.bell s) t _ (congrArg Place.bell hplace))
  | cancel t timerId haway =>
    rw [bell_act]
    exact .inr (.enter (PendingFunctors.bell s) t _ (congrArg Place.bell haway))
  | wakeup t written result hplace hfull =>
    rw [bell_act]
    exact .inr (.ring (PendingFunctors.bell s) t written (congrArg Place.bell hplace) hfull)
  | wakeupHandler haway =>
    rw [bell_act]
    exact .inr (.hear (PendingFunctors.bell s) _ (congrArg Place.bell haway))
  | doPendingFunctors hheard =>
    rw [bell_act]
    exact .inr (.take (PendingFunctors.bell s) (congrArg Place.bell hheard))
  | runInstall timerId type deadline made added rest run hplace hok =>
    rw [bell_act]
    exact .inr (.handle (PendingFunctors.bell s) _ rest (congrArg Place.bell hplace))
  | runCancel timerId deadline made added rest hplace =>
    rw [bell_act]
    exact .inr (.handle (PendingFunctors.bell s) _ rest (congrArg Place.bell hplace))
  | done hplace =>
    rw [bell_act]
    exact .inr (.leave (PendingFunctors.bell s) (congrArg Place.bell hplace))
  | heartbeat current run haway hok =>
    exact .inl (bell_act_same (by rw [haway]) rfl rfl rfl rfl)

theorem path_heard {loopThread : T} {guard : State T → Event T → Prop} {es : List (Event T)}
    {s : State T} (h : GuardedRuns.Path (step loopThread) guard State.start es s) :
    BelledQueues.Heard loopThread (bell s) := by
  refine h.invariant (fun s => BelledQueues.Heard loopThread (bell s)) ?_
    BelledQueues.heard_start
  intro s e t hheard _ hstep
  obtain hsame | hmoved := (step_moved hstep).bell
  · rw [hsame]
    exact hheard
  · exact hheard.step hmoved

end Bells

/-- No call is inside `wakeup`, the loop is between two handlers, and the socket is empty. -/
def Quiet (s : State T) : Prop :=
  (∀ t, (s.threads t).bell = .away) ∧ s.shared.wakeupBytes = 0

/-- Functors run once each, in the order in which the lock let them in. While one is
pending, there are bytes to read, or the loop has just read, or a call is about to write;
so when all is quiet every functor has been run, though writes to a full socket fail. -/
theorem functors_run (loopThread : T) (es : List (Event T)) (s : State T)
    (h : GuardedRuns.Path (step loopThread) (fun _ _ => True) State.start es s) :
    s.shared.ran <+: s.shared.entered ∧
      (s.shared.pendingFunctors ≠ [] → 0 < s.shared.wakeupBytes ∨
        s.threads loopThread = .heard ∨ ∃ t result, s.threads t = .pushed result) ∧
      (Quiet s → s.shared.pendingFunctors = [] ∧ s.shared.ran = s.shared.entered) := by
  have hheard := path_heard h
  refine ⟨hheard.handled_prefix, fun hsome => ?_, fun hquiet => ?_⟩
  · obtain hbytes | hplace | ⟨t, hplace⟩ := hheard.rung hsome
    · exact .inl hbytes
    · refine .inr (.inl ?_)
      cases heq : s.threads loopThread with
      | heard => rfl
      | _ =>
        simp only [bell, heq, Place.bell] at hplace
        cases hplace
    · refine .inr (.inr ⟨t, ?_⟩)
      cases heq : s.threads t with
      | pushed result => exact ⟨result, rfl⟩
      | _ =>
        simp only [bell, heq, Place.bell] at hplace
        cases hplace
  · exact hheard.settled ⟨hquiet.1, hquiet.2⟩

section Timers

/-- The installations and cancellations that are still to be run. -/
def queue (loopThread : T) (s : State T) : List Functor :=
  (s.threads loopThread).bell.items ++ s.shared.pendingFunctors

/-- A cancellation comes from whoever has the id from `runEvery` or `runAfter`. -/
def Returned (s : State T) : Event T → Prop
  | .cancel _ timerId => timerId ∈ s.shared.returned
  | _ => True

def Functor.installed : Functor → Option ℕ
  | .installTimerEvent timerId _ => some timerId
  | .innerCancel _ => none

/-- The id a thread has, before it has done anything with it. -/
def Place.number : Place → Option ℕ
  | .numbered timerId _ => some timerId
  | _ => none

/-- The id a thread will return. -/
def Place.result : Place → Option ℕ
  | .pushed result => result
  | _ => none

/-- The ids whose installations are in the queue. -/
def queuedIds (loopThread : T) (s : State T) : List ℕ :=
  (queue loopThread s).filterMap Functor.installed

/-- An id is with one thread, or its installation is queued, or it is neither. What is
canceled has been returned, so its installation is ahead of the cancellation. -/
structure Placed (loopThread : T) (s : State T) : Prop where
  good : s.shared.run.Good
  returned_issued : ∀ id ∈ s.shared.returned, id ∈ s.shared.run.issued
  numbered : ∀ t id, (s.threads t).number = some id → id ∈ s.shared.run.waiting ∧
    id ∉ s.shared.returned ∧ id ∉ queuedIds loopThread s
  numbered_apart : ∀ t u id, (s.threads t).number = some id → (s.threads u).number = some id → t = u
  queued_waiting : ∀ id ∈ queuedIds loopThread s, id ∈ s.shared.run.waiting
  queued_nodup : (queuedIds loopThread s).Nodup
  result : ∀ t id, (s.threads t).result = some id → id ∈ s.shared.run.issued ∧
    ∀ u, (s.threads u).number ≠ some id
  canceled : ∀ id, .innerCancel id ∈ s.shared.ran ++ queue loopThread s → id ∈ s.shared.returned
  ahead : (queue loopThread s).Pairwise fun f g => ∀ id, f = .innerCancel id → g.installed ≠ some id
  gone : ∀ id, .innerCancel id ∈ s.shared.ran → s.shared.run.loop.timer.lookup id = none ∧
    id ∉ queuedIds loopThread s

omit [DecidableEq T] in
theorem placed_start (loopThread : T) : Placed loopThread (State.start : State T) where
  good := Run.good_start
  returned_issued := nofun
  numbered := nofun
  numbered_apart := nofun
  queued_waiting := nofun
  queued_nodup := List.nodup_nil
  result := nofun
  canceled := nofun
  ahead := List.Pairwise.nil
  gone := nofun

variable {loopThread : T} {s : State T}

theorem queue_act {t : T} {sh : Shared} {place : Place} (hbefore : (s.threads t).bell.items = [])
    (hafter : place.bell.items = []) : queue loopThread (s.act t (sh, place)) =
      (s.threads loopThread).bell.items ++ sh.pendingFunctors := by
  have hitems : ((s.act t (sh, place)).threads loopThread).bell.items =
      (s.threads loopThread).bell.items := by
    by_cases ht : loopThread = t
    · rw [ht, System.act_self, hbefore, hafter]
    · rw [System.act_other s t loopThread _ ht]
  rw [queue, hitems]
  rfl

theorem number_of_act {t u : T} {sh : Shared} {place : Place} {id : ℕ}
    (hplace : place.number = none) (h : ((s.act t (sh, place)).threads u).number = some id) :
    u ≠ t ∧ (s.threads u).number = some id := by
  by_cases hu : u = t
  · rw [hu, System.act_self, hplace] at h
    cases h
  · rw [System.act_other s t u _ hu] at h
    exact ⟨hu, h⟩

theorem result_of_act {t u : T} {sh : Shared} {place : Place} {id : ℕ}
    (hplace : place.result = none) (h : ((s.act t (sh, place)).threads u).result = some id) :
    (s.threads u).result = some id := by
  by_cases hu : u = t
  · rw [hu, System.act_self, hplace] at h
    cases h
  · rwa [System.act_other s t u _ hu] at h

theorem run_install_ok {run run' : Run} {timerId : ℕ} {deadline type : ℤ} {made added : Bool}
    (hok : run.step (.installTimerEvent timerId deadline type made added) = .ok run') :
    run'.issued = run.issued ∧ run'.waiting = run.waiting.erase timerId ∧
      ∀ id, id ≠ timerId → run'.loop.timer.lookup id = run.loop.timer.lookup id := by
  cases hl : run.loop.installTimerEvent timerId deadline type made added with
  | error failure =>
    rw [Run.step, hl] at hok
    cases hok
  | ok l =>
    rw [Run.step, hl] at hok
    cases hok
    obtain ⟨-, rfl⟩ := EventLoop.installTimerEvent_ok hl
    exact ⟨rfl, rfl, fun id hne => by rw [OrderedMaps.OrderedMap.lookup_insert, if_neg hne]⟩

theorem run_heartbeat_ok {run run' : Run} (hgood : run.Good) {current : ℤ}
    (hok : run.step (.heartbeat current) = .ok run') :
    run'.issued = run.issued ∧ run'.waiting = run.waiting ∧
      ∀ id, run.loop.timer.lookup id = none → run'.loop.timer.lookup id = none := by
  obtain ⟨l, hl, -, hshrinks⟩ := hgood.sound.heartbeat current
  rw [Run.step, hl] at hok
  cases hok
  refine ⟨rfl, rfl, fun id hnone => ?_⟩
  by_contra hsome
  exact hshrinks.timer id hsome hnone

theorem innerCancel_gone (l : EventLoop) (timerId : ℕ) :
    (l.innerCancel timerId).timer.lookup timerId = none := by
  unfold EventLoop.innerCancel
  split
  · next hnone => exact hnone
  · rw [EventLoop.freeTimer, OrderedMaps.OrderedMap.lookup_erase, if_pos rfl]

theorem Placed.request (h : Placed loopThread s) {t : T} (type : ℤ) (haway : s.threads t = .away)
    (hnodup : s.shared.run.request.issued.Nodup) :
    Placed loopThread (s.act t ({ s.shared with run := s.shared.run.request },
      .numbered s.shared.run.request.loop.timerNumsCreated type)) := by
  have hfresh : s.shared.run.request.loop.timerNumsCreated ∉ s.shared.run.issued := by
    obtain ⟨-, -, hdisjoint⟩ := List.nodup_append'.mp hnodup
    exact fun hin => hdisjoint hin (List.mem_singleton_self _)
  have hold : ∀ id, id ∈ s.shared.run.waiting → id ≠ s.shared.run.request.loop.timerNumsCreated :=
    fun id hid heq => hfresh (heq ▸ h.good.waiting_issued id hid)
  generalize hs' : s.act t _ = s'
  have hqueue : queue loopThread s' = queue loopThread s := by
    rw [← hs']
    exact queue_act (by rw [haway]; rfl) rfl
  have hids : queuedIds loopThread s' = queuedIds loopThread s :=
    congrArg (List.filterMap Functor.installed) hqueue
  have hnumber : ∀ u id, (s'.threads u).number = some id →
      u = t ∧ id = s.shared.run.request.loop.timerNumsCreated ∨
        u ≠ t ∧ (s.threads u).number = some id := by
    intro u id hu
    rw [← hs'] at hu
    by_cases hut : u = t
    · rw [hut, System.act_self] at hu
      exact .inl ⟨hut, (Option.some.inj hu).symm⟩
    · rw [System.act_other s t u _ hut] at hu
      exact .inr ⟨hut, hu⟩
  have hshared : s'.shared = { s.shared with run := s.shared.run.request } := by rw [← hs']; rfl
  constructor
  · rw [hshared]
    exact h.good.request
  · rw [hshared]
    exact fun id hid => List.mem_append_left _ (h.returned_issued id hid)
  · intro u id hu
    rw [hshared, hids]
    obtain ⟨-, rfl⟩ | ⟨-, hu⟩ := hnumber u id hu
    · refine ⟨List.mem_append_right _ (List.mem_singleton_self _), fun hin => ?_, fun hin => ?_⟩
      · exact hfresh (h.returned_issued _ hin)
      · exact hold _ (h.queued_waiting _ hin) rfl
    · obtain ⟨hwaits, hreturned, hqueued⟩ := h.numbered u id hu
      exact ⟨List.mem_append_left _ hwaits, hreturned, hqueued⟩
  · intro u v id hu hv
    obtain ⟨rfl, rfl⟩ | ⟨-, hu⟩ := hnumber u id hu
    · obtain ⟨rfl, -⟩ | ⟨-, hv⟩ := hnumber v _ hv
      · rfl
      · exact absurd rfl (hold _ (h.numbered v _ hv).1)
    · obtain ⟨-, rfl⟩ | ⟨-, hv⟩ := hnumber v id hv
      · exact absurd rfl (hold _ (h.numbered u _ hu).1)
      · exact h.numbered_apart u v id hu hv
  · rw [hids, hshared]
    exact fun id hid => List.mem_append_left _ (h.queued_waiting id hid)
  · rw [hids]
    exact h.queued_nodup
  · intro u id hu
    rw [hshared]
    rw [← hs'] at hu
    obtain ⟨hissued, hothers⟩ := h.result u id (result_of_act rfl hu)
    refine ⟨List.mem_append_left _ hissued, fun v hv => ?_⟩
    obtain ⟨-, rfl⟩ | ⟨-, hv⟩ := hnumber v id hv
    · exact hfresh hissued
    · exact hothers v hv
  · rw [hqueue, hshared]
    exact h.canceled
  · rw [hqueue]
    exact h.ahead
  · rw [hids, hshared]
    exact h.gone

/-- A thread returns what it has to, the queue stays, and timers only go. -/
theorem Placed.calm (h : Placed loopThread s) {t : T} {sh : Shared} {place : Place}
    (hnumber : place.number = none) (hresult : place.result = none)
    (hqueue : queue loopThread (s.act t (sh, place)) = queue loopThread s)
    (hran : sh.ran = s.shared.ran)
    (hreturned : sh.returned = s.shared.returned ++ ((s.threads t).result).toList)
    (hgood : sh.run.Good) (hissued : sh.run.issued = s.shared.run.issued)
    (hwaiting : sh.run.waiting = s.shared.run.waiting)
    (htimer : ∀ id, s.shared.run.loop.timer.lookup id = none → sh.run.loop.timer.lookup id = none) :
    Placed loopThread (s.act t (sh, place)) := by
  have hids : queuedIds loopThread (s.act t (sh, place)) = queuedIds loopThread s :=
    congrArg (List.filterMap Functor.installed) hqueue
  have hmem : ∀ id, id ∈ sh.returned ↔
      id ∈ s.shared.returned ∨ (s.threads t).result = some id := by
    intro id
    rw [hreturned, List.mem_append, Option.mem_toList]
  constructor
  · exact hgood
  · intro id hid
    rw [System.act_shared, hissued]
    obtain hold | hnew := (hmem id).mp hid
    · exact h.returned_issued id hold
    · exact (h.result t id hnew).1
  · intro u id hu
    obtain ⟨-, hu⟩ := number_of_act hnumber hu
    obtain ⟨hwaits, hfree, hqueued⟩ := h.numbered u id hu
    rw [System.act_shared, hwaiting, hids]
    refine ⟨hwaits, fun hin => ?_, hqueued⟩
    obtain hold | hnew := (hmem id).mp hin
    · exact hfree hold
    · exact (h.result t id hnew).2 u hu
  · intro u v id hu hv
    exact h.numbered_apart u v id (number_of_act hnumber hu).2 (number_of_act hnumber hv).2
  · rw [hids, System.act_shared, hwaiting]
    exact h.queued_waiting
  · rw [hids]
    exact h.queued_nodup
  · intro u id hu
    rw [System.act_shared, hissued]
    obtain ⟨hin, hothers⟩ := h.result u id (result_of_act hresult hu)
    exact ⟨hin, fun v hv => hothers v (number_of_act hnumber hv).2⟩
  · intro id hid
    rw [hqueue, System.act_shared, hran] at hid
    exact (hmem id).mpr (.inl (h.canceled id hid))
  · rw [hqueue]
    exact h.ahead
  · intro id hid
    rw [System.act_shared, hran] at hid
    rw [hids]
    exact ⟨htimer id (h.gone id hid).1, (h.gone id hid).2⟩

/-- An installation in the thread of the loop is not of an id that is queued or canceled. -/
theorem Placed.install (h : Placed loopThread s) {timerId : ℕ} {type deadline : ℤ}
    {made added : Bool} {run : Run} (hplace : s.threads loopThread = .numbered timerId type)
    (hok : s.shared.run.step (.installTimerEvent timerId deadline type made added) = .ok run) :
    Placed loopThread (s.act loopThread
      ({ s.shared with run, returned := s.shared.returned ++ [timerId] }, .away)) := by
  have hnumber : (s.threads loopThread).number = some timerId := by rw [hplace]; rfl
  obtain ⟨hwaits, hfree, hqueued⟩ := h.numbered loopThread timerId hnumber
  have hallowed : s.shared.run.Allowed (.installTimerEvent timerId deadline type made added) :=
    hwaits
  have hgood := h.good.step hallowed hok
  obtain ⟨hissued, hwaiting, htimer⟩ := run_install_ok hok
  generalize hs' : s.act loopThread _ = s'
  have hqueue : queue loopThread s' = queue loopThread s := by
    rw [← hs']
    exact queue_act (by rw [hplace]; rfl) rfl
  have hids : queuedIds loopThread s' = queuedIds loopThread s :=
    congrArg (List.filterMap Functor.installed) hqueue
  have hothers : ∀ u id, (s'.threads u).number = some id →
      (s.threads u).number = some id ∧ id ≠ timerId := by
    intro u id hu
    rw [← hs'] at hu
    obtain ⟨hne, hu⟩ := number_of_act rfl hu
    exact ⟨hu, fun heq => hne (h.numbered_apart u loopThread id hu (heq ▸ hnumber))⟩
  have hshared : s'.shared = { s.shared with run, returned := s.shared.returned ++ [timerId] } := by
    rw [← hs']
    rfl
  constructor
  · rw [hshared]
    exact hgood
  · intro id hid
    rw [hshared] at hid ⊢
    rw [hissued]
    obtain hold | hnew := List.mem_append.mp hid
    · exact h.returned_issued id hold
    · exact List.mem_singleton.mp hnew ▸ h.good.waiting_issued timerId hwaits
  · intro u id hu
    obtain ⟨hu, hne⟩ := hothers u id hu
    obtain ⟨hwait, hreturned, hqueue⟩ := h.numbered u id hu
    rw [hshared, hids, hwaiting]
    refine ⟨(List.mem_erase_of_ne hne).mpr hwait, fun hin => ?_, hqueue⟩
    obtain hold | hnew := List.mem_append.mp hin
    · exact hreturned hold
    · exact hne (List.mem_singleton.mp hnew)
  · exact fun u v id hu hv => h.numbered_apart u v id (hothers u id hu).1 (hothers v id hv).1
  · intro id hid
    rw [hids] at hid
    have hne : id ≠ timerId := by
      rintro rfl
      exact hqueued hid
    rw [hshared, hwaiting]
    exact (List.mem_erase_of_ne hne).mpr (h.queued_waiting id hid)
  · rw [hids]
    exact h.queued_nodup
  · intro u id hu
    rw [← hs'] at hu
    obtain ⟨hin, hnot⟩ := h.result u id (result_of_act rfl hu)
    rw [hshared, hissued]
    exact ⟨hin, fun v hv => hnot v (hothers v id hv).1⟩
  · intro id hid
    rw [hqueue, hshared] at hid
    rw [hshared]
    exact List.mem_append_left _ (h.canceled id hid)
  · rw [hqueue]
    exact h.ahead
  · intro id hid
    rw [hshared] at hid ⊢
    have hne : id ≠ timerId := by
      intro heq
      exact hfree (heq ▸ h.canceled id (List.mem_append_left _ hid))
    rw [hids, htimer id hne]
    exact h.gone id hid

theorem Placed.push (h : Placed loopThread s) {t : T} {timerId : ℕ} {type : ℤ}
    (hplace : s.threads t = .numbered timerId type) :
    Placed loopThread (s.act t (s.shared.push (.installTimerEvent timerId type),
      .pushed (some timerId))) := by
  have hnumber : (s.threads t).number = some timerId := by rw [hplace]; rfl
  obtain ⟨hwaits, hfree, hqueued⟩ := h.numbered t timerId hnumber
  generalize hs' : s.act t _ = s'
  have hqueue : queue loopThread s' =
      queue loopThread s ++ [.installTimerEvent timerId type] := by
    rw [← hs', queue_act (by rw [hplace]; rfl) rfl, queue, List.append_assoc]
    rfl
  have hids : queuedIds loopThread s' = queuedIds loopThread s ++ [timerId] := by
    rw [queuedIds, hqueue, List.filterMap_append]
    rfl
  have hothers : ∀ u id, (s'.threads u).number = some id →
      (s.threads u).number = some id ∧ id ≠ timerId := by
    intro u id hu
    rw [← hs'] at hu
    obtain ⟨hne, hu⟩ := number_of_act rfl hu
    exact ⟨hu, fun heq => hne (h.numbered_apart u t id hu (heq ▸ hnumber))⟩
  have hshared : s'.shared = s.shared.push (.installTimerEvent timerId type) := by
    rw [← hs']
    rfl
  have huncanceled : .innerCancel timerId ∉ s.shared.ran ++ queue loopThread s :=
    fun hin => hfree (h.canceled timerId hin)
  constructor
  · rw [hshared]
    exact h.good
  · rw [hshared]
    exact h.returned_issued
  · intro u id hu
    obtain ⟨hu, hne⟩ := hothers u id hu
    obtain ⟨hwait, hreturned, hqueue⟩ := h.numbered u id hu
    rw [hshared, hids]
    refine ⟨hwait, hreturned, fun hin => ?_⟩
    obtain hold | hnew := List.mem_append.mp hin
    · exact hqueue hold
    · exact hne (List.mem_singleton.mp hnew)
  · exact fun u v id hu hv => h.numbered_apart u v id (hothers u id hu).1 (hothers v id hv).1
  · intro id hid
    rw [hids] at hid
    rw [hshared]
    obtain hold | hnew := List.mem_append.mp hid
    · exact h.queued_waiting id hold
    · rw [List.mem_singleton.mp hnew]
      exact hwaits
  · rw [hids]
    exact h.queued_nodup.append (List.nodup_singleton _) (List.disjoint_singleton.mpr hqueued)
  · intro u id hu
    rw [hshared]
    by_cases hut : u = t
    · rw [← hs', hut, System.act_self] at hu
      obtain rfl := Option.some.inj hu
      exact ⟨h.good.waiting_issued _ hwaits, fun v hv => (hothers v _ hv).2 rfl⟩
    · rw [← hs', System.act_other s t u _ hut] at hu
      obtain ⟨hin, hnot⟩ := h.result u id hu
      exact ⟨hin, fun v hv => hnot v (hothers v id hv).1⟩
  · intro id hid
    rw [hqueue, hshared, ← List.append_assoc] at hid
    rw [hshared]
    obtain hold | hnew := List.mem_append.mp hid
    · exact h.canceled id hold
    · cases List.mem_singleton.mp hnew
  · rw [hqueue, List.pairwise_append]
    refine ⟨h.ahead, List.pairwise_singleton .., ?_⟩
    rintro f hf g hg id rfl hsame
    rw [List.mem_singleton.mp hg] at hsame
    obtain rfl := Option.some.inj hsame
    exact huncanceled (List.mem_append_right _ hf)
  · intro id hid
    rw [hshared] at hid ⊢
    obtain ⟨hnone, hnot⟩ := h.gone id hid
    refine ⟨hnone, fun hin => ?_⟩
    rw [hids] at hin
    obtain hold | hnew := List.mem_append.mp hin
    · exact hnot hold
    · exact huncanceled (List.mem_append_left _ (List.mem_singleton.mp hnew ▸ hid))

theorem Placed.cancel (h : Placed loopThread s) {t : T} {timerId : ℕ} (haway : s.threads t = .away)
    (hreturned : timerId ∈ s.shared.returned) :
    Placed loopThread (s.act t (s.shared.push (.innerCancel timerId), .pushed none)) := by
  generalize hs' : s.act t _ = s'
  have hqueue : queue loopThread s' = queue loopThread s ++ [.innerCancel timerId] := by
    rw [← hs', queue_act (by rw [haway]; rfl) rfl, queue, List.append_assoc]
    rfl
  have hids : queuedIds loopThread s' = queuedIds loopThread s := by
    rw [queuedIds, hqueue, List.filterMap_append]
    exact List.append_nil _
  have hothers : ∀ u id, (s'.threads u).number = some id → (s.threads u).number = some id := by
    intro u id hu
    rw [← hs'] at hu
    exact (number_of_act rfl hu).2
  have hshared : s'.shared = s.shared.push (.innerCancel timerId) := by
    rw [← hs']
    rfl
  constructor
  · rw [hshared]
    exact h.good
  · rw [hshared]
    exact h.returned_issued
  · intro u id hu
    rw [hshared, hids]
    exact h.numbered u id (hothers u id hu)
  · exact fun u v id hu hv => h.numbered_apart u v id (hothers u id hu) (hothers v id hv)
  · rw [hids, hshared]
    exact h.queued_waiting
  · rw [hids]
    exact h.queued_nodup
  · intro u id hu
    rw [← hs'] at hu
    obtain ⟨hin, hnot⟩ := h.result u id (result_of_act rfl hu)
    rw [hshared]
    exact ⟨hin, fun v hv => hnot v (hothers v id hv)⟩
  · intro id hid
    rw [hqueue, hshared, ← List.append_assoc] at hid
    rw [hshared]
    obtain hold | hnew := List.mem_append.mp hid
    · exact h.canceled id hold
    · cases List.mem_singleton.mp hnew
      exact hreturned
  · rw [hqueue, List.pairwise_append]
    refine ⟨h.ahead, List.pairwise_singleton .., ?_⟩
    rintro f hf g hg id rfl hsame
    rw [List.mem_singleton.mp hg] at hsame
    cases hsame
  · rw [hids, hshared]
    exact h.gone

/-- The first of the taken functors is run. -/
theorem Placed.runFirst (h : Placed loopThread s) {f : Functor} {rest : List Functor} {run : Run}
    (hplace : s.threads loopThread = .running (f :: rest)) (hgood : run.Good)
    (hissued : run.issued = s.shared.run.issued)
    (hwaiting : ∀ id ∈ s.shared.run.waiting, f.installed ≠ some id → id ∈ run.waiting)
    (htimer : ∀ id, f.installed ≠ some id → s.shared.run.loop.timer.lookup id = none →
      run.loop.timer.lookup id = none)
    (hcancel : ∀ id, f = .innerCancel id → run.loop.timer.lookup id = none) :
    Placed loopThread (s.act loopThread
      ({ s.shared with run, ran := s.shared.ran ++ [f] }, .running rest)) := by
  generalize hs' : s.act loopThread _ = s'
  have hqueue : queue loopThread s = f :: queue loopThread s' := by
    rw [← hs', queue, hplace, queue, System.act_self]
    rfl
  have hids : queuedIds loopThread s = f.installed.toList ++ queuedIds loopThread s' := by
    rw [queuedIds, hqueue, List.filterMap_cons]
    cases f <;> rfl
  have hsub : ∀ id, id ∈ queuedIds loopThread s' → id ∈ queuedIds loopThread s :=
    fun id hid => hids ▸ List.mem_append_right _ hid
  have hfirst : ∀ id, f.installed = some id → id ∈ queuedIds loopThread s := by
    intro id hid
    rw [hids, hid]
    exact List.mem_append_left _ (List.mem_singleton_self id)
  have hnot : ∀ id, f.installed = some id → id ∉ queuedIds loopThread s' := by
    intro id hid hin
    have hnodup := h.queued_nodup
    rw [hids, hid] at hnodup
    exact (List.nodup_append'.mp hnodup).2.2 (List.mem_singleton_self id) hin
  have hothers : ∀ u id, (s'.threads u).number = some id → (s.threads u).number = some id := by
    intro u id hu
    rw [← hs'] at hu
    exact (number_of_act rfl hu).2
  have hshared : s'.shared = { s.shared with run, ran := s.shared.ran ++ [f] } := by
    rw [← hs']
    rfl
  have hahead := h.ahead
  rw [hqueue, List.pairwise_cons] at hahead
  constructor
  · rw [hshared]
    exact hgood
  · rw [hshared, hissued]
    exact h.returned_issued
  · intro u id hu
    obtain ⟨hwaits, hfree, hqueued⟩ := h.numbered u id (hothers u id hu)
    rw [hshared]
    exact ⟨hwaiting id hwaits fun heq => hqueued (hfirst id heq), hfree,
      fun hin => hqueued (hsub id hin)⟩
  · exact fun u v id hu hv => h.numbered_apart u v id (hothers u id hu) (hothers v id hv)
  · intro id hid
    rw [hshared]
    exact hwaiting id (h.queued_waiting id (hsub id hid)) fun heq => hnot id heq hid
  · have hnodup := h.queued_nodup
    rw [hids] at hnodup
    exact (List.nodup_append'.mp hnodup).2.1
  · intro u id hu
    rw [← hs'] at hu
    obtain ⟨hin, hfree⟩ := h.result u id (result_of_act rfl hu)
    rw [hshared, hissued]
    exact ⟨hin, fun v hv => hfree v (hothers v id hv)⟩
  · intro id hid
    rw [hshared] at hid ⊢
    refine h.canceled id ?_
    rwa [hqueue, List.append_cons]
  · exact hahead.2
  · intro id hid
    rw [hshared] at hid ⊢
    obtain hold | hnew := List.mem_append.mp hid
    · obtain ⟨hnone, hgone⟩ := h.gone id hold
      exact ⟨htimer id (fun heq => hgone (hfirst id heq)) hnone, fun hin => hgone (hsub id hin)⟩
    · have hf := (List.mem_singleton.mp hnew).symm
      refine ⟨hcancel id hf, fun hin => ?_⟩
      obtain ⟨g, hg, hinstalled⟩ := List.mem_filterMap.mp hin
      exact hahead.1 g hg id hf hinstalled

theorem Placed.moved (h : Placed loopThread s) {s' : State T} {e : Event T}
    (hstep : step loopThread s e = some s') (hreturned : Returned s e)
    (hids : s'.shared.run.issued.length ≤ EventLoop.kIdCount) : Placed loopThread s' := by
  cases step_moved hstep with
  | newTimerId t type haway =>
    exact h.request type haway (h.good.request.issued_nodup_iff.mpr hids)
  | install timerId type deadline made added run hplace hok => exact h.install hplace hok
  | push t timerId type hplace => exact h.push hplace
  | cancel t timerId haway => exact h.cancel haway hreturned
  | wakeup t written result hplace hfull =>
    refine h.calm rfl rfl (queue_act (by rw [hplace]; rfl) rfl) rfl ?_ h.good rfl rfl fun _ h => h
    rw [hplace]
    rfl
  | wakeupHandler haway =>
    refine h.calm rfl rfl (queue_act (by rw [haway]; rfl) rfl) rfl ?_ h.good rfl rfl fun _ h => h
    rw [haway]
    exact (List.append_nil _).symm
  | doPendingFunctors hheard =>
    refine h.calm rfl rfl ?_ rfl ?_ h.good rfl rfl fun _ h => h
    · rw [queue, System.act_self, queue, hheard]
      exact List.append_nil _
    · rw [hheard]
      exact (List.append_nil _).symm
  | runInstall timerId type deadline made added rest run hplace hok =>
    have hwaits : timerId ∈ s.shared.run.waiting := by
      refine h.queued_waiting timerId ?_
      rw [queuedIds, queue, hplace]
      exact List.mem_cons_self
    have hallowed : s.shared.run.Allowed (.installTimerEvent timerId deadline type made added) :=
      hwaits
    obtain ⟨hissued, hwaiting, htimer⟩ := run_install_ok hok
    have hother : ∀ id, (Functor.installTimerEvent timerId type).installed ≠ some id →
        id ≠ timerId := fun id hne heq => hne (congrArg some heq.symm)
    refine h.runFirst hplace (h.good.step hallowed hok) hissued ?_ ?_ nofun
    · intro id hid hne
      rw [hwaiting]
      exact (List.mem_erase_of_ne (hother id hne)).mpr hid
    · exact fun id hne hnone => (htimer id (hother id hne)).trans hnone
  | runCancel timerId deadline made added rest hplace =>
    obtain ⟨hsound, hshrinks⟩ := h.good.sound.innerCancel timerId
    refine h.runFirst hplace (h.good.shrinks hsound hshrinks) rfl (fun id hid _ => hid) ?_ ?_
    · intro id _ hnone
      by_contra hsome
      exact hshrinks.timer id hsome hnone
    · rintro id heq
      cases heq
      exact innerCancel_gone s.shared.run.loop timerId
  | done hplace =>
    refine h.calm rfl rfl (queue_act (by rw [hplace]; rfl) rfl) rfl ?_ h.good rfl rfl fun _ h => h
    rw [hplace]
    exact (List.append_nil _).symm
  | heartbeat current run haway hok =>
    obtain ⟨hissued, hwaiting, htimer⟩ := run_heartbeat_ok h.good hok
    refine h.calm rfl rfl (queue_act (by rw [haway]; rfl) rfl) rfl ?_ ?_ hissued hwaiting htimer
    · rw [haway]
      exact (List.append_nil _).symm
    · exact h.good.step (c := .heartbeat current) trivial hok

theorem issued_length_mono {s' : State T} {e : Event T} (hstep : step loopThread s e = some s') :
    s.shared.run.issued.length ≤ s'.shared.run.issued.length := by
  cases step_moved hstep with
  | newTimerId t type haway =>
    show _ ≤ (s.shared.run.issued ++ [_]).length
    rw [List.length_append]
    exact Nat.le_add_right _ _
  | install timerId type deadline made added run hplace hok
  | runInstall timerId type deadline made added rest run hplace hok =>
    rw [System.act_shared, (run_install_ok hok).1]
  | heartbeat current run haway hok =>
    rw [System.act_shared]
    cases hl : s.shared.run.loop.heartbeat current with
    | error failure =>
      rw [Run.step, hl] at hok
      cases hok
    | ok l =>
      rw [Run.step, hl] at hok
      cases hok
      exact le_rfl
  | _ => exact le_rfl

theorem path_placed {es : List (Event T)}
    (h : GuardedRuns.Path (step loopThread) Returned State.start es s)
    (hids : s.shared.run.issued.length ≤ EventLoop.kIdCount) : Placed loopThread s := by
  refine h.invariant (fun s => s.shared.run.issued.length ≤ EventLoop.kIdCount →
    Placed loopThread s) ?_ (fun _ => placed_start loopThread) hids
  intro s e s' hplaced hreturned hstep hids
  exact (hplaced ((issued_length_mono hstep).trans hids)).moved hstep hreturned hids

end Timers

/-- A timer that was canceled by someone who has its id from `runEvery` or `runAfter` is gone
once the cancellation has run, and stays away: its installation was ahead. When all is
quiet this is so for every cancellation that was asked for. -/
theorem canceled_gone (loopThread : T) (es : List (Event T)) (s : State T)
    (h : GuardedRuns.Path (step loopThread) Returned State.start es s)
    (hids : s.shared.run.issued.length ≤ EventLoop.kIdCount) :
    (∀ id, .innerCancel id ∈ s.shared.ran → s.shared.run.loop.timer.lookup id = none ∧
      s.shared.run.loop.oneShotTimerDeadLine.lookup id = none) ∧
      (Quiet s → ∀ id, .innerCancel id ∈ s.shared.entered →
        s.shared.run.loop.timer.lookup id = none) := by
  have hplaced := path_placed h hids
  refine ⟨fun id hran => ?_, fun hquiet id hentered => ?_⟩
  · have hnone := (hplaced.gone id hran).1
    refine ⟨hnone, ?_⟩
    by_contra hsome
    exact hplaced.good.sound.deadline_timer id hsome hnone
  · have hran : s.shared.ran = s.shared.entered :=
      ((path_heard h).settled ⟨hquiet.1, hquiet.2⟩).2
    exact (hplaced.gone id (hran ▸ hentered)).1

/-- A second thread asks for a timer and then cancels it. Its second write finds the socket
full, and the loop runs both functors after the one read. -/
def sampleEvents : List (Event Bool) :=
  [.newTimerId true 1, .push true, .wakeup true 8, .cancel true 1, .wakeup true 0,
    .wakeupHandler, .doPendingFunctors, .runFunctor 50 true true, .runFunctor 0 true true, .done]

theorem functors_run_sample : ∃ s, sampleEvents.foldlM (step false) State.start = some s ∧
    s.shared.pendingFunctors = [] ∧ s.shared.ran = s.shared.entered := by
  refine ⟨_, rfl, ?_⟩
  have hpath : GuardedRuns.Path (step false) (fun _ _ => True) State.start sampleEvents _ :=
    GuardedRuns.path_of_steps _ _ _ (fun _ _ _ => trivial) rfl
  refine (functors_run false sampleEvents _ hpath).2.2 ⟨fun t => ?_, rfl⟩
  cases t <;> rfl

theorem canceled_gone_sample : ∃ s, sampleEvents.foldlM (step false) State.start = some s ∧
    s.shared.run.loop.timer.lookup 1 = none := by
  refine ⟨_, rfl, ?_⟩
  have hpath : GuardedRuns.Path (step false) Returned State.start sampleEvents _ :=
    .cons _ _ _ _ _ rfl trivial <| .cons _ _ _ _ _ rfl trivial <| .cons _ _ _ _ _ rfl trivial <|
    .cons _ _ _ _ _ rfl (List.mem_singleton_self 1) <| .cons _ _ _ _ _ rfl trivial <|
    .cons _ _ _ _ _ rfl trivial <| .cons _ _ _ _ _ rfl trivial <| .cons _ _ _ _ _ rfl trivial <|
    .cons _ _ _ _ _ rfl trivial <| .cons _ _ _ _ _ rfl trivial <| .nil _
  exact ((canceled_gone false sampleEvents _ hpath (by decide)).1 1 (by decide)).1

end Gingko.PendingFunctors
