import Gingko.OrderedMaps
import Mathlib.Algebra.Order.Ring.Nat
import Mathlib.Data.List.Count

/-!
The timers of an event loop. Each has an event of the event library, and those that run
once have a deadline, after which a heartbeat takes them away. The ids come from one
counter of 64 bits; an id is asked for first, by any thread, and its timer is installed
later, in the thread of the loop.
-/
namespace Gingko.EventLoops

open OrderedMaps

/-- What ends the program: the assertions, and a fatal line of the log. -/
inductive Failure
  | noEvent
  | addFailed
  | knownTimer
  | unknownDeadline
  deriving DecidableEq

/-- Events are numbered in the order of their creation; `freed` are those given to
`event_free`, the last one at the end. -/
structure EventLoop where
  timer : OrderedMap ℕ ℕ
  oneShotTimerDeadLine : OrderedMap ℕ ℤ
  timerNumsCreated : ℕ
  events : ℕ
  freed : List ℕ

namespace EventLoop

def start : EventLoop := ⟨OrderedMap.empty, OrderedMap.empty, 0, 0, []⟩

def kIdCount : ℕ := 2 ^ 64

/-- The counter after the call is the id. -/
def newTimerId (l : EventLoop) : EventLoop :=
  { l with timerNumsCreated := (l.timerNumsCreated + 1) % kIdCount }

/-- Only the types 0 and 1, the timers that persist and those that run once, have an
event; `made` is whether the library gives one. -/
def eventNew (type : ℤ) (made : Bool) (l : EventLoop) : Option ℕ :=
  if (type = 0 ∨ type = 1) ∧ made = true then some l.events else none

def installTimerEvent (timerId : ℕ) (deadline type : ℤ) (made added : Bool) (l : EventLoop) :
    Except Failure EventLoop :=
  match eventNew type made l with
  | none => .error .noEvent
  | some event =>
    if added = false then .error .addFailed
    else if l.timer.lookup timerId ≠ none then .error .knownTimer
    else .ok
      { l with
        timer := l.timer.insert timerId event
        oneShotTimerDeadLine :=
          if type = 1 then l.oneShotTimerDeadLine.insert timerId deadline
          else l.oneShotTimerDeadLine
        events := l.events + 1 }

/-- The event is freed, and the id goes from both maps. -/
def freeTimer (timerId event : ℕ) (l : EventLoop) : EventLoop :=
  { l with
    timer := l.timer.erase timerId
    oneShotTimerDeadLine := l.oneShotTimerDeadLine.erase timerId
    freed := l.freed ++ [event] }

def innerCancel (timerId : ℕ) (l : EventLoop) : EventLoop :=
  match l.timer.lookup timerId with
  | none => l
  | some event => freeTimer timerId event l

def freeTimers (l : EventLoop) : EventLoop :=
  l.timer.entries.foldl (fun l e => freeTimer e.1 e.2 l) l

/-- Ten seconds, in microseconds. -/
def delta : ℤ := 10 * 1000000

/-- One deadline of the heartbeat's loop. The sum is one of 64 bits. -/
def sweep (current : ℤ) (l : EventLoop) (e : ℕ × ℤ) : Except Failure EventLoop :=
  if (e.2 + delta).bmod (2 ^ 64) < current then
    match l.timer.lookup e.1 with
    | none => .error .unknownDeadline
    | some event => .ok (freeTimer e.1 event l)
  else .ok l

/-- Only the entry the iterator stands on is erased, so the loop passes the entries that
are there at its start. -/
def heartbeat (current : ℤ) (l : EventLoop) : Except Failure EventLoop :=
  l.oneShotTimerDeadLine.entries.foldlM (sweep current) l

/-- The events of the timers that are there. -/
def live (l : EventLoop) : List ℕ := l.timer.entries.map Prod.snd

/-- Deadlines are of timers that are there, and of the events created each is with one
timer or was freed once. -/
structure Sound (l : EventLoop) : Prop where
  deadline_timer : ∀ id, l.oneShotTimerDeadLine.lookup id ≠ none → l.timer.lookup id ≠ none
  events_perm : (l.live ++ l.freed).Perm (List.range l.events)

/-- What the operations that free events leave alone: nothing is added. -/
structure Shrinks (l l' : EventLoop) : Prop where
  counter : l'.timerNumsCreated = l.timerNumsCreated
  events : l'.events = l.events
  timer : ∀ id, l'.timer.lookup id ≠ none → l.timer.lookup id ≠ none

theorem Shrinks.refl (l : EventLoop) : Shrinks l l := ⟨rfl, rfl, fun _ h => h⟩

theorem Shrinks.trans {l l' l'' : EventLoop} (h : Shrinks l l') (h' : Shrinks l' l'') :
    Shrinks l l'' :=
  ⟨h'.counter.trans h.counter, h'.events.trans h.events, fun id hid => h.timer id (h'.timer id hid)⟩

theorem sound_start : Sound start :=
  ⟨fun _ h => absurd rfl h, List.Perm.refl _⟩

theorem shrinks_freeTimer (timerId event : ℕ) (l : EventLoop) :
    Shrinks l (freeTimer timerId event l) := by
  refine ⟨rfl, rfl, fun id hid => ?_⟩
  rw [freeTimer, OrderedMap.lookup_erase] at hid
  exact (ite_ne_left_iff.mp hid).2.symm

theorem Sound.freeTimer {l : EventLoop} (h : Sound l) {timerId event : ℕ}
    (htimer : l.timer.lookup timerId = some event) : Sound (l.freeTimer timerId event) := by
  constructor
  · intro id hid
    simp only [EventLoop.freeTimer, OrderedMap.lookup_erase] at hid ⊢
    split at hid
    · exact absurd rfl hid
    · next hne =>
      rw [if_neg hne]
      exact h.deadline_timer id hid
  · have hlive : l.live.Perm (event :: (l.freeTimer timerId event).live) :=
      (l.timer.entries_perm_erase htimer).map Prod.snd
    calc
      (l.freeTimer timerId event).live ++ (l.freed ++ [event])
      _ |>.Perm (event :: (l.freeTimer timerId event).live ++ l.freed) := by
        rw [← List.append_assoc]
        exact List.perm_append_singleton _ _
      _ |>.Perm (l.live ++ l.freed) := hlive.symm.append_right _
      _ |>.Perm (List.range l.events) := h.events_perm

/-- An installation that goes through puts the new event under an id that had none. -/
theorem installTimerEvent_ok {l l' : EventLoop} {timerId : ℕ} {deadline type : ℤ}
    {made added : Bool} (hok : l.installTimerEvent timerId deadline type made added = .ok l') :
    l.timer.lookup timerId = none ∧ l' =
      { l with
        timer := l.timer.insert timerId l.events
        oneShotTimerDeadLine :=
          if type = 1 then l.oneShotTimerDeadLine.insert timerId deadline
          else l.oneShotTimerDeadLine
        events := l.events + 1 } := by
  unfold installTimerEvent at hok
  split at hok
  · cases hok
  · next event hevent =>
    unfold eventNew at hevent
    split at hevent
    · cases hevent
      split at hok
      · cases hok
      · split at hok
        · cases hok
        · next hknown => exact ⟨not_not.mp hknown, (Except.ok.inj hok).symm⟩
    · cases hevent

theorem installTimerEvent_error {l : EventLoop} {timerId : ℕ} {deadline type : ℤ}
    {made added : Bool} {failure : Failure}
    (herror : l.installTimerEvent timerId deadline type made added = .error failure) :
    failure = .noEvent ∨ failure = .addFailed ∨
      failure = .knownTimer ∧ l.timer.lookup timerId ≠ none := by
  unfold installTimerEvent at herror
  split at herror
  · exact .inl (Except.error.inj herror).symm
  · split at herror
    · exact .inr (.inl (Except.error.inj herror).symm)
    · split at herror
      · next hknown => exact .inr (.inr ⟨(Except.error.inj herror).symm, hknown⟩)
      · cases herror

theorem Sound.installTimerEvent {l l' : EventLoop} (h : Sound l) {timerId : ℕ}
    {deadline type : ℤ} {made added : Bool}
    (hok : l.installTimerEvent timerId deadline type made added = .ok l') : Sound l' := by
  obtain ⟨hnew, rfl⟩ := installTimerEvent_ok hok
  constructor
  · intro id hid
    simp only [OrderedMap.lookup_insert] at hid ⊢
    by_cases heq : id = timerId
    · rw [if_pos heq]
      exact Option.some_ne_none _
    · rw [if_neg heq]
      refine h.deadline_timer id ?_
      split at hid
      · rwa [OrderedMap.lookup_insert, if_neg heq] at hid
      · exact hid
  · have hlive := ((l.timer.entries_insert_perm l.events hnew).map Prod.snd).append_right l.freed
    rw [List.range_succ]
    exact hlive.trans ((h.events_perm.cons l.events).trans (List.perm_append_singleton _ _).symm)

theorem Sound.innerCancel {l : EventLoop} (h : Sound l) (timerId : ℕ) :
    Sound (l.innerCancel timerId) ∧ Shrinks l (l.innerCancel timerId) := by
  unfold EventLoop.innerCancel
  split
  · exact ⟨h, .refl l⟩
  · next event htimer => exact ⟨h.freeTimer htimer, shrinks_freeTimer timerId event l⟩

/-- The entries that are left are those behind the one that is freed. -/
theorem entries_freeTimer {l : EventLoop} {e : ℕ × ℕ} {rest : List (ℕ × ℕ)}
    (hentries : l.timer.entries = e :: rest) :
    (l.freeTimer e.1 e.2).timer.entries = rest := by
  have hsorted := l.timer.sorted
  rw [hentries] at hsorted
  have hlater := (List.pairwise_cons.mp hsorted).1
  show l.timer.entries.filter (fun a => a.1 ≠ e.1) = rest
  rw [hentries, List.filter_cons_of_neg (by simp), List.filter_eq_self]
  intro a ha
  exact decide_eq_true (ne_of_gt (hlater a ha))

/-- The destructor's call leaves no timer. -/
theorem Sound.freeTimers {l : EventLoop} (h : Sound l) :
    Sound l.freeTimers ∧ Shrinks l l.freeTimers ∧ l.freeTimers.timer.entries = [] := by
  unfold EventLoop.freeTimers
  generalize hentries : l.timer.entries = entries
  induction entries generalizing l with
  | nil => exact ⟨h, .refl l, hentries⟩
  | cons e rest ih =>
    have htimer : l.timer.lookup e.1 = some e.2 := by
      rw [← OrderedMap.mem_entries_iff, hentries]
      exact List.mem_cons_self
    obtain ⟨hsound, hshrinks, hnil⟩ := ih (h.freeTimer htimer) (entries_freeTimer hentries)
    exact ⟨hsound, (shrinks_freeTimer e.1 e.2 l).trans hshrinks, hnil⟩

/-- The deadlines that are still to be passed have their timers, since only the timer of
the deadline at hand is freed. -/
theorem Sound.sweeps {l : EventLoop} (h : Sound l) (current : ℤ) (entries : List (ℕ × ℤ))
    (hsorted : entries.Pairwise fun a b => a.1 < b.1)
    (hthere : ∀ e ∈ entries, l.timer.lookup e.1 ≠ none) :
    ∃ l', entries.foldlM (sweep current) l = .ok l' ∧ Sound l' ∧ Shrinks l l' := by
  induction entries generalizing l with
  | nil => exact ⟨l, rfl, h, .refl l⟩
  | cons e rest ih =>
    obtain ⟨hlater, hrest⟩ := List.pairwise_cons.mp hsorted
    obtain ⟨hfirst, hothers⟩ := List.forall_mem_cons.mp hthere
    rw [List.foldlM_cons]
    by_cases hpast : (e.2 + delta).bmod (2 ^ 64) < current
    · obtain ⟨event, htimer⟩ := Option.ne_none_iff_exists'.mp hfirst
      have hsweep : sweep current l e = .ok (l.freeTimer e.1 event) := by
        rw [sweep, if_pos hpast, htimer]
      have hkept : ∀ a ∈ rest, (l.freeTimer e.1 event).timer.lookup a.1 ≠ none := by
        intro a ha
        rw [EventLoop.freeTimer, OrderedMap.lookup_erase, if_neg (ne_of_gt (hlater a ha))]
        exact hothers a ha
      obtain ⟨l', hloop, hsound, hshrinks⟩ := ih (h.freeTimer htimer) hrest hkept
      rw [hsweep]
      exact ⟨l', hloop, hsound, (shrinks_freeTimer e.1 event l).trans hshrinks⟩
    · rw [sweep, if_neg hpast]
      exact ih h hrest hothers

theorem Sound.heartbeat {l : EventLoop} (h : Sound l) (current : ℤ) :
    ∃ l', l.heartbeat current = .ok l' ∧ Sound l' ∧ Shrinks l l' := by
  refine h.sweeps current _ l.oneShotTimerDeadLine.sorted ?_
  rintro ⟨id, deadline⟩ hmem
  rw [OrderedMap.mem_entries_iff] at hmem
  exact h.deadline_timer id (hmem ▸ Option.some_ne_none deadline)

/-- When all timers are freed, each event created was freed once. -/
theorem Sound.freed_perm {l : EventLoop} (h : Sound l) :
    l.freeTimers.freed.Perm (List.range l.events) := by
  obtain ⟨hsound, hshrinks, hnil⟩ := h.freeTimers
  have hperm := hsound.events_perm
  rwa [live, hnil, hshrinks.events] at hperm

end EventLoop

open EventLoop

inductive Call
  | newTimerId
  | installTimerEvent (timerId : ℕ) (deadline type : ℤ) (made added : Bool)
  | innerCancel (timerId : ℕ)
  | heartbeat (current : ℤ)
  | freeTimers

/-- `issued` are the ids given out, in their order, and `waiting` are those whose timer
is still to be installed. -/
structure Run where
  loop : EventLoop
  issued : List ℕ
  waiting : List ℕ

namespace Run

def start : Run := ⟨EventLoop.start, [], []⟩

/-- Each id given out has one installation, at any time. -/
def Allowed (s : Run) : Call → Prop
  | .installTimerEvent timerId .. => timerId ∈ s.waiting
  | _ => True

def request (s : Run) : Run where
  loop := s.loop.newTimerId
  issued := s.issued ++ [s.loop.newTimerId.timerNumsCreated]
  waiting := s.waiting ++ [s.loop.newTimerId.timerNumsCreated]

def step (s : Run) : Call → Except Failure Run
  | .newTimerId => .ok s.request
  | .installTimerEvent timerId deadline type made added =>
    do
      let loop ← s.loop.installTimerEvent timerId deadline type made added
      return { s with loop, waiting := s.waiting.erase timerId }
  | .innerCancel timerId => .ok { s with loop := s.loop.innerCancel timerId }
  | .heartbeat current => do return { s with loop := ← s.loop.heartbeat current }
  | .freeTimers => .ok { s with loop := s.loop.freeTimers }

/-- What calls one after the other can reach. -/
inductive Reach : Run → Prop
  | start : Reach start
  | call {s s' : Run} (c : Call) (h : Reach s) (hallowed : s.Allowed c)
      (hok : s.step c = .ok s') : Reach s'

/-- As long as the ids given out differ, no id that waits has a timer already. -/
structure Good (s : Run) : Prop where
  sound : s.loop.Sound
  counter : s.loop.timerNumsCreated = s.issued.length % kIdCount
  issued_eq : s.issued = (List.range s.issued.length).map fun k => (k + 1) % kIdCount
  waiting_issued : ∀ id ∈ s.waiting, id ∈ s.issued
  timer_issued : ∀ id, s.loop.timer.lookup id ≠ none → id ∈ s.issued
  waiting_nodup : s.issued.Nodup → s.waiting.Nodup
  waiting_timer : s.issued.Nodup → ∀ id ∈ s.waiting, s.loop.timer.lookup id = none

theorem good_start : Good start where
  sound := sound_start
  counter := rfl
  issued_eq := rfl
  waiting_issued := fun _ h => h
  timer_issued := fun _ h => absurd rfl h
  waiting_nodup := fun h => h
  waiting_timer := fun _ _ h => absurd h List.not_mem_nil

theorem Good.shrinks {s : Run} (h : Good s) {l : EventLoop} (hsound : l.Sound)
    (hshrinks : s.loop.Shrinks l) : Good { s with loop := l } where
  sound := hsound
  counter := hshrinks.counter.trans h.counter
  issued_eq := h.issued_eq
  waiting_issued := h.waiting_issued
  timer_issued := fun id hid => h.timer_issued id (hshrinks.timer id hid)
  waiting_nodup := h.waiting_nodup
  waiting_timer := by
    intro hnodup id hid
    by_contra htimer
    exact hshrinks.timer id htimer (h.waiting_timer hnodup id hid)

theorem Good.request {s : Run} (h : Good s) : Good s.request := by
  have hid : s.loop.newTimerId.timerNumsCreated = (s.issued.length + 1) % kIdCount := by
    rw [newTimerId, h.counter, Nat.mod_add_mod]
  have hfresh (hnodup : s.request.issued.Nodup) :
      s.issued.Nodup ∧ s.loop.newTimerId.timerNumsCreated ∉ s.issued := by
    obtain ⟨hold, -, hdisjoint⟩ := List.nodup_append'.mp hnodup
    exact ⟨hold, fun hin => hdisjoint hin (List.mem_singleton_self _)⟩
  refine ⟨⟨h.sound.deadline_timer, h.sound.events_perm⟩, ?_, ?_, ?_, ?_, ?_, ?_⟩
  · simp only [Run.request, List.length_append, List.length_singleton, hid]
  · simp only [Run.request, List.length_append, List.length_singleton, hid, List.range_succ,
      List.map_append, List.map_singleton]
    rw [← h.issued_eq]
  · intro id hmem
    obtain hold | hnew := List.mem_append.mp hmem
    · exact List.mem_append_left _ (h.waiting_issued id hold)
    · exact List.mem_append_right _ hnew
  · exact fun id htimer => List.mem_append_left _ (h.timer_issued id htimer)
  · intro hnodup
    obtain ⟨hold, hnew⟩ := hfresh hnodup
    exact (h.waiting_nodup hold).append (List.nodup_singleton _)
      (List.disjoint_singleton.mpr fun hin => hnew (h.waiting_issued _ hin))
  · intro hnodup id hmem
    obtain ⟨hold, hnew⟩ := hfresh hnodup
    obtain hwaits | hmem := List.mem_append.mp hmem
    · exact h.waiting_timer hold id hwaits
    · by_contra htimer
      rw [List.mem_singleton.mp hmem] at htimer
      exact hnew (h.timer_issued _ htimer)

theorem Good.install {s : Run} (h : Good s) {timerId : ℕ} {deadline type : ℤ}
    {made added : Bool} {l : EventLoop} (hmem : timerId ∈ s.waiting)
    (hok : s.loop.installTimerEvent timerId deadline type made added = .ok l) :
    Good { s with loop := l, waiting := s.waiting.erase timerId } := by
  have hsound := h.sound.installTimerEvent hok
  obtain ⟨-, rfl⟩ := installTimerEvent_ok hok
  refine ⟨hsound, h.counter, h.issued_eq, ?_, ?_, ?_, ?_⟩
  · exact fun id hid => h.waiting_issued id (List.mem_of_mem_erase hid)
  · intro id hid
    by_cases heq : id = timerId
    · rw [heq]
      exact h.waiting_issued timerId hmem
    · rw [OrderedMap.lookup_insert, if_neg heq] at hid
      exact h.timer_issued id hid
  · exact fun hnodup => (h.waiting_nodup hnodup).erase timerId
  · intro hnodup id hid
    obtain ⟨hne, hid⟩ := (h.waiting_nodup hnodup).mem_erase_iff.mp hid
    rw [OrderedMap.lookup_insert, if_neg hne]
    exact h.waiting_timer hnodup id hid

theorem Good.step {s s' : Run} (h : Good s) {c : Call} (hallowed : s.Allowed c)
    (hok : s.step c = .ok s') : Good s' := by
  cases c with
  | newTimerId =>
    cases hok
    exact h.request
  | installTimerEvent timerId deadline type made added =>
    cases hl : s.loop.installTimerEvent timerId deadline type made added with
    | error failure =>
      rw [Run.step, hl] at hok
      cases hok
    | ok l =>
      rw [Run.step, hl] at hok
      cases hok
      exact h.install hallowed hl
  | innerCancel timerId =>
    cases hok
    obtain ⟨hsound, hshrinks⟩ := h.sound.innerCancel timerId
    exact h.shrinks hsound hshrinks
  | heartbeat current =>
    obtain ⟨l, hl, hsound, hshrinks⟩ := h.sound.heartbeat current
    rw [Run.step, hl] at hok
    cases hok
    exact h.shrinks hsound hshrinks
  | freeTimers =>
    cases hok
    obtain ⟨hsound, hshrinks, -⟩ := h.sound.freeTimers
    exact h.shrinks hsound hshrinks

theorem Reach.good {s : Run} (h : Reach s) : Good s := by
  induction h with
  | start => exact good_start
  | call c _ hallowed hok ih => exact ih.step hallowed hok

/-- The ids differ until the counter has gone round. -/
theorem Good.issued_nodup_iff {s : Run} (h : Good s) :
    s.issued.Nodup ↔ s.issued.length ≤ kIdCount := by
  rw [h.issued_eq, List.nodup_map_iff_inj_on List.nodup_range, List.length_map, List.length_range]
  constructor
  · intro hinj
    by_contra hmore
    have hsame := hinj 0 (List.mem_range.mpr (by omega)) kIdCount (List.mem_range.mpr (by omega))
      (by rw [Nat.add_mod_left, Nat.zero_add])
    unfold kIdCount at hsame
    contradiction
  · intro hle i hi j hj hsame
    rw [List.mem_range] at hi hj
    unfold kIdCount at *
    omega

/-- The only failures of a call are the library's, and an id that is given out again. -/
theorem Good.step_error {s : Run} (h : Good s) {c : Call} (hallowed : s.Allowed c)
    {failure : Failure} (herror : s.step c = .error failure) :
    failure = .noEvent ∨ failure = .addFailed ∨
      failure = .knownTimer ∧ kIdCount < s.issued.length := by
  cases c with
  | newTimerId | innerCancel _ | freeTimers => cases herror
  | heartbeat current =>
    obtain ⟨l, hl, -⟩ := h.sound.heartbeat current
    rw [Run.step, hl] at herror
    cases herror
  | installTimerEvent timerId deadline type made added =>
    cases hl : s.loop.installTimerEvent timerId deadline type made added with
    | ok l =>
      rw [Run.step, hl] at herror
      cases herror
    | error e =>
      rw [Run.step, hl] at herror
      cases herror
      refine (installTimerEvent_error hl).imp_right (Or.imp_right ?_)
      rintro ⟨rfl, hknown⟩
      refine ⟨rfl, ?_⟩
      by_contra hle
      have hnodup := h.issued_nodup_iff.mpr (Nat.le_of_not_lt hle)
      exact hknown (h.waiting_timer hnodup timerId hallowed)

/-- Deadlines are of timers that are there, so no heartbeat fails; each event created is
with one timer or was freed once, and when the timers are freed each was freed once. Up to
the number of ids there are, the ids given out differ and no timer is there already when
it is installed. -/
theorem reach_timers {s : Run} (h : Reach s) :
    (∀ id, s.loop.oneShotTimerDeadLine.lookup id ≠ none → s.loop.timer.lookup id ≠ none) ∧
      (∀ c, s.Allowed c → s.step c ≠ .error .unknownDeadline) ∧
      (s.loop.live ++ s.loop.freed).Perm (List.range s.loop.events) ∧
      s.loop.freeTimers.freed.Perm (List.range s.loop.events) ∧
      (s.issued.length ≤ kIdCount →
        s.issued.Nodup ∧ ∀ c, s.Allowed c → s.step c ≠ .error .knownTimer) := by
  have hgood := h.good
  refine ⟨hgood.sound.deadline_timer, ?_, hgood.sound.events_perm, hgood.sound.freed_perm, ?_⟩
  · intro c hallowed herror
    obtain h | h | ⟨h, -⟩ := hgood.step_error hallowed herror <;> cases h
  · intro hle
    refine ⟨hgood.issued_nodup_iff.mpr hle, fun c hallowed herror => ?_⟩
    obtain h | h | ⟨-, hmore⟩ := hgood.step_error hallowed herror
    · cases h
    · cases h
    · omega

/-- A timer that runs once is installed, and canceled. -/
theorem reach_timers_canceled :
    let s : Run := ⟨⟨OrderedMap.empty, OrderedMap.empty, 1, 1, [0]⟩, [1], []⟩
    s.loop.freeTimers.freed.Perm (List.range s.loop.events) ∧ s.issued.Nodup := by
  have hreach : Reach ⟨⟨OrderedMap.empty, OrderedMap.empty, 1, 1, [0]⟩, [1], []⟩ :=
    (((Reach.start.call .newTimerId trivial rfl).call (.installTimerEvent 1 50 1 true true)
      (List.mem_singleton_self 1) rfl).call (.innerCancel 1) trivial rfl)
  obtain ⟨-, -, -, hfreed, hids⟩ := reach_timers hreach
  exact ⟨hfreed, (hids (by decide)).1⟩

/-- Any number of ids can be asked for, and the last one waits. -/
theorem Reach.requests {s : Run} (h : Reach s) (n : ℕ) :
    ∃ s', Reach s' ∧ s'.issued.length = s.issued.length + n ∧ s'.loop.timer = s.loop.timer ∧
      (0 < n → s'.loop.timerNumsCreated ∈ s'.waiting) := by
  induction n with
  | zero => exact ⟨s, h, rfl, rfl, fun hlt => absurd hlt (Nat.lt_irrefl 0)⟩
  | succ n ih =>
    obtain ⟨s', hreach, hlength, htimer, -⟩ := ih
    refine ⟨s'.request, hreach.call .newTimerId trivial rfl, ?_, htimer, fun _ => ?_⟩
    · rw [request, List.length_append, hlength, List.length_singleton, Nat.add_assoc]
    · exact List.mem_append_right _ (List.mem_singleton_self _)

/-- With the timer of the first id still there, the counter goes round and gives that id
out again, and its installation fails. -/
theorem ids_repeat : ∃ s, Reach s ∧ ¬s.issued.Nodup ∧
    ∃ c, s.Allowed c ∧ s.step c = .error .knownTimer := by
  have hreach : Reach ⟨⟨OrderedMap.empty.insert 1 0, OrderedMap.empty, 1, 1, []⟩, [1], []⟩ :=
    ((Reach.start.call .newTimerId trivial rfl).call (.installTimerEvent 1 0 0 true true)
      (List.mem_singleton_self 1) rfl)
  obtain ⟨s, hs, hlength, htimer, hwaits⟩ := hreach.requests kIdCount
  have hid : s.loop.timerNumsCreated = 1 := by
    rw [hs.good.counter, hlength]
    rfl
  refine ⟨s, hs, ?_, .installTimerEvent 1 0 0 true true, ?_, ?_⟩
  · rw [hs.good.issued_nodup_iff, hlength]
    exact Nat.not_le_of_lt (Nat.lt_add_of_pos_left Nat.one_pos)
  · exact hid ▸ hwaits (by decide)
  · have hknown : s.loop.timer.lookup 1 ≠ none := by
      rw [htimer]
      exact Option.some_ne_none 0
    rw [step, installTimerEvent, eventNew, if_pos (by decide)]
    simp only [if_pos hknown, Bool.true_eq_false, if_false]
    rfl

end Run
end Gingko.EventLoops
