import Gingko.Base64Codec
import Gingko.GuardedRuns
import Mathlib.Data.List.Infix
import Mathlib.Logic.Function.Basic

/-!
The pipeline to one redis server: announces append commands to one connection,
the sender reads the replies due on the other and swaps the two, and the
connection thread replaces both after an error. The locked sections are steps,
and so are the tests of the flag, which take no lock. A connection answers its
commands in order, so it is the list of commands whose replies are unread. A
read that fails does not touch the variable for the reply.
-/
namespace Gingko.RedisPipelines

open Base64Codec GuardedRuns

/-- The commands appended to a connection whose replies have not been read. -/
abbrev RedisContext := List ByteString

structure ContextManager where
  chargeContext : Option RedisContext
  releaseContext : Option RedisContext
  chargedCommands : ℕ
  releaseCommands : ℕ
  flag : Bool

/-- Where the sender is. Before `swapping` it holds the release lock only and has
counted the replies it has read; in `swapping` it waits for the other lock. -/
inductive Sender where
  | idle
  | tested
  | flushing (read : ℕ)
  | swapping
  deriving DecidableEq

/-- After a read that fails the variable for the reply is null in the first round
and points to the freed reply of the round before in a later one, where `isError`
is what its type then reads as. -/
inductive ReadResult where
  | reply
  | errorReply
  | failed (isError : Bool)
  deriving DecidableEq

/-- The calls of `T` are those of `AppendCommand` in progress, each with the
command it appends once it has found the flag set. -/
structure State (T : Type) where
  manager : ContextManager
  appending : T → Option ByteString
  sender : Sender
  reconnecting : Bool
  appended : List ByteString
  read : List ByteString

def State.start {T : Type} : State T where
  manager := ⟨none, none, 0, 0, false⟩
  appending := fun _ => none
  sender := .idle
  reconnecting := false
  appended := []
  read := []

inductive Event (T : Type) where
  | testAppend (t : T) (command : ByteString)
  | append (t : T)
  | testSend
  | lockRelease
  | getReply (result : ReadResult)
  | finishFlush
  | swap
  | testConnection
  | connect (release charge : Bool)
  deriving DecidableEq

variable {T : Type}

section Sections

/-- The flush gave up: the connections count as broken from here on. -/
def failFlush (s : State T) : State T :=
  { s with
    manager := { s.manager with flag := false }
    sender := .idle }

/-- The reply of the oldest command is read. -/
def takeReply (command : ByteString) (rest : RedisContext) (s : State T) : State T :=
  { s with
    manager := { s.manager with releaseContext := some rest }
    read := s.read ++ [command] }

def swapSection (s : State T) : State T :=
  { s with
    manager := { s.manager with
      chargeContext := s.manager.releaseContext
      releaseContext := s.manager.chargeContext
      releaseCommands := s.manager.chargedCommands
      chargedCommands := 0 }
    sender := .idle }

/-- Both connections are dropped, and the second is opened only after the first. -/
def connectSection (release charge : Bool) (s : State T) : State T :=
  { s with
    manager :=
      { releaseContext := if release then some [] else none
        chargeContext := if release && charge then some [] else none
        releaseCommands := 0
        chargedCommands := 0
        flag := release && charge }
    reconnecting := false }

/-- `SendToRedis` up to its lock. -/
def testSend (s : State T) : Option (State T) :=
  if s.sender = .idle then
    if s.manager.flag then some { s with sender := .tested } else some s
  else none

def lockRelease (s : State T) : Option (State T) :=
  if s.sender = .tested then some { s with sender := .flushing 0 } else none

/-- One round of the loop in `FlushPipeline`; without a reply to come it blocks. -/
def getReply (result : ReadResult) (s : State T) : Option (State T) :=
  match s.sender, s.manager.releaseContext with
  | .flushing i, some unread =>
    if i < s.manager.releaseCommands then
      match result, unread with
      | .reply, command :: rest =>
        some { takeReply command rest s with sender := .flushing (i + 1) }
      | .errorReply, command :: rest => some (failFlush (takeReply command rest s))
      | .failed isError, _ =>
        if i = 0 || isError then some (failFlush s)
        else some { s with sender := .flushing (i + 1) }
      | _, [] => none
    else none
  | _, _ => none

def finishFlush (s : State T) : Option (State T) :=
  match s.sender with
  | .flushing i =>
    if i < s.manager.releaseCommands then none else some { s with sender := .swapping }
  | _ => none

def swap (s : State T) : Option (State T) :=
  if s.sender = .swapping then some (swapSection s) else none

/-- `DoConnection` up to its locks. -/
def testConnection (s : State T) : Option (State T) :=
  if s.reconnecting then none
  else if s.manager.flag then some s
  else some { s with reconnecting := true }

def connect (release charge : Bool) (s : State T) : Option (State T) :=
  if s.reconnecting && (s.sender = .idle || s.sender = .tested) then
    some (connectSection release charge s)
  else none

end Sections

section Flag

/-- The flag vouches for both connections and for the sender. -/
structure Vouched (s : State T) : Prop where
  charge : s.manager.flag = true → s.manager.chargeContext ≠ none
  release : s.manager.flag = true → s.manager.releaseContext ≠ none
  sending : s.sender ≠ .idle → s.manager.flag = true
  reconnecting : s.reconnecting = true → s.manager.flag = false

theorem vouched_start : Vouched (State.start : State T) where
  charge h := by simp [State.start] at h
  release h := by simp [State.start] at h
  sending h := by simp [State.start] at h
  reconnecting h := by simp [State.start] at h

theorem vouched_failFlush (s : State T) : Vouched (failFlush s) where
  charge h := by simp [failFlush] at h
  release h := by simp [failFlush] at h
  sending h := by simp [failFlush] at h
  reconnecting _ := rfl

theorem idle_of_reconnecting (s : State T) (h : Vouched s) (hreconnecting : s.reconnecting = true) :
    s.sender = .idle := by
  by_contra hsender
  have hflag := h.sending hsender
  rw [h.reconnecting hreconnecting] at hflag
  contradiction

end Flag

section Appending

variable [DecidableEq T]

/-- The locked section of a call that has found the flag set. -/
def appendSection (t : T) (command : ByteString) (unread : RedisContext) (s : State T) : State T :=
  { s with
    manager := { s.manager with
      chargeContext := some (unread ++ [command])
      chargedCommands := s.manager.chargedCommands + 1 }
    appending := Function.update s.appending t none
    appended := s.appended ++ [command] }

/-- `AppendCommand` up to its lock. -/
def testAppend (t : T) (command : ByteString) (s : State T) : Option (State T) :=
  if s.appending t = none then
    if s.manager.flag then
      some { s with appending := Function.update s.appending t (some command) }
    else some s
  else none

def append (t : T) (s : State T) : Option (State T) :=
  match s.appending t, s.manager.chargeContext with
  | some command, some unread => some (appendSection t command unread s)
  | _, _ => none

/-- A step that is not possible, or that would use a null connection, has no result. -/
def step (s : State T) : Event T → Option (State T)
  | .testAppend t command => testAppend t command s
  | .append t => append t s
  | .testSend => testSend s
  | .lockRelease => lockRelease s
  | .getReply result => getReply result s
  | .finishFlush => finishFlush s
  | .swap => swap s
  | .testConnection => testConnection s
  | .connect release charge => connect release charge s

/-- What a step can do, with what it was taken in. -/
inductive StepCase (s : State T) : Event T → State T → Prop
  | testPassed (t : T) (command : ByteString) (hflag : s.manager.flag = true) :
      StepCase s (.testAppend t command)
        { s with appending := Function.update s.appending t (some command) }
  | testFailed (t : T) (command : ByteString) (hflag : s.manager.flag = false) :
      StepCase s (.testAppend t command) s
  | append (t : T) (command : ByteString) (unread : RedisContext)
      (happending : s.appending t = some command)
      (hcharge : s.manager.chargeContext = some unread) :
      StepCase s (.append t) (appendSection t command unread s)
  | sendTested (hidle : s.sender = .idle) (hflag : s.manager.flag = true) :
      StepCase s .testSend { s with sender := .tested }
  | sendSkipped (hidle : s.sender = .idle) (hflag : s.manager.flag = false) : StepCase s .testSend s
  | lockRelease (htested : s.sender = .tested) :
      StepCase s .lockRelease { s with sender := .flushing 0 }
  | reply (i : ℕ) (command : ByteString) (rest : RedisContext) (hflushing : s.sender = .flushing i)
      (hdue : i < s.manager.releaseCommands)
      (hrelease : s.manager.releaseContext = some (command :: rest)) :
      StepCase s (.getReply .reply) { takeReply command rest s with sender := .flushing (i + 1) }
  | errorReply (i : ℕ) (command : ByteString) (rest : RedisContext)
      (hflushing : s.sender = .flushing i) (hdue : i < s.manager.releaseCommands)
      (hrelease : s.manager.releaseContext = some (command :: rest)) :
      StepCase s (.getReply .errorReply) (failFlush (takeReply command rest s))
  | failed (i : ℕ) (isError : Bool) (hflushing : s.sender = .flushing i)
      (hdue : i < s.manager.releaseCommands) (hnoticed : i = 0 ∨ isError = true) :
      StepCase s (.getReply (.failed isError)) (failFlush s)
  | misread (i : ℕ) (hflushing : s.sender = .flushing i)
      (hdue : i < s.manager.releaseCommands) (hlate : i ≠ 0) :
      StepCase s (.getReply (.failed false)) { s with sender := .flushing (i + 1) }
  | finishFlush (i : ℕ) (hflushing : s.sender = .flushing i)
      (hdone : s.manager.releaseCommands ≤ i) :
      StepCase s .finishFlush { s with sender := .swapping }
  | swap (hswapping : s.sender = .swapping) : StepCase s .swap (swapSection s)
  | connectionFine (hflag : s.manager.flag = true) : StepCase s .testConnection s
  | connectionBroken (hflag : s.manager.flag = false) :
      StepCase s .testConnection { s with reconnecting := true }
  | connect (release charge : Bool) (hfree : s.sender = .idle ∨ s.sender = .tested)
      (hreconnecting : s.reconnecting = true) :
      StepCase s (.connect release charge) (connectSection release charge s)

section Cases

variable (s s' : State T)

theorem testAppend_cases (t : T) (command : ByteString) (h : testAppend t command s = some s') :
    StepCase s (.testAppend t command) s' := by
  unfold testAppend at h
  split at h
  · split at h
    · next hflag =>
      obtain rfl := Option.some.inj h
      exact .testPassed t command hflag
    · next hflag =>
      obtain rfl := Option.some.inj h
      exact .testFailed t command (Bool.eq_false_iff.mpr hflag)
  · contradiction

theorem append_cases (t : T) (h : append t s = some s') : StepCase s (.append t) s' := by
  unfold append at h
  split at h
  · next command unread happending hcharge =>
    obtain rfl := Option.some.inj h
    exact .append t command unread happending hcharge
  · contradiction

theorem testSend_cases (h : testSend s = some s') : StepCase s .testSend s' := by
  unfold testSend at h
  split at h
  · next hidle =>
    split at h
    · next hflag =>
      obtain rfl := Option.some.inj h
      exact .sendTested hidle hflag
    · next hflag =>
      obtain rfl := Option.some.inj h
      exact .sendSkipped hidle (Bool.eq_false_iff.mpr hflag)
  · contradiction

theorem getReply_cases (result : ReadResult) (h : getReply result s = some s') :
    StepCase s (.getReply result) s' := by
  unfold getReply at h
  split at h
  · next i unread hflushing hrelease =>
    split at h
    · next hdue =>
      split at h
      · next command rest =>
        obtain rfl := Option.some.inj h
        exact .reply i command rest hflushing hdue hrelease
      · next command rest =>
        obtain rfl := Option.some.inj h
        exact .errorReply i command rest hflushing hdue hrelease
      · next isError =>
        split at h
        · next hnoticed =>
          obtain rfl := Option.some.inj h
          rw [Bool.or_eq_true, decide_eq_true_eq] at hnoticed
          exact .failed i isError hflushing hdue hnoticed
        · next hmissed =>
          obtain rfl := Option.some.inj h
          rw [Bool.or_eq_true, decide_eq_true_eq, not_or] at hmissed
          obtain ⟨hlate, herror⟩ := hmissed
          obtain rfl := Bool.eq_false_iff.mpr herror
          exact .misread i hflushing hdue hlate
      · contradiction
    · contradiction
  · contradiction

theorem finishFlush_cases (h : finishFlush s = some s') : StepCase s .finishFlush s' := by
  unfold finishFlush at h
  split at h
  · next i hflushing =>
    split at h
    · contradiction
    · next hdone =>
      obtain rfl := Option.some.inj h
      exact .finishFlush i hflushing (not_lt.mp hdone)
  · contradiction

theorem testConnection_cases (h : testConnection s = some s') :
    StepCase s .testConnection s' := by
  unfold testConnection at h
  split at h
  · contradiction
  · split at h
    · next hflag =>
      obtain rfl := Option.some.inj h
      exact .connectionFine hflag
    · next hflag =>
      obtain rfl := Option.some.inj h
      exact .connectionBroken (Bool.eq_false_iff.mpr hflag)

theorem connect_cases (release charge : Bool) (h : connect release charge s = some s') :
    StepCase s (.connect release charge) s' := by
  unfold connect at h
  split at h
  · next hfree =>
    simp only [Bool.and_eq_true, Bool.or_eq_true, decide_eq_true_eq] at hfree
    obtain rfl := Option.some.inj h
    exact .connect release charge hfree.2 hfree.1
  · contradiction

theorem step_cases (e : Event T) (h : step s e = some s') : StepCase s e s' := by
  cases e with
  | testAppend t command => exact testAppend_cases s s' t command h
  | append t => exact append_cases s s' t h
  | testSend => exact testSend_cases s s' h
  | lockRelease =>
    obtain ⟨htested, heq⟩ := Option.ite_none_right_eq_some.mp h
    obtain rfl := Option.some.inj heq
    exact .lockRelease htested
  | getReply result => exact getReply_cases s s' result h
  | finishFlush => exact finishFlush_cases s s' h
  | swap =>
    obtain ⟨hswapping, heq⟩ := Option.ite_none_right_eq_some.mp h
    obtain rfl := Option.some.inj heq
    exact .swap hswapping
  | testConnection => exact testConnection_cases s s' h
  | connect release charge => exact connect_cases s s' release charge h

end Cases

theorem vouched_step (s s' : State T) (e : Event T) (hstep : StepCase s e s') (h : Vouched s) :
    Vouched s' := by
  cases hstep with
  | testPassed t command hflag => exact ⟨h.charge, h.release, h.sending, h.reconnecting⟩
  | testFailed t command hflag => exact h
  | append t command unread happending hcharge =>
    exact ⟨fun _ => by simp [appendSection], h.release, h.sending, h.reconnecting⟩
  | sendTested hidle hflag => exact ⟨h.charge, h.release, fun _ => hflag, h.reconnecting⟩
  | sendSkipped hidle hflag => exact h
  | lockRelease htested =>
    exact ⟨h.charge, h.release, fun _ => h.sending (by simp [htested]), h.reconnecting⟩
  | reply i command rest hflushing hdue hrelease =>
    exact ⟨h.charge, fun _ => by simp [takeReply], fun _ => h.sending (by simp [hflushing]),
      h.reconnecting⟩
  | errorReply i command rest hflushing hdue hrelease => exact vouched_failFlush _
  | failed i isError hflushing hdue hnoticed => exact vouched_failFlush s
  | misread i hflushing hdue hlate =>
    exact ⟨h.charge, h.release, fun _ => h.sending (by simp [hflushing]), h.reconnecting⟩
  | finishFlush i hflushing hdone =>
    exact ⟨h.charge, h.release, fun _ => h.sending (by simp [hflushing]), h.reconnecting⟩
  | swap hswapping =>
    exact ⟨h.release, h.charge, fun hsender => absurd rfl hsender, h.reconnecting⟩
  | connectionFine hflag => exact h
  | connectionBroken hflag => exact ⟨h.charge, h.release, h.sending, fun _ => hflag⟩
  | connect release charge hfree hreconnecting =>
    have hidle := idle_of_reconnecting s h hreconnecting
    refine ⟨?_, ?_, fun hsender => absurd hidle hsender, ?_⟩
    · intro hflag
      change (release && charge) = true at hflag
      simp [connectSection, hflag]
    · intro hflag
      change (release && charge) = true at hflag
      rw [Bool.and_eq_true] at hflag
      simp [connectSection, hflag.1]
    · intro hlate
      change false = true at hlate
      contradiction

end Appending
end Gingko.RedisPipelines
