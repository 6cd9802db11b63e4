import Gingko.RedisPipelines

/-!
When a call can be left with a null connection. The flag is set only while both
connections exist, and the sender works only under the flag, so it never reads
from a null connection. A call that has found the flag set can be overtaken by a
failed flush and a reconnection that fails; such reconnections are the only way
to a null connection.
-/
namespace Gingko.NullContexts

open Base64Codec GuardedRuns RedisPipelines

variable {T : Type} [DecidableEq T]

/-- The section about to run would hand a null connection to the redis library. -/
def UsesNull (s : State T) : Event T → Prop
  | .append t => (∃ command, s.appending t = some command) ∧ s.manager.chargeContext = none
  | .getReply _ => ∃ i, s.sender = .flushing i ∧ i < s.manager.releaseCommands ∧
      s.manager.releaseContext = none
  | _ => False

/-- A reconnection that fails finds no call between its test of the flag and its lock. -/
def FailsUnobserved (s : State T) : Event T → Prop
  | .connect release charge => (release && charge) = true ∨ ∀ t, s.appending t = none
  | _ => True

/-- Every call past its test has a connection to append to. -/
def CallersServed (s : State T) : Prop :=
  ∀ t command, s.appending t = some command → s.manager.chargeContext ≠ none

theorem callersServed_step (s s' : State T) (e : Event T) (hstep : StepCase s e s')
    (hvouched : Vouched s) (hguard : FailsUnobserved s e) (h : CallersServed s) :
    CallersServed s' := by
  cases hstep with
  | testPassed t command hflag => exact fun _ _ _ => hvouched.charge hflag
  | testFailed t command hflag => exact h
  | append t command unread happending hcharge =>
    intro other c hother
    simp [appendSection]
  | sendTested hidle hflag => exact h
  | sendSkipped hidle hflag => exact h
  | lockRelease htested => exact h
  | reply i command rest hflushing hdue hrelease => exact h
  | errorReply i command rest hflushing hdue hrelease => exact h
  | failed i isError hflushing hdue hnoticed => exact h
  | misread i hflushing hdue hlate => exact h
  | finishFlush i hflushing hdone => exact h
  | swap hswapping =>
    -- the sender is at work under the flag, so both connections exist
    exact fun _ _ _ => hvouched.release (hvouched.sending (by simp [hswapping]))
  | connectionFine hflag => exact h
  | connectionBroken hflag => exact h
  | connect release charge hfree hreconnecting =>
    intro t command happending
    rcases hguard with hconnected | hnone
    · simp [connectSection, hconnected]
    · rw [show (connectSection release charge s).appending t = s.appending t from rfl,
        hnone t] at happending
      contradiction

/-- In every state of a run whose failing reconnections meet no call past its test,
no section is about to use a null connection. -/
theorem no_null_context (es : List (Event T)) (s : State T)
    (hrun : Path step FailsUnobserved State.start es s) (e : Event T) : ¬ UsesNull s e := by
  have hinv : Vouched s ∧ CallersServed s := by
    refine hrun.invariant (fun s => Vouched s ∧ CallersServed s) ?_
      ⟨vouched_start, fun t command h => by simp [State.start] at h⟩
    intro s e t h hguard hstep
    have hcase := step_cases s t e hstep
    exact ⟨vouched_step s t e hcase h.1, callersServed_step s t e hcase h.1 hguard h.2⟩
  obtain ⟨hvouched, hserved⟩ := hinv
  cases e with
  | append t =>
    intro hboth
    obtain ⟨⟨command, happending⟩, hnull⟩ := hboth
    exact hserved t command happending hnull
  | getReply result =>
    intro hboth
    obtain ⟨i, hflushing, _, hnull⟩ := hboth
    exact hvouched.release (hvouched.sending (by simp [hflushing])) hnull
  | _ => exact fun h => h

/-- The server is lost while replies are waited for: the connections are dropped. -/
def flushFails : List (Event Unit) :=
  [.testConnection, .connect true true, .testAppend () [1], .append (), .testSend, .lockRelease,
    .finishFlush, .swap, .testSend, .lockRelease, .getReply (.failed false), .testConnection]

/-- It does not come back at once, and a call waits for its lock after it has. -/
def comesBack : List (Event Unit) :=
  [.testConnection, .connect true true, .testAppend () [2]]

theorem no_null_context_comesBack : ∃ s : State Unit,
    Path step FailsUnobserved State.start (flushFails ++ .connect false false :: comesBack) s ∧
      s.appending () = some [2] ∧ ¬ UsesNull s (.append ()) := by
  have hfails : ∀ s, ∀ e ∈ flushFails, FailsUnobserved s e := by
    simp [flushFails, FailsUnobserved]
  have hback : ∀ s, ∀ e ∈ comesBack, FailsUnobserved s e := by
    simp [comesBack, FailsUnobserved]
  have hrun : ∃ s : State Unit,
      Path step FailsUnobserved State.start (flushFails ++ .connect false false :: comesBack) s ∧
        s.appending () = some [2] :=
    -- the reconnection that fails finds no call past its test
    ⟨_, (path_of_steps _ _ _ hfails rfl).append
      (.cons _ _ _ _ _ rfl (.inr (fun _ => rfl)) (path_of_steps _ _ _ hback rfl)), rfl⟩
  obtain ⟨s, hpath, happending⟩ := hrun
  exact ⟨s, hpath, happending, no_null_context _ s hpath (.append ())⟩

/-- A call that a failing reconnection overtakes is left with a null connection. -/
theorem null_after_overtaking (s s' : State T) (release charge : Bool) (t : T)
    (command : ByteString) (hstep : step s (.connect release charge) = some s')
    (hfailed : (release && charge) = false) (happending : s.appending t = some command) :
    UsesNull s' (.append t) := by
  cases step_cases s s' _ hstep with
  | connect _ _ hfree hreconnecting =>
    exact ⟨⟨command, happending⟩, by simp [connectSection, hfailed]⟩

/-- One command is sent, and the next call is overtaken after its test: the flush
fails, the connections are dropped, and the server does not come back. -/
def overtakenCall : List (Event Unit) :=
  [.testConnection, .connect true true, .testAppend () [1], .append (), .testSend, .lockRelease,
    .finishFlush, .swap, .testAppend () [2], .testSend, .lockRelease, .getReply (.failed false),
    .testConnection, .connect false false]

theorem null_context_used : ∃ s : State Unit,
    Path step (fun _ _ => True) State.start overtakenCall s ∧ UsesNull s (.append ()) :=
  ⟨_, path_of_steps _ _ _ (fun _ _ _ => trivial) rfl, ⟨[2], rfl⟩, rfl⟩

end Gingko.NullContexts
