import Mathlib.Algebra.Group.Nat.Defs
import Mathlib.Tactic.Common

/-!
Operations that are started now and handled later. An operation waits until it has a
result; the result of one that is aborted is an error. Its handler is run later still,
when nothing can change the result any more. The waits on a timer are of the same kind,
and their number is all that matters of them.
-/
namespace Gingko.AsyncOperations

variable {α : Type*}

/-- Where an operation stands: without a result, or with the one its handler will get. -/
inductive Progress (α : Type*) where
  | waiting
  | failed
  | finished (a : α)
  deriving DecidableEq

namespace Progress

def abort : Progress α → Progress α
  | .waiting => .failed
  | p => p

/-- What the handler is called with, `none` for an error. -/
def result : Progress α → Option (Option α)
  | .waiting => none
  | .failed => some none
  | .finished a => some (some a)

def ofResult : Option α → Progress α
  | none => .failed
  | some a => .finished a

@[simp] theorem abort_failed : (failed : Progress α).abort = .failed := rfl

@[simp] theorem abort_finished (a : α) : (finished a).abort = .finished a := rfl

@[simp] theorem abort_waiting : (waiting : Progress α).abort = .failed := rfl

theorem abort_ne_waiting (p : Progress α) : p.abort ≠ .waiting := by
  cases p <;> simp [abort]

theorem result_eq (p : Progress α) (h : p ≠ .waiting) :
    ∃ r, p.result = some r ∧ p = ofResult r := by
  cases p with
  | waiting => exact absurd rfl h
  | failed => exact ⟨none, rfl, rfl⟩
  | finished a => exact ⟨some a, rfl, rfl⟩

end Progress

/-- The waits on a timer: those still running, and those whose handlers are queued
because the time has come or because they were canceled. -/
structure Timer where
  running : ℕ
  expired : ℕ
  canceled : ℕ
  deriving DecidableEq

namespace Timer

def idle : Timer := ⟨0, 0, 0⟩

/-- A handler that is queued already gets what it was queued with. -/
def cancel (t : Timer) : Timer := ⟨0, t.expired, t.canceled + t.running⟩

/-- A new time cancels the waits for the old one. -/
def expiresFromNow (t : Timer) : Timer := t.cancel

def asyncWait (t : Timer) : Timer := { t with running := t.running + 1 }

def expire (t : Timer) : Option Timer :=
  if t.running = 0 then none else some ⟨0, t.expired + t.running, t.canceled⟩

/-- One handler is taken out of the queue, of a wait that `expired` or of a canceled one. -/
def take (expired : Bool) (t : Timer) : Option Timer :=
  if expired then
    if t.expired = 0 then none else some { t with expired := t.expired - 1 }
  else if t.canceled = 0 then none else some { t with canceled := t.canceled - 1 }

def waits (t : Timer) : ℕ := t.running + t.expired + t.canceled

/-- The waits whose handlers will be told that the time has come, unless they are canceled. -/
def live (t : Timer) : ℕ := t.running + t.expired

@[simp] theorem waits_cancel (t : Timer) : t.cancel.waits = t.waits := by
  simp only [waits, cancel]
  omega

@[simp] theorem live_cancel (t : Timer) : t.cancel.live = t.expired := by simp [live, cancel]

theorem expire_inv (t u : Timer) (h : t.expire = some u) :
    0 < t.running ∧ u = ⟨0, t.expired + t.running, t.canceled⟩ := by
  unfold expire at h
  split at h
  · cases h
  · exact ⟨by omega, (Option.some.inj h).symm⟩

theorem take_expired_inv (t u : Timer) (h : t.take true = some u) :
    0 < t.expired ∧ u = { t with expired := t.expired - 1 } := by
  simp only [take, if_true] at h
  split at h
  · cases h
  · exact ⟨by omega, (Option.some.inj h).symm⟩

theorem take_canceled_inv (t u : Timer) (h : t.take false = some u) :
    0 < t.canceled ∧ u = { t with canceled := t.canceled - 1 } := by
  simp only [take, Bool.false_eq_true, if_false] at h
  split at h
  · cases h
  · exact ⟨by omega, (Option.some.inj h).symm⟩

theorem take_expired (t : Timer) (h : 0 < t.expired) : ∃ u, t.take true = some u := by
  refine ⟨{ t with expired := t.expired - 1 }, ?_⟩
  simp only [take, if_true]
  exact if_neg (by omega)

theorem take_canceled (t : Timer) (h : 0 < t.canceled) : ∃ u, t.take false = some u := by
  refine ⟨{ t with canceled := t.canceled - 1 }, ?_⟩
  simp only [take, Bool.false_eq_true, if_false]
  exact if_neg (by omega)

theorem expire_running (t : Timer) (h : 0 < t.running) : ∃ u, t.expire = some u := by
  refine ⟨⟨0, t.expired + t.running, t.canceled⟩, ?_⟩
  unfold expire
  exact if_neg (by omega)

end Timer

end Gingko.AsyncOperations
