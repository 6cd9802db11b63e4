import Gingko.Interleavings
import Mathlib.Data.List.Infix

/-!
A queue with a bell. Any thread puts an item in first and rings afterwards. One of the
threads, the taker, hears a ring, then takes all the items there are, and handles them one
after the other. A ring may add nothing when the bell is ringing already. Then every item
is handled once, in the order of entry, and none is left behind in silence.
-/
namespace Gingko.BelledQueues

open Interleavings

variable {T A : Type*}

/-- `entered` and `handled` are all the items that were put in, and that were handled. -/
structure Bell (A : Type*) where
  pending : List A
  rings : ℕ
  entered : List A
  handled : List A

inductive Place (A : Type*) where
  | away
  | ringing
  | heard
  | handling (items : List A)

/-- The items a thread has taken and not handled yet. -/
def Place.items : Place A → List A
  | .handling items => items
  | _ => []

namespace Bell

def enter (b : Bell A) (a : A) : Bell A :=
  { b with pending := b.pending ++ [a], entered := b.entered ++ [a] }

def ring (b : Bell A) (n : ℕ) : Bell A := { b with rings := b.rings + n }

def hear (b : Bell A) (n : ℕ) : Bell A := { b with rings := b.rings - n }

def take (b : Bell A) : Bell A := { b with pending := [] }

def handle (b : Bell A) (a : A) : Bell A := { b with handled := b.handled ++ [a] }

end Bell

abbrev State (T A : Type*) := System T (Bell A) (Place A)

def State.start : State T A := ⟨⟨[], 0, [], []⟩, fun _ => .away⟩

/-- `rung` is why no item waits in silence: the bell rings, or will, or has just been heard. -/
structure Heard (taker : T) (s : State T A) : Prop where
  order : s.shared.handled ++ ((s.threads taker).items ++ s.shared.pending) = s.shared.entered
  rung : s.shared.pending ≠ [] →
    0 < s.shared.rings ∨ s.threads taker = .heard ∨ ∃ t, s.threads t = .ringing

variable {taker : T} {s s' : State T A}

theorem heard_start : Heard taker (State.start : State T A) where
  order := rfl
  rung h := absurd rfl h

/-- Nobody is in the middle of anything, and the bell is still. -/
structure Settled (s : State T A) : Prop where
  away : ∀ t, s.threads t = .away
  still : s.shared.rings = 0

theorem Heard.settled (h : Heard taker s) (hsettled : Settled s) :
    s.shared.pending = [] ∧ s.shared.handled = s.shared.entered := by
  have hpending : s.shared.pending = [] := by
    by_contra hsome
    obtain hrings | hheard | ⟨t, hringing⟩ := h.rung hsome
    · exact absurd hsettled.still (Nat.ne_of_gt hrings)
    · rw [hsettled.away taker] at hheard
      cases hheard
    · rw [hsettled.away t] at hringing
      cases hringing
  have horder := h.order
  rw [hsettled.away taker, hpending] at horder
  exact ⟨hpending, by simpa [Place.items] using horder⟩

/-- What has been handled is a beginning of what was put in. -/
theorem Heard.handled_prefix (h : Heard taker s) : s.shared.handled <+: s.shared.entered :=
  ⟨_, h.order⟩

variable [DecidableEq T]

/-- A ring that adds nothing finds the bell ringing. -/
inductive Step (taker : T) : State T A → State T A → Prop
  | enter (s : State T A) (t : T) (a : A) (haway : s.threads t = .away) :
      Step taker s (s.act t (s.shared.enter a, .ringing))
  | ring (s : State T A) (t : T) (n : ℕ) (hringing : s.threads t = .ringing)
      (hadds : n = 0 → 0 < s.shared.rings) : Step taker s (s.act t (s.shared.ring n, .away))
  | hear (s : State T A) (n : ℕ) (haway : s.threads taker = .away) :
      Step taker s (s.act taker (s.shared.hear n, .heard))
  | take (s : State T A) (hheard : s.threads taker = .heard) :
      Step taker s (s.act taker (s.shared.take, .handling s.shared.pending))
  | handle (s : State T A) (a : A) (rest : List A)
      (hhandling : s.threads taker = .handling (a :: rest)) :
      Step taker s (s.act taker (s.shared.handle a, .handling rest))
  | leave (s : State T A) (hdone : s.threads taker = .handling []) :
      Step taker s (s.act taker (s.shared, .away))

inductive Reach (taker : T) : State T A → Prop
  | start : Reach taker State.start
  | step {s s' : State T A} (h : Reach taker s) (hstep : Step taker s s') : Reach taker s'

/-- Some thread still rings, when the one that moved did not stop ringing. -/
theorem ringing_act (t : T) (b : Bell A) (place : Place A) (hnot : s.threads t ≠ .ringing)
    (hringing : ∃ u, s.threads u = .ringing) :
    ∃ u, (s.act t (b, place)).threads u = .ringing :=
  s.exists_act t (b, place) (fun _ p => p = .ringing) hringing fun h => absurd h hnot

/-- A thread that holds no item before and after its step leaves the taken items alone. -/
theorem items_act (t : T) (b : Bell A) (place : Place A) (hbefore : (s.threads t).items = [])
    (hafter : place.items = []) :
    ((s.act t (b, place)).threads taker).items = (s.threads taker).items := by
  by_cases ht : taker = t
  · rw [ht, System.act_self, hafter, hbefore]
  · rw [System.act_other s t taker _ ht]

theorem Heard.enter (h : Heard taker s) (t : T) (a : A) (haway : s.threads t = .away) :
    Heard taker (s.act t (s.shared.enter a, .ringing)) where
  order := by
    rw [items_act t _ _ (by rw [haway]; rfl) rfl]
    show s.shared.handled ++ ((s.threads taker).items ++ (s.shared.pending ++ [a])) =
      s.shared.entered ++ [a]
    rw [← h.order, List.append_assoc, List.append_assoc]
  rung _ := .inr (.inr ⟨t, System.act_self ..⟩)

theorem Heard.ring (h : Heard taker s) (t : T) (n : ℕ) (hringing : s.threads t = .ringing)
    (hadds : n = 0 → 0 < s.shared.rings) : Heard taker (s.act t (s.shared.ring n, .away)) where
  order := by
    rw [items_act t _ _ (by rw [hringing]; rfl) rfl]
    exact h.order
  rung _ := by
    refine .inl (show 0 < s.shared.rings + n from ?_)
    by_cases hn : n = 0
    · exact Nat.add_pos_left (hadds hn) n
    · omega

theorem Heard.hear (h : Heard taker s) (n : ℕ) (haway : s.threads taker = .away) :
    Heard taker (s.act taker (s.shared.hear n, .heard)) where
  order := by
    rw [items_act taker _ _ (by rw [haway]; rfl) rfl]
    exact h.order
  rung _ := .inr (.inl (System.act_self ..))

theorem Heard.take (h : Heard taker s) (hheard : s.threads taker = .heard) :
    Heard taker (s.act taker (s.shared.take, .handling s.shared.pending)) where
  order := by
    have horder := h.order
    rw [hheard] at horder
    rw [System.act_self]
    simpa [Bell.take, Place.items] using horder
  rung hsome := absurd rfl hsome

theorem Heard.handle (h : Heard taker s) (a : A) (rest : List A)
    (hhandling : s.threads taker = .handling (a :: rest)) :
    Heard taker (s.act taker (s.shared.handle a, .handling rest)) where
  order := by
    have horder := h.order
    rw [hhandling] at horder
    rw [System.act_self]
    simpa [Bell.handle, Place.items] using horder
  rung hsome := by
    obtain hrings | hheard | hringing := h.rung hsome
    · exact .inl hrings
    · rw [hhandling] at hheard
      cases hheard
    · exact .inr (.inr (ringing_act taker _ _ (by rw [hhandling]; nofun) hringing))

theorem Heard.leave (h : Heard taker s) (hdone : s.threads taker = .handling []) :
    Heard taker (s.act taker (s.shared, .away)) where
  order := by
    rw [items_act taker _ _ (by rw [hdone]; rfl) rfl]
    exact h.order
  rung hsome := by
    obtain hrings | hheard | hringing := h.rung hsome
    · exact .inl hrings
    · rw [hdone] at hheard
      cases hheard
    · exact .inr (.inr (ringing_act taker _ _ (by rw [hdone]; nofun) hringing))

theorem Heard.step (h : Heard taker s) (hstep : Step taker s s') : Heard taker s' := by
  cases hstep with
  | enter t a haway => exact h.enter t a haway
  | ring t n hringing hadds => exact h.ring t n hringing hadds
  | hear n haway => exact h.hear n haway
  | take hheard => exact h.take hheard
  | handle a rest hhandling => exact h.handle a rest hhandling
  | leave hdone => exact h.leave hdone

theorem Reach.heard (h : Reach taker s) : Heard taker s := by
  induction h with
  | start => exact heard_start
  | step _ hstep ih => exact ih.step hstep

end Gingko.BelledQueues
