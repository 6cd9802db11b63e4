import Mathlib.Logic.Function.Basic

/-!
Threads over a shared state. A step of one thread replaces the shared part and the
local part of that thread; all other local parts stay. What is asked of every
thread, or of some thread, then splits into the thread that moved and the rest.
-/
namespace Gingko.Interleavings

structure System (T S L : Type*) where
  shared : S
  threads : T → L

variable {T S L : Type*} [DecidableEq T]

namespace System

def act (s : System T S L) (t : T) (moved : S × L) : System T S L :=
  ⟨moved.1, Function.update s.threads t moved.2⟩

@[simp] theorem act_shared (s : System T S L) (t : T) (moved : S × L) :
    (s.act t moved).shared = moved.1 := rfl

@[simp] theorem act_self (s : System T S L) (t : T) (moved : S × L) :
    (s.act t moved).threads t = moved.2 := Function.update_self ..

theorem act_other (s : System T S L) (t u : T) (moved : S × L) (h : u ≠ t) :
    (s.act t moved).threads u = s.threads u := Function.update_of_ne h ..

theorem forall_act (s : System T S L) (t : T) (moved : S × L) (P : T → L → Prop)
    (hmoved : P t moved.2) (hothers : ∀ u, u ≠ t → P u (s.threads u)) :
    ∀ u, P u ((s.act t moved).threads u) := by
  intro u
  by_cases hu : u = t
  · rw [hu, act_self]
    exact hmoved
  · rw [act_other s t u moved hu]
    exact hothers u hu

/-- A thread with some property still has it, unless it is the one that moved. -/
theorem exists_act (s : System T S L) (t : T) (moved : S × L) (P : T → L → Prop)
    (hsome : ∃ u, P u (s.threads u)) (hkept : P t (s.threads t) → P t moved.2) :
    ∃ u, P u ((s.act t moved).threads u) := by
  obtain ⟨u, hu⟩ := hsome
  refine ⟨u, ?_⟩
  by_cases hut : u = t
  · subst hut
    rw [act_self]
    exact hkept hu
  · rw [act_other s t u moved hut]
    exact hu

end System
end Gingko.Interleavings
