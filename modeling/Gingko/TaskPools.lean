import Mathlib.Data.List.Perm.Basic

/-!
A queue of tasks that a number of threads take from. Tasks are taken in the order in which
they are posted and finish in any order; a single thread finishes them in order.
-/
namespace Gingko.TaskPools

structure Pool (α : Type) where
  posted : List α
  working : List α
  finished : List α

namespace Pool

variable {α : Type}

def new : Pool α := ⟨[], [], []⟩

def post (a : α) (p : Pool α) : Pool α := { p with posted := p.posted ++ [a] }

def take (threads : ℕ) (p : Pool α) : Option (Pool α) :=
  match p.posted with
  | [] => none
  | a :: posted =>
    if p.working.length < threads then some ⟨posted, p.working ++ [a], p.finished⟩ else none

def finish (i : ℕ) (p : Pool α) : Option (α × Pool α) :=
  match p.working[i]? with
  | none => none
  | some a => some (a, ⟨p.posted, p.working.eraseIdx i, p.finished ++ [a]⟩)

/-- All tasks ever posted, the finished ones first. -/
def tasks (p : Pool α) : List α := p.finished ++ p.working ++ p.posted

def load (p : Pool α) : ℕ := p.posted.length + p.working.length

theorem tasks_post (a : α) (p : Pool α) : (p.post a).tasks = p.tasks ++ [a] := by
  simp only [tasks, post, List.append_assoc]

theorem take_some {threads : ℕ} {p q : Pool α} (h : p.take threads = some q) :
    q.tasks = p.tasks ∧ p.working.length < threads ∧ q.posted.length + 1 = p.posted.length ∧
      q.working.length = p.working.length + 1 ∧ q.finished = p.finished := by
  unfold take at h
  split at h
  · cases h
  · next a posted hposted =>
    split at h
    · next hroom =>
      cases h
      simp only [tasks, hposted, List.append_assoc, List.singleton_append, List.length_cons,
        List.length_append, List.length_nil, Nat.zero_add, and_self, hroom]
    · cases h

theorem finish_some {i : ℕ} {p q : Pool α} {a : α} (h : p.finish i = some (a, q)) :
    q.tasks.Perm p.tasks ∧ q.posted = p.posted ∧ q.working.length + 1 = p.working.length ∧
      q.finished = p.finished ++ [a] ∧ (p.working.length ≤ 1 → q.tasks = p.tasks) := by
  unfold finish at h
  split at h
  · cases h
  · next b hb =>
    cases h
    obtain ⟨hi, rfl⟩ := List.getElem?_eq_some_iff.mp hb
    refine ⟨?_, rfl, ?_, rfl, ?_⟩
    · have hperm : (p.working[i] :: p.working.eraseIdx i).Perm p.working :=
        List.getElem_cons_eraseIdx_perm hi
      have hmid := (hperm.append_left p.finished).append_right p.posted
      simpa only [tasks, List.append_assoc, List.cons_append, List.nil_append] using hmid
    · rw [List.length_eraseIdx_of_lt hi]
      omega
    · intro hone
      obtain ⟨b, hworking⟩ := List.length_eq_one_iff.mp (show p.working.length = 1 by omega)
      obtain rfl : i = 0 := by omega
      simp only [tasks, hworking, List.getElem_cons_zero, List.eraseIdx_zero, List.tail_cons,
        List.append_nil]

end Pool

end Gingko.TaskPools
