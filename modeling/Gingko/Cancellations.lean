import Mathlib.Data.List.Basic
import Mathlib.Logic.Relation

/-!
Words in which one letter cancels the letter before it. A word is read with a stack, on
which that letter takes the last one away. What is on the stack at the end is the word
with all cancellations made, in whatever order, and the stack runs out when some front of
the word has more cancelling letters than others.
-/
namespace Gingko.Cancellations

variable {α : Type*} [DecidableEq α] (up : α)

/-- `none` when there is nothing to take away. -/
def resolve : List α → List α → Option (List α)
  | [], stack => some stack
  | c :: rest, stack =>
    if c = up then if stack = [] then none else resolve rest stack.dropLast
    else resolve rest (stack ++ [c])

/-- One letter and the cancelling letter behind it go. -/
inductive Cancel : List α → List α → Prop
  | step (front : List α) (n : α) (back : List α) (hn : n ≠ up) :
      Cancel (front ++ n :: up :: back) (front ++ back)

/-- Some front of the word takes away more than it has. -/
def Climbs (word : List α) : Prop :=
  ∃ front, front <+: word ∧ front.countP (· ≠ up) < front.count up

theorem resolve_append (front back stack : List α) :
    resolve up (front ++ back) stack = (resolve up front stack).bind (resolve up back) := by
  induction front generalizing stack with
  | nil => rfl
  | cons c rest ih =>
    simp only [List.cons_append, resolve]
    split
    · split
      · rfl
      · exact ih stack.dropLast
    · exact ih (stack ++ [c])

theorem Cancel.resolve_eq {word word' : List α} (h : Cancel up word word') (stack : List α) :
    resolve up word stack = resolve up word' stack := by
  cases h with
  | step front n back hn =>
    rw [resolve_append, resolve_append]
    congr 1
    funext stack'
    simp [resolve, hn]

theorem resolve_of_notMem (word stack : List α) (hup : up ∉ word) :
    resolve up word stack = some (stack ++ word) := by
  induction word generalizing stack with
  | nil => rw [resolve, List.append_nil]
  | cons c rest ih =>
    obtain ⟨hc, hrest⟩ := not_or.mp (fun h => hup (List.mem_cons.mpr h))
    rw [resolve, if_neg (Ne.symm hc), ih _ hrest, List.append_assoc, List.singleton_append]

/-- The stack and the rest of the word cancel to what the stack is at the end. -/
theorem cancels_of_resolve (word stack left : List α) (hstack : up ∉ stack)
    (h : resolve up word stack = some left) :
    Relation.ReflTransGen (Cancel up) (stack ++ word) left ∧ up ∉ left := by
  induction word generalizing stack with
  | nil =>
    obtain rfl := Option.some.inj h
    rw [List.append_nil]
    exact ⟨.refl, hstack⟩
  | cons c rest ih =>
    rw [resolve] at h
    split at h
    · next hc =>
      subst hc
      split at h
      · cases h
      · next hne =>
        obtain ⟨init, n, rfl⟩ := (List.eq_nil_or_concat' stack).resolve_left hne
        rw [List.dropLast_concat] at h
        obtain ⟨hinit, hn⟩ := not_or.mp (fun h => hstack (List.mem_append.mpr h))
        obtain ⟨hcancels, hleft⟩ := ih init hinit h
        have hfirst : Cancel c (init ++ [n] ++ c :: rest) (init ++ rest) := by
          rw [List.append_assoc]
          exact .step init n rest fun heq => hn (heq ▸ List.mem_singleton_self n)
        exact ⟨hcancels.head hfirst, hleft⟩
    · next hc =>
      have hstack' : up ∉ stack ++ [c] := by simp [hstack, Ne.symm hc]
      have hcancels := ih (stack ++ [c]) hstack' h
      rwa [List.append_assoc, List.singleton_append] at hcancels

/-- The stack at the end is the word with all cancellations made. -/
theorem resolve_iff (word left : List α) :
    resolve up word [] = some left ↔
      Relation.ReflTransGen (Cancel up) word left ∧ up ∉ left := by
  constructor
  · exact cancels_of_resolve up word [] left List.not_mem_nil
  · rintro ⟨hcancels, hleft⟩
    have hsame : resolve up word [] = resolve up left [] := by
      clear hleft
      induction hcancels with
      | refl => rfl
      | tail _ hlast ih => exact ih.trans (hlast.resolve_eq up [])
    rw [hsame, resolve_of_notMem up left [] hleft, List.nil_append]

theorem resolve_eq_none_iff (word stack : List α) :
    resolve up word stack = none ↔
      ∃ front, front <+: word ∧ stack.length + front.countP (· ≠ up) < front.count up := by
  induction word generalizing stack with
  | nil => simp [resolve]
  | cons c rest ih =>
    have hcons (m : ℕ) :
        (∃ front, front <+: c :: rest ∧ m + front.countP (· ≠ up) < front.count up) ↔
          ∃ front, front <+: rest ∧
            m + (c :: front).countP (· ≠ up) < (c :: front).count up := by
      constructor
      · rintro ⟨front, hfront, hlt⟩
        obtain rfl | ⟨tail, rfl, htail⟩ := List.prefix_cons_iff.mp hfront
        · exact absurd hlt (by simp)
        · exact ⟨tail, htail, hlt⟩
      · rintro ⟨front, hfront, hlt⟩
        exact ⟨c :: front, List.cons_prefix_cons.mpr ⟨rfl, hfront⟩, hlt⟩
    rw [resolve, hcons]
    split
    · next hc =>
      subst hc
      split
      · next hempty =>
        subst hempty
        exact iff_of_true rfl ⟨[], List.nil_prefix, by simp⟩
      · next hne =>
        have hpos := List.length_pos_iff.mpr hne
        rw [ih, List.length_dropLast]
        refine exists_congr fun front => and_congr_right fun _ => ?_
        rw [List.countP_cons_of_neg (by simp), List.count_cons_self]
        omega
    · next hc =>
      rw [ih, List.length_append, List.length_singleton]
      refine exists_congr fun front => and_congr_right fun _ => ?_
      rw [List.countP_cons_of_pos (by simpa using hc), List.count_cons_of_ne hc]
      omega

theorem resolve_none_iff_climbs (word : List α) : resolve up word [] = none ↔ Climbs up word := by
  rw [resolve_eq_none_iff]
  simp [Climbs]

/-- What is left was on the stack or in the word. -/
theorem mem_of_resolve (word stack left : List α) (h : resolve up word stack = some left) :
    ∀ c ∈ left, c ∈ stack ∨ c ∈ word := by
  induction word generalizing stack with
  | nil =>
    obtain rfl := Option.some.inj h
    exact fun c hc => .inl hc
  | cons d rest ih =>
    rw [resolve] at h
    intro c hc
    split at h
    · split at h
      · cases h
      · exact (ih _ h c hc).imp (fun hc => List.dropLast_subset stack hc) (List.mem_cons_of_mem d)
    · obtain hstack | hrest := ih _ h c hc
      · obtain hstack | rfl := (List.mem_append.mp hstack).imp_right List.mem_singleton.mp
        · exact .inl hstack
        · exact .inr List.mem_cons_self
      · exact .inr (List.mem_cons_of_mem d hrest)

end Gingko.Cancellations
