import Gingko.AgentTasks

/-!
The sweep of a timer over the finished tasks. It goes over a vector with an iterator,
which is an index here: an entry that is too old is erased at the place of the iterator
and then logged, from the iterator, which stands on the next entry by then.
-/
namespace Gingko.FinishedSweeps

open Base64Codec AgentTasks

/-- What the sweep reads besides the list: the end of each task, the time, and the
timeout of the configuration. -/
structure Clock where
  endTime : TaskRef → ℤ
  currentMtime : ℤ
  finishedTimeout : ℤ

abbrev Entry := ByteString × Option TaskRef

structure Sweep where
  it : ℕ
  finishedInfohashList : List Entry
  finishedInfohashListChanged : Bool

namespace Clock

variable (c : Clock)

/-- The difference is one of 64 bits. -/
def expired (ref : TaskRef) : Bool :=
  decide ((c.currentMtime - c.endTime ref).bmod 18446744073709551616 > c.finishedTimeout ∧
    c.finishedTimeout ≠ -1)

/-- One turn of the loop; `none` is the use of an iterator that stands past the end. A null
task is passed over without a step of the iterator. -/
def turn (s : Sweep) : Option Sweep :=
  match s.finishedInfohashList[s.it]? with
  | none => none
  | some (_, none) => some s
  | some (_, some ref) =>
    if c.expired ref then
      let erased := s.finishedInfohashList.eraseIdx s.it
      if s.it < erased.length then some ⟨s.it, erased, true⟩ else none
    else some { s with it := s.it + 1 }

/-- The loop, with the number of turns it may take. -/
def sweep : ℕ → Sweep → Option Sweep
  | 0, _ => none
  | turns + 1, s =>
    if s.it = s.finishedInfohashList.length then some s else (c.turn s).bind (sweep turns)

/-- The loop comes to its end, and uses no iterator past the end before. -/
def Finishes (s out : Sweep) : Prop := ∃ turns, c.sweep turns s = some out

def tooOld (e : Entry) : Bool := e.2.any c.expired

theorem finishes_iff_turn {s : Sweep} (out : Sweep) (hlt : s.it < s.finishedInfohashList.length) :
    c.Finishes s out ↔ ∃ s', c.turn s = some s' ∧ c.Finishes s' out := by
  constructor
  · rintro ⟨turns, h⟩
    cases turns with
    | zero => cases h
    | succ turns =>
      rw [sweep, if_neg (ne_of_lt hlt)] at h
      obtain ⟨s', hturn, hrest⟩ := Option.bind_eq_some_iff.mp h
      exact ⟨s', hturn, turns, hrest⟩
  · rintro ⟨s', hturn, turns, hrest⟩
    refine ⟨turns + 1, ?_⟩
    rw [sweep, if_neg (ne_of_lt hlt), hturn]
    exact hrest

section Turns

variable (kept : List Entry) (e : Entry) (rest : List Entry) (changed : Bool)

theorem lt_length : kept.length < (kept ++ e :: rest).length := by
  rw [List.length_append, List.length_cons]
  omega

theorem getElem_here : (kept ++ e :: rest)[kept.length]? = some e := by
  rw [List.getElem?_append_right (Nat.le_refl _), Nat.sub_self, List.getElem?_cons_zero]

/-- At the end the loop is over, and nowhere else. -/
theorem finishes_nil (out : Sweep) :
    c.Finishes ⟨kept.length, kept, changed⟩ out ↔ out = ⟨kept.length, kept, changed⟩ := by
  constructor
  · rintro ⟨turns, h⟩
    cases turns with
    | zero => cases h
    | succ turns =>
      rw [sweep, if_pos rfl, Option.some.injEq] at h
      exact h.symm
  · rintro rfl
    exact ⟨1, if_pos rfl⟩

/-- On a null task the loop stays for ever. -/
theorem not_finishes_null (out : Sweep) (hnull : e.2 = none) :
    ¬c.Finishes ⟨kept.length, kept ++ e :: rest, changed⟩ out := by
  have hturn : c.turn ⟨kept.length, kept ++ e :: rest, changed⟩ =
      some ⟨kept.length, kept ++ e :: rest, changed⟩ := by
    obtain ⟨infohash, task⟩ := e
    cases hnull
    rw [turn, getElem_here]
  rintro ⟨turns, h⟩
  induction turns with
  | zero => cases h
  | succ turns ih =>
    rw [sweep, if_neg (ne_of_lt (lt_length kept e rest)), hturn] at h
    exact ih h

/-- An old entry is erased, and the log needs an entry behind it. -/
theorem finishes_old (out : Sweep) {ref : TaskRef} (htask : e.2 = some ref)
    (hold : c.expired ref = true) :
    c.Finishes ⟨kept.length, kept ++ e :: rest, changed⟩ out ↔
      rest ≠ [] ∧ c.Finishes ⟨kept.length, kept ++ rest, true⟩ out := by
  rw [finishes_iff_turn c out (lt_length kept e rest)]
  obtain ⟨infohash, task⟩ := e
  cases htask
  have herased : (kept ++ (infohash, some ref) :: rest).eraseIdx kept.length = kept ++ rest := by
    rw [List.eraseIdx_append_of_length_le (Nat.le_refl _), Nat.sub_self, List.eraseIdx_zero,
      List.tail_cons]
  have hlength : kept.length < (kept ++ rest).length ↔ rest ≠ [] := by
    rw [List.length_append, ← List.length_pos_iff]
    omega
  simp only [turn, getElem_here, hold, if_true, herased, hlength]
  by_cases hrest : rest = []
  · simp [hrest]
  · simp [hrest]

theorem finishes_young (out : Sweep) {ref : TaskRef} (htask : e.2 = some ref)
    (hyoung : c.expired ref = false) :
    c.Finishes ⟨kept.length, kept ++ e :: rest, changed⟩ out ↔
      c.Finishes ⟨(kept ++ [e]).length, (kept ++ [e]) ++ rest, changed⟩ out := by
  rw [finishes_iff_turn c out (lt_length kept e rest)]
  obtain ⟨infohash, task⟩ := e
  cases htask
  have hturn : c.turn ⟨kept.length, kept ++ (infohash, some ref) :: rest, changed⟩ =
      some ⟨kept.length + 1, kept ++ (infohash, some ref) :: rest, changed⟩ := by
    rw [turn, getElem_here]
    simp only [hyoung, Bool.false_eq_true, if_false]
  rw [hturn, List.length_append, List.length_singleton, List.append_assoc,
    List.singleton_append]
  simp

end Turns

/-- No task is null, and the last one is not too old. -/
def Sweepable (entries : List Entry) : Prop :=
  (∀ e ∈ entries, e.2 ≠ none) ∧ ∀ e ∈ entries.getLast?, c.tooOld e = false

theorem sweepable_cons (e : Entry) (rest : List Entry) :
    c.Sweepable (e :: rest) ↔
      e.2 ≠ none ∧ (rest = [] → c.tooOld e = false) ∧ c.Sweepable rest := by
  unfold Sweepable
  rw [List.forall_mem_cons]
  cases rest with
  | nil => simp
  | cons next rest =>
    rw [List.getLast?_cons_cons]
    simp [and_assoc]

/-- Behind the entries that are kept, the loop finishes exactly over entries it can be
swept over, and then the old ones are gone. -/
theorem finishes_iff (entries : List Entry) (kept : List Entry) (changed : Bool) (out : Sweep) :
    c.Finishes ⟨kept.length, kept ++ entries, changed⟩ out ↔
      c.Sweepable entries ∧
        out = ⟨(kept ++ entries.filter (!c.tooOld ·)).length, kept ++ entries.filter (!c.tooOld ·),
          changed || entries.any c.tooOld⟩ := by
  induction entries generalizing kept changed with
  | nil =>
    have hnil : c.Sweepable [] :=
      ⟨fun e h => absurd h List.not_mem_nil, fun e h => absurd h (Option.not_mem_none e)⟩
    rw [List.append_nil, finishes_nil, and_iff_right hnil, List.filter_nil, List.any_nil,
      List.append_nil, Bool.or_false]
  | cons e rest ih =>
    rw [sweepable_cons]
    cases htask : e.2 with
    | none =>
      exact iff_of_false (not_finishes_null c kept e rest changed out htask) fun h => h.1.1 rfl
    | some ref =>
      have htooOld : c.tooOld e = c.expired ref := by
        rw [tooOld, htask, Option.any_some]
      cases hold : c.expired ref with
      | true =>
        rw [finishes_old c kept e rest changed out htask hold, ih, htooOld, hold]
        have hfilter : (e :: rest).filter (!c.tooOld ·) = rest.filter (!c.tooOld ·) :=
          List.filter_cons_of_neg (by simp [htooOld, hold])
        simp [hfilter, List.any_cons, htooOld, hold, and_assoc]
      | false =>
        rw [finishes_young c kept e rest changed out htask hold, ih, htooOld, hold]
        have hfilter : (e :: rest).filter (!c.tooOld ·) = e :: rest.filter (!c.tooOld ·) :=
          List.filter_cons_of_pos (by simp [htooOld, hold])
        simp [hfilter, List.any_cons, htooOld, hold]

/-- The sweep of a list, from its front. -/
theorem finishes_start_iff (entries : List Entry) (out : Sweep) :
    c.Finishes ⟨0, entries, false⟩ out ↔
      c.Sweepable entries ∧
        out = ⟨(entries.filter (!c.tooOld ·)).length, entries.filter (!c.tooOld ·),
          entries.any c.tooOld⟩ :=
  c.finishes_iff entries [] false out

/-- What the sweep is for: it ends, and the entries that are not too old are left, in
their order. -/
def SweepsOld (entries : List Entry) : Prop :=
  ∃ out, c.Finishes ⟨0, entries, false⟩ out ∧
    out.finishedInfohashList = entries.filter (!c.tooOld ·)

/-- A null task holds the sweep, and an old task at the end is logged from past the end. -/
theorem sweepsOld_iff (entries : List Entry) : c.SweepsOld entries ↔ c.Sweepable entries := by
  constructor
  · rintro ⟨out, hfinishes, -⟩
    exact ((c.finishes_start_iff entries out).mp hfinishes).1
  · intro h
    exact ⟨_, (c.finishes_start_iff entries _).mpr ⟨h, rfl⟩, rfl⟩

/-- One finished task, a second older than the timeout. -/
theorem sweepsOld_fails :
    ¬(⟨fun _ => 1000, 4601, 3600⟩ : Clock).SweepsOld [([104], some 0)] := by
  rintro ⟨out, hfinishes, -⟩
  obtain ⟨⟨-, hlast⟩, -⟩ := (finishes_start_iff _ _ out).mp hfinishes
  exact absurd (hlast _ rfl) (by decide)

end Clock
end Gingko.FinishedSweeps
