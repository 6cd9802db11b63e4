import Gingko.GuardedRuns
import Mathlib.Logic.Function.Basic
import Mathlib.Tactic.Common

/-!
Calls of Reconnect. The first one claims the reconnection under the lock, opens
the file and releases; the others wait for it on a condition variable. A step is
a locked section, or what a call does between two of them. A call that cannot
open the file returns without a release, and from then on every call waits.
-/
namespace Gingko.DbReconnects

open GuardedRuns

abbrev CallId := ℕ

/-- Where a call is. A woken one still has to take the lock and look at the flag. -/
inductive Phase where
  | outside
  | waiting
  | woken
  | opening
  | storing
  | releasing
  | notifying
  | creating
  | returned (ok : Bool)
  deriving DecidableEq

structure State where
  reconnecting : Bool
  phase : CallId → Phase

/-- The agent opens its database first, with no other call there. -/
def State.start : State := ⟨false, fun _ => .outside⟩

def State.move (s : State) (c : CallId) (p : Phase) : State :=
  { s with phase := Function.update s.phase c p }

inductive Action where
  | enter
  | wake
  | look
  | sqlite3Open (ok : Bool)
  | store
  | release
  | notifyAll
  | initTable (ok : Bool)

abbrev Event := CallId × Action

def wakeAll (phase : CallId → Phase) (c : CallId) : Phase :=
  if phase c = .waiting then .woken else phase c

/-- A step of a call that is elsewhere changes nothing. -/
def next (s : State) (e : Event) : State :=
  match e.2, s.phase e.1 with
  | .enter, .outside =>
    if s.reconnecting then s.move e.1 .waiting
    else { s.move e.1 .opening with reconnecting := true }
  | .wake, .waiting => s.move e.1 .woken
  | .look, .woken =>
    if s.reconnecting then s.move e.1 .waiting else s.move e.1 (.returned true)
  | .sqlite3Open ok, .opening => s.move e.1 (if ok then .storing else .returned false)
  | .store, .storing => s.move e.1 .releasing
  | .release, .releasing => { s.move e.1 .notifying with reconnecting := false }
  | .notifyAll, .notifying => State.move { s with phase := wakeAll s.phase } e.1 .creating
  | .initTable ok, .creating => s.move e.1 (.returned ok)
  | _, _ => s

/-- The call has claimed the reconnection and has not released it. -/
def Between (p : Phase) : Prop := p = .opening ∨ p = .storing ∨ p = .releasing

/-- The call is going to notify the waiting ones. -/
def Serving (p : Phase) : Prop := Between p ∨ p = .notifying

/-- The flag is up for the call that has claimed, which is alone. -/
structure Owned (s : State) : Prop where
  flag : ∀ c, Between (s.phase c) → s.reconnecting = true
  unique : ∀ c d, Between (s.phase c) → Between (s.phase d) → c = d

/-- Without a claim the flag is down, and whoever waits will be notified. -/
structure Released (s : State) : Prop where
  free : (∀ c, ¬ Between (s.phase c)) → s.reconnecting = false
  served : ∀ c, s.phase c = .waiting → ∃ d, Serving (s.phase d)

section Moves

variable (s : State) (c : CallId) (p : Phase)

theorem move_phase (d : CallId) : (s.move c p).phase d = if d = c then p else s.phase d :=
  Function.update_apply s.phase c p d

theorem move_iff (Q : Phase → Prop) (h : Q p ↔ Q (s.phase c)) (d : CallId) :
    Q ((s.move c p).phase d) ↔ Q (s.phase d) := by
  rw [move_phase]
  split
  · rename_i hd
    rw [hd]
    exact h
  · exact Iff.rfl

theorem owned_move (h : Between p ↔ Between (s.phase c)) (ho : Owned s) : Owned (s.move c p) := by
  have hsame := move_iff s c p Between h
  refine ⟨?_, ?_⟩
  · intro d hd
    exact ho.flag d ((hsame d).mp hd)
  · intro d e hd he
    exact ho.unique d e ((hsame d).mp hd) ((hsame e).mp he)

/-- A call starts to wait only while the flag is up. -/
theorem released_move (hb : Between p ↔ Between (s.phase c)) (hs : Serving p ↔ Serving (s.phase c))
    (hw : p = .waiting → s.reconnecting = true) (hr : Released s) : Released (s.move c p) := by
  have hbetween := move_iff s c p Between hb
  have hserving := move_iff s c p Serving hs
  have hserved : ∀ d, s.phase d = .waiting → ∃ e, Serving ((s.move c p).phase e) := by
    intro d hd
    obtain ⟨e, he⟩ := hr.served d hd
    exact ⟨e, (hserving e).mpr he⟩
  refine ⟨fun hnone => hr.free (fun d hd => hnone d ((hbetween d).mpr hd)), ?_⟩
  intro d hd
  rw [move_phase] at hd
  split at hd
  · by_contra hnone
    have hfree := hr.free (fun e he => hnone ⟨e, (hserving e).mpr (Or.inl he)⟩)
    rw [hw hd] at hfree
    contradiction
  · exact hserved d hd

end Moves

/-- The step is not a failed opening of the file. -/
def OpensFile (s : State) (e : Event) : Prop :=
  ¬ (e.2 = .sqlite3Open false ∧ s.phase e.1 = .opening)

/-- The call has not returned and cannot while the flag is up. -/
def Blocked (p : Phase) : Prop := p = .outside ∨ p = .waiting ∨ p = .woken

/-- What a step does, as far as the claims and the notifications are concerned. -/
inductive StepCase (s : State) (e : Event) : State → Prop
  | same (hopens : OpensFile s e) : StepCase s e s
  | moves (p : Phase) (hopens : OpensFile s e) (hb : Between p ↔ Between (s.phase e.1))
      (hs : Serving p ↔ Serving (s.phase e.1)) (hw : p = .waiting → s.reconnecting = true)
      (hblocked : s.reconnecting = true → Blocked (s.phase e.1) → Blocked p) :
      StepCase s e (s.move e.1 p)
  | claims (hopens : OpensFile s e) (hphase : s.phase e.1 = .outside)
      (hfree : s.reconnecting = false) :
      StepCase s e { s.move e.1 .opening with reconnecting := true }
  | fails (haction : e.2 = .sqlite3Open false) (hphase : s.phase e.1 = .opening) :
      StepCase s e (s.move e.1 (.returned false))
  | releases (hopens : OpensFile s e) (hphase : s.phase e.1 = .releasing) :
      StepCase s e { s.move e.1 .notifying with reconnecting := false }
  | notifies (hopens : OpensFile s e) (hphase : s.phase e.1 = .notifying) :
      StepCase s e (State.move { s with phase := wakeAll s.phase } e.1 .creating)

theorem stepCase_next (s : State) (e : Event) : StepCase s e (next s e) := by
  obtain ⟨c, action⟩ := e
  cases action with
  | enter =>
    have hopens : OpensFile s (c, .enter) := by simp [OpensFile]
    cases hphase : s.phase c <;> simp only [next, hphase]
    case outside =>
      cases hflag : s.reconnecting with
      | true =>
        refine .moves .waiting hopens ?_ ?_ (fun _ => hflag) ?_ <;>
          simp [Between, Serving, Blocked, hphase]
      | false => exact .claims hopens hphase hflag
    all_goals exact .same hopens
  | wake =>
    have hopens : OpensFile s (c, .wake) := by simp [OpensFile]
    cases hphase : s.phase c <;> simp only [next, hphase]
    case waiting =>
      refine .moves .woken hopens ?_ ?_ ?_ ?_ <;> simp [Between, Serving, Blocked, hphase]
    all_goals exact .same hopens
  | look =>
    have hopens : OpensFile s (c, .look) := by simp [OpensFile]
    cases hphase : s.phase c <;> simp only [next, hphase]
    case woken =>
      cases hflag : s.reconnecting with
      | true =>
        refine .moves .waiting hopens ?_ ?_ (fun _ => hflag) ?_ <;>
          simp [Between, Serving, Blocked, hphase]
      | false =>
        refine .moves (.returned true) hopens ?_ ?_ ?_ ?_ <;>
          simp [Between, Serving, hphase, hflag]
    all_goals exact .same hopens
  | sqlite3Open ok =>
    cases hphase : s.phase c <;> simp only [next, hphase]
    case opening =>
      cases ok with
      | true =>
        have hopens : OpensFile s (c, .sqlite3Open true) := by simp [OpensFile]
        refine .moves .storing hopens ?_ ?_ ?_ ?_ <;> simp [Between, Serving, Blocked, hphase]
      | false => exact .fails rfl hphase
    all_goals exact .same (by simp [OpensFile, hphase])
  | store =>
    have hopens : OpensFile s (c, .store) := by simp [OpensFile]
    cases hphase : s.phase c <;> simp only [next, hphase]
    case storing =>
      refine .moves .releasing hopens ?_ ?_ ?_ ?_ <;> simp [Between, Serving, Blocked, hphase]
    all_goals exact .same hopens
  | release =>
    have hopens : OpensFile s (c, .release) := by simp [OpensFile]
    cases hphase : s.phase c <;> simp only [next, hphase]
    case releasing => exact .releases hopens hphase
    all_goals exact .same hopens
  | notifyAll =>
    have hopens : OpensFile s (c, .notifyAll) := by simp [OpensFile]
    cases hphase : s.phase c <;> simp only [next, hphase]
    case notifying => exact .notifies hopens hphase
    all_goals exact .same hopens
  | initTable ok =>
    have hopens : OpensFile s (c, .initTable ok) := by simp [OpensFile]
    cases hphase : s.phase c <;> simp only [next, hphase]
    case creating =>
      refine .moves (.returned ok) hopens ?_ ?_ ?_ ?_ <;>
        simp [Between, Serving, Blocked, hphase]
    all_goals exact .same hopens

section Steps

variable (s : State) (c : CallId)

/-- Up to the flag, a call that leaves the part between claim and release. -/
theorem not_between_move (p : Phase) (hp : ¬ Between p) (ho : Owned s)
    (hc : Between (s.phase c)) (d : CallId) : ¬ Between ((s.move c p).phase d) := by
  rw [move_phase]
  split
  · exact hp
  · rename_i hd
    exact fun h => hd (ho.unique d c h hc)

theorem wakeAll_iff (Q : Phase → Prop) (h : Q .woken ↔ Q .waiting) (d : CallId) :
    Q (wakeAll s.phase d) ↔ Q (s.phase d) := by
  unfold wakeAll
  split
  · rename_i hd
    rw [hd]
    exact h
  · exact Iff.rfl

theorem wakeAll_ne_waiting (d : CallId) : wakeAll s.phase d ≠ .waiting := by
  unfold wakeAll
  split
  · simp
  · assumption

theorem owned_of_none (hnone : ∀ c, ¬ Between (s.phase c)) : Owned s :=
  ⟨fun c h => absurd h (hnone c), fun c _ h => absurd h (hnone c)⟩

theorem owned_wakeAll (ho : Owned s) : Owned { s with phase := wakeAll s.phase } := by
  have hbetween := wakeAll_iff s Between (by simp [Between])
  refine ⟨?_, ?_⟩
  · intro c hc
    exact ho.flag c ((hbetween c).mp hc)
  · intro c d hc hd
    exact ho.unique c d ((hbetween c).mp hc) ((hbetween d).mp hd)

theorem wakeAll_notifying (h : s.phase c = .notifying) : wakeAll s.phase c = .notifying := by
  simp [wakeAll, h]

end Steps

/-- The flag is up and no call is there to take it down. -/
structure Stuck (s : State) : Prop where
  flag : s.reconnecting = true
  none : ∀ c, ¬ Between (s.phase c)

theorem stuck_of_fails (s : State) (c : CallId) (ho : Owned s) (hphase : s.phase c = .opening) :
    Stuck (s.move c (.returned false)) :=
  ⟨ho.flag c (Or.inl hphase),
    not_between_move s c (.returned false) (by simp [Between]) ho (Or.inl hphase)⟩

/-- It stays so, and no call that is blocked gets any further. -/
theorem stuck_next (s : State) (e : Event) (hs : Stuck s) :
    Stuck (next s e) ∧ ∀ c, Blocked (s.phase c) → Blocked ((next s e).phase c) := by
  have hcase := stepCase_next s e
  generalize next s e = s' at hcase ⊢
  cases hcase with
  | same => exact ⟨hs, fun _ h => h⟩
  | moves p hopens hb hserves hw hblocked =>
    refine ⟨⟨hs.flag, fun c hc => hs.none c ((move_iff s e.1 p Between hb c).mp hc)⟩, ?_⟩
    intro c hc
    rw [move_phase]
    split
    · rename_i heq
      rw [heq] at hc
      exact hblocked hs.flag hc
    · exact hc
  | claims hopens hphase hfree =>
    rw [hs.flag] at hfree
    contradiction
  | fails haction hphase => exact absurd (Or.inl hphase) (hs.none e.1)
  | releases hopens hphase => exact absurd (Or.inr (Or.inr hphase)) (hs.none e.1)
  | notifies hopens hphase =>
    have hawake := wakeAll_notifying s e.1 hphase
    have hmoved := move_iff { s with phase := wakeAll s.phase } e.1 .creating
    refine ⟨⟨hs.flag, ?_⟩, ?_⟩
    · intro c hc
      exact hs.none c ((wakeAll_iff s Between (by simp [Between]) c).mp
        ((hmoved Between (by simp [Between, hawake]) c).mp hc))
    · intro c hc
      exact (hmoved Blocked (by simp [Blocked, hawake]) c).mpr
        ((wakeAll_iff s Blocked (by simp [Blocked]) c).mpr hc)

/-- After a failed opening no call that has not come through ever returns. -/
theorem blocked_final (s : State) (c : CallId) (events : List Event) (hs : Stuck s)
    (hc : Blocked (s.phase c)) : Stuck (final next s events) ∧
      Blocked ((final next s events).phase c) := by
  apply final_invariant next (fun s => Stuck s ∧ Blocked (s.phase c)) _ s events ⟨hs, hc⟩
  intro s e h
  obtain ⟨hnext, hblocked⟩ := stuck_next s e h.1
  exact ⟨hnext, hblocked c h.2⟩

theorem owned_next (s : State) (e : Event) (ho : Owned s) : Owned (next s e) := by
  have hcase := stepCase_next s e
  generalize next s e = s' at hcase ⊢
  cases hcase with
  | same => exact ho
  | moves p hopens hb hs hw hblocked => exact owned_move s e.1 p hb ho
  | claims hopens hphase hfree =>
    have honly : ∀ c, Between ((s.move e.1 .opening).phase c) → c = e.1 := by
      intro c hc
      rw [move_phase] at hc
      split at hc
      · assumption
      · have hflag := ho.flag c hc
        rw [hfree] at hflag
        contradiction
    exact ⟨fun _ _ => rfl, fun c d hc hd => (honly c hc).trans (honly d hd).symm⟩
  | fails haction hphase =>
    apply owned_of_none
    exact not_between_move s e.1 (.returned false) (by simp [Between]) ho (Or.inl hphase)
  | releases hopens hphase =>
    apply owned_of_none
    exact not_between_move s e.1 .notifying (by simp [Between]) ho (Or.inr (Or.inr hphase))
  | notifies hopens hphase =>
    apply owned_move _ _ _ _ (owned_wakeAll s ho)
    simp [Between, wakeAll_notifying s e.1 hphase]

/-- Exactly a failed opening leaves the flag up with nobody to take it down. -/
theorem released_next_iff (s : State) (e : Event) (ho : Owned s) (hr : Released s) :
    Released (next s e) ↔ OpensFile s e := by
  have hcase := stepCase_next s e
  generalize next s e = s' at hcase ⊢
  cases hcase with
  | same hopens => exact iff_of_true hr hopens
  | moves p hopens hb hs hw hblocked => exact iff_of_true (released_move s e.1 p hb hs hw hr) hopens
  | claims hopens hphase hfree =>
    have hclaimed : Between ((s.move e.1 .opening).phase e.1) := by
      simp [move_phase, Between]
    exact iff_of_true ⟨fun hnone => absurd hclaimed (hnone e.1),
      fun c _ => ⟨e.1, Or.inl hclaimed⟩⟩ hopens
  | fails haction hphase =>
    have hstuck := stuck_of_fails s e.1 ho hphase
    apply iff_of_false
    · intro h
      have hdown := h.free hstuck.none
      rw [hstuck.flag] at hdown
      contradiction
    · exact fun h => h ⟨haction, hphase⟩
  | releases hopens hphase =>
    have hserves : Serving ((s.move e.1 .notifying).phase e.1) := by
      simp [move_phase, Serving]
    exact iff_of_true ⟨fun _ => rfl, fun c _ => ⟨e.1, hserves⟩⟩ hopens
  | notifies hopens hphase =>
    have hbetween := wakeAll_iff s Between (by simp [Between])
    have hmoved := move_iff { s with phase := wakeAll s.phase } e.1 .creating Between
      (by simp [Between, wakeAll_notifying s e.1 hphase])
    refine iff_of_true ⟨?_, ?_⟩ hopens
    · intro hnone
      exact hr.free (fun c hc => hnone c ((hmoved c).mpr ((hbetween c).mpr hc)))
    · intro c hc
      rw [move_phase] at hc
      split at hc
      · contradiction
      · exact absurd hc (wakeAll_ne_waiting s c)

/-- Over every run of calls, whoever claims releases and whoever waits is served,
exactly as long as no opening of the file fails. -/
theorem reconnects_released_iff (events : List Event) :
    Throughout next Released State.start events ↔ Guarded next OpensFile State.start events := by
  apply throughout_iff_guarded next OpensFile Owned Released owned_next released_next_iff
  · exact owned_of_none State.start (by simp [State.start, Between])
  · exact ⟨fun _ => rfl, by simp [State.start]⟩

/-- One call fails to open the file; the next one waits for it. -/
def failedOpen : List Event := [(0, .enter), (0, .sqlite3Open false), (1, .enter)]

theorem flag_left_up : ¬ ∀ events : List Event, Throughout next Released State.start events := by
  intro hall
  have hlast := (throughout_iff next Released State.start failedOpen).mp (hall failedOpen)
    failedOpen List.prefix_rfl
  have hclaimed : Owned (next State.start (0, .enter)) :=
    owned_next _ _ (owned_of_none State.start (by simp [State.start, Between]))
  have hstuck := stuck_of_fails _ 0 hclaimed rfl
  have hflag := hlast.free (stuck_next _ (1, .enter) hstuck).1.none
  exact absurd hflag (by decide)

end Gingko.DbReconnects
