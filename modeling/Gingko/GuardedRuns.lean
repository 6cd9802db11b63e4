import Mathlib.Data.List.Infix

/-!
Runs of a deterministic system that takes one event at a time.
A guard is a condition on a state and the event it is about to take. An
invariant kept by guarded steps holds in every state of a guarded run; when a
step keeps it exactly under the guard, holding throughout a run and being
guarded throughout are the same thing. The partial systems at the end have
steps that may be disabled.
-/
namespace Gingko.GuardedRuns

variable {S E : Type*}

section Total

variable (next : S → E → S)

def final (s : S) (es : List E) : S := es.foldl next s

/-- Every event meets the guard in the state that takes it. -/
def Guarded (guard : S → E → Prop) : S → List E → Prop
  | _, [] => True
  | s, e :: es => guard s e ∧ Guarded guard (next s e) es

/-- The property holds in every state of the run, the last one included. -/
def Throughout (P : S → Prop) : S → List E → Prop
  | s, [] => P s
  | s, e :: es => P s ∧ Throughout P (next s e) es

theorem final_append (s : S) (es fs : List E) :
    final next s (es ++ fs) = final next (final next s es) fs :=
  List.foldl_append

/-- A guard on events alone is met by a run when all its events meet it. -/
theorem guarded_of_forall (ok : E → Prop) (s : S) (es : List E) (h : ∀ e ∈ es, ok e) :
    Guarded next (fun _ e => ok e) s es := by
  induction es generalizing s with
  | nil => trivial
  | cons e es ih =>
    exact ⟨h e (List.mem_cons_self ..), ih _ (fun f hf => h f (List.mem_cons_of_mem e hf))⟩

theorem throughout_iff (P : S → Prop) (s : S) (es : List E) :
    Throughout next P s es ↔ ∀ pre, pre <+: es → P (final next s pre) := by
  induction es generalizing s with
  | nil => simp [Throughout, final]
  | cons e es ih =>
    constructor
    · intro hboth pre hpre
      obtain ⟨hs, hrest⟩ := hboth
      cases pre with
      | nil => exact hs
      | cons f pre =>
        obtain ⟨rfl, htail⟩ := List.cons_prefix_cons.mp hpre
        exact (ih (next s f)).mp hrest pre htail
    · intro h
      refine ⟨h [] List.nil_prefix, (ih (next s e)).mpr ?_⟩
      intro pre hpre
      exact h (e :: pre) (List.cons_prefix_cons.mpr ⟨rfl, hpre⟩)

theorem final_invariant (I : S → Prop) (hstep : ∀ s e, I s → I (next s e))
    (s : S) (es : List E) (hs : I s) : I (final next s es) := by
  induction es generalizing s with
  | nil => exact hs
  | cons e es ih => exact ih (next s e) (hstep s e hs)

theorem final_guarded (guard : S → E → Prop) (I : S → Prop)
    (hstep : ∀ s e, I s → guard s e → I (next s e))
    (s : S) (es : List E) (hs : I s) (hg : Guarded next guard s es) :
    I (final next s es) := by
  induction es generalizing s with
  | nil => exact hs
  | cons e es ih => exact ih (next s e) (hstep s e hs hg.1) hg.2

/-- Under an invariant one guard may give another. -/
theorem guarded_change (guard guard' : S → E → Prop) (I : S → Prop)
    (hstep : ∀ s e, I s → guard s e → guard' s e ∧ I (next s e))
    (s : S) (es : List E) (hs : I s) (hg : Guarded next guard s es) :
    Guarded next guard' s es := by
  induction es generalizing s with
  | nil => trivial
  | cons e es ih =>
    obtain ⟨hguard, hnext⟩ := hstep s e hs hg.1
    exact ⟨hguard, ih (next s e) hnext hg.2⟩

/-- `B` is an unconditional invariant. Where a step from a `B` state keeps `P`
exactly when its guard is met, `P` holds throughout precisely the guarded runs. -/
theorem throughout_iff_guarded (guard : S → E → Prop) (B P : S → Prop)
    (hbase : ∀ s e, B s → B (next s e))
    (hstep : ∀ s e, B s → P s → (P (next s e) ↔ guard s e))
    (s : S) (es : List E) (hb : B s) (hs : P s) :
    Throughout next P s es ↔ Guarded next guard s es := by
  induction es generalizing s with
  | nil => simp [Throughout, Guarded, hs]
  | cons e es ih =>
    have hnext := hstep s e hb hs
    constructor
    · intro hboth
      obtain ⟨_, hrest⟩ := hboth
      have hp : P (next s e) := by
        cases es with
        | nil => exact hrest
        | cons f fs => exact hrest.1
      exact ⟨hnext.mp hp, (ih (next s e) (hbase s e hb) hp).mp hrest⟩
    · intro hboth
      obtain ⟨hg, hrest⟩ := hboth
      have hp := hnext.mpr hg
      exact ⟨hs, (ih (next s e) (hbase s e hb) hp).mpr hrest⟩

end Total

section Partial

variable (step : S → E → Option S) (guard : S → E → Prop)

/-- A run of enabled steps whose events all meet the guard where they are taken. -/
inductive Path : S → List E → S → Prop
  | nil (s : S) : Path s [] s
  | cons (s t u : S) (e : E) (es : List E) (henabled : step s e = some t) (hguard : guard s e)
      (hrest : Path t es u) : Path s (e :: es) u

variable {step guard}

/-- The events of a run are available to the step lemma. -/
theorem Path.invariant_of_mem {s t : S} {es : List E} (h : Path step guard s es t)
    (I : S → Prop)
    (hstep : ∀ s e t, e ∈ es → I s → guard s e → step s e = some t → I t) (hs : I s) : I t := by
  induction h with
  | nil s => exact hs
  | cons s t u e es henabled hguard hrest ih =>
    apply ih
    · intro a f b hf
      exact hstep a f b (List.mem_cons_of_mem e hf)
    · exact hstep s e t (List.mem_cons_self ..) hs hguard henabled

theorem Path.invariant {s t : S} {es : List E} (h : Path step guard s es t) (I : S → Prop)
    (hstep : ∀ s e t, I s → guard s e → step s e = some t → I t) (hs : I s) : I t :=
  h.invariant_of_mem I (fun s e t _ => hstep s e t) hs

/-- Under an invariant of the steps one guard may be weaker than another. -/
theorem Path.change_guard {guard' : S → E → Prop} {s t : S} {es : List E}
    (h : Path step guard s es t) (I : S → Prop)
    (hstep : ∀ s e t, I s → step s e = some t → I t)
    (hguards : ∀ s e t, I s → step s e = some t → guard s e → guard' s e) (hs : I s) :
    Path step guard' s es t := by
  induction h with
  | nil s => exact .nil s
  | cons s t u e es henabled hguard hrest ih =>
    exact .cons s t u e es henabled (hguards s e t hs henabled hguard)
      (ih (hstep s e t hs henabled))

theorem Path.append {s t u : S} {es fs : List E} (h : Path step guard s es t)
    (hrest : Path step guard t fs u) : Path step guard s (es ++ fs) u := by
  induction h with
  | nil s => exact hrest
  | cons s t _ e es henabled hguard _ ih => exact .cons s t u e _ henabled hguard (ih hrest)

theorem path_of_steps (s t : S) (es : List E) (hguard : ∀ s, ∀ e ∈ es, guard s e)
    (h : es.foldlM step s = some t) : Path step guard s es t := by
  induction es generalizing s with
  | nil =>
    obtain rfl := Option.some.inj h
    exact .nil s
  | cons e es ih =>
    obtain ⟨u, hstep, hrest⟩ := Option.bind_eq_some_iff.mp h
    exact .cons s u t e es hstep (hguard s e (List.mem_cons_self ..))
      (ih u (fun s f hf => hguard s f (List.mem_cons_of_mem e hf)) hrest)

/-- A run on fixed events can be tried out, guards included. -/
theorem path_of_checked_steps [∀ s e, Decidable (guard s e)] (s t : S) (es : List E)
    (h : es.foldlM (fun s e => if guard s e then step s e else none) s = some t) :
    Path step guard s es t := by
  induction es generalizing s with
  | nil =>
    obtain rfl := Option.some.inj h
    exact .nil s
  | cons e es ih =>
    obtain ⟨u, hchecked, hrest⟩ := Option.bind_eq_some_iff.mp h
    change (if guard s e then step s e else none) = some u at hchecked
    split at hchecked
    · next hguard => exact .cons s u t e es hchecked hguard (ih u hrest)
    · contradiction

end Partial
end Gingko.GuardedRuns
