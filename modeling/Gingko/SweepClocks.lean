import Gingko.SweepRaces

/-!
The garbage cleaner against the clock. A cycle reads the clock before it takes
the lock of the map, and an announce may refresh a timestamp in between. The age
of such an entry is an unsigned difference below zero, so it is taken for one of
about 2^64 seconds and the entry goes, however recently it was refreshed.
-/
namespace Gingko.SweepClocks

open KeyedMaps Base64Codec PeerRecords PeerUpdates PeerScans TrackerState GuardedRuns AnnounceCalls
  SweepRaces

/-- A world and the latest time at which something happened in it. -/
structure TimedWorld where
  world : World
  clock : UInt64

def TimedWorld.empty : TimedWorld := ⟨World.empty, 0⟩

/-- A step and the time at which it is taken. -/
structure Timed where
  time : UInt64
  label : Label

/-- Steps that read the clock read the time at which they are taken. -/
def readsTime (time : UInt64) : Label → Bool
  | .advance _ env => decide (env.update.now = time)
  | .readClock _ now _ => decide (now = time)
  | _ => true

/-- The clock does not run backwards. -/
def timedStep (conf : TrackerConf) (s : TimedWorld) (e : Timed) : Option TimedWorld :=
  if decide (s.clock ≤ e.time) && readsTime e.time e.label then
    (step conf s.world e.label).map (fun w => ⟨w, e.time⟩)
  else none

/-- The entry has peers and was refreshed less than the interval before the time. -/
def Fresh (time expireInterval : UInt64) (info : SingleInfoHashInfo) : Prop :=
  info.peerMap.entries ≠ [] ∧ time.toNat < info.timestamp.toNat + expireInterval.toNat

/-- When the step is the sweep of a cycle, every fresh entry survives it. -/
def SparesFresh (conf : TrackerConf) (s : TimedWorld) (e : Timed) : Prop :=
  ∀ q pass s', e.label = .sweepLocal q → s.world.passes.lookup q = some pass →
    timedStep conf s e = some s' →
    ∀ key obj, s.world.localMap.lookup key = some obj →
      Fresh e.time pass.expireInterval (s.world.heap obj) →
      s'.world.localMap.lookup key = some obj

/-- When the step is the sweep of a cycle, no fresh entry was refreshed after the
cycle read its clock, or the interval is so long that the wrapped age is within it. -/
def NoLateRefresh (s : TimedWorld) (e : Timed) : Prop :=
  ∀ q pass, e.label = .sweepLocal q → s.world.passes.lookup q = some pass →
    ∀ key obj, s.world.localMap.lookup key = some obj →
      Fresh e.time pass.expireInterval (s.world.heap obj) →
      (s.world.heap obj).timestamp.toNat ≤ pass.now.toNat ∨
        2 ^ 64 + pass.now.toNat ≤
          pass.expireInterval.toNat + (s.world.heap obj).timestamp.toNat

/-- A cycle that has not swept yet read the clock in the past. -/
def PassesBehind (s : TimedWorld) : Prop :=
  ∀ q pass, s.world.passes.lookup q = some pass → pass.now.toNat ≤ s.clock.toNat

/-- The age test, for a clock reading that is no later than the sweep. -/
theorem toDelete_fresh_iff (time now expireInterval : UInt64) (info : SingleInfoHashInfo)
    (hnow : now.toNat ≤ time.toNat) (hfresh : Fresh time expireInterval info) :
    toDelete now expireInterval info = false ↔
      info.timestamp.toNat ≤ now.toNat ∨
        2 ^ 64 + now.toNat ≤ expireInterval.toNat + info.timestamp.toNat := by
  obtain ⟨hpeers, htime⟩ := hfresh
  have hlength : info.peerMap.entries.length ≠ 0 := by simpa using hpeers
  have hts := info.timestamp.toNat_lt
  have hlt := now.toNat_lt
  simp only [toDelete, decide_eq_false hlength, Bool.or_false, decide_eq_false_iff_not,
    UInt64.lt_iff_toNat_lt, UInt64.toNat_sub]
  omega

theorem timedStep_some (conf : TrackerConf) (s s' : TimedWorld) (e : Timed)
    (h : timedStep conf s e = some s') :
    s.clock.toNat ≤ e.time.toNat ∧ readsTime e.time e.label = true ∧
      step conf s.world e.label = some s'.world ∧ s'.clock = e.time := by
  unfold timedStep at h
  split at h
  · rename_i hboth
    simp only [Bool.and_eq_true, decide_eq_true_eq] at hboth
    obtain ⟨w, hstep, rfl⟩ := Option.map_eq_some_iff.mp h
    exact ⟨UInt64.le_iff_toNat_le.mp hboth.1, hboth.2, hstep, rfl⟩
  · contradiction

theorem advance_passes (conf : TrackerConf) (c : CallId) (env : HandleEnv) (call : Call)
    (w w' : World) (h : advance conf c env call w = some w') : w'.passes = w.passes := by
  obtain ⟨input, point⟩ := call
  unfold advance at h
  cases point with
  | start =>
    have heq := Option.some.inj h
    rw [← heq]
    unfold fetch
    cases w.localMap.lookup input.base64InfoHash <;> rfl
  | fetched obj => rw [← Option.some.inj h]; rfl
  | prepared obj peerInfo peerIsNew =>
    cases peerInfo with
    | none => rw [← Option.some.inj h]; rfl
    | some ref =>
      simp only at h
      split at h <;> (rw [← Option.some.inj h]; rfl)
  | accepted obj ref peerIsNew => rw [← Option.some.inj h]; rfl
  | filled obj ref peerIsNew =>
    simp only at h
    split at h
    · split at h <;> (rw [← Option.some.inj h]; rfl)
    · rw [← Option.some.inj h]; rfl
  | published obj ref peerIsNew => rw [← Option.some.inj h]; rfl
  | updated =>
    simp only at h
    split at h <;> (rw [← Option.some.inj h]; rfl)
  | foundLocal found =>
    cases found with
    | none => rw [← Option.some.inj h]; rfl
    | some obj => rw [← Option.some.inj h]; rfl
  | choseLocal output haveSeed =>
    simp only at h
    split at h <;> (rw [← Option.some.inj h]; rfl)
  | queued output haveSeed => rw [← Option.some.inj h]; rfl
  | foundRemote found output haveSeed =>
    cases found with
    | none => rw [← Option.some.inj h]; rfl
    | some obj => rw [← Option.some.inj h]; rfl
  | done ret output haveSeed => contradiction

/-- The clock reading of a cycle is made when the cycle begins and stays as it is. -/
theorem step_passes (conf : TrackerConf) (w w' : World) (e : Label)
    (h : step conf w e = some w') (q : PassId) (pass : Pass)
    (hpass : w'.passes.lookup q = some pass) :
    (∃ old, w.passes.lookup q = some old ∧ pass.now = old.now) ∨
      ∃ expireInterval, e = .readClock q pass.now expireInterval := by
  cases e with
  | begin c input =>
    simp only [step] at h
    split at h
    · rw [← Option.some.inj h] at hpass
      exact Or.inl ⟨pass, hpass, rfl⟩
    · contradiction
  | advance c env =>
    obtain ⟨call, hcall, hadvance⟩ := Option.bind_eq_some_iff.mp h
    rw [advance_passes conf c env call w w' hadvance] at hpass
    exact Or.inl ⟨pass, hpass, rfl⟩
  | readClock r now expireInterval =>
    simp only [step] at h
    split at h
    · rw [← Option.some.inj h] at hpass
      rcases Dict.lookup_of_insert w.passes r q _ pass hpass with ⟨rfl, rfl⟩ | ⟨_, hold⟩
      · exact Or.inr ⟨expireInterval, rfl⟩
      · exact Or.inl ⟨pass, hold, rfl⟩
    · contradiction
  | sweepLocal r =>
    simp only [step] at h
    split at h
    · rename_i hread
      rw [← Option.some.inj h] at hpass
      rcases Dict.lookup_of_insert w.passes r q _ pass hpass with ⟨rfl, rfl⟩ | ⟨_, hold⟩
      · exact Or.inl ⟨_, hread, rfl⟩
      · exact Or.inl ⟨pass, hold, rfl⟩
    · contradiction
  | sweepRemote r =>
    simp only [step] at h
    split at h
    · rw [← Option.some.inj h] at hpass
      exact Or.inl ⟨pass, (Dict.lookup_of_erase w.passes r q pass hpass).2, rfl⟩
    · contradiction

theorem passesBehind_step (conf : TrackerConf) (s : TimedWorld) (e : Timed) (s' : TimedWorld)
    (hbehind : PassesBehind s) (h : timedStep conf s e = some s') : PassesBehind s' := by
  obtain ⟨hclock, hreads, hstep, htime⟩ := timedStep_some conf s s' e h
  intro q pass hpass
  rw [htime]
  rcases step_passes conf s.world s'.world e.label hstep q pass hpass with
    ⟨old, hold, hnow⟩ | ⟨expireInterval, hlabel⟩
  · rw [hnow]
    have hpast := hbehind q old hold
    omega
  · rw [hlabel] at hreads
    have hnow : pass.now = e.time := of_decide_eq_true hreads
    rw [hnow]

theorem sweepLocal_survives (conf : TrackerConf) (w w' : World) (q : PassId) (pass : Pass)
    (hpass : w.passes.lookup q = some pass) (h : step conf w (.sweepLocal q) = some w')
    (key : ByteString) (obj : ObjId) (hlook : w.localMap.lookup key = some obj) :
    w'.localMap.lookup key = some obj ↔
      toDelete pass.now pass.expireInterval (w.heap obj) = false := by
  simp only [step] at h
  split at h
  · rename_i now expireInterval hread
    obtain rfl := Option.some.inj (hread.symm.trans hpass)
    rw [← Option.some.inj h]
    simp only [sweep]
    rw [Dict.lookup_filter, hlook, Option.filter_some]
    simp
  · contradiction

/-- One sweep spares the fresh entries precisely when none was refreshed late. -/
theorem sparesFresh_iff (conf : TrackerConf) (s : TimedWorld) (e : Timed) (s' : TimedWorld)
    (hbehind : PassesBehind s) (h : timedStep conf s e = some s') :
    SparesFresh conf s e ↔ NoLateRefresh s e := by
  obtain ⟨hclock, _, hstep, _⟩ := timedStep_some conf s s' e h
  have hsweep : ∀ q pass, e.label = .sweepLocal q → s.world.passes.lookup q = some pass →
      ∀ key obj, s.world.localMap.lookup key = some obj →
        Fresh e.time pass.expireInterval (s.world.heap obj) →
        (s'.world.localMap.lookup key = some obj ↔
          (s.world.heap obj).timestamp.toNat ≤ pass.now.toNat ∨
            2 ^ 64 + pass.now.toNat ≤
              pass.expireInterval.toNat + (s.world.heap obj).timestamp.toNat) := by
    intro q pass hlabel hpass key obj hlook hfresh
    rw [hlabel] at hstep
    rw [sweepLocal_survives conf s.world s'.world q pass hpass hstep key obj hlook]
    exact toDelete_fresh_iff e.time pass.now pass.expireInterval _
      ((hbehind q pass hpass).trans hclock) hfresh
  constructor
  · intro hspares q pass hlabel hpass key obj hlook hfresh
    exact (hsweep q pass hlabel hpass key obj hlook hfresh).mp
      (hspares q pass s' hlabel hpass h key obj hlook hfresh)
  · intro hlate q pass t hlabel hpass ht key obj hlook hfresh
    obtain rfl := Option.some.inj (h.symm.trans ht)
    exact (hsweep q pass hlabel hpass key obj hlook hfresh).mpr
      (hlate q pass hlabel hpass key obj hlook hfresh)

theorem passesBehind_empty : PassesBehind TimedWorld.empty := by
  intro q pass hpass
  simp [TimedWorld.empty, World.empty] at hpass

/-- In every interleaving of announces and cycles under a clock that does not run
backwards: every sweep spares every fresh entry that has peers precisely when no
sweep meets one refreshed after its cycle read the clock. -/
theorem fresh_spared_iff (conf : TrackerConf) (events : List Timed) (s : TimedWorld) :
    Path (timedStep conf) (SparesFresh conf) TimedWorld.empty events s ↔
      Path (timedStep conf) NoLateRefresh TimedWorld.empty events s := by
  constructor
  · intro hpath
    exact hpath.change_guard PassesBehind (passesBehind_step conf)
      (fun s e s' hbehind h => (sparesFresh_iff conf s e s' hbehind h).mp) passesBehind_empty
  · intro hpath
    exact hpath.change_guard PassesBehind (passesBehind_step conf)
      (fun s e s' hbehind h => (sparesFresh_iff conf s e s' hbehind h).mpr) passesBehind_empty

/-- A cycle reads the clock at 100, and a downloader announces at 101. -/
def lateRefresh : List Timed :=
  let announced := requested [1] [2] [3] .download false 50
  [⟨100, .readClock 0 100 3600⟩, ⟨101, .begin 0 announced⟩,
    ⟨101, .advance 0 (plainEnv 101 0)⟩, ⟨101, .advance 0 (plainEnv 101 0)⟩]

/-- The entry that was created in the second of its deletion has a peer. -/
theorem late_refresh_deleted :
    ¬ ∀ (conf : TrackerConf) (events : List Timed) (s : TimedWorld),
      Path (timedStep conf) (fun _ _ => True) TimedWorld.empty events s →
      ∀ e, SparesFresh conf s e := by
  intro h
  obtain ⟨s, hrun, hpass, hlook, hfresh, s', hswept, hgone⟩ :
      ∃ s, lateRefresh.foldlM (timedStep defaultConf) TimedWorld.empty = some s ∧
        s.world.passes.lookup 0 = some ⟨100, 3600, none⟩ ∧
        s.world.localMap.lookup (base64Text [1]) = some 0 ∧
        ((s.world.heap 0).peerMap.entries.length = 1 ∧ (s.world.heap 0).timestamp = 101) ∧
        ∃ s', timedStep defaultConf s ⟨101, .sweepLocal 0⟩ = some s' ∧
          s'.world.localMap.lookup (base64Text [1]) = none :=
    ⟨_, rfl, rfl, rfl, ⟨rfl, rfl⟩, _, rfl, rfl⟩
  have hpath := path_of_steps _ s lateRefresh (fun _ _ _ => trivial) hrun
  have hkept := h defaultConf lateRefresh s hpath ⟨101, .sweepLocal 0⟩ 0 _ s' rfl hpass hswept
    (base64Text [1]) 0 hlook
  have hentry : Fresh 101 3600 (s.world.heap 0) := by
    refine ⟨?_, ?_⟩
    · intro hempty
      simp [hempty] at hfresh
    · simp [hfresh.2]
  rw [hkept hentry] at hgone
  contradiction

end Gingko.SweepClocks
