import Gingko.TaskKeys

/-!
The timer that ends the seeding of a task. ToSeeding binds the 64-bit id of its
task to a callback whose parameter is an int, so the callback looks for the id
that is left of it. What the callback erases is compared with the maps that a
removal of the right task would leave.
-/
namespace Gingko.SeedingTimers

open KeyedMaps Base64Codec AgentMessages AgentTasks AgentAdds AgentRuns AgentChanges TaskKeys
  GuardedRuns

/-- The seconds and the bound id of the timer, if one is started. -/
def toSeeding (t : Task) : Option (Int32 × Int64) :=
  if t.error ≠ [] then some (0, t.id)
  else if t.seedingTime = -1 then none
  else some (t.seedingTime, t.id)

/-- The timer calls back with the bound id, which becomes an int on the way. -/
def seedingTimer (held : List TaskRef) (taskid : Int64) (ec : ErrorCode) (s : Agent) : Agent :=
  match ec with
  | some _ => s
  | none => s.seedingTimerCallback held taskid.toInt32

section Losses

variable {K : Type*} [DecidableEq K]

/-- The entries of one task are gone, if there is such a task, and no others. -/
def Loses (gone : Option TaskRef) (m m' : Dict K TaskRef) : Prop :=
  ∀ k ref, m'.lookup k = some ref ↔ m.lookup k = some ref ∧ gone ≠ some ref

theorem loses_none (m : Dict K TaskRef) : Loses none m m := by
  intro k ref
  simp

variable (s : Agent) (key : Task → K) (m : Dict K TaskRef)

/-- Erasing the key of a task takes the entries of that task, and another one only
where it stands under the same key. -/
theorem loses_erase (hkeyed : Keyed s key m) (ref : TaskRef) :
    Loses (some ref) m (m.erase (key (s.tasks ref))) ↔
      ∀ ref', m.lookup (key (s.tasks ref)) = some ref' → ref' = ref := by
  constructor
  · intro hloses ref' hlook
    by_contra hne
    have hkept := (hloses (key (s.tasks ref)) ref').mpr
      ⟨hlook, fun heq => hne (Option.some.inj heq).symm⟩
    rw [AList.lookup_erase] at hkept
    contradiction
  · intro hown k ref'
    constructor
    · intro hlook
      obtain ⟨hne, hold⟩ := Dict.lookup_of_erase m _ k ref' hlook
      refine ⟨hold, ?_⟩
      intro heq
      rw [Option.some.inj heq] at hne
      exact hne (hkeyed k ref' hold).1.symm
    · rintro ⟨hold, hother⟩
      have hne : k ≠ key (s.tasks ref) := by
        rintro rfl
        exact hother (congrArg some (hown ref' hold).symm)
      rw [AList.lookup_erase_ne hne]
      exact hold

end Losses

/-- The task under an id is gone from the four maps, if it was there, and no other is. -/
structure OnlyRemoved (id : Int64) (s s' : Agent) : Prop where
  tasksMap : Loses (s.tasksMap.lookup id) s.tasksMap s'.tasksMap
  torrentMap : Loses (s.tasksMap.lookup id) s.torrentMap s'.torrentMap
  infohashMap : Loses (s.tasksMap.lookup id) s.infohashMap s'.infohashMap
  dataPathMap : Loses (s.tasksMap.lookup id) s.dataPathMap s'.dataPathMap

/-- No other task stands under the infohash or the data path of this one. -/
structure OwnKeys (s : Agent) (ref : TaskRef) : Prop where
  infohash : ∀ ref', s.infohashMap.lookup (s.tasks ref).infohash = some ref' → ref' = ref
  dataPath : ∀ ref', s.dataPathMap.lookup (s.tasks ref).getDataPath = some ref' → ref' = ref

/-- The id is that of the callback's int, or neither of the two is an id of a task. -/
def Reached (s : Agent) (id : Int64) : Prop :=
  id.toInt < 2147483648 ∨
    s.tasksMap.lookup id = none ∧ s.tasksMap.lookup id.toInt32.toInt64 = none

theorem narrowed_eq_iff (id : Int64) (hid : 0 ≤ id.toInt) :
    id.toInt32.toInt64 = id ↔ id.toInt < 2147483648 := by
  rw [← Int64.toInt_inj, Int32.toInt_toInt64, Int64.toInt_toInt32]
  have hlt : id.toInt < 2 ^ 63 := id.toInt_lt
  constructor
  · intro heq
    have hbound := Int.bmod_lt (x := id.toInt) (m := 2 ^ 32) (by decide)
    rw [heq] at hbound
    omega
  · intro hsmall
    apply Int.bmod_eq_of_le <;> omega

section Callback

variable (held : List TaskRef) (s : Agent)

/-- Erasing a task of `tasks_map_`, whichever it is. -/
theorem onlyRemoved_erase (hok : KeysOk s) (id : Int64) (ref : TaskRef)
    (hlook : s.tasksMap.lookup id = some ref) :
    OnlyRemoved id s ((s.eraseTaskFromMap (s.tasks ref)).dropTask held ref) ↔ OwnKeys s ref := by
  have hquiet := Quiet.dropTask held (s.eraseTaskFromMap (s.tasks ref)) ref
  have htasks : Loses (some ref) s.tasksMap (s.tasksMap.erase (s.tasks ref).id) := by
    apply (loses_erase s Task.id s.tasksMap hok.byId ref).mpr
    intro ref' hlook'
    rw [(hok.byId id ref hlook).1, hlook] at hlook'
    exact (Option.some.inj hlook').symm
  have htorrents : Loses (some ref) s.torrentMap (s.torrentMap.erase (s.tasks ref).torrent) := by
    apply (loses_erase s Task.torrent s.torrentMap hok.byTorrent ref).mpr
    intro ref' hlook'
    rw [hok.torrentFound id ref hlook] at hlook'
    exact (Option.some.inj hlook').symm
  constructor
  · intro h
    have hinfohash := h.infohashMap
    have hdataPath := h.dataPathMap
    rw [hlook, hquiet.infohashMap] at hinfohash
    rw [hlook, hquiet.dataPathMap] at hdataPath
    exact ⟨(loses_erase s Task.infohash _ hok.byInfohash ref).mp hinfohash,
      (loses_erase s Task.getDataPath _ hok.byDataPath ref).mp hdataPath⟩
  · intro h
    refine ⟨?_, ?_, ?_, ?_⟩
    · rw [hlook, hquiet.tasksMap]
      exact htasks
    · rw [hlook, hquiet.torrentMap]
      exact htorrents
    · rw [hlook, hquiet.infohashMap]
      exact (loses_erase s Task.infohash _ hok.byInfohash ref).mpr h.infohash
    · rw [hlook, hquiet.dataPathMap]
      exact (loses_erase s Task.getDataPath _ hok.byDataPath ref).mpr h.dataPath

/-- Nothing is to be removed, and nothing is. -/
theorem onlyRemoved_none (id : Int64) (hlook : s.tasksMap.lookup id = none) :
    OnlyRemoved id s s := by
  refine ⟨?_, ?_, ?_, ?_⟩ <;> rw [hlook] <;> exact loses_none _

/-- A removal of the right task takes the id from `tasks_map_`. -/
theorem OnlyRemoved.lookup_eq_none {s s' : Agent} {id : Int64} (h : OnlyRemoved id s s') :
    s'.tasksMap.lookup id = none := by
  cases hlook : s'.tasksMap.lookup id with
  | none => rfl
  | some ref =>
    obtain ⟨hold, hother⟩ := (h.tasksMap id ref).mp hlook
    exact absurd hold hother

/-- The timer of a wrong id leaves the maps right only if it finds nothing to do. -/
theorem reached_of_onlyRemoved (hok : KeysOk s) (id : Int64)
    (hne : id.toInt32.toInt64 ≠ id)
    (h : OnlyRemoved id s (s.seedingTimerCallback held id.toInt32)) :
    s.tasksMap.lookup id = none ∧ s.tasksMap.lookup id.toInt32.toInt64 = none := by
  have hgone := h.lookup_eq_none
  unfold Agent.seedingTimerCallback at h hgone
  cases hnarrow : s.tasksMap.lookup id.toInt32.toInt64 with
  | none =>
    rw [hnarrow] at hgone
    exact ⟨hgone, rfl⟩
  | some ref =>
    simp only [hnarrow] at h
    have hid := (hok.byId _ ref hnarrow).1
    have hkept := (h.tasksMap id.toInt32.toInt64 ref).mpr ⟨hnarrow, ?_⟩
    · rw [(Quiet.dropTask held _ ref).tasksMap] at hkept
      exact absurd hid.symm (Dict.lookup_of_erase s.tasksMap _ _ ref hkept).1
    · intro hlook
      exact hne (hid.symm.trans (hok.byId id ref hlook).1)

/-- The timer of a task removes that task and no other exactly when its id survives the
callback's parameter, or it does not matter, and no other task stands under its keys. -/
theorem seeding_timer_iff (hok : KeysOk s) (t : Task) (delay : Int32) (taskid : Int64)
    (harmed : toSeeding t = some (delay, taskid)) (hid : 0 ≤ t.id.toInt) :
    OnlyRemoved t.id s (seedingTimer held taskid none s) ↔
      Reached s t.id ∧ ∀ ref, s.tasksMap.lookup t.id = some ref → OwnKeys s ref := by
  have hbound : taskid = t.id := by
    unfold toSeeding at harmed
    split at harmed
    · exact (Prod.mk.inj (Option.some.inj harmed)).2.symm
    · split at harmed
      · contradiction
      · exact (Prod.mk.inj (Option.some.inj harmed)).2.symm
  rw [hbound]
  simp only [seedingTimer]
  by_cases hsmall : t.id.toInt < 2147483648
  · have heq := (narrowed_eq_iff t.id hid).mpr hsmall
    unfold Agent.seedingTimerCallback
    rw [heq]
    cases hlook : s.tasksMap.lookup t.id with
    | none =>
      exact iff_of_true (onlyRemoved_none s t.id hlook)
        ⟨.inl hsmall, fun ref hsome => absurd hsome (by simp)⟩
    | some ref =>
      constructor
      · intro h
        refine ⟨.inl hsmall, ?_⟩
        rintro _ ⟨rfl⟩
        exact (onlyRemoved_erase held s hok t.id ref hlook).mp h
      · rintro ⟨_, hown⟩
        exact (onlyRemoved_erase held s hok t.id ref hlook).mpr (hown ref rfl)
  · have hne : t.id.toInt32.toInt64 ≠ t.id := fun heq =>
      hsmall ((narrowed_eq_iff t.id hid).mp heq)
    constructor
    · intro h
      have hnone := reached_of_onlyRemoved held s hok t.id hne h
      exact ⟨.inr hnone, fun ref hsome => absurd (hnone.1.symm.trans hsome) (by simp)⟩
    · rintro ⟨hlarge | ⟨hnone, hnarrow⟩, _⟩
      · exact absurd hlarge hsmall
      · unfold Agent.seedingTimerCallback
        rw [hnarrow]
        exact onlyRemoved_none s t.id hnone

end Callback

/-- Two tasks of one user, the second with the next id that an int takes for a one. -/
def twoTasks : Agent :=
  (final (next plainConf) (World.start plainConf none [])
    (addedAtOnce 0 (user 1001) (addFile .nocheckTask [1] [10]) (answering 1) ++
      addedAtOnce 0 (user 1001) (addFile .nocheckTask [2] [11]) (answering 4294967297))).agent

theorem keysOk_twoTasks : KeysOk twoTasks := keysOk_final plainConf none [] _

theorem seeding_timer_iff_first :
    OnlyRemoved 1 twoTasks (seedingTimer [] 1 none twoTasks) := by
  apply (seeding_timer_iff [] twoTasks keysOk_twoTasks (twoTasks.tasks 0) 0 1 (by decide)
    (by decide)).mpr
  refine ⟨.inl (by decide), ?_⟩
  intro ref href
  have hlook : twoTasks.tasksMap.lookup 1 = some 0 := by decide
  have hinfohash : twoTasks.infohashMap.lookup (twoTasks.tasks 0).infohash = some 0 := by decide
  have hdataPath : twoTasks.dataPathMap.lookup (twoTasks.tasks 0).getDataPath = some 0 := by decide
  obtain rfl : 0 = ref := Option.some.inj (hlook.symm.trans href)
  exact ⟨fun ref' h => Option.some.inj (h.symm.trans hinfohash),
    fun ref' h => Option.some.inj (h.symm.trans hdataPath)⟩

/-- The timer of the second task removes the first one. -/
theorem seeding_timer_narrows :
    ¬ ∀ (held : List TaskRef) (s : Agent) (t : Task) (delay : Int32) (taskid : Int64), KeysOk s →
      0 ≤ t.id.toInt → toSeeding t = some (delay, taskid) →
        OnlyRemoved t.id s (seedingTimer held taskid none s) := by
  intro hall
  have h := hall [] twoTasks (twoTasks.tasks 1) 0 4294967297 keysOk_twoTasks (by decide) (by decide)
  exact absurd h.lookup_eq_none (by decide)

end Gingko.SeedingTimers
