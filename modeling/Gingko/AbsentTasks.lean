import Gingko.GroupCalls

/-!
Calls on an infohash without a running task. They say so and change nothing, except
that setting options makes an entry without a task. A run in which options are only
set under keys of the map is the same without such calls.
-/
namespace Gingko.AbsentTasks

open KeyedMaps Base64Codec AgentTasks GroupTasks GroupAdds GroupCalls GuardedRuns

def Running (g : Group) (infohash : ByteString) : Prop :=
  ∃ ref, g.infohashMap.lookup infohash = some (some ref)

instance (g : Group) (infohash : ByteString) : Decidable (Running g infohash) :=
  decidable_of_iff (((g.infohashMap.lookup infohash).bind id).isSome = true) (by
    unfold Running
    cases g.infohashMap.lookup infohash with
    | none => simp
    | some pointer => cases pointer <;> simp)

/-- The calls that name one task. -/
inductive TaskCall where
  | setTaskOptions (downloadLimit uploadLimit connectionsLimit : Int32)
  | getTaskOptions
  | controlTask (type : ControlTaskType) (cred : UserCred)

inductive Answer where
  | status (status : ClientRpcStatus)
  | options (found : Option TaskOptions)
  deriving DecidableEq

section Calls

variable (env : GroupEnv)

def callTask (g : Group) (infohash : ByteString) : TaskCall → Option (Answer × Group)
  | .setTaskOptions download upload connections =>
    let (status, after) := setTaskOptions g ⟨infohash, download, upload, connections⟩
    some (.status status, after)
  | .getTaskOptions => some (.options (getTaskOptions g infohash), g)
  | .controlTask type cred =>
    (controlTask env g infohash false type cred).map fun done => (.status done.1, done.2)

/-- What says that the task does not exist. -/
def notExist : TaskCall → Answer
  | .getTaskOptions => .options none
  | _ => .status .taskNotExist

structure SameMaps (g g' : Group) : Prop where
  infohashMap : g'.infohashMap = g.infohashMap
  torrentMap : g'.torrentMap = g.torrentMap
  finishedInfohashList : g'.finishedInfohashList = g.finishedInfohashList

/-- The call says that the task does not exist, and leaves every map as it is. -/
def Refused (g : Group) (infohash : ByteString) (call : TaskCall) : Prop :=
  ∃ g', callTask env g infohash call = some (notExist call, g') ∧ SameMaps g g'

/-- Options are only set under a key of the map. -/
def NamesKey (g : Group) (infohash : ByteString) : TaskCall → Prop
  | .setTaskOptions _ _ _ => infohash ∈ g.infohashMap
  | _ => True

inductive Event where
  | call (infohash : ByteString) (call : TaskCall)
  | controlAll (type : ControlTaskType) (cred : UserCred)
  | add (rights : AddRights) (param : DownloadParam) (cred : UserCred)
  | resumeEntry (name : ByteString)
  | remove (ref : TaskRef) (timeout : Bool)
  | metadataReceived (ref : TaskRef) (infohash : ByteString)
  | dropFinished (keep : ByteString × TaskRef → Bool)

/-- The outside may answer differently each time. -/
def step (g : Group) (e : GroupEnv × Event) : Option Group :=
  match e.2 with
  | .call infohash call => (callTask e.1 g infohash call).map (·.2)
  | .controlAll type cred => (controlAllTasks e.1 g type cred).map (·.2)
  | .add rights param cred => some (addTask e.1 rights param cred g).group
  | .resumeEntry name => (addResumeEntry e.1 name g).map (·.group)
  | .remove ref timeout =>
    removeTorrent e.1 (changeTask g ref fun t => { t with isTimeout := t.isTimeout || timeout })
      ref false
  | .metadataReceived ref infohash => onMetadataReceived g ref infohash
  | .dropFinished keep => some (dropFinished e.1 keep g)

/-- A call on an infohash that has no running task. The empty text stands for the group. -/
def Idle (g : Group) : Event → Prop
  | .call infohash _ => infohash ≠ [] ∧ ¬ Running g infohash
  | _ => False

instance (g : Group) (e : Event) : Decidable (Idle g e) :=
  match e with
  | .call infohash _ => inferInstanceAs (Decidable (infohash ≠ [] ∧ ¬ Running g infohash))
  | .controlAll _ _ | .add _ _ _ | .resumeEntry _ | .remove _ _ | .metadataReceived _ _
  | .dropFinished _ => isFalse not_false

/-- The run without its idle calls. -/
def withoutIdle : Group → List (GroupEnv × Event) → List (GroupEnv × Event)
  | _, [] => []
  | g, e :: es =>
    match step g e with
    | none => e :: es
    | some g' => if Idle g e.2 then withoutIdle g' es else e :: withoutIdle g' es

/-- An idle call to set options finds an entry without a task. -/
def IdleNamesKey (g : Group) (e : GroupEnv × Event) : Prop :=
  ∀ infohash call, e.2 = .call infohash call → Idle g e.2 → NamesKey g infohash call

end Calls

section Absent

variable (env : GroupEnv) (g : Group) (infohash : ByteString)

theorem lookup_absent (habsent : ¬ Running g infohash) :
    g.infohashMap.lookup infohash = none ∨ g.infohashMap.lookup infohash = some none := by
  cases hlook : g.infohashMap.lookup infohash with
  | none => exact Or.inl rfl
  | some pointer =>
    cases pointer with
    | none => exact Or.inr rfl
    | some ref => exact absurd ⟨ref, hlook⟩ habsent

theorem callTask_absent (hne : infohash ≠ []) (habsent : ¬ Running g infohash) (call : TaskCall)
    (hkey : NamesKey g infohash call) :
    callTask env g infohash call = some (notExist call, g) := by
  have hlook := lookup_absent g infohash habsent
  cases call with
  | setTaskOptions download upload connections =>
    have hnull : g.infohashMap.lookup infohash = some none := by
      apply hlook.resolve_left
      intro hnone
      exact AList.lookup_eq_none.mp hnone hkey
    simp [callTask, setTaskOptions, hne, hnull, notExist]
  | getTaskOptions =>
    rcases hlook with hnone | hnull
    · simp [callTask, getTaskOptions, hne, hnone, notExist]
    · simp [callTask, getTaskOptions, hne, hnull, notExist]
  | controlTask type cred =>
    rcases hlook with hnone | hnull
    · simp [callTask, controlTask, controlTaskByInfohash, hne, hnone, notExist]
    · simp [callTask, controlTask, controlTaskByInfohash, hne, hnull, notExist]

theorem ne_nil_of_refused (call : TaskCall) (h : Refused env g infohash call) :
    infohash ≠ [] := by
  rintro rfl
  obtain ⟨g', hcall, -⟩ := h
  cases call with
  | setTaskOptions download upload connections =>
    simp [callTask, setTaskOptions, notExist] at hcall
  | getTaskOptions => simp [callTask, getTaskOptions, notExist] at hcall
  | controlTask type cred => simp [callTask, controlTask, notExist] at hcall

/-- A call on an absent task is refused unless it sets options under a new key. -/
theorem refused_iff (habsent : ¬ Running g infohash) (call : TaskCall) :
    Refused env g infohash call ↔ infohash ≠ [] ∧ NamesKey g infohash call := by
  constructor
  · intro hrefused
    have hne := ne_nil_of_refused env g infohash call hrefused
    refine ⟨hne, ?_⟩
    obtain ⟨g', hcall, hmaps⟩ := hrefused
    cases call with
    | setTaskOptions download upload connections =>
      by_contra hkey
      have hnone : g.infohashMap.lookup infohash = none := AList.lookup_eq_none.mpr hkey
      simp only [callTask, setTaskOptions, hne, if_false, hnone, Option.some.injEq,
        Prod.mk.injEq] at hcall
      have hmap := hmaps.infohashMap
      rw [← hcall.2] at hmap
      apply hkey
      show infohash ∈ g.infohashMap
      rw [← hmap]
      exact (AList.mem_insert _).mpr (Or.inl rfl)
    | _ => trivial
  · intro hboth
    exact ⟨g, callTask_absent env g infohash hboth.1 habsent call hboth.2, rfl, rfl, rfl⟩

end Absent

section Runs

theorem step_idle (g g' : Group) (e : GroupEnv × Event) (hidle : Idle g e.2)
    (hguard : IdleNamesKey g e) (hstep : step g e = some g') : g' = g := by
  obtain ⟨env, event⟩ := e
  cases event with
  | call infohash call =>
    have hcall := callTask_absent env g infohash hidle.1 hidle.2 call
      (hguard infohash call rfl hidle)
    simp only [step, hcall, Option.map_some] at hstep
    exact (Option.some.inj hstep).symm
  | _ => exact absurd hidle not_false

/-- Leaving out the idle calls does not change where the run leads. -/
theorem foldlM_withoutIdle (g g' : Group) (es : List (GroupEnv × Event))
    (hrun : Path step IdleNamesKey g es g') : (withoutIdle g es).foldlM step g = some g' := by
  induction hrun with
  | nil g => rfl
  | cons g mid g' e es henabled hguard hrest ih =>
    simp only [withoutIdle, henabled]
    split
    · rename_i hidle
      rw [step_idle g mid e hidle hguard henabled] at ih ⊢
      exact ih
    · simp only [List.foldlM_cons, henabled]
      exact ih

/-- For every state of the manager, and for every run in which idle calls only set
options under keys of the map. -/
theorem absent_calls (g : Group) :
    (∀ env infohash, ¬ Running g infohash → ∀ call, Refused env g infohash call ↔
      infohash ≠ [] ∧ NamesKey g infohash call) ∧
    ∀ es after, Path step IdleNamesKey g es after → ∃ without,
      (withoutIdle g es).foldlM step g = some without ∧ ∀ env rights param cred,
        addTask env rights param cred without = addTask env rights param cred after := by
  constructor
  · intro env infohash habsent call
    exact refused_iff env g infohash habsent call
  · intro es after hrun
    exact ⟨after, foldlM_withoutIdle g after es hrun, fun _ _ _ _ => rfl⟩

end Runs

section Samples

/-- Options are asked for and set for a download before it is added. -/
def earlyCalls : List (GroupEnv × Event) :=
  [(sampleEnv true, .call sampleHash .getTaskOptions),
    (sampleEnv true, .call sampleHash (.setTaskOptions 1000 1000 10))]

theorem absent_calls_get : ∃ without,
    (withoutIdle emptyGroup (earlyCalls.take 1)).foldlM step emptyGroup = some without ∧
      (addTask (sampleEnv true) everybody sampleParam ⟨1, 1, 1⟩ without).status = .success := by
  have hrun : Path step IdleNamesKey emptyGroup (earlyCalls.take 1) emptyGroup := by
    apply path_of_steps _ _ _ _ rfl
    intro g e he infohash call hcall _
    obtain rfl : e = (sampleEnv true, .call sampleHash .getTaskOptions) := by
      simpa [earlyCalls] using he
    obtain ⟨rfl, rfl⟩ := Event.call.inj hcall
    trivial
  obtain ⟨without, hwithout, hadd⟩ := (absent_calls emptyGroup).2 _ _ hrun
  refine ⟨without, hwithout, ?_⟩
  rw [hadd]
  rfl

/-- The call that sets options makes an entry, and the download cannot be added. -/
theorem early_options_block_add :
    ¬ Running emptyGroup sampleHash ∧ ∃ after,
      earlyCalls.foldlM step emptyGroup = some after ∧ ¬ SameMaps emptyGroup after ∧
        (addTask (sampleEnv true) everybody sampleParam ⟨1, 1, 1⟩ after).status = .addTaskExist ∧
        (addTask (sampleEnv true) everybody sampleParam ⟨1, 1, 1⟩ emptyGroup).status =
          .success := by
  have habsent : ¬ Running emptyGroup sampleHash := by
    intro hrunning
    obtain ⟨ref, hlook⟩ := hrunning
    simp [emptyGroup, Group.start] at hlook
  have hafter : ∃ after, earlyCalls.foldlM step emptyGroup = some after ∧
      after.infohashMap.lookup sampleHash = some none ∧
      (addTask (sampleEnv true) everybody sampleParam ⟨1, 1, 1⟩ after).status = .addTaskExist :=
    ⟨_, rfl, rfl, rfl⟩
  obtain ⟨after, hrun, hentry, hadd⟩ := hafter
  refine ⟨habsent, after, hrun, ?_, hadd, rfl⟩
  intro hmaps
  rw [hmaps.infohashMap] at hentry
  simp [emptyGroup, Group.start] at hentry

end Samples
end Gingko.AbsentTasks
