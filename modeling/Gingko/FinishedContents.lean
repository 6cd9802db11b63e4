import Gingko.FinishedResumes
import Gingko.UrlRenames

/-!
What the steps of a group process do to the file that its finished tasks should have.
The file changes with the list and with the statuses of the listed tasks. A new task is
never a listed one, since every task that the list or the map has is counted.
-/
namespace Gingko.FinishedContents

open KeyedMaps Base64Codec AgentTasks GroupTasks GroupAdds GroupCalls GuardedRuns
open Interleavings GroupRemovals GroupFinishes FinishedResumes

/-- The tasks of the list and of the map have been made. -/
structure Counted (g : Group) : Prop where
  listed : ∀ e ∈ g.finishedInfohashList, e.2 < g.nextRef
  mapped : ∀ infohash ref, g.infohashMap.lookup infohash = some (some ref) → ref < g.nextRef

def Listed (g : Group) (ref : TaskRef) : Prop :=
  ref ∈ g.finishedInfohashList.map Prod.snd

/-- The same entries, with the same statuses. -/
structure SameList (g g' : Group) : Prop where
  list : g'.finishedInfohashList = g.finishedInfohashList
  status : ∀ e ∈ g.finishedInfohashList, (g'.tasks e.2).taskStatus = (g.tasks e.2).taskStatus

section Groups

variable {env : GroupEnv} {g g' : Group}

theorem SameList.resumeFile (h : SameList g g') :
    generateFinishedListResumeFile g' = generateFinishedListResumeFile g := by
  have hentries : ∀ entries : List (ByteString × TaskRef),
      (∀ e ∈ entries, e ∈ g.finishedInfohashList) → ∀ resumeData : ResumeDict,
        entries.foldl (writeEntry g') resumeData = entries.foldl (writeEntry g) resumeData := by
    intro entries
    induction entries with
    | nil => exact fun _ _ => rfl
    | cons e rest ih =>
      intro hmem resumeData
      obtain ⟨hfirst, hrest⟩ := List.forall_mem_cons.mp hmem
      rw [List.foldl_cons, List.foldl_cons, ih hrest, writeEntry, h.status e hfirst, writeEntry]
  unfold generateFinishedListResumeFile
  rw [h.list, hentries _ fun _ he => he]

theorem sameList_changeTask (ref : TaskRef) (f : GroupTask → GroupTask)
    (hf : Listed g ref → (f (g.tasks ref)).taskStatus = (g.tasks ref).taskStatus) :
    SameList g (changeTask g ref f) where
  list := rfl
  status e he := by
    show (Function.update g.tasks ref (f (g.tasks ref)) e.2).taskStatus = _
    by_cases heq : e.2 = ref
    · rw [heq, Function.update_self]
      exact hf (heq ▸ List.mem_map_of_mem he)
    · rw [Function.update_of_ne heq]

theorem sameList_added (h : Added g g') (hcounted : Counted g) : SameList g g' := by
  cases h with
  | rejected session resumeDir hgrows => exact ⟨rfl, fun _ _ => rfl⟩
  | registered session resumeDir torrentMap t hgrows hgot hfree =>
    refine ⟨rfl, fun e he => ?_⟩
    show (Function.update g.tasks g.nextRef t e.2).taskStatus = _
    rw [Function.update_of_ne (Nat.ne_of_lt (hcounted.listed e he))]

theorem sameList_persist (t : GroupTask) : SameList g (g.persist env t) := by
  rw [persist_eq]
  exact ⟨rfl, fun _ _ => rfl⟩

theorem sameList_dropFinished (keep : ByteString × TaskRef → Bool)
    (hkept : g.finishedInfohashList.all keep) : SameList g (dropFinished env keep g) := by
  obtain ⟨resumeDir, hdropped⟩ := dropFinished_eq env keep g
  rw [hdropped]
  exact ⟨List.filter_eq_self.mpr (List.all_eq_true.mp hkept), fun _ _ => rfl⟩

theorem counted_added (h : Added g g') (hcounted : Counted g) : Counted g' := by
  cases h with
  | rejected session resumeDir hgrows => exact ⟨hcounted.listed, hcounted.mapped⟩
  | registered session resumeDir torrentMap t hgrows hgot hfree =>
    refine ⟨fun e he => Nat.lt_succ_of_lt (hcounted.listed e he), ?_⟩
    intro infohash ref hlook
    obtain rfl | hne := eq_or_ne infohash t.infohash
    · rw [AList.lookup_insert] at hlook
      obtain rfl := Option.some.inj (Option.some.inj hlook)
      exact Nat.lt_succ_self _
    · rw [AList.lookup_insert_ne hne] at hlook
      exact Nat.lt_succ_of_lt (hcounted.mapped infohash ref hlook)

theorem counted_dropFinished (keep : ByteString × TaskRef → Bool) (hcounted : Counted g) :
    Counted (dropFinished env keep g) := by
  obtain ⟨resumeDir, hdropped⟩ := dropFinished_eq env keep g
  rw [hdropped]
  exact ⟨fun e he => hcounted.listed e (List.mem_of_mem_filter he), hcounted.mapped⟩

theorem counted_persist (t : GroupTask) (hcounted : Counted g) : Counted (g.persist env t) := by
  rw [persist_eq]
  exact ⟨hcounted.listed, hcounted.mapped⟩

theorem counted_load (file : Option ResumeDict) (hcounted : Counted g) :
    Counted (loadFromFinishedResume env file g) := by
  have hentries : ∀ (entries : List (ByteString × TaskStatus)) (left : Group), Counted left →
      Counted (entries.foldl (loadEntry env) left) := by
    intro entries
    induction entries with
    | nil => exact fun _ h => h
    | cons e rest ih =>
      intro left hleft
      refine ih _ ⟨fun e' he' => ?_, fun infohash ref hlook =>
        Nat.lt_succ_of_lt (hleft.mapped infohash ref hlook)⟩
      obtain hold | hnew := List.mem_append.mp he'
      · exact Nat.lt_succ_of_lt (hleft.listed e' hold)
      · rw [List.mem_singleton.mp hnew]
        exact Nat.lt_succ_self _
  cases file with
  | none => exact hcounted
  | some resumeData =>
    exact hentries _ _ ⟨fun e he => absurd he List.not_mem_nil, hcounted.mapped⟩

end Groups

section Steps

variable {T : Type} [DecidableEq T]

/-- The first entry of the infohash goes. -/
def deleteFinishedTaskByInfohash (g : Group) (infohash : ByteString) : Option Group :=
  if infohash = [] then none
  else (g.finishedInfohashList.find? fun e => e.1 = infohash).map fun e =>
    { g with finishedInfohashList := g.finishedInfohashList.erase e }

/-- It is the deletion from a list that may hold null pointers, on a list that holds none;
and the flag is set when an entry goes. -/
theorem deleteFinishedTaskByInfohash_map (g : Group) (infohash : ByteString) (changed : Bool) :
    UrlRenames.deleteFinishedTaskByInfohash ⟨g.infohashMap,
      g.finishedInfohashList.map fun e => (e.1, some e.2), changed⟩ infohash =
        (deleteFinishedTaskByInfohash g infohash).map fun left =>
          ⟨left.infohashMap, left.finishedInfohashList.map fun e => (e.1, some e.2), true⟩ := by
  have hinjective : Function.Injective fun e : ByteString × TaskRef => (e.1, some e.2) := by
    rintro ⟨a, ref⟩ ⟨b, ref'⟩ heq
    simpa using heq
  unfold UrlRenames.deleteFinishedTaskByInfohash deleteFinishedTaskByInfohash
  split
  · rfl
  · rw [List.find?_map, Option.map_map, Option.map_map]
    congr 1
    funext e
    simp only [Function.comp_apply, List.map_erase hinjective]

/-- What is left of the rename of a finished entry after its read past the end of the map,
whichever task that has given. -/
def renameFinished (g : Group) (torrentUrl infohash : ByteString) (task : TaskRef) : Group :=
  match deleteFinishedTaskByInfohash g torrentUrl with
  | none => g
  | some g => { g with finishedInfohashList := g.finishedInfohashList ++ [(infohash, task)] }

/-- The steps of a process, and the status of a task that is brought up to date outside
the lock. -/
inductive ListEvent (T : Type) where
  | process (e : ProcessEvent T)
  | updateStatus (ref : TaskRef) (status : TaskStatus)
  | renameFinished (torrentUrl infohash : ByteString) (task : TaskRef)

def listStep (s : State T) (e : GroupEnv × ListEvent T) : Option (State T) :=
  match e.2 with
  | .process event => processStep s (e.1, event)
  | .updateStatus ref status => some { s with shared := { s.shared with
      group := changeTask s.shared.group ref fun t => { t with taskStatus := status } } }
  | .renameFinished torrentUrl infohash task =>
    if task < s.shared.group.nextRef then
      some { s with shared := { s.shared with
        group := renameFinished s.shared.group torrentUrl infohash task } }
    else none

/-- The step sets `finished_infohash_list_changed_`. -/
def setsChanged (s : State T) (e : ListEvent T) : Bool :=
  match e with
  | .process (.group (.dropFinished keep)) => !s.shared.group.finishedInfohashList.all keep
  | .process (.group (.advance t)) | .process (.group (.nameInside t _ _)) =>
    match s.threads t with
    | .locking ref _ _ =>
      (s.shared.group.infohashMap.lookup (s.shared.group.tasks ref).infohash).join.isSome
    | _ => false
  | .renameFinished torrentUrl _ _ =>
    (deleteFinishedTaskByInfohash s.shared.group torrentUrl).isSome
  | _ => false

/-- The step writes to the list, or to the status of a listed task, and does not set the
flag: a finish ends after its move, metadata arrive, a status is updated, a file is read. -/
def WritesListed (s : State T) (e : ListEvent T) : Prop :=
  match e with
  | .process (.load file) => file ≠ none
  | .process (.group (.advance t)) =>
    match s.threads t with
    | .ending ref _ | .naming ref _ => Listed s.shared.group ref
    | _ => False
  | .updateStatus ref _ => Listed s.shared.group ref
  | _ => False

variable {env : GroupEnv}

theorem counted_changeTask {g : Group} (h : Counted g) (ref : TaskRef)
    (f : GroupTask → GroupTask) : Counted (changeTask g ref f) := ⟨h.listed, h.mapped⟩

theorem counted_rekeyed {g : Group} {torrentUrl infohash : ByteString} {task : Option TaskRef}
    (hlook : g.infohashMap.lookup torrentUrl = some task) (hcounted : Counted g) :
    Counted { g with
      infohashMap := (insertNew infohash task g.infohashMap).erase torrentUrl } := by
  refine ⟨hcounted.listed, fun other ref hother => ?_⟩
  have hinserted := (Dict.lookup_of_erase _ _ _ _ hother).2
  unfold insertNew at hinserted
  split at hinserted
  · obtain rfl | hne := eq_or_ne other infohash
    · rw [AList.lookup_insert] at hinserted
      exact hcounted.mapped torrentUrl ref (hlook.trans hinserted)
    · rw [AList.lookup_insert_ne hne] at hinserted
      exact hcounted.mapped other ref hinserted
  · exact hcounted.mapped other ref hinserted

/-- An entry of the map goes to the list, whatever keys are read for that. -/
theorem counted_moved {g : Group} {infohash : ByteString} {found : TaskRef} (hcounted : Counted g)
    (hlook : g.infohashMap.lookup infohash = some (some found)) {listed erased : ByteString}
    {tasks : TaskRef → GroupTask} {torrentMap : Dict TorrentHandle TaskRef} :
    Counted { g with
      finishedInfohashList := g.finishedInfohashList ++ [(listed, found)]
      infohashMap := g.infohashMap.erase erased
      torrentMap := torrentMap
      tasks := tasks } := by
  constructor
  · intro e he
    obtain hold | hnew := List.mem_append.mp he
    · exact hcounted.listed e hold
    · rw [List.mem_singleton.mp hnew]
      exact hcounted.mapped _ found hlook
  · intro other ref' hother
    exact hcounted.mapped other ref' (Dict.lookup_of_erase _ _ _ _ hother).2

theorem counted_advance {g g' : Group} {place : Place} (h : Advanced env g place g')
    (hcounted : Counted g) : Counted g' := by
  cases h with
  | same => exact hcounted
  | removed ref byUser handle => exact ⟨hcounted.listed, hcounted.mapped⟩
  | moved ref byUser handle found hlook => exact counted_moved hcounted hlook
  | ended ref byUser => exact counted_changeTask hcounted ref _
  | persisted ref => exact counted_persist _ hcounted
  | named ref infohash => exact counted_changeTask hcounted ref _
  | rekeyed ref task hlook => exact counted_rekeyed hlook hcounted

theorem counted_step {s s' : State T} {e : Event T} (hcounted : Counted s.shared.group)
    (h : step s (env, e) = some s') : Counted s'.shared.group := by
  cases e with
  | add rights param cred =>
    obtain rfl := Option.some.inj h
    exact counted_added (added_addTask rights param cred) hcounted
  | resumeEntry name =>
    obtain ⟨after, hafter, rfl⟩ := Option.map_eq_some_iff.mp h
    exact counted_added (added_addResumeEntry hafter) hcounted
  | dropFinished keep =>
    obtain rfl := Option.some.inj h
    exact counted_dropFinished keep hcounted
  | cancel t ref =>
    rw [beginRemoval_group h]
    exact counted_changeTask hcounted ref _
  | giveUp t ref isTimeout =>
    rw [beginRemoval_group h]
    exact counted_changeTask hcounted ref _
  | metadataReceived t handle infohash =>
    simp only [step] at h
    split at h
    · obtain ⟨moved, hmoved, rfl⟩ := Option.map_eq_some_iff.mp h
      rw [System.act_shared, metadata_group hmoved]
      exact hcounted
    · contradiction
  | nameInside t u listed =>
    obtain ⟨ref, byUser, handle, infohash, found, -, -, hlook, hgroup⟩ := nameInside_cases h
    rw [hgroup]
    exact counted_moved hcounted hlook
  | advance t =>
    obtain ⟨moved, hmoved, rfl⟩ := Option.map_eq_some_iff.mp h
    exact counted_advance (advanced hmoved) hcounted

theorem counted_renameFinished {g : Group} {torrentUrl infohash : ByteString} {task : TaskRef}
    (hcounted : Counted g) (htask : task < g.nextRef) :
    Counted (renameFinished g torrentUrl infohash task) := by
  unfold renameFinished
  cases hdelete : deleteFinishedTaskByInfohash g torrentUrl with
  | none => exact hcounted
  | some left =>
    obtain ⟨-, hdeleted⟩ := Option.ite_none_left_eq_some.mp hdelete
    obtain ⟨entry, -, rfl⟩ := Option.map_eq_some_iff.mp hdeleted
    refine ⟨fun e he => ?_, hcounted.mapped⟩
    obtain hold | hnew := List.mem_append.mp he
    · exact hcounted.listed e (List.mem_of_mem_erase hold)
    · rw [List.mem_singleton.mp hnew]
      exact htask

theorem counted_listStep {s s' : State T} {e : GroupEnv × ListEvent T}
    (hcounted : Counted s.shared.group) (h : listStep s e = some s') :
    Counted s'.shared.group := by
  obtain ⟨env, event⟩ := e
  cases event with
  | process event =>
    cases event with
    | group event => exact counted_step hcounted h
    | load file =>
      obtain rfl := Option.some.inj h
      exact counted_load file hcounted
  | updateStatus ref status =>
    obtain rfl := Option.some.inj h
    exact ⟨hcounted.listed, hcounted.mapped⟩
  | renameFinished torrentUrl infohash task =>
    obtain ⟨htask, hnext⟩ := Option.ite_none_right_eq_some.mp h
    obtain rfl := Option.some.inj hnext
    exact counted_renameFinished hcounted htask

/-- A step that moves no task and ends no listed one leaves the list as it is. -/
theorem sameList_advance {g g' : Group} {place : Place} (h : Advanced env g place g')
    (hunmoved : ∀ ref byUser handle, place = .locking ref byUser handle →
      (g.infohashMap.lookup (g.tasks ref).infohash).join.isSome = false)
    (hunended : ∀ ref byUser, place = .ending ref byUser → ¬ Listed g ref)
    (hunnamed : ∀ ref infohash, place = .naming ref infohash → ¬ Listed g ref) :
    SameList g g' := by
  cases h with
  | same => exact ⟨rfl, fun _ _ => rfl⟩
  | removed ref byUser handle => exact ⟨rfl, fun _ _ => rfl⟩
  | moved ref byUser handle found hlook =>
    have hnone := hunmoved ref byUser handle rfl
    rw [hlook] at hnone
    contradiction
  | ended ref byUser =>
    exact sameList_changeTask ref _ fun hlisted => absurd hlisted (hunended ref byUser rfl)
  | persisted ref => exact sameList_persist _
  | named ref infohash =>
    exact sameList_changeTask ref _ fun hlisted => absurd hlisted (hunnamed ref infohash rfl)
  | rekeyed ref task hlook => exact ⟨rfl, fun _ _ => rfl⟩

theorem sameList_step {s s' : State T} {e : Event T} (hcounted : Counted s.shared.group)
    (h : step s (env, e) = some s') (hunset : setsChanged s (.process (.group e)) = false)
    (hunwritten : ¬ WritesListed s (.process (.group e))) :
    SameList s.shared.group s'.shared.group := by
  cases e with
  | add rights param cred =>
    obtain rfl := Option.some.inj h
    exact sameList_added (added_addTask rights param cred) hcounted
  | resumeEntry name =>
    obtain ⟨after, hafter, rfl⟩ := Option.map_eq_some_iff.mp h
    exact sameList_added (added_addResumeEntry hafter) hcounted
  | dropFinished keep =>
    obtain rfl := Option.some.inj h
    exact sameList_dropFinished keep (by simpa [setsChanged] using hunset)
  | cancel t ref =>
    rw [beginRemoval_group h]
    exact sameList_changeTask ref _ fun _ => rfl
  | giveUp t ref isTimeout =>
    rw [beginRemoval_group h]
    exact sameList_changeTask ref _ fun _ => rfl
  | metadataReceived t handle infohash =>
    simp only [step] at h
    split at h
    · obtain ⟨moved, hmoved, rfl⟩ := Option.map_eq_some_iff.mp h
      rw [System.act_shared, metadata_group hmoved]
      exact ⟨rfl, fun _ _ => rfl⟩
    · contradiction
  | nameInside t u listed =>
    obtain ⟨ref, byUser, handle, infohash, found, ht, -, hlook, -⟩ := nameInside_cases h
    simp [setsChanged, ht, hlook] at hunset
  | advance t =>
    obtain ⟨moved, hmoved, rfl⟩ := Option.map_eq_some_iff.mp h
    refine sameList_advance (advanced hmoved) ?_ ?_ ?_
    · intro ref byUser handle hplace
      simpa only [setsChanged, hplace] using hunset
    · intro ref byUser hplace
      simpa only [WritesListed, hplace] using hunwritten
    · intro ref infohash hplace
      simpa only [WritesListed, hplace] using hunwritten

/-- The file that the list should have stays, unless a step sets the flag or writes to a
listed task without setting it. -/
theorem resumeFile_listStep {s s' : State T} {e : GroupEnv × ListEvent T}
    (hcounted : Counted s.shared.group) (h : listStep s e = some s')
    (hunset : setsChanged s e.2 = false) (hunwritten : ¬ WritesListed s e.2) :
    generateFinishedListResumeFile s'.shared.group =
      generateFinishedListResumeFile s.shared.group := by
  obtain ⟨env, event⟩ := e
  cases event with
  | process event =>
    cases event with
    | group event => exact (sameList_step hcounted h hunset hunwritten).resumeFile
    | load file =>
      obtain rfl := Option.some.inj h
      obtain rfl := not_not.mp hunwritten
      rfl
  | updateStatus ref status =>
    obtain rfl := Option.some.inj h
    exact (sameList_changeTask ref _ fun hlisted => absurd hlisted hunwritten).resumeFile
  | renameFinished torrentUrl infohash task =>
    obtain ⟨-, hnext⟩ := Option.ite_none_right_eq_some.mp h
    obtain rfl := Option.some.inj hnext
    have hnone : deleteFinishedTaskByInfohash s.shared.group torrentUrl = none :=
      Option.not_isSome_iff_eq_none.mp (by simpa [setsChanged] using hunset)
    simp only [renameFinished, hnone]

end Steps
end Gingko.FinishedContents
