import Gingko.GroupFinishes

/-!
The file of the finished tasks. A group process writes the statuses of its finished tasks
into a dictionary with the infohashes for keys, and reads them back when it starts again.
The list it writes may hold an infohash twice, the dictionary holds it once. That the
dictionary and the statuses are read as they were written is taken from the libraries.
-/
namespace Gingko.FinishedResumes

open KeyedMaps Base64Codec AgentTasks GroupTasks GroupAdds GroupCalls GuardedRuns
open Interleavings GroupRemovals GroupFinishes

/-- What the file holds; the order of its keys is left out. -/
abbrev ResumeDict := Dict ByteString TaskStatus

/-- A later task overwrites an earlier one of the same infohash. -/
def writeEntry (g : Group) (resumeData : ResumeDict) (e : ByteString × TaskRef) : ResumeDict :=
  resumeData.insert e.1 (g.tasks e.2).taskStatus

/-- The file after a save that goes through. The empty list has none. -/
def generateFinishedListResumeFile (g : Group) : Option ResumeDict :=
  if g.finishedInfohashList = [] then none
  else some (g.finishedInfohashList.foldl (writeEntry g) ∅)

section Loads

variable (env : GroupEnv)

/-- A new task with the status that was read. -/
def loadEntry (g : Group) (e : ByteString × TaskStatus) : Group :=
  { g with
    tasks := Function.update g.tasks g.nextRef { newTask env with taskStatus := e.2 }
    nextRef := g.nextRef + 1
    finishedInfohashList := g.finishedInfohashList ++ [(e.1, g.nextRef)] }

/-- Without a file the list stays as it is. -/
def loadFromFinishedResume (file : Option ResumeDict) (g : Group) : Group :=
  match file with
  | none => g
  | some resumeData => (resumeData.entries.map fun e => (e.1, e.2)).foldl (loadEntry env)
      { g with finishedInfohashList := [] }

end Loads

/-- The infohashes of the finished tasks, and with their statuses. -/
def finishedKeys (g : Group) : List ByteString := g.finishedInfohashList.map Prod.fst

def finishedStatuses (g : Group) : List (ByteString × TaskStatus) :=
  g.finishedInfohashList.map fun e => (e.1, (g.tasks e.2).taskStatus)

/-- A new process that reads what was saved has the same finished tasks. -/
def RoundTrips (g : Group) : Prop :=
  ∀ env settings, (finishedStatuses (loadFromFinishedResume env (generateFinishedListResumeFile g)
    (Group.start settings))).Perm (finishedStatuses g)

section RoundTrip

variable {g : Group}

theorem finishedStatuses_keys (g : Group) :
    (finishedStatuses g).map Prod.fst = finishedKeys g := by
  rw [finishedStatuses, finishedKeys, List.map_map]
  rfl

theorem loadEntry_taskStatus (env : GroupEnv) (g : Group) (e : ByteString × TaskStatus)
    (ref : TaskRef) : ((loadEntry env g e).tasks ref).taskStatus =
      if ref = g.nextRef then e.2 else (g.tasks ref).taskStatus := by
  simp only [loadEntry, Function.update_apply]
  split <;> rfl

/-- The tasks that are loaded are new ones, so what is there before stays. -/
theorem finishedStatuses_loadEntry (env : GroupEnv) (g : Group) (e : ByteString × TaskStatus)
    (hold : ∀ e ∈ g.finishedInfohashList, e.2 < g.nextRef) :
    finishedStatuses (loadEntry env g e) = finishedStatuses g ++ [e] := by
  have hlist : (loadEntry env g e).finishedInfohashList =
    g.finishedInfohashList ++ [(e.1, g.nextRef)] := rfl
  rw [finishedStatuses, hlist, List.map_append, List.map_singleton, loadEntry_taskStatus,
    if_pos rfl]
  congr 1
  refine List.map_congr_left fun e' he' => ?_
  rw [loadEntry_taskStatus, if_neg (Nat.ne_of_lt (hold e' he'))]

theorem finishedStatuses_loadEntries (env : GroupEnv) (entries : List (ByteString × TaskStatus))
    (g : Group) (hold : ∀ e ∈ g.finishedInfohashList, e.2 < g.nextRef) :
    finishedStatuses (entries.foldl (loadEntry env) g) = finishedStatuses g ++ entries := by
  induction entries generalizing g with
  | nil => exact (List.append_nil _).symm
  | cons e rest ih =>
    have hnext : ∀ e' ∈ (loadEntry env g e).finishedInfohashList,
        e'.2 < (loadEntry env g e).nextRef := by
      intro e' he'
      obtain hbefore | hnew := List.mem_append.mp he'
      · exact Nat.lt_succ_of_lt (hold e' hbefore)
      · rw [List.mem_singleton.mp hnew]
        exact Nat.lt_succ_self _
    rw [List.foldl_cons, ih _ hnext, finishedStatuses_loadEntry env g e hold, List.append_assoc,
      List.singleton_append]

theorem finishedStatuses_load (env : GroupEnv) (resumeData : ResumeDict) (g : Group) :
    finishedStatuses (loadFromFinishedResume env (some resumeData) g) =
      resumeData.entries.map fun e => (e.1, e.2) := by
  rw [loadFromFinishedResume, finishedStatuses_loadEntries]
  · rfl
  · exact fun e h => absurd h List.not_mem_nil

/-- Keys that are all new are added to the dictionary one by one. -/
theorem entries_writeEntries (g : Group) (entries : List (ByteString × TaskRef))
    (resumeData : ResumeDict) (hnodup : (entries.map Prod.fst).Nodup)
    (hnew : ∀ e ∈ entries, e.1 ∉ resumeData) :
    ((entries.foldl (writeEntry g) resumeData).entries.map fun e => (e.1, e.2)).Perm
      ((resumeData.entries.map fun e => (e.1, e.2)) ++
        entries.map fun e => (e.1, (g.tasks e.2).taskStatus)) := by
  induction entries generalizing resumeData with
  | nil =>
    rw [List.map_nil, List.append_nil]
    exact List.Perm.refl _
  | cons e rest ih =>
    obtain ⟨hnot, hrest⟩ := List.nodup_cons.mp hnodup
    obtain ⟨hfirst, hothers⟩ := List.forall_mem_cons.mp hnew
    have hlater : ∀ e' ∈ rest, e'.1 ∉ writeEntry g resumeData e := by
      intro e' he' hmem
      obtain heq | hold := (AList.mem_insert _).mp hmem
      · exact hnot (heq ▸ List.mem_map_of_mem he')
      · exact hothers e' he' hold
    refine (ih _ hrest hlater).trans ?_
    rw [writeEntry, AList.entries_insert_of_notMem hfirst, List.map_cons, List.map_cons]
    exact List.perm_middle.symm

theorem nodup_dict_keys (resumeData : ResumeDict) :
    ((resumeData.entries.map fun e => (e.1, e.2)).map Prod.fst).Nodup := by
  rw [List.map_map]
  exact resumeData.nodupKeys

/-- What is read back is what was saved exactly when no infohash is there twice. -/
theorem roundTrips_iff_nodup (g : Group) : RoundTrips g ↔ (finishedKeys g).Nodup := by
  unfold RoundTrips generateFinishedListResumeFile
  by_cases hempty : g.finishedInfohashList = []
  · refine iff_of_true ?_ ?_
    · intro env settings
      rw [if_pos hempty, finishedStatuses, finishedStatuses, hempty]
      exact List.Perm.refl _
    · rw [finishedKeys, hempty]
      exact List.nodup_nil
  · rw [if_neg hempty]
    simp only [finishedStatuses_load]
    constructor
    · intro h
      have hkeys := ((h (sampleEnv true) ⟨0, 0, 0⟩).map Prod.fst).nodup_iff.mp
        (nodup_dict_keys _)
      rwa [finishedStatuses_keys] at hkeys
    · intro hnodup _ _
      exact entries_writeEntries g g.finishedInfohashList ∅ hnodup fun e _ => AList.notMem_empty e.1

end RoundTrip

section Lists

variable {env : GroupEnv} {g g' : Group}

theorem finishedKeys_added (h : Added g g') : finishedKeys g' = finishedKeys g := by
  cases h <;> rfl

theorem finishedKeys_persist (t : GroupTask) :
    finishedKeys (g.persist env t) = finishedKeys g := by
  rw [persist_eq]
  rfl

theorem finishedKeys_dropFinished (keep : ByteString × TaskRef → Bool) :
    (finishedKeys (dropFinished env keep g)).Sublist (finishedKeys g) := by
  obtain ⟨resumeDir, hdropped⟩ := dropFinished_eq env keep g
  rw [hdropped]
  exact List.filter_sublist.map Prod.fst

theorem nodup_load (file : Option ResumeDict) (hnodup : (finishedKeys g).Nodup) :
    (finishedKeys (loadFromFinishedResume env file g)).Nodup := by
  cases file with
  | none => exact hnodup
  | some resumeData =>
    rw [← finishedStatuses_keys, finishedStatuses_load]
    exact nodup_dict_keys resumeData

end Lists

section Runs

variable {T : Type} [DecidableEq T]

/-- What a process does: what its threads do, and reading the file of the finished tasks. -/
inductive ProcessEvent (T : Type) where
  | group (e : Event T)
  | load (file : Option ResumeDict)

def processStep (s : State T) (e : GroupEnv × ProcessEvent T) : Option (State T) :=
  match e.2 with
  | .group event => step s (e.1, event)
  | .load file => some { s with shared := { s.shared with
      group := loadFromFinishedResume e.1 file s.shared.group } }

/-- No task goes to the finished list under an infohash that the list holds. -/
def FinishesNew (s : State T) (e : GroupEnv × ProcessEvent T) : Prop :=
  match e.2 with
  | .group (.advance t) =>
    match s.threads t with
    | .locking ref _ _ =>
      (s.shared.group.infohashMap.lookup (s.shared.group.tasks ref).infohash).join.isSome →
        (s.shared.group.tasks ref).infohash ∉ finishedKeys s.shared.group
    | _ => True
  | .group (.nameInside t u listed) =>
    match s.threads t, s.threads u with
    | .locking ref _ _, .naming _ infohash =>
      (if listed then (s.shared.group.tasks ref).infohash else infohash) ∉
        finishedKeys s.shared.group
    | _, _ => True
  | _ => True

/-- What a step of a thread does to the manager. -/
inductive Advanced (env : GroupEnv) (g : Group) : Place → Group → Prop
  | same (place : Place) : Advanced env g place g
  | removed (ref : TaskRef) (byUser : Bool) (handle : TorrentHandle) :
      Advanced env g (.removing ref byUser handle)
        { g with session := g.session.remove handle }
  | moved (ref : TaskRef) (byUser : Bool) (handle : TorrentHandle) (found : TaskRef)
      (hlook : g.infohashMap.lookup (g.tasks ref).infohash = some (some found)) :
      Advanced env g (.locking ref byUser handle) { g with
        finishedInfohashList := g.finishedInfohashList ++ [((g.tasks ref).infohash, found)]
        infohashMap := g.infohashMap.erase (g.tasks ref).infohash
        torrentMap := g.torrentMap.erase handle }
  | ended (ref : TaskRef) (byUser : Bool) :
      Advanced env g (.ending ref byUser) (changeTask g ref (finishTask env byUser))
  | persisted (ref : TaskRef) :
      Advanced env g (.persisting ref) (g.persist env (g.tasks ref))
  | named (ref : TaskRef) (infohash : ByteString) :
      Advanced env g (.naming ref infohash) (changeTask g ref (setInfohash infohash))
  | rekeyed (ref : TaskRef) (task : Option TaskRef)
      (hlook : g.infohashMap.lookup (g.tasks ref).params.torrentUrl = some task) :
      Advanced env g (.rekeying ref) { g with
        infohashMap := (insertNew (g.tasks ref).infohash task g.infohashMap).erase
          (g.tasks ref).params.torrentUrl }

theorem advanced_move (env : GroupEnv) (sh : Shared) (ref : TaskRef) (byUser : Bool)
    (handle : TorrentHandle) : Advanced env sh.group (.locking ref byUser handle)
      (sh.move handle (sh.group.tasks ref).infohash).group := by
  cases hmove : moveToFinished sh.group handle (sh.group.tasks ref).infohash with
  | none =>
    rw [Shared.move, hmove]
    exact .same _
  | some g' =>
    rw [Shared.move, hmove]
    obtain rfl | ⟨found, hlook, rfl⟩ := moveToFinished_cases hmove
    · exact .same _
    · exact .moved ref byUser handle found hlook

theorem advanced_rekey (env : GroupEnv) (sh : Shared) (ref : TaskRef) :
    Advanced env sh.group (.rekeying ref) (sh.locked (updateInfohashByTorrentUrl sh.group
      (sh.group.tasks ref).params.torrentUrl (sh.group.tasks ref).infohash)).group := by
  cases hrename : updateInfohashByTorrentUrl sh.group (sh.group.tasks ref).params.torrentUrl
      (sh.group.tasks ref).infohash with
  | none => exact .same _
  | some g' =>
    show Advanced env sh.group (.rekeying ref) g'
    obtain rfl | ⟨task, hlook, rfl⟩ := updateInfohashByTorrentUrl_cases hrename
    · exact .same _
    · exact .rekeyed ref task hlook

theorem advanced {env : GroupEnv} {sh sh' : Shared} {place place' : Place}
    (h : advance env sh place = some (sh', place')) : Advanced env sh.group place sh'.group := by
  cases place with
  | idle => contradiction
  | testing ref byUser =>
    have hsame : sh = sh' := by
      simp only [advance] at h
      split at h
      · exact (Prod.mk.inj (Option.some.inj h)).1
      · split at h <;> exact (Prod.mk.inj (Option.some.inj h)).1
    rw [← hsame]
    exact .same _
  | removing ref byUser handle =>
    obtain ⟨rfl, -⟩ := Prod.mk.inj (Option.some.inj h)
    exact .removed ref byUser handle
  | locking ref byUser handle =>
    obtain ⟨rfl, -⟩ := Prod.mk.inj (Option.some.inj h)
    exact advanced_move env sh ref byUser handle
  | ending ref byUser =>
    obtain ⟨rfl, -⟩ := Prod.mk.inj (Option.some.inj h)
    exact .ended ref byUser
  | persisting ref =>
    obtain ⟨rfl, -⟩ := Prod.mk.inj (Option.some.inj h)
    exact .persisted ref
  | naming ref infohash =>
    obtain ⟨rfl, -⟩ := Prod.mk.inj (Option.some.inj h)
    exact .named ref infohash
  | rekeying ref =>
    obtain ⟨rfl, -⟩ := Prod.mk.inj (Option.some.inj h)
    exact advanced_rekey env sh ref

/-- Only a move makes the list longer. -/
theorem nodup_advance {env : GroupEnv} {g g' : Group} {place : Place}
    (h : Advanced env g place g')
    (hnew : ∀ ref byUser handle, place = .locking ref byUser handle →
      (g.infohashMap.lookup (g.tasks ref).infohash).join.isSome →
      (g.tasks ref).infohash ∉ finishedKeys g)
    (hnodup : (finishedKeys g).Nodup) : (finishedKeys g').Nodup := by
  cases h with
  | moved ref byUser handle found hlook =>
    have hnot := hnew ref byUser handle rfl (by rw [hlook]; rfl)
    show ((g.finishedInfohashList ++ [((g.tasks ref).infohash, found)]).map Prod.fst).Nodup
    rw [List.map_append, List.map_singleton, List.nodup_append_comm, List.singleton_append,
      List.nodup_cons]
    exact ⟨hnot, hnodup⟩
  | persisted ref =>
    rw [finishedKeys_persist]
    exact hnodup
  | _ => exact hnodup

/-- A removal begins with a change of its task. -/
theorem beginRemoval_group {s s' : State T} {t : T} {ref : TaskRef} {byUser : Bool}
    {f : GroupTask → GroupTask} (h : beginRemoval s t ref byUser f = some s') :
    s'.shared.group = changeTask s.shared.group ref f := by
  unfold beginRemoval at h
  split at h
  · split at h
    · obtain rfl := Option.some.inj h
      rfl
    · contradiction
  · contradiction

theorem metadata_group {sh : Shared} {handle : TorrentHandle} {infohash : ByteString}
    {moved : Shared × Place} (h : metadata sh handle infohash = some moved) :
    moved.1.group = sh.group := by
  unfold metadata at h
  split at h
  · contradiction
  · split at h
    · obtain rfl := Option.some.inj h
      rfl
    · contradiction

/-- The locked section in which the infohash of its task is written lists the task that it
has found. -/
theorem nameInside_cases {s s' : State T} {env : GroupEnv} {t u : T} {listed : Bool}
    (h : step s (env, .nameInside t u listed) = some s') :
    ∃ ref byUser handle infohash found, s.threads t = .locking ref byUser handle ∧
      s.threads u = .naming ref infohash ∧
      s.shared.group.infohashMap.lookup (s.shared.group.tasks ref).infohash = some (some found) ∧
      s'.shared.group = { changeTask s.shared.group ref (setInfohash infohash) with
        finishedInfohashList := s.shared.group.finishedInfohashList ++
          [(if listed then (s.shared.group.tasks ref).infohash else infohash, found)]
        infohashMap := s.shared.group.infohashMap.erase infohash
        torrentMap := s.shared.group.torrentMap.erase handle } := by
  simp only [step] at h
  split at h
  · rename_i ref byUser handle named infohash ht hu
    obtain ⟨rfl, hmoved⟩ := Option.ite_none_right_eq_some.mp h
    obtain ⟨sh, hsh, rfl⟩ := Option.map_eq_some_iff.mp hmoved
    unfold Shared.moveRenamed at hsh
    split at hsh
    · rename_i found hlook
      obtain rfl := Option.some.inj hsh
      exact ⟨named, byUser, handle, infohash, found, ht, hu, hlook, rfl⟩
    · contradiction
  · contradiction

/-- What keeps the infohashes of the list apart. -/
theorem nodup_processStep {s s' : State T} {e : GroupEnv × ProcessEvent T}
    (hnodup : (finishedKeys s.shared.group).Nodup) (hnew : FinishesNew s e)
    (hstep : processStep s e = some s') : (finishedKeys s'.shared.group).Nodup := by
  obtain ⟨env, event⟩ := e
  cases event with
  | load file =>
    obtain rfl := Option.some.inj hstep
    exact nodup_load file hnodup
  | group event =>
    cases event with
    | add rights param cred =>
      obtain rfl := Option.some.inj hstep
      show (finishedKeys (addTask env rights param cred s.shared.group).group).Nodup
      rw [finishedKeys_added (added_addTask rights param cred)]
      exact hnodup
    | resumeEntry name =>
      obtain ⟨after, hafter, rfl⟩ := Option.map_eq_some_iff.mp hstep
      show (finishedKeys after.group).Nodup
      rw [finishedKeys_added (added_addResumeEntry hafter)]
      exact hnodup
    | dropFinished keep =>
      obtain rfl := Option.some.inj hstep
      exact hnodup.sublist (finishedKeys_dropFinished keep)
    | cancel t ref =>
      rw [beginRemoval_group hstep]
      exact hnodup
    | giveUp t ref isTimeout =>
      rw [beginRemoval_group hstep]
      exact hnodup
    | metadataReceived t handle infohash =>
      simp only [processStep, step] at hstep
      split at hstep
      · obtain ⟨moved, hmoved, rfl⟩ := Option.map_eq_some_iff.mp hstep
        rw [System.act_shared, metadata_group hmoved]
        exact hnodup
      · contradiction
    | nameInside t u listed =>
      have hinner : step s (env, .nameInside t u listed) = some s' := hstep
      obtain ⟨ref, byUser, handle, infohash, found, ht, hu, -, hgroup⟩ := nameInside_cases hinner
      simp only [FinishesNew, ht, hu] at hnew
      rw [hgroup, finishedKeys, List.map_append, List.map_singleton, List.nodup_append_comm,
        List.singleton_append, List.nodup_cons]
      exact ⟨hnew, hnodup⟩
    | advance t =>
      obtain ⟨moved, hmoved, rfl⟩ := Option.map_eq_some_iff.mp hstep
      refine nodup_advance (advanced hmoved) ?_ hnodup
      intro ref byUser handle hplace hsome
      simp only [FinishesNew, hplace] at hnew
      exact hnew hsome

end Runs

section Results

variable {T : Type} [DecidableEq T]

/-- In a run that never finishes an infohash of the list, what is saved in any state is
read back; and it is read back just where no infohash is there twice. -/
theorem finished_list_round_trips :
    (∀ (settings : GroupSettings) (es : List (GroupEnv × ProcessEvent T)) (s : State T),
      Path processStep FinishesNew (State.start settings) es s → RoundTrips s.shared.group) ∧
    ∀ g : Group, RoundTrips g ↔ (finishedKeys g).Nodup := by
  refine ⟨?_, roundTrips_iff_nodup⟩
  intro settings es s hrun
  rw [roundTrips_iff_nodup]
  apply hrun.invariant fun s => (finishedKeys s.shared.group).Nodup
  · intro s e s' hnodup hnew hstep
    exact nodup_processStep hnodup hnew hstep
  · exact List.nodup_nil

end Results

section Samples

/-- The task is canceled by the only thread. -/
def sampleFinish (ref : TaskRef) : List (GroupEnv × ProcessEvent Unit) :=
  (sampleEnv true, .group (.cancel () ref)) ::
    List.replicate 5 (sampleEnv true, .group (.advance ()))

def sampleStart : GroupEnv × ProcessEvent Unit :=
  (sampleEnv true, .group (.add everybody sampleParam ⟨1, 1, 1⟩))

theorem finished_list_round_trips_once : ∃ s : State Unit,
    Path processStep FinishesNew (State.start ⟨0, 0, 0⟩) (sampleStart :: sampleFinish 0) s ∧
      finishedKeys s.shared.group = [sampleHash] ∧ RoundTrips s.shared.group := by
  have hrun : ∃ s : State Unit, Path processStep FinishesNew (State.start ⟨0, 0, 0⟩)
      (sampleStart :: sampleFinish 0) s ∧ finishedKeys s.shared.group = [sampleHash] :=
    ⟨_, .cons _ _ _ _ _ rfl trivial <| .cons _ _ _ _ _ rfl trivial <|
      .cons _ _ _ _ _ rfl trivial <| .cons _ _ _ _ _ rfl trivial <|
      .cons _ _ _ _ _ rfl (fun _ => List.not_mem_nil) <| .cons _ _ _ _ _ rfl trivial <|
      .cons _ _ _ _ _ rfl trivial <| .nil _, rfl⟩
  obtain ⟨s, hpath, hkeys⟩ := hrun
  exact ⟨s, hpath, hkeys, finished_list_round_trips.1 _ _ s hpath⟩

/-- The torrent is added again before its finished task has left the list. -/
theorem finished_twice_saved_once : ∃ s : State Unit,
    (sampleStart :: sampleFinish 0 ++ sampleStart :: sampleFinish 1).foldlM processStep
      (State.start ⟨0, 0, 0⟩) = some s ∧
    finishedKeys s.shared.group = [sampleHash, sampleHash] ∧ ¬ RoundTrips s.shared.group := by
  have hsteps : ∃ s : State Unit,
      (sampleStart :: sampleFinish 0 ++ sampleStart :: sampleFinish 1).foldlM processStep
        (State.start ⟨0, 0, 0⟩) = some s ∧
      finishedKeys s.shared.group = [sampleHash, sampleHash] := ⟨_, rfl, rfl⟩
  obtain ⟨s, hfold, hkeys⟩ := hsteps
  refine ⟨s, hfold, hkeys, ?_⟩
  rw [roundTrips_iff_nodup, hkeys]
  simp

end Samples
end Gingko.FinishedResumes
