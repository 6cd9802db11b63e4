import Gingko.AgentRuns

/-!
What an operation of the agent can do to its maps. It leaves them as they are,
takes the keys of some of the referenced tasks out of all four maps, or puts
one new task under all its keys. Nothing else about a created task changes than
its marks and its error text, so a map entry always stands under the key of the
task it refers to.
-/
namespace Gingko.AgentChanges

open KeyedMaps Base64Codec AgentMessages AgentTasks AgentAdds AgentRequests AgentRuns

/-- The task without what can change after its creation. -/
def fixed (t : Task) : Task := { t with canceled := false, persisted := false, error := [] }

/-- The maps and the identities of the tasks stay. -/
structure Quiet (s s' : Agent) : Prop where
  tasksMap : s'.tasksMap = s.tasksMap
  torrentMap : s'.torrentMap = s.torrentMap
  infohashMap : s'.infohashMap = s.infohashMap
  dataPathMap : s'.dataPathMap = s.dataPathMap
  nextRef : s'.nextRef = s.nextRef
  tasks : ∀ ref, fixed (s'.tasks ref) = fixed (s.tasks ref)

namespace Quiet

variable {s t u : Agent}

theorem refl (s : Agent) : Quiet s s := ⟨rfl, rfl, rfl, rfl, rfl, fun _ => rfl⟩

theorem trans (h : Quiet s t) (h' : Quiet t u) : Quiet s u :=
  ⟨h'.tasksMap.trans h.tasksMap, h'.torrentMap.trans h.torrentMap,
    h'.infohashMap.trans h.infohashMap, h'.dataPathMap.trans h.dataPathMap,
    h'.nextRef.trans h.nextRef, fun ref => (h'.tasks ref).trans (h.tasks ref)⟩

theorem symm (h : Quiet s t) : Quiet t s :=
  ⟨h.tasksMap.symm, h.torrentMap.symm, h.infohashMap.symm, h.dataPathMap.symm, h.nextRef.symm,
    fun ref => (h.tasks ref).symm⟩

/-- Whatever is read of the fixed part of a task is the same. -/
theorem field_eq {α : Type*} (h : Quiet s t) (f : Task → α) (hf : ∀ task, f (fixed task) = f task)
    (ref : TaskRef) : f (t.tasks ref) = f (s.tasks ref) := by
  rw [← hf (t.tasks ref), h.tasks ref, hf]

theorem id_eq (h : Quiet s t) (ref : TaskRef) : (t.tasks ref).id = (s.tasks ref).id :=
  h.field_eq Task.id (fun _ => rfl) ref

theorem infohash_eq (h : Quiet s t) (ref : TaskRef) :
    (t.tasks ref).infohash = (s.tasks ref).infohash :=
  h.field_eq Task.infohash (fun _ => rfl) ref

theorem getDataPath_eq (h : Quiet s t) (ref : TaskRef) :
    (t.tasks ref).getDataPath = (s.tasks ref).getDataPath :=
  h.field_eq Task.getDataPath (fun _ => rfl) ref

theorem torrent_eq (h : Quiet s t) (ref : TaskRef) :
    (t.tasks ref).torrent = (s.tasks ref).torrent :=
  h.field_eq Task.torrent (fun _ => rfl) ref

theorem notNew_eq (h : Quiet s t) (ref : TaskRef) :
    (t.tasks ref).notNew = (s.tasks ref).notNew :=
  h.field_eq Task.notNew (fun _ => rfl) ref

theorem erase (h : Quiet s t) (ref : TaskRef) :
    Quiet (s.eraseTaskFromMap (s.tasks ref)) (t.eraseTaskFromMap (t.tasks ref)) := by
  refine ⟨?_, ?_, ?_, ?_, h.nextRef, h.tasks⟩
  · simp only [Agent.eraseTaskFromMap, h.tasksMap, h.id_eq]
  · simp only [Agent.eraseTaskFromMap, h.torrentMap, h.torrent_eq]
  · simp only [Agent.eraseTaskFromMap, h.infohashMap, h.infohash_eq]
  · simp only [Agent.eraseTaskFromMap, h.dataPathMap, h.getDataPath_eq]

/-- A change outside the maps and the task objects. -/
theorem of_eq (h₁ : t.tasksMap = s.tasksMap) (h₂ : t.torrentMap = s.torrentMap)
    (h₃ : t.infohashMap = s.infohashMap) (h₄ : t.dataPathMap = s.dataPathMap)
    (h₅ : t.nextRef = s.nextRef) (h₆ : t.tasks = s.tasks) : Quiet s t :=
  ⟨h₁, h₂, h₃, h₄, h₅, fun ref => by rw [h₆]⟩

theorem dropTask (held : List TaskRef) (s : Agent) (ref : TaskRef) :
    Quiet s (s.dropTask held ref) := by
  unfold Agent.dropTask
  split
  · exact refl s
  · exact of_eq rfl rfl rfl rfl rfl rfl

theorem setTask (s : Agent) (ref : TaskRef) (t : Task) (h : fixed t = fixed (s.tasks ref)) :
    Quiet s (s.setTask ref t) := by
  refine ⟨rfl, rfl, rfl, rfl, rfl, ?_⟩
  intro r
  by_cases hr : r = ref
  · subst hr
    simp [Agent.setTask, h]
  · simp [Agent.setTask, hr]

theorem updateTorrent (s : Agent) (h : TorrentHandle) (f : Torrent → Torrent) :
    Quiet s (s.updateTorrent h f) := by
  unfold Agent.updateTorrent
  split
  · exact refl s
  · exact of_eq rfl rfl rfl rfl rfl rfl

end Quiet

/-- Some map has an entry for the task. -/
inductive Referenced (s : Agent) (ref : TaskRef) : Prop
  | byId (id : Int64) (h : s.tasksMap.lookup id = some ref) : Referenced s ref
  | byTorrent (torrent : TorrentHandle) (h : s.torrentMap.lookup torrent = some ref) :
      Referenced s ref
  | byInfohash (infohash : ByteString) (h : s.infohashMap.lookup infohash = some ref) :
      Referenced s ref
  | byDataPath (path : ByteString) (h : s.dataPathMap.lookup path = some ref) : Referenced s ref

/-- The keys of referenced tasks are erased, one task after the other. -/
inductive Removes : Agent → Agent → Prop
  | quiet (s t : Agent) (h : Quiet s t) : Removes s t
  | erase (s t u : Agent) (ref : TaskRef) (hreferenced : Referenced s ref)
      (h : Quiet (s.eraseTaskFromMap (s.tasks ref)) t) (hrest : Removes t u) : Removes s u

theorem Quiet.referenced {s t : Agent} (h : Quiet s t) (ref : TaskRef) (href : Referenced t ref) :
    Referenced s ref := by
  cases href with
  | byId id hlook => exact .byId id (h.tasksMap ▸ hlook)
  | byTorrent torrent hlook => exact .byTorrent torrent (h.torrentMap ▸ hlook)
  | byInfohash infohash hlook => exact .byInfohash infohash (h.infohashMap ▸ hlook)
  | byDataPath path hlook => exact .byDataPath path (h.dataPathMap ▸ hlook)

namespace Removes

variable {s t u : Agent}

theorem refl (s : Agent) : Removes s s := .quiet s s (Quiet.refl s)

theorem one (ref : TaskRef) (hreferenced : Referenced s ref)
    (h : Quiet (s.eraseTaskFromMap (s.tasks ref)) t) : Removes s t :=
  .erase s t t ref hreferenced h (refl t)

theorem trans (h : Removes s t) (h' : Removes t u) : Removes s u := by
  induction h with
  | quiet s t hquiet =>
    cases h' with
    | quiet _ _ hquiet' => exact .quiet s u (hquiet.trans hquiet')
    | erase _ v _ ref hreferenced herase hrest =>
      exact .erase s v u ref (hquiet.referenced ref hreferenced)
        ((hquiet.erase ref).trans herase) hrest
  | erase s t v ref hreferenced herase hrest ih =>
    exact .erase s t u ref hreferenced herase (ih h')

/-- A property that quiet changes and erasures keep is kept. -/
theorem invariant (P : Agent → Prop) (hquiet : ∀ s t, Quiet s t → P s → P t)
    (herase : ∀ s ref, Referenced s ref → P s → P (s.eraseTaskFromMap (s.tasks ref)))
    (h : Removes s t) (hs : P s) : P t := by
  induction h with
  | quiet s t h => exact hquiet s t h hs
  | erase s t u ref hreferenced h hrest ih =>
    exact ih (hquiet _ t h (herase s ref hreferenced hs))

end Removes

section Operations

variable (held : List TaskRef) (s : Agent)

theorem removes_cancelTask (ref : TaskRef) (href : Referenced s ref) :
    Removes s (s.cancelTask held ref) := by
  apply Removes.one ref href
  exact (Quiet.setTask (s.eraseTaskFromMap (s.tasks ref)) ref (s.tasks ref).cancel rfl).trans
    (Quiet.dropTask held _ ref)

theorem removes_persistTask (ref : TaskRef) (href : Referenced s ref) :
    Removes s (s.persistTask held ref) := by
  apply Removes.one ref href
  exact (Quiet.setTask (s.eraseTaskFromMap (s.tasks ref)) ref (s.tasks ref).persist rfl).trans
    (Quiet.dropTask held _ ref)

theorem removes_persistTasks : Removes s (s.persistTasks held) := by
  unfold Agent.persistTasks
  generalize s.orderedIds = ids
  induction ids generalizing s with
  | nil => exact Removes.refl s
  | cons id rest ih =>
    rw [List.foldl_cons]
    refine Removes.trans ?_ (ih _)
    split
    · exact Removes.refl s
    · rename_i ref hlook
      exact removes_persistTask held s ref (.byId id hlook)

theorem removes_seedingTimerCallback (taskid : Int32) :
    Removes s (s.seedingTimerCallback held taskid) := by
  unfold Agent.seedingTimerCallback
  split
  · exact Removes.refl s
  · rename_i ref hlook
    exact Removes.one ref (.byId _ hlook) (Quiet.dropTask held _ ref)

theorem removes_removeTaskByError (ref : TaskRef) (error : ByteString) (href : Referenced s ref) :
    Removes s (s.removeTaskByError held ref error) := by
  have hset := Quiet.setTask s ref ((s.tasks ref).setError error) rfl
  exact Removes.one ref href ((hset.erase ref).trans (Quiet.dropTask held _ ref))

theorem lock_eq_some (ref ref' : TaskRef) (h : s.lock held ref = some ref') : ref' = ref := by
  unfold Agent.lock at h
  split at h
  · exact (Option.some.inj h).symm
  · contradiction

theorem bind_lock_eq_some (weak : Option TaskRef) (ref : TaskRef)
    (h : weak.bind (s.lock held) = some ref) : weak = some ref := by
  obtain ⟨ref', hweak, hlock⟩ := Option.bind_eq_some_iff.mp h
  rw [lock_eq_some held s ref' ref hlock]
  exact hweak

theorem removes_onTorrentError (h : TorrentHandle) (error : ByteString) :
    Removes s (s.onTorrentError held h error) := by
  unfold Agent.onTorrentError
  split
  · exact Removes.refl s
  · split
    · exact Removes.refl s
    · rename_i ref hlook
      have hentry := bind_lock_eq_some held s _ ref hlook
      exact removes_removeTaskByError held s ref error (.byTorrent h hentry)

theorem referenced_findDup (t : TaskInfo) (dup : TaskRef) (h : findDup held t s = some dup) :
    Referenced s dup := by
  unfold findDup at h
  split at h
  · rename_i ref hlook
    rw [lock_eq_some held s ref dup h]
    exact .byInfohash _ hlook
  · exact .byDataPath _ (bind_lock_eq_some held s _ dup h)

theorem removes_quitTask (dup : TaskRef) (href : Referenced s dup) :
    Removes s (quitTask s dup) := by
  apply Removes.one dup href
  have hsession : Quiet (s.eraseTaskFromMap (s.tasks dup))
      { s.eraseTaskFromMap (s.tasks dup) with
        session := (s.eraseTaskFromMap (s.tasks dup)).session.erase (s.tasks dup).torrent } :=
    Quiet.of_eq rfl rfl rfl rfl rfl rfl
  exact hsession.trans (Quiet.setTask _ dup (s.tasks dup).cancel rfl)

theorem removes_removeDup (t : TaskInfo) : Removes s (removeDup held t s).1 := by
  unfold removeDup
  split
  · exact Removes.refl s
  · rename_i dup hdup
    split
    · exact removes_quitTask s dup (referenced_findDup held s t dup hdup)
    · exact Removes.refl s

variable (conf : AgentConfigure) (cred : Ucred)

theorem removes_ctrlTask (type : CtrlType) (skip : Bool) (taskid : Int64) :
    Removes s (ctrlTask conf held cred type skip taskid (s.tasksMap.lookup taskid) s).1 := by
  unfold ctrlTask
  split
  · exact Removes.refl s
  · rename_i ref hlook
    split
    · cases type with
      | cancel => exact removes_cancelTask held s ref (.byId taskid hlook)
      | pause => exact .quiet _ _ (Quiet.updateTorrent s _ _)
      | resume => exact .quiet _ _ (Quiet.updateTorrent s _ _)
      | list => exact Removes.refl s
    · split
      · exact Removes.refl s
      · exact Removes.refl s

theorem removes_batchCtrl (message : BatchCtrl) :
    Removes s (batchCtrlTasksAs conf held cred message s).1 := by
  unfold batchCtrlTasksAs
  generalize (if message.getCtrlAll then s.orderedIds else message.taskids) = taskids
  induction taskids generalizing s with
  | nil => exact Removes.refl s
  | cons taskid rest ih =>
    exact (removes_ctrlTask held s conf cred _ _ taskid).trans (ih _)

theorem quiet_readTorrent (env : AddEnv) (ec : ErrorCode) (t : TaskInfo) :
    Quiet s (readTorrent env ec t s).1 := by
  obtain ⟨metas, total, hread⟩ := readTorrent_agent env ec t s
  rw [hread]
  exact Quiet.of_eq rfl rfl rfl rfl rfl rfl

theorem quiet_addMetadata (message : Metadata) : Quiet s (addMetadata conf message s) := by
  unfold addMetadata
  dsimp only
  split
  · exact Quiet.refl s
  · exact Quiet.of_eq rfl rfl rfl rfl rfl rfl

theorem quiet_agentSetopt (updateConfig : ℕ → Bool) (options : AgentOptions) (ec : ErrorCode) :
    Quiet s (agentSetoptAs conf updateConfig cred options ec s).agent := by
  unfold agentSetoptAs
  split
  · exact Quiet.of_eq rfl rfl rfl rfl rfl rfl
  · exact Quiet.refl s

end Operations

/-- The task that the event is about to create and index. -/
def createdTask (w : World) : Event → Option (Task × Torrent)
  | .resume c env =>
    match w.calls.lookup c with
    | some (.inserting _ message ti) => (createTask env message ti).toOption
    | _ => none
  | .resumeFile d env => createFromResumeFile env d
  | _ => none

/-- What an event does to the maps. -/
inductive StepCase (conf : AgentConfigure) (w : World) (e : Event) (w' : World) : Prop
  | removes (hcreated : createdTask w e = none) (h : Removes w.agent w'.agent) :
      StepCase conf w e w'
  | indexes (t : Task) (torrent : Torrent) (hcreated : createdTask w e = some (t, torrent))
      (h : w'.agent = indexTask w.held w.agent t torrent) : StepCase conf w e w'
  | restarts (row : Option ConfigRow) (hcreated : createdTask w e = none)
      (h : w' = World.start conf row w.agent.agentConfig) : StepCase conf w e w'

section Steps

variable (conf : AgentConfigure) (w : World)

theorem removes_beginRequest (c : CallId) (cred : Ucred) (request : Request) (ec : ErrorCode)
    (env : AddEnv) : Removes w.agent (beginRequest conf c cred request ec env w).agent := by
  cases request with
  | addTask message =>
    rw [agent_beginAdd]
    exact .quiet _ _ (quiet_readTorrent w.agent env ec (setCred cred message.task))
  | taskGetopt options =>
    unfold beginRequest
    dsimp only
    split
    · exact Removes.refl w.agent
    · exact Removes.refl w.agent
  | taskSetopt options =>
    unfold beginRequest
    dsimp only
    split
    · exact Removes.refl w.agent
    · split
      · exact Removes.refl w.agent
      · exact Removes.refl w.agent
  | agentGetopt options => exact Removes.refl w.agent
  | agentSetopt options updateConfig =>
    exact .quiet _ _ (quiet_agentSetopt w.agent conf cred updateConfig options ec)
  | batchCtrl message =>
    unfold beginRequest
    dsimp only
    split
    · exact Removes.refl w.agent
    · exact removes_batchCtrl w.held w.agent conf cred message
  | addMetadata message => exact .quiet _ _ (quiet_addMetadata w.agent conf message)

theorem quiet_endCall (c : CallId) (ref : TaskRef) : Quiet w.agent (endCall c ref w).agent :=
  Quiet.dropTask _ w.agent ref

theorem stepCase_resumeCall (c : CallId) (env : AddEnv) (call : Call)
    (hcall : w.calls.lookup c = some call) :
    StepCase conf w (.resume c env) (resumeCall c env w call) := by
  cases call with
  | placing cred message ti =>
    refine .removes (by simp [createdTask, hcall]) ?_
    rw [agent_placing]
    exact removes_removeDup w.held w.agent message.task
  | inserting cred message ti =>
    have hcreated : createdTask w (.resume c env) = (createTask env message ti).toOption := by
      simp [createdTask, hcall]
    unfold resumeCall insertTask
    dsimp only
    cases hcreate : createTask env message ti with
    | error f =>
      refine .removes ?_ (Removes.refl w.agent)
      rw [hcreated, hcreate]
      rfl
    | ok created =>
      refine .indexes created.1 created.2 ?_ rfl
      rw [hcreated, hcreate]
      rfl
  | created cred ref =>
    exact .removes (by simp [createdTask, hcall]) (.quiet _ _ (quiet_endCall w c ref))
  | setting cred options ref =>
    refine .removes (by simp [createdTask, hcall]) (.quiet _ _ ?_)
    exact (Quiet.updateTorrent w.agent _ _).trans
      (quiet_endCall ⟨setOptions options ref w.agent, w.calls⟩ c ref)
  | getting cred ref =>
    exact .removes (by simp [createdTask, hcall]) (.quiet _ _ (quiet_endCall w c ref))

theorem stepCase_next (e : Event) : StepCase conf w e (next conf w e) := by
  cases e with
  | request c cred request ec env =>
    refine .removes rfl ?_
    unfold next
    dsimp only
    split
    · exact Removes.refl w.agent
    · exact removes_beginRequest conf w c cred request ec env
  | resume c env =>
    unfold next
    dsimp only
    split
    · rename_i hcall
      exact .removes (by simp [createdTask, hcall]) (Removes.refl w.agent)
    · rename_i call hcall
      exact stepCase_resumeCall conf w c env call hcall
  | seedingTimer taskid =>
    exact .removes rfl (removes_seedingTimerCallback w.held w.agent taskid.toInt32)
  | torrentError h error => exact .removes rfl (removes_onTorrentError w.held w.agent h error)
  | persistTasks => exact .removes rfl (removes_persistTasks w.held w.agent)
  | restart row => exact .restarts row rfl rfl
  | resumeFile d env =>
    unfold next addResumeTask
    dsimp only
    split
    · rename_i hnone
      exact .removes hnone (Removes.refl w.agent)
    · rename_i t torrent hsome
      exact .indexes t torrent hsome rfl

end Steps

end Gingko.AgentChanges
