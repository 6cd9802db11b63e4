import Gingko.AgentCalls

/-!
What the requests of one user do to the tasks of others. Every route to a task
checks the credentials first, except two of an add request: the conflict test
removes whatever task it finds in its way, and the insertion replaces the task
that has the same id. The effects are stated for each section of a request, in
every state that calls in parallel can reach.
-/
namespace Gingko.UserIsolation

open KeyedMaps Base64Codec AgentMessages AgentTasks AgentAdds AgentRequests AgentRuns AgentChanges
  TaskKeys AgentCalls GuardedRuns

/-- The task is still listed, and neither its marks nor its torrent have changed. -/
structure Untouched (s s' : Agent) (ref : TaskRef) : Prop where
  listed : s'.tasksMap.lookup (s.tasks ref).id = some ref
  object : s'.tasks ref = s.tasks ref
  torrent : s'.session.lookup (s.tasks ref).torrent = s.session.lookup (s.tasks ref).torrent

/-- A listed task of another user. -/
structure Foreign (uid : UInt32) (s : Agent) (ref : TaskRef) : Prop where
  listed : s.tasksMap.lookup (s.tasks ref).id = some ref
  owner : (s.tasks ref).cred.uid ≠ uid

def Isolated (uid : UInt32) (s s' : Agent) : Prop :=
  ∀ ref, Foreign uid s ref → Untouched s s' ref

section Frames

variable {uid : UInt32} {s t u : Agent}

theorem Foreign.refl {ref : TaskRef} (h : Foreign uid s ref) : Untouched s s ref :=
  ⟨h.listed, rfl, rfl⟩

theorem Untouched.foreign {ref : TaskRef} (h : Untouched s t ref) (hforeign : Foreign uid s ref) :
    Foreign uid t ref := by
  refine ⟨?_, ?_⟩
  · rw [h.object]
    exact h.listed
  · rw [h.object]
    exact hforeign.owner

theorem Untouched.trans {ref : TaskRef} (h : Untouched s t ref) (h' : Untouched t u ref) :
    Untouched s u ref := by
  refine ⟨?_, h'.object.trans h.object, ?_⟩
  · rw [← h.object]
    exact h'.listed
  · rw [← h.torrent, ← h.object]
    exact h'.torrent

theorem Isolated.refl (uid : UInt32) (s : Agent) : Isolated uid s s := fun _ h => h.refl

theorem Isolated.trans (h : Isolated uid s t) (h' : Isolated uid t u) : Isolated uid s u := by
  intro ref hforeign
  have hfirst := h ref hforeign
  exact hfirst.trans (h' ref (hfirst.foreign hforeign))

theorem isolated_of_eq (h₁ : t.tasksMap = s.tasksMap) (h₂ : t.tasks = s.tasks)
    (h₃ : t.session = s.session) : Isolated uid s t := by
  intro ref hforeign
  refine ⟨?_, ?_, ?_⟩
  · rw [h₁]
    exact hforeign.listed
  · rw [h₂]
  · rw [h₃]

theorem Foreign.lt {ref : TaskRef} (h : Foreign uid s ref) (hok : KeysOk s) : ref < s.nextRef :=
  (hok.byId _ ref h.listed).2

/-- Torrents of different tasks are different. -/
theorem Foreign.torrent_ne {ref ref' : TaskRef} (h : Foreign uid s ref) (hok : KeysOk s)
    (hlt : ref' < s.nextRef) (hne : ref' ≠ ref) :
    (s.tasks ref).torrent ≠ (s.tasks ref').torrent := by
  rw [(hok.objects ref (h.lt hok)).1, (hok.objects ref' hlt).1]
  exact hne.symm

/-- A task is destroyed only when it is not listed. -/
theorem isolated_dropTask (held : List TaskRef) (hok : KeysOk s) (ref : TaskRef)
    (hlt : ref < s.nextRef) : Isolated uid s (s.dropTask held ref) := by
  intro ref' hforeign
  unfold Agent.dropTask
  split
  · exact hforeign.refl
  · rename_i hunlisted
    have hne : ref ≠ ref' := by
      intro heq
      apply hunlisted
      rw [heq]
      exact Or.inl ((Dict.mem_values_iff _ ref').mpr ⟨_, hforeign.listed⟩)
    exact ⟨hforeign.listed, rfl, AList.lookup_erase_ne (hforeign.torrent_ne hok hlt hne)⟩

theorem isolated_updateTorrent (hok : KeysOk s) (ref : TaskRef) (f : Torrent → Torrent)
    (hlt : ref < s.nextRef) (howner : (s.tasks ref).cred.uid = uid) :
    Isolated uid s (s.updateTorrent (s.tasks ref).torrent f) := by
  intro ref' hforeign
  have hne : ref ≠ ref' := by
    intro heq
    rw [heq] at howner
    exact hforeign.owner howner
  unfold Agent.updateTorrent
  split
  · exact hforeign.refl
  · exact ⟨hforeign.listed, rfl, AList.lookup_insert_ne (hforeign.torrent_ne hok hlt hne)⟩

/-- Erasing the keys of a task and marking it leaves a task with another id alone. -/
theorem untouched_eraseTask {ref ref' : TaskRef} (hforeign : Foreign uid s ref')
    (hid : (s.tasks ref').id ≠ (s.tasks ref).id) (task : Task) :
    Untouched s ((s.eraseTaskFromMap (s.tasks ref)).setTask ref task) ref' := by
  have hne : ref' ≠ ref := by
    intro heq
    rw [heq] at hid
    exact hid rfl
  refine ⟨?_, Function.update_of_ne hne _ _, rfl⟩
  show (s.tasksMap.erase (s.tasks ref).id).lookup (s.tasks ref').id = some ref'
  rw [AList.lookup_erase_ne hid]
  exact hforeign.listed

end Frames

section Sections

variable {uid : UInt32} (conf : AgentConfigure) (held : List TaskRef) (s : Agent)

/-- An ordinary user passes the check at its own tasks only. -/
theorem owner_of_checkCred (hok : KeysOk s) (cred : Ucred) (ref : TaskRef) (hlt : ref < s.nextRef)
    (hroot : cred.uid ≠ 0) (hself : cred.uid ≠ conf.selfUid)
    (hcheck : (s.tasks ref).checkCred conf cred = true) : (s.tasks ref).cred.uid = cred.uid := by
  simp only [Task.checkCred, (hok.objects ref hlt).2, hroot, hself, Bool.not_true, Bool.false_or,
    decide_false, decide_eq_true_eq] at hcheck
  exact hcheck.symm

theorem isolated_cancelTask (hok : KeysOk s) (id : Int64) (ref : TaskRef)
    (hlook : s.tasksMap.lookup id = some ref) (howner : (s.tasks ref).cred.uid = uid) :
    Isolated uid s (s.cancelTask held ref) := by
  have hlt := (hok.byId id ref hlook).2
  have herase : Isolated uid s
      ((s.eraseTaskFromMap (s.tasks ref)).setTask ref (s.tasks ref).cancel) := by
    intro ref' hforeign
    apply untouched_eraseTask hforeign
    intro heq
    have hother := hforeign.listed
    rw [heq, (hok.byId id ref hlook).1, hlook] at hother
    rw [Option.some.inj hother] at howner
    exact hforeign.owner howner
  have hkeys := keysOk_quiet _ _ (Quiet.setTask (s.eraseTaskFromMap (s.tasks ref)) ref
    (s.tasks ref).cancel rfl) (keysOk_erase s ref (.byId id hlook) hok)
  exact herase.trans (isolated_dropTask held hkeys ref hlt)

theorem isolated_ctrlTask (hok : KeysOk s) (cred : Ucred) (hroot : cred.uid ≠ 0)
    (hself : cred.uid ≠ conf.selfUid) (type : CtrlType) (skip : Bool) (taskid : Int64) :
    Isolated cred.uid s
      (ctrlTask conf held cred type skip taskid (s.tasksMap.lookup taskid) s).1 := by
  unfold ctrlTask
  split
  · exact Isolated.refl _ s
  · rename_i ref hlook
    have hlt := (hok.byId taskid ref hlook).2
    split
    · rename_i hcheck
      have howner := owner_of_checkCred conf s hok cred ref hlt hroot hself hcheck
      cases type with
      | cancel => exact isolated_cancelTask held s hok taskid ref hlook howner
      | pause => exact isolated_updateTorrent hok ref Torrent.pause hlt howner
      | resume => exact isolated_updateTorrent hok ref Torrent.resume hlt howner
      | list => exact Isolated.refl _ s
    · split
      · exact Isolated.refl _ s
      · exact Isolated.refl _ s

theorem isolated_batchCtrl (hok : KeysOk s) (cred : Ucred) (hroot : cred.uid ≠ 0)
    (hself : cred.uid ≠ conf.selfUid) (message : BatchCtrl) :
    Isolated cred.uid s (batchCtrlTasksAs conf held cred message s).1 := by
  unfold batchCtrlTasksAs
  generalize (if message.getCtrlAll then s.orderedIds else message.taskids) = taskids
  induction taskids generalizing s with
  | nil => exact Isolated.refl _ s
  | cons taskid rest ih =>
    have hstep := removes_ctrlTask held s conf cred message.getCtrlType message.getCtrlAll taskid
    exact (isolated_ctrlTask conf held s hok cred hroot hself _ _ taskid).trans
      (ih _ (keysOk_removes s _ hstep hok))

/-- The conflict test finds a task that has to give way, and `tasks_map_` has a
task of another user under its id. In a consistent agent the two are one. -/
def RemovesForeign (uid : UInt32) (t : TaskInfo) : Prop :=
  ∃ dup ref, findDup held t s = some dup ∧ givesWay t s dup = true ∧
    s.tasksMap.lookup (s.tasks dup).id = some ref ∧ (s.tasks ref).cred.uid ≠ uid

theorem isolated_removeDup (hok : KeysOk s) (t : TaskInfo) :
    Isolated uid s (removeDup held t s).1 ↔ ¬ RemovesForeign held s uid t := by
  unfold removeDup
  cases hdup : findDup held t s with
  | none =>
    refine iff_of_true (Isolated.refl uid s) ?_
    intro hboth
    obtain ⟨dup, ref, hfound, _⟩ := hboth
    rw [hdup] at hfound
    contradiction
  | some dup =>
    have href := referenced_findDup held s t dup hdup
    by_cases hway : givesWay t s dup = true
    · simp only [hway, if_true]
      constructor
      · intro hisolated hboth
        obtain ⟨dup', ref, hfound, _, hlook, howner⟩ := hboth
        rw [hdup] at hfound
        rw [← Option.some.inj hfound] at hlook
        have hid := (hok.byId _ ref hlook).1
        have hlisted := (hisolated ref ⟨by rw [hid]; exact hlook, howner⟩).listed
        change (s.tasksMap.erase (s.tasks dup).id).lookup (s.tasks ref).id = some ref at hlisted
        rw [hid, AList.lookup_erase] at hlisted
        contradiction
      · intro hsafe ref hforeign
        have hid : (s.tasks ref).id ≠ (s.tasks dup).id := by
          intro heq
          exact hsafe ⟨dup, ref, hdup, hway, by rw [← heq]; exact hforeign.listed, hforeign.owner⟩
        have hne : dup ≠ ref := by
          intro heq
          rw [heq] at hid
          exact hid rfl
        have herase := untouched_eraseTask hforeign hid (s.tasks dup).cancel
        refine ⟨herase.listed, herase.object, ?_⟩
        exact AList.lookup_erase_ne (hforeign.torrent_ne hok (referenced_lt s hok dup href) hne)
    · simp only [hway, Bool.false_eq_true, if_false]
      refine iff_of_true (Isolated.refl uid s) ?_
      intro hboth
      obtain ⟨dup', ref, hfound, hway', _⟩ := hboth
      rw [hdup] at hfound
      rw [← Option.some.inj hfound] at hway'
      exact hway hway'

/-- A task of another user has the id of the new one. -/
def ReplacesForeign (uid : UInt32) (id : Int64) : Prop :=
  ∃ ref, s.tasksMap.lookup id = some ref ∧ (s.tasks ref).cred.uid ≠ uid

theorem isolated_placed (hok : KeysOk s) (t : Task) (torrent : Torrent)
    (hsafe : ¬ ReplacesForeign s uid t.id) : Isolated uid s (placed s t torrent) := by
  intro ref hforeign
  have hlt := hforeign.lt hok
  have hid : (s.tasks ref).id ≠ t.id := by
    intro heq
    exact hsafe ⟨ref, by rw [← heq]; exact hforeign.listed, hforeign.owner⟩
  refine ⟨?_, tasks_placed_old s t torrent ref hlt, ?_⟩
  · show (s.tasksMap.insert t.id s.nextRef).lookup (s.tasks ref).id = some ref
    rw [AList.lookup_insert_ne hid]
    exact hforeign.listed
  · show (s.session.insert s.nextRef torrent).lookup (s.tasks ref).torrent = _
    rw [(hok.objects ref hlt).1]
    exact AList.lookup_insert_ne (Nat.ne_of_lt hlt)

theorem isolated_indexTask (hok : KeysOk s) (t : Task) (torrent : Torrent) :
    Isolated uid s (indexTask held s t torrent) ↔ ¬ ReplacesForeign s uid t.id := by
  constructor
  · intro hisolated hboth
    obtain ⟨ref, hlook, howner⟩ := hboth
    obtain ⟨hid, hlt⟩ := hok.byId t.id ref hlook
    have hlisted := (hisolated ref ⟨by rw [hid]; exact hlook, howner⟩).listed
    rw [(quiet_indexTask s t torrent held).tasksMap] at hlisted
    change (s.tasksMap.insert t.id s.nextRef).lookup (s.tasks ref).id = some ref at hlisted
    rw [hid, AList.lookup_insert] at hlisted
    exact absurd (Option.some.inj hlisted).symm (Nat.ne_of_lt hlt)
  · intro hsafe
    have hplaced := isolated_placed s hok t torrent hsafe
    rw [indexTask_eq]
    split
    · exact hplaced
    · rename_i old hold
      have hlt := (hok.byId t.id old hold).2
      exact hplaced.trans (isolated_dropTask held (keysOk_placed s t torrent hok) old
        (Nat.lt_succ_of_lt hlt))

end Sections

/-- The user whose request a section belongs to. -/
def requester (w : World) : Event → Option Ucred
  | .request _ cred _ _ _ => some cred
  | .resume c _ => (w.calls.lookup c).map Call.cred
  | _ => none

/-- The sections of an add request that reach a task of another user. -/
def ReachesForeign (uid : UInt32) (w : World) : Event → Prop
  | .resume c env =>
    match w.calls.lookup c with
    | some (.placing _ message _) => RemovesForeign w.held w.agent uid message.task
    | some (.inserting _ message ti) =>
      ∃ id, CreatedWithId env message ti id ∧ ReplacesForeign w.agent uid id
    | _ => False
  | _ => False

section Requests

variable (conf : AgentConfigure) (w : World) (cred : Ucred)

theorem isolated_readTorrent (uid : UInt32) (s : Agent) (env : AddEnv) (ec : ErrorCode)
    (t : TaskInfo) : Isolated uid s (readTorrent env ec t s).1 := by
  obtain ⟨metas, total, hread⟩ := readTorrent_agent env ec t s
  rw [hread]
  exact isolated_of_eq rfl rfl rfl

/-- No request reaches a task of another user before its call waits for a lock. -/
theorem isolated_beginRequest (hok : KeysOk w.agent) (hroot : cred.uid ≠ 0)
    (hself : cred.uid ≠ conf.selfUid) (c : CallId) (request : Request) (ec : ErrorCode)
    (env : AddEnv) :
    Isolated cred.uid w.agent (beginRequest conf c cred request ec env w).agent := by
  cases request with
  | addTask message =>
    rw [agent_beginAdd]
    exact isolated_readTorrent cred.uid w.agent env ec (setCred cred message.task)
  | taskGetopt options =>
    unfold beginRequest
    dsimp only
    split
    · exact Isolated.refl _ w.agent
    · exact Isolated.refl _ w.agent
  | taskSetopt options =>
    unfold beginRequest
    dsimp only
    split
    · exact Isolated.refl _ w.agent
    · split
      · exact Isolated.refl _ w.agent
      · exact Isolated.refl _ w.agent
  | agentGetopt options => exact Isolated.refl _ w.agent
  | agentSetopt options updateConfig =>
    show Isolated cred.uid w.agent
      (agentSetoptAs conf updateConfig cred options ec w.agent).agent
    unfold agentSetoptAs
    split
    · exact isolated_of_eq rfl rfl rfl
    · exact Isolated.refl _ w.agent
  | batchCtrl message =>
    unfold beginRequest
    dsimp only
    split
    · exact Isolated.refl _ w.agent
    · exact isolated_batchCtrl conf w.held w.agent hok cred hroot hself message
  | addMetadata message =>
    show Isolated cred.uid w.agent (addMetadata conf message w.agent)
    unfold addMetadata
    dsimp only
    split
    · exact Isolated.refl _ w.agent
    · exact isolated_of_eq rfl rfl rfl

theorem isolated_endCall (uid : UInt32) (hok : KeysOk w.agent) (c : CallId) (ref : TaskRef)
    (hlt : ref < w.agent.nextRef) : Isolated uid w.agent (endCall c ref w).agent :=
  isolated_dropTask _ hok ref hlt

theorem isolated_insertTask (uid : UInt32) (hok : KeysOk w.agent) (env : AddEnv)
    (message : AddTask) (ti : TorrentInfo) :
    Isolated uid w.agent (insertTask env w.held message ti w.agent).1 ↔
      ¬ ∃ id, CreatedWithId env message ti id ∧ ReplacesForeign w.agent uid id := by
  unfold insertTask
  cases hcreate : createTask env message ti with
  | error f =>
    refine iff_of_true (Isolated.refl uid w.agent) ?_
    intro hboth
    obtain ⟨id, hcreated, _⟩ := hboth
    exact not_creationFails env message ti id hcreated
      (creationFails_of_error env message ti f hcreate)
  | ok created =>
    dsimp only
    have hcreated := createdWithId_of_ok env message ti created.1 created.2 hcreate
    rw [isolated_indexTask w.held w.agent hok created.1 created.2]
    constructor
    · intro hsafe hboth
      obtain ⟨id, hid, hreplaces⟩ := hboth
      rw [Option.some.inj (hid.1.symm.trans hcreated.1)] at hreplaces
      exact hsafe hreplaces
    · intro hsafe hreplaces
      exact hsafe ⟨created.1.id, hcreated, hreplaces⟩

theorem isolated_resumeCall (hok : KeysOk w.agent) (hcalls : CallsOk conf w)
    (c : CallId) (env : AddEnv) (call : Call) (hcall : w.calls.lookup c = some call)
    (hroot : call.cred.uid ≠ 0) (hself : call.cred.uid ≠ conf.selfUid) :
    Isolated call.cred.uid w.agent (resumeCall c env w call).agent ↔
      ¬ ReachesForeign call.cred.uid w (.resume c env) := by
  have hcallOk := hcalls c call hcall
  cases call with
  | placing cred message ti =>
    have hremove : Isolated cred.uid w.agent (removeDup w.held message.task w.agent).1 ↔ _ :=
      isolated_removeDup w.held w.agent hok message.task
    simp only [ReachesForeign, hcall, agent_placing]
    exact hremove
  | inserting cred message ti =>
    simp only [ReachesForeign, hcall, agent_inserting]
    exact isolated_insertTask w cred.uid hok env message ti
  | created cred ref =>
    simp only [ReachesForeign, hcall, not_false_iff, iff_true]
    exact isolated_endCall w cred.uid hok c ref (hcallOk.created ref rfl)
  | setting cred options ref =>
    simp only [ReachesForeign, hcall, not_false_iff, iff_true]
    have hlt := hcallOk.created ref rfl
    have howner := owner_of_checkCred conf w.agent hok cred ref hlt hroot hself
      (hcallOk.checked cred options ref rfl)
    have hset := isolated_updateTorrent hok ref (Torrent.setOptions options) hlt howner
    have hquiet := Quiet.updateTorrent w.agent (w.agent.tasks ref).torrent
      (Torrent.setOptions options)
    refine hset.trans (isolated_endCall ⟨setOptions options ref w.agent, w.calls⟩ cred.uid
      (keysOk_quiet _ _ hquiet hok) c ref ?_)
    exact Nat.lt_of_lt_of_eq hlt hquiet.nextRef.symm
  | getting cred ref =>
    simp only [ReachesForeign, hcall, not_false_iff, iff_true]
    exact isolated_endCall w cred.uid hok c ref (hcallOk.created ref rfl)

end Requests

/-- In every state that requests in parallel can reach, a section of an ordinary
user's request leaves the tasks of all others alone, except exactly where an
add request removes such a task as a conflicting one or replaces it by its id. -/
theorem requests_isolated_iff (conf : AgentConfigure) (row : Option ConfigRow)
    (rows : List ConfigRow) (events : List Event) (e : Event) (cred : Ucred)
    (hrequester : requester (final (next conf) (World.start conf row rows) events) e = some cred)
    (hroot : cred.uid ≠ 0) (hself : cred.uid ≠ conf.selfUid) :
    let w := final (next conf) (World.start conf row rows) events
    Isolated cred.uid w.agent (next conf w e).agent ↔ ¬ ReachesForeign cred.uid w e := by
  intro w
  obtain ⟨hok, hcalls⟩ := reachable_ok conf row rows events
  change requester w e = some cred at hrequester
  cases e with
  | request c cred' request ec env =>
    cases Option.some.inj hrequester
    refine iff_of_true ?_ (fun h => h)
    unfold next
    dsimp only
    split
    · exact Isolated.refl _ w.agent
    · exact isolated_beginRequest conf w cred hok hroot hself c request ec env
  | resume c env =>
    obtain ⟨call, hcall, rfl⟩ := Option.map_eq_some_iff.mp hrequester
    have hnext : next conf w (.resume c env) = resumeCall c env w call := by
      simp only [next, hcall]
    rw [hnext]
    exact isolated_resumeCall conf w hok hcalls c env call hcall hroot hself
  | seedingTimer taskid => contradiction
  | torrentError h error => contradiction
  | persistTasks => contradiction
  | restart row => contradiction
  | resumeFile d env => contradiction

/-- Walking over all tasks, user 1002 cancels none of those of user 1001. -/
theorem batch_isolated_one :
    Isolated 1002
      (final (next plainConf) (World.start plainConf none [])
        (addedAtOnce 0 (user 1001) (addFile .nocheckTask [1] [10]) (answering 1))).agent
      (next plainConf (final (next plainConf) (World.start plainConf none [])
        (addedAtOnce 0 (user 1001) (addFile .nocheckTask [1] [10]) (answering 1)))
        (.request 1 (user 1002) (.batchCtrl { ctrlAll := some true }) none (answering 2))).agent :=
  (requests_isolated_iff plainConf none []
    (addedAtOnce 0 (user 1001) (addFile .nocheckTask [1] [10]) (answering 1))
    (.request 1 (user 1002) (.batchCtrl { ctrlAll := some true }) none (answering 2)) (user 1002)
    rfl (by decide) (by decide)).mpr (fun h => h)

/-- User 1002 asks for the torrent that user 1001 has a task for. -/
def sameTorrent : List Event :=
  addedAtOnce 0 (user 1001) (addFile .nocheckTask [1] [10]) (answering 1) ++
    [.request 1 (user 1002) (.addTask (addFile .nocheckTask [1] [11])) none (answering 2)]

theorem foreign_task_removed :
    let w := final (next plainConf) (World.start plainConf none []) sameTorrent
    (requester w (.resume 1 (answering 2))).map Ucred.uid = some 1002 ∧
      ¬ Isolated 1002 w.agent (next plainConf w (.resume 1 (answering 2))).agent := by
  intro w
  refine ⟨by decide, ?_⟩
  intro hisolated
  have hlisted := (hisolated 0 ⟨by decide, by decide⟩).listed
  have hgone : (next plainConf w (.resume 1 (answering 2))).agent.tasksMap.lookup
      (w.agent.tasks 0).id = none := by
    decide
  rw [hgone] at hlisted
  contradiction

end Gingko.UserIsolation
