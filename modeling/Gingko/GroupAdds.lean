import Gingko.GroupTasks

/-!
Adding tasks to a group manager, by a request or from the resume files. A task whose
creation fails, or whose infohash is in the map, is destroyed at the end of the call.
-/
namespace Gingko.GroupAdds

open KeyedMaps Base64Codec AgentTasks GroupTasks

/-- The new task goes into both maps, unless its infohash is a key already. -/
def addTaskToMap (g : Group) (t : GroupTask) : Option Group :=
  if t.infohash ≠ [] ∧ (t.infohash.length = 40 ∨ t.isTorrentUrl = true) ∧
      g.infohashMap.lookup t.infohash = none then
    some { g with
      infohashMap := g.infohashMap.insert t.infohash (some g.nextRef)
      torrentMap := match t.torrentHandle with
        | none => g.torrentMap
        | some handle => g.torrentMap.insert handle g.nextRef
      tasks := Function.update g.tasks g.nextRef t
      nextRef := g.nextRef + 1 }
  else none

inductive ClientRpcStatus where
  | success
  | errorParams
  | credFailed
  | addTaskExist
  | addTaskCreateFailed
  | taskNotExist
  | setOptFailed
  deriving DecidableEq

/-- The state after the call, and the task that the call has destroyed. -/
structure AddOutcome where
  status : ClientRpcStatus
  rejected : Option GroupTask
  group : Group

section Calls

variable (env : GroupEnv)

def register (created : CreateOutcome) : AddOutcome :=
  match addTaskToMap created.group created.task with
  | some group => ⟨.success, none, group⟩
  | none => ⟨.addTaskExist, some created.task, created.group.destroy env created.task⟩

/-- The end of an add. `left` is what a failed creation leaves before its task is
destroyed. -/
def settle (created : CreateOutcome) (left : Group) : AddOutcome :=
  if created.created then register env created
  else ⟨.addTaskCreateFailed, some created.task, left.destroy env created.task⟩

/-- Who may add tasks: everybody, or root, the user that the manager was started by
and the user that it runs as. -/
structure AddRights where
  isAllowAllAdd : Bool
  groupUid : Int32
  selfUid : Int32

def credOk (rights : AddRights) (cred : UserCred) : Bool :=
  rights.isAllowAllAdd || cred.uid == 0 || cred.uid == rights.groupUid ||
    cred.uid == rights.selfUid

def addTask (rights : AddRights) (param : DownloadParam) (cred : UserCred) (g : Group) :
    AddOutcome :=
  if credOk rights cred = false then ⟨.credFailed, none, g⟩
  else
    let created := create env g (newTask env) param cred
    settle env created created.group

/-- The names that the walk over the resume directory leaves out. -/
def skippedNames : List ByteString :=
  [[46], [46, 46], [102, 105, 110, 105, 115, 104, 101, 100] ++ resumeSuffix]

/-- One file of the resume directory. A task that cannot be created is destroyed after
its file has been removed. -/
def addResumeEntry (name : ByteString) (g : Group) : Option AddOutcome :=
  if skippedNames.contains name then some ⟨.success, none, g⟩
  else match g.resumeDir name with
    | none => some ⟨.success, none, g⟩
    | some content => (createFromResumeFile env g name content).map fun created =>
      settle env created (created.group.setResumeFile name none)

end Calls

section Creation

variable {env : GroupEnv} {g : Group}

/-- How far a task gets with its name: the task, and the torrent once it has one. -/
abbrev Naming := Except GroupTask (GroupTask × Source)

def Naming.task : Naming → GroupTask
  | .error t => t
  | .ok named => named.1

def nameResumed (env : GroupEnv) (name content : ByteString) : Option Naming :=
  if env.readable name = false then some (.error (newTask env))
  else match env.bdecode content with
    | .noDictionary => some (.error (newTask env))
    | .throws => none
    | .head code => (stopTask env code).map .error
    | .whole d =>
      match stopTask env d.controlStatus with
      | some stopped => some (.error stopped)
      | none => some (nameTask env (loadTask env d) d.downParam d.cred)

def finish (env : GroupEnv) (g : Group) : Naming → CreateOutcome
  | .error t => ⟨false, t, g⟩
  | .ok (t, source) => startTask env g t source

theorem create_eq (t : GroupTask) (param : DownloadParam) (cred : UserCred) :
    create env g t param cred = finish env g (nameTask env t param cred) := by
  unfold create finish
  cases nameTask env t param cred <;> rfl

theorem createFromResumeFile_eq (name content : ByteString) :
    createFromResumeFile env g name content =
      (nameResumed env name content).map (finish env g) := by
  unfold createFromResumeFile nameResumed
  split
  · rfl
  · cases env.bdecode content with
    | noDictionary => rfl
    | throws => rfl
    | head code =>
      simp only [Option.map_map]
      rfl
    | whole d =>
      simp only
      cases stopTask env d.controlStatus with
      | some stopped => rfl
      | none => exact congrArg some (create_eq _ _ _)

theorem generateResumeFile_session (t : GroupTask) :
    (g.generateResumeFile env t).session = g.session := by
  unfold Group.generateResumeFile
  split
  · rfl
  · split <;> rfl

theorem destroy_eq (env : GroupEnv) (g : Group) (t : GroupTask) :
    g.destroy env t = { g with resumeDir := (g.destroy env t).resumeDir } := by
  unfold Group.destroy Group.persist
  split
  · rfl
  · unfold Group.generateResumeFile
    split
    · rfl
    · split <;> rfl

theorem persist_eq (env : GroupEnv) (g : Group) (t : GroupTask) :
    g.persist env t = { g with resumeDir := (g.persist env t).resumeDir } := destroy_eq env g t

theorem destroy_session (t : GroupTask) : (g.destroy env t).session = g.session := by
  rw [destroy_eq]

end Creation

section Samples

/-- An outside where everything works, except that the session may refuse torrents. -/
def sampleEnv (addTorrent : Bool) : GroupEnv where
  opens _ := true
  readable _ := true
  bencode d := d.cred.uid.toUInt32.toUInt8 :: d.infohash
  bdecode _ := .noDictionary
  checkAndMkdirR _ := true
  checkAndMkdir _ := true
  fileSize _ := 0
  maxMetadataSize := 1000
  torrentFile _ _ := none
  infoOfHash _ _ := {}
  canCreate _ := true
  getTrackersByInfohash _ := []
  readFastResume _ := none
  addTorrent _ := addTorrent
  parseSyms := true
  now := 100
  uninitialized := 0

def everybody : AddRights := ⟨true, 0, 0⟩

def sampleHash : ByteString := List.replicate 40 48

/-- A download of the torrent with the infohash of zeros, to the directory `/`. -/
def sampleParam : DownloadParam := { infohash := sampleHash, savePath := [47] }

def emptyGroup : Group := Group.start ⟨0, 0, 0⟩

example : (addTask (sampleEnv true) everybody sampleParam ⟨1, 1, 1⟩ emptyGroup).status =
    .success := rfl

end Samples
end Gingko.GroupAdds
