import Gingko.AgentAdds

/-!
The tasks of a group manager. A task takes its infohash in the first half of its
creation and adds itself to the session in the second; when it is destroyed it
writes or deletes the resume file that is named after its infohash. The counters of
a running download are not kept here.
-/
namespace Gingko.GroupTasks

open KeyedMaps Base64Codec AgentTasks AgentAdds

structure UserCred where
  pid : Int32
  gid : Int32
  uid : Int32
  deriving DecidableEq

inductive ControlTaskStatus where
  | normal
  | canceled
  | paused
  | resume
  | finished
  | unnamed (code : Int64)
  deriving DecidableEq

def ControlTaskStatus.ofCode (code : Int64) : ControlTaskStatus :=
  if code = 0 then .normal else if code = 11 then .canceled else if code = 12 then .paused
  else if code = 13 then .resume else if code = 15 then .finished else .unnamed code

def ControlTaskStatus.code : ControlTaskStatus → Int64
  | .normal => 0
  | .canceled => 11
  | .paused => 12
  | .resume => 13
  | .finished => 15
  | .unnamed code => code

/-- The parameters that the manager reads; `others` are only handed on. -/
structure DownloadParam where
  downloadLimit : Int32 := 10485760
  uploadLimit : Int32 := 10485760
  connectionsLimit : Int32 := 8000
  needSaveResume : Bool := false
  needDownToTmpFirst : Bool := false
  storagePreAllocate : Bool := false
  dynamicAllocate : Int32 := -1
  torrentPath : ByteString := []
  infohash : ByteString := []
  torrentUrl : ByteString := []
  newName : ByteString := []
  savePath : ByteString := []
  prefixPath : ByteString := []
  webSeeds : List ByteString := []
  saveTorrentPath : ByteString := []
  trackers : List (ByteString × Int32) := []
  others : ByteString := []
  deriving DecidableEq

structure TorrentLayout where
  numFiles : Int32 := 0
  numPaths : Int32 := 0
  numSymlinks : Int32 := 0
  numPieces : Int32 := 0
  pieceLength : Int32 := 0
  deriving DecidableEq

structure TaskStatus where
  infohash : ByteString := []
  startTime : Int64 := 0
  endTime : Int64 := 0
  downloadLimit : Int32 := 0
  uploadLimit : Int32 := 0
  layout : TorrentLayout := {}
  state : Int32 := -1
  stateString : String := ""
  isTaskFinished : Bool := false
  uid : Int32 := -1
  savePath : ByteString := []
  others : ByteString := []
  deriving DecidableEq

structure GroupTask where
  controlStatus : ControlTaskStatus := .normal
  infohash : ByteString := []
  cred : UserCred := ⟨0, 0, 0⟩
  params : DownloadParam := {}
  seedingTime : Int64 := 0
  lastCheckTime : Int64 := 0
  lastCheckDownloaded : Int64 := 0
  torrentHandle : Option TorrentHandle := none
  taskStatus : TaskStatus := {}
  isTimeout : Bool := false
  isTorrentUrl : Bool := false

structure ResumeData where
  cred : UserCred
  infohash : ByteString
  seedingTime : Int64
  lastCheckDownloaded : Int64
  lastCheckTime : Int64
  controlStatus : Int64
  downParam : DownloadParam
  taskStatus : TaskStatus
  deriving DecidableEq

def GroupTask.resumeData (t : GroupTask) : ResumeData where
  cred := t.cred
  infohash := t.infohash
  seedingTime := t.seedingTime
  lastCheckDownloaded := t.lastCheckDownloaded
  lastCheckTime := t.lastCheckTime
  controlStatus := t.controlStatus.code
  downParam := t.params
  taskStatus := t.taskStatus

/-- `.resume` -/
def resumeSuffix : ByteString := [46, 114, 101, 115, 117, 109, 101]

def resumeName (infohash : ByteString) : ByteString := infohash ++ resumeSuffix

theorem resumeName_inj (a b : ByteString) : resumeName a = resumeName b ↔ a = b := by
  simp [resumeName]

/-- The torrents of the session, numbered as they were added. -/
structure Session where
  torrents : Dict TorrentHandle Torrent
  nextHandle : TorrentHandle
  fresh : ∀ h ∈ torrents, h < nextHandle

namespace Session

def empty : Session := ⟨∅, 0, fun h hmem => absurd hmem (AList.notMem_empty h)⟩

def add (s : Session) (torrent : Torrent) : Session where
  torrents := s.torrents.insert s.nextHandle torrent
  nextHandle := s.nextHandle + 1
  fresh := by
    intro h hmem
    rcases (AList.mem_insert _).mp hmem with rfl | hold
    · exact Nat.lt_succ_self _
    · exact Nat.lt_succ_of_lt (s.fresh h hold)

def remove (s : Session) (handle : TorrentHandle) : Session where
  torrents := s.torrents.erase handle
  nextHandle := s.nextHandle
  fresh h hmem := s.fresh h (AList.mem_erase.mp hmem).2

/-- A change to a torrent that the session still has. -/
def change (s : Session) (handle : TorrentHandle) (f : Torrent → Torrent) : Session where
  torrents := match s.torrents.lookup handle with
    | none => s.torrents
    | some torrent => s.torrents.insert handle (f torrent)
  nextHandle := s.nextHandle
  fresh := by
    intro h hmem
    cases hlook : s.torrents.lookup handle with
    | none =>
      rw [hlook] at hmem
      exact s.fresh h hmem
    | some torrent =>
      rw [hlook] at hmem
      rcases (AList.mem_insert _).mp hmem with rfl | hold
      · exact s.fresh h (AList.lookup_isSome.mp (by rw [hlook]; rfl))
      · exact s.fresh h hold

def isValid (s : Session) (handle : TorrentHandle) : Bool := (s.torrents.lookup handle).isSome

theorem mem_add (s : Session) (torrent : Torrent) (h : TorrentHandle) :
    h ∈ (s.add torrent).torrents ↔ h = s.nextHandle ∨ h ∈ s.torrents := AList.mem_insert _

theorem mem_change (s : Session) (handle h : TorrentHandle) (f : Torrent → Torrent) :
    h ∈ (s.change handle f).torrents ↔ h ∈ s.torrents := by
  show h ∈ (match s.torrents.lookup handle with
    | none => s.torrents
    | some torrent => s.torrents.insert handle (f torrent)) ↔ _
  cases hlook : s.torrents.lookup handle with
  | none => rfl
  | some torrent =>
    simp only [AList.mem_insert, or_iff_right_iff_imp]
    intro heq
    rw [heq]
    exact AList.lookup_isSome.mp (by rw [hlook]; rfl)

theorem notMem_next (s : Session) : s.nextHandle ∉ s.torrents :=
  fun hmem => Nat.lt_irrefl _ (s.fresh _ hmem)

end Session

structure GroupSettings where
  downloadRateLimit : Int32
  uploadRateLimit : Int32
  connectionsLimit : Int32
  deriving DecidableEq

structure Group where
  infohashMap : Dict ByteString (Option TaskRef)
  torrentMap : Dict TorrentHandle TaskRef
  finishedInfohashList : List (ByteString × TaskRef)
  tasks : TaskRef → GroupTask
  nextRef : TaskRef
  session : Session
  settings : GroupSettings
  resumeDir : ByteString → Option ByteString

/-- The manager before it loads its resume files. -/
def Group.start (settings : GroupSettings) : Group where
  infohashMap := ∅
  torrentMap := ∅
  finishedInfohashList := []
  tasks := fun _ => {}
  nextRef := 0
  session := .empty
  settings := settings
  resumeDir := fun _ => none

/-- What is handed to the session with a torrent, besides the flags. -/
structure TorrentParams where
  url : ByteString
  infoHash : ByteString
  savePath : ByteString
  resumeData : Option ByteString
  storageAllocate : Bool
  downloadLimit : Int32
  uploadLimit : Int32
  maxConnections : Int32
  urlSeeds : List ByteString
  thriftTrackers : List (ByteString × Int32)

/-- How far the fields of a resume file can be read. The credentials and the control
status come first, the texts of the task behind them; a field that cannot be read throws. -/
inductive Decoded where
  | noDictionary
  | throws
  | head (controlStatus : Int64)
  | whole (d : ResumeData)
  deriving DecidableEq

/-- What the manager takes from elsewhere. `opens` says which files of the resume
directory can be opened to be written, `addTorrent` whether the session takes a
torrent, and `uninitialized` is what a member starts with that is never set. -/
structure GroupEnv where
  opens : ByteString → Bool
  readable : ByteString → Bool
  bencode : ResumeData → ByteString
  bdecode : ByteString → Decoded
  checkAndMkdirR : ByteString → Bool
  checkAndMkdir : ByteString → Bool
  fileSize : ByteString → Int64
  maxMetadataSize : Int64
  torrentFile : ByteString → ByteString → Option (ByteString × TorrentLayout)
  infoOfHash : ByteString → ByteString → TorrentLayout
  canCreate : ByteString → Bool
  getTrackersByInfohash : ByteString → List (ByteString × Int32)
  readFastResume : ByteString → Option ByteString
  addTorrent : TorrentParams → Bool
  parseSyms : Bool
  now : Int64
  uninitialized : Int64

section Files

variable (env : GroupEnv)

namespace Group

def setResumeFile (g : Group) (name : ByteString) (content : Option ByteString) : Group :=
  { g with resumeDir := Function.update g.resumeDir name content }

def generateResumeFile (g : Group) (t : GroupTask) : Group :=
  if t.infohash = [] then g
  else if env.opens (resumeName t.infohash) then
    g.setResumeFile (resumeName t.infohash) (some (env.bencode t.resumeData))
  else g

def deleteResumeFile (g : Group) (t : GroupTask) : Group :=
  g.setResumeFile (resumeName t.infohash) none

def persist (g : Group) (t : GroupTask) : Group :=
  if t.controlStatus = .canceled ∨ t.controlStatus = .finished then g.deleteResumeFile t
  else g.generateResumeFile env t

/-- The last reference to the task goes away. -/
def destroy (g : Group) (t : GroupTask) : Group := g.persist env t

end Group
end Files

section Creation

variable (env : GroupEnv)

def newTask : GroupTask := { seedingTime := env.uninitialized, lastCheckTime := env.now }

inductive Source where
  | torrent (infoHash : ByteString) (layout : TorrentLayout)
  | url

def openSource (param : DownloadParam) : Option Source :=
  if param.torrentPath ≠ [] then
    let size := env.fileSize param.torrentPath
    if size ≤ 0 ∨ env.maxMetadataSize < size then none
    else (env.torrentFile param.torrentPath param.newName).map fun ti => .torrent ti.1 ti.2
  else if param.torrentUrl ≠ [] then some .url
  else if param.infohash ≠ [] then
    if param.saveTorrentPath ≠ [] ∧ env.canCreate param.saveTorrentPath = false then none
    else if param.infohash.length = 40 then
      (hexstrToBytes param.infohash).map fun bytes =>
        .torrent bytes (env.infoOfHash bytes param.newName)
    else none
  else none

/-- The first half of `Create`, up to the infohash of the task. A task of a torrent
url goes by the url first. -/
def nameTask (t : GroupTask) (param : DownloadParam) (cred : UserCred) :
    Except GroupTask (GroupTask × Source) :=
  let begun := { t with
    params := param
    cred := cred
    taskStatus := { t.taskStatus with uid := cred.uid } }
  if param.savePath = [] ∨ env.checkAndMkdirR param.savePath = false then .error begun
  else
    let saved := { begun with
      taskStatus := { begun.taskStatus with savePath := param.savePath } }
    match openSource env param with
    | none => .error saved
    | some .url => .ok ({ saved with
        infohash := param.torrentUrl
        isTorrentUrl := true
        params := { param with
          needSaveResume := false
          needDownToTmpFirst := false
          infohash := param.torrentUrl } }, .url)
    | some (.torrent infoHash layout) => .ok ({ saved with
        infohash := toHex infoHash
        params := { param with infohash := toHex infoHash } }, .torrent infoHash layout)

/-- `/.gko3_` -/
def gkoPrefix : ByteString := [47, 46, 103, 107, 111, 51, 95]

/-- `.tmp` -/
def tmpSuffix : ByteString := [46, 116, 109, 112]

def gkoName (t : GroupTask) : ByteString := gkoPrefix ++ t.params.infohash ++ 95 :: t.params.newName

def tmpSavePath (t : GroupTask) : ByteString :=
  if t.params.needDownToTmpFirst then t.params.savePath ++ gkoName t ++ tmpSuffix
  else t.params.savePath

def torrentParams (t : GroupTask) (source : Source) : TorrentParams where
  url := match source with
    | .torrent _ _ => []
    | .url => t.params.torrentUrl
  infoHash := match source with
    | .torrent infoHash _ => infoHash
    | .url => []
  savePath := tmpSavePath t
  resumeData := if t.params.needSaveResume then
      env.readFastResume (tmpSavePath t ++ gkoName t ++ resumeSuffix)
    else none
  storageAllocate := t.params.storagePreAllocate
  downloadLimit := t.params.downloadLimit
  uploadLimit := t.params.uploadLimit
  maxConnections := t.params.connectionsLimit
  urlSeeds := t.params.webSeeds
  -- the infohash is not set yet when the trackers of a torrent url are looked up
  thriftTrackers := if t.params.trackers = [] then
      env.getTrackersByInfohash (if t.isTorrentUrl then [] else t.infohash)
    else t.params.trackers

/-- A torrent starts paused and out of the queue. -/
def torrentOf (p : TorrentParams) : Torrent :=
  Torrent.setMaxConnections
    ⟨true, false, Torrent.throttle p.uploadLimit, Torrent.throttle p.downloadLimit, 0⟩
    p.maxConnections

def statusOf (t : GroupTask) (source : Source) : TaskStatus :=
  { t.taskStatus with
    startTime := env.now
    infohash := t.infohash
    downloadLimit := t.params.downloadLimit
    uploadLimit := t.params.uploadLimit
    layout := match source with
      | .torrent _ layout => layout
      | .url => t.taskStatus.layout }

structure CreateOutcome where
  created : Bool
  task : GroupTask
  group : Group

def tmpFails (t : GroupTask) : Bool :=
  t.params.needDownToTmpFirst && !env.checkAndMkdir (tmpSavePath t)

def symsFail (t : GroupTask) : Bool := !t.params.prefixPath.isEmpty && !env.parseSyms

/-- The second half of `Create`. -/
def startTask (g : Group) (t : GroupTask) (source : Source) : CreateOutcome :=
  if tmpFails env t then ⟨false, t, g⟩
  else if env.addTorrent (torrentParams env t source) = false then ⟨false, t, g⟩
  else
    let handle := g.session.nextHandle
    let added := { t with torrentHandle := some handle }
    let inSession := { g with session := g.session.add (torrentOf (torrentParams env t source)) }
    if symsFail env t then ⟨false, added, inSession⟩
    else
      let started := { added with taskStatus := statusOf env added source }
      let written := inSession.generateResumeFile env started
      ⟨true, started, { written with session := written.session.change handle Torrent.resume }⟩

def create (g : Group) (t : GroupTask) (param : DownloadParam) (cred : UserCred) : CreateOutcome :=
  match nameTask env t param cred with
  | .error stopped => ⟨false, stopped, g⟩
  | .ok (named, source) => startTask env g named source

/-- What a decoded resume file makes of a new task. -/
def loadTask (d : ResumeData) : GroupTask :=
  { newTask env with
    controlStatus := .ofCode d.controlStatus
    seedingTime := d.seedingTime
    lastCheckDownloaded := d.lastCheckDownloaded
    lastCheckTime := d.lastCheckTime
    taskStatus := d.taskStatus }

/-- A canceled or finished task is not created again. -/
def stopTask (code : Int64) : Option GroupTask :=
  let status := ControlTaskStatus.ofCode code
  if status = .canceled ∨ status = .finished then
    some { newTask env with controlStatus := status }
  else none

/-- Undefined where reading the file throws; nothing catches it, and the process ends. -/
def createFromResumeFile (g : Group) (name content : ByteString) : Option CreateOutcome :=
  if env.readable name = false then some ⟨false, newTask env, g⟩
  else match env.bdecode content with
    | .noDictionary => some ⟨false, newTask env, g⟩
    | .throws => none
    | .head code => (stopTask env code).map (⟨false, ·, g⟩)
    | .whole d =>
      match stopTask env d.controlStatus with
      | some stopped => some ⟨false, stopped, g⟩
      | none => some (create env g (loadTask env d) d.downParam d.cred)

end Creation
end Gingko.GroupTasks
