import Gingko.AgentMessages
import Gingko.KeyedMaps
import Mathlib.Data.List.Sort
import Mathlib.Logic.Function.Basic

/-!
The tasks of the agent and the maps that index them. Task objects live on a
heap; `tasks_map_` owns its tasks, while the other three maps hold weak
references. A task is destroyed, and its torrent removed, once neither
`tasks_map_` nor a handler under way refers to it. A torrent handle is numbered
like the task that was created with it.
-/
namespace Gingko.AgentTasks

open KeyedMaps Base64Codec AgentMessages

abbrev TaskRef := ℕ
abbrev TorrentHandle := ℕ

structure Ucred where
  pid : Int32
  uid : UInt32
  gid : UInt32
  deriving DecidableEq, Repr

structure AgentConfigure where
  listenPort : Int32
  maxTotalMetaNum : Int32
  maxTotalMetaSize : Int32
  uploadLimit : Int32
  connectionLimit : Int32
  selfUid : UInt32

structure SessionSettings where
  connectionsLimit : Int32
  uploadRateLimit : Int32
  deriving DecidableEq

/-- What the session keeps of the settings it is given: no limit for a negative rate. -/
def SessionSettings.applied (settings : SessionSettings) : SessionSettings :=
  { settings with
    uploadRateLimit := if settings.uploadRateLimit < 0 then 0 else settings.uploadRateLimit }

/-- A row of the table `agent_config`. -/
structure ConfigRow where
  uploadLimit : Int32
  connectionLimit : Int32
  deriving DecidableEq

structure Task where
  notNew : Bool := false
  canceled : Bool := false
  persisted : Bool := false
  id : Int64 := -1
  infohash : ByteString := []
  cmd : ByteString := []
  cred : Ucred := ⟨0, 0, 0⟩
  savePath : ByteString := []
  newName : ByteString := []
  type : TaskType := .nocheckTask
  trackers : List (ByteString × Int32) := []
  seedingTime : Int32 := 0
  torrent : TorrentHandle := 0
  error : ByteString := []
  deriving DecidableEq

namespace Task

def getDataPath (t : Task) : ByteString := dataPath t.savePath t.newName

def cancel (t : Task) : Task := { t with canceled := true }
def persist (t : Task) : Task := { t with persisted := true }
def setError (t : Task) (error : ByteString) : Task := { t with error := error }

def checkCred (conf : AgentConfigure) (cred : Ucred) (t : Task) : Bool :=
  !t.notNew || decide (cred.uid = 0) || decide (cred.uid = conf.selfUid) ||
    decide (cred.uid = t.cred.uid)

end Task

structure AddTorrentParams where
  infoHash : ByteString
  savePath : ByteString
  paused : Bool
  duplicateIsError : Bool
  autoManaged : Bool
  realSeed : Bool
  seedMode : Bool
  uploadLimit : Int32 := -1
  maxConnections : Int32 := -1
  thriftTrackers : List (ByteString × Int32)

/-- Both ways to create a task start its torrent paused and out of the queue. -/
def addTorrentParams (infoHash savePath : ByteString) (type : TaskType)
    (trackers : List (ByteString × Int32)) : AddTorrentParams where
  infoHash := infoHash
  savePath := savePath
  paused := true
  duplicateIsError := true
  autoManaged := false
  realSeed := decide (type = .seedingTask)
  seedMode := decide (type = .seedingTask ∨ type = .nocheckTask)
  thriftTrackers := trackers

/-- What the session keeps of a torrent. A throttle of zero is no limit, and the
number of connections has 24 bits. -/
structure Torrent where
  paused : Bool
  autoManaged : Bool
  uploadThrottle : Int32
  downloadThrottle : Int32
  connections : UInt32
  deriving DecidableEq

namespace Torrent

def throttle (limit : Int32) : Int32 := if limit ≤ 0 then 0 else limit

def setUploadLimit (t : Torrent) (limit : Int32) : Torrent :=
  { t with uploadThrottle := throttle limit }

def setMaxConnections (t : Torrent) (limit : Int32) : Torrent :=
  { t with connections := (if limit ≤ 0 then 16777215 else limit.toUInt32) % 16777216 }

def uploadLimit (t : Torrent) : Int32 :=
  if t.uploadThrottle = 2147483647 then -1 else t.uploadThrottle

def downloadLimit (t : Torrent) : Int32 :=
  if t.downloadThrottle = 2147483647 then -1 else t.downloadThrottle

def maxConnections (t : Torrent) : Int32 := t.connections.toInt32

def ofParams (p : AddTorrentParams) : Torrent :=
  setMaxConnections
    ⟨p.paused, p.autoManaged, throttle p.uploadLimit, throttle (-1), 0⟩ p.maxConnections

def resume (t : Torrent) : Torrent := { t with paused := false, autoManaged := true }
def pause (t : Torrent) : Torrent := { t with autoManaged := false, paused := true }

def setOptions (options : TaskOptions) (t : Torrent) : Torrent :=
  let limited := match options.uploadLimit with
    | none => t
    | some limit => t.setUploadLimit limit
  match options.maxConections with
    | none => limited
    | some limit => limited.setMaxConnections limit

end Torrent

structure MetadataEntry where
  infohash : ByteString
  metadata : ByteString
  deriving DecidableEq

structure Agent where
  tasksMap : Dict Int64 TaskRef
  torrentMap : Dict TorrentHandle TaskRef
  infohashMap : Dict ByteString TaskRef
  dataPathMap : Dict ByteString TaskRef
  tasks : TaskRef → Task
  nextRef : TaskRef
  session : Dict TorrentHandle Torrent
  settings : SessionSettings
  agentConfig : List ConfigRow
  metas : List MetadataEntry
  currentMetasTotalSize : Int32

namespace Agent

/-- The agent before it loads its resume files. -/
def start (settings : SessionSettings) (agentConfig : List ConfigRow) : Agent where
  tasksMap := ∅
  torrentMap := ∅
  infohashMap := ∅
  dataPathMap := ∅
  tasks := fun _ => {}
  nextRef := 0
  session := ∅
  settings := settings
  agentConfig := agentConfig
  metas := []
  currentMetasTotalSize := 0

section Held

-- the tasks that handlers under way refer to
variable (held : List TaskRef)

/-- The task that a weak reference gives. -/
def lock (s : Agent) (ref : TaskRef) : Option TaskRef :=
  if ref ∈ Dict.values s.tasksMap ∨ ref ∈ held then some ref else none

/-- One reference to the task goes away. The last one destroys it. -/
def dropTask (s : Agent) (ref : TaskRef) : Agent :=
  if ref ∈ Dict.values s.tasksMap ∨ ref ∈ held then s
  else { s with session := s.session.erase (s.tasks ref).torrent }

def setTask (s : Agent) (ref : TaskRef) (t : Task) : Agent :=
  { s with tasks := Function.update s.tasks ref t }

/-- `ERASE_TASK_FROM_MAP`: whatever stands under the keys of the task goes. -/
def eraseTaskFromMap (s : Agent) (t : Task) : Agent :=
  { s with
    torrentMap := s.torrentMap.erase t.torrent
    infohashMap := s.infohashMap.erase t.infohash
    dataPathMap := s.dataPathMap.erase t.getDataPath
    tasksMap := s.tasksMap.erase t.id }

/-- `ADD_TASK_TO_MAP`: whatever stood under the keys of the task is replaced. -/
def addTaskToMap (s : Agent) (ref : TaskRef) (t : Task) : Agent :=
  let added := { s with
    tasksMap := s.tasksMap.insert t.id ref
    infohashMap := s.infohashMap.insert t.infohash ref
    dataPathMap := s.dataPathMap.insert t.getDataPath ref
    torrentMap := s.torrentMap.insert t.torrent ref }
  match s.tasksMap.lookup t.id with
  | none => added
  | some old => added.dropTask held old

/-- A new task object with its torrent, both under the next number. -/
def newTask (s : Agent) (t : Task) (torrent : Torrent) : Agent :=
  { s with
    tasks := Function.update s.tasks s.nextRef { t with notNew := true, torrent := s.nextRef }
    nextRef := s.nextRef + 1
    session := s.session.insert s.nextRef torrent }

/-- The session applies a change to a torrent it still has. -/
def updateTorrent (s : Agent) (h : TorrentHandle) (f : Torrent → Torrent) : Agent :=
  match s.session.lookup h with
  | none => s
  | some torrent => { s with session := s.session.insert h (f torrent) }

def cancelTask (s : Agent) (ref : TaskRef) : Agent :=
  ((s.eraseTaskFromMap (s.tasks ref)).setTask ref (s.tasks ref).cancel).dropTask held ref

def persistTask (s : Agent) (ref : TaskRef) : Agent :=
  ((s.eraseTaskFromMap (s.tasks ref)).setTask ref (s.tasks ref).persist).dropTask held ref

/-- The keys of `tasks_map_` in the order in which it is walked. -/
def orderedIds (s : Agent) : List Int64 := s.tasksMap.keys.insertionSort (fun a b => a ≤ b)

def persistTasks (s : Agent) : Agent :=
  s.orderedIds.foldl (fun s id =>
    match s.tasksMap.lookup id with
    | none => s
    | some ref => s.persistTask held ref) s

/-- The callback takes the id as a C `int`. -/
def seedingTimerCallback (s : Agent) (taskid : Int32) : Agent :=
  match s.tasksMap.lookup taskid.toInt64 with
  | none => s
  | some ref => (s.eraseTaskFromMap (s.tasks ref)).dropTask held ref

def removeTaskByError (s : Agent) (ref : TaskRef) (error : ByteString) : Agent :=
  let failed := s.setTask ref ((s.tasks ref).setError error)
  (failed.eraseTaskFromMap (failed.tasks ref)).dropTask held ref

/-- The task of an alert's torrent, if the torrent is still in the session. -/
def onTorrentError (s : Agent) (h : TorrentHandle) (error : ByteString) : Agent :=
  match s.session.lookup h with
  | none => s
  | some _ =>
    match (s.torrentMap.lookup h).bind (s.lock held) with
    | none => s
    | some ref => s.removeTaskByError held ref error

end Held

end Agent

end Gingko.AgentTasks
