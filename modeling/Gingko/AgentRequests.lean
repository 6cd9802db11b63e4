import Gingko.AgentAdds

/-!
The handlers of the agent's requests and their dispatch. A handler gives the
next state, the error code it leaves and the replies it has queued. Parsing a
payload answers whether it succeeded and what the message holds then; the
message is used in both cases. A connection carries credentials only if they
could be read, and a handler that asks for them otherwise ends in an exception.
-/
namespace Gingko.AgentRequests

open KeyedMaps Base64Codec AgentMessages AgentTasks AgentAdds

inductive StatusCode where
  | unknow
  | error
  | checkq
  | checking
  | dtorrent
  | download
  | paused
  | seeding
  | finished
  | canceled
  deriving DecidableEq, Repr

inductive TorrentState where
  | queuedForChecking
  | checkingFiles
  | downloadingMetadata
  | downloading
  | checkingResumeData
  | other
  deriving DecidableEq, Repr

structure TorrentStatus where
  error : ByteString
  paused : Bool
  isFinished : Bool
  state : TorrentState
  progressPpm : Int32
  numPeers : Int32
  numSeeds : Int32
  uploadRate : Int32
  totalPayloadUpload : Int64
  deriving DecidableEq

structure TaskStatus where
  taskid : Int64
  cmd : ByteString
  uid : Int32
  gid : Int32
  infohash : ByteString
  savePath : ByteString
  newName : ByteString
  status : StatusCode
  error : ByteString
  progress : Int32
  numPeers : Int32
  numSeeds : Int32
  uploadRate : Int32
  totalUpload : Int64
  deriving DecidableEq

inductive Reply where
  | base (res : BaseRes)
  | task (res : TaskRes)
  | batchCtrl (tasks : List TaskRes)
  | batchList (status : List TaskStatus)
  | taskGetopt (options : TaskOptions)
  | agentGetopt (options : AgentOptions)
  deriving DecidableEq

/-- A body is absent when the payload is too short to have one. -/
structure Protobuf where
  batchCtrl : Option ByteString → Bool × BatchCtrl
  addTask : Option ByteString → Bool × AddTask
  metadata : Option ByteString → Bool × Metadata
  taskOptions : Option ByteString → Bool × TaskOptions
  agentOptions : Option ByteString → Bool × AgentOptions

/-- The status of a task that is not running comes from the database. -/
structure RequestEnv where
  conf : AgentConfigure
  protobuf : Protobuf
  add : AddEnv
  updateConfig : ℕ → Bool
  torrentStatus : TorrentHandle → TorrentStatus
  storedStatus : Int64 → TaskStatus

structure Handled where
  agent : Agent
  ec : ErrorCode
  replies : List Reply

abbrev Connection := Option Ucred

section AddTask

variable (env : AddEnv) (held : List TaskRef)

/-- The two locked sections, one after the other. -/
def placeTask (message : AddTask) (ti : TorrentInfo) (s : Agent) : Handled :=
  match removeDup held message.task s with
  | (s', some f) => ⟨s', some f, []⟩
  | (s', none) =>
    match insertTask env held message ti s' with
    | (s'', .error f) => ⟨s'', some f, []⟩
    | (s'', .ok id) => ⟨s'', none, [.task ⟨id, none⟩]⟩

def addTaskAs (cred : Ucred) (message : AddTask) (ec : ErrorCode) (s : Agent) : Handled :=
  match readTorrent env ec (setCred cred message.task) s with
  | (s', .error f) => ⟨s', some f, []⟩
  | (s', .ok (t, ti)) => placeTask env held { message with task := fillNewName t ti } ti s'

def addTask (conn : Connection) (message : AddTask) (ec : ErrorCode) (s : Agent) :
    Option Handled :=
  conn.map (fun cred => addTaskAs env held cred message ec s)

end AddTask

section Control

variable (conf : AgentConfigure) (held : List TaskRef) (cred : Ucred) (type : CtrlType)

def controlTask (s : Agent) (ref : TaskRef) : Agent :=
  match type with
  | .cancel => s.cancelTask held ref
  | .pause => s.updateTorrent (s.tasks ref).torrent Torrent.pause
  | .resume => s.updateTorrent (s.tasks ref).torrent Torrent.resume
  | .list => s

def ctrlTask (skip : Bool) (taskid : Int64) (it : Option TaskRef) (s : Agent) :
    Agent × Option TaskRes :=
  match it with
  | none => (s, some ⟨taskid, some ⟨Error.taskNotFound.value, "task not found"⟩⟩)
  | some ref =>
    if (s.tasks ref).checkCred conf cred then
      (controlTask held type s ref, some ⟨taskid, some ⟨0, "No error"⟩⟩)
    else if skip then (s, none)
    else (s, some ⟨taskid, some ⟨Error.checkCredFailed.value, "check cred fail"⟩⟩)

/-- One control after the other, with the results that are recorded. -/
def ctrlEach (step : Int64 → Agent → Agent × Option TaskRes) :
    List Int64 → Agent → Agent × List TaskRes
  | [], s => (s, [])
  | taskid :: rest, s =>
    let stepped := step taskid s
    let others := ctrlEach step rest stepped.1
    (others.1, stepped.2.toList ++ others.2)

/-- A walk over all tasks is silent about the tasks of other users. -/
def batchCtrlTasksAs (message : BatchCtrl) (s : Agent) : Agent × List TaskRes :=
  ctrlEach (fun taskid s => ctrlTask conf held cred message.getCtrlType message.getCtrlAll taskid
    (s.tasksMap.lookup taskid) s) (if message.getCtrlAll then s.orderedIds else message.taskids) s

end Control

def batchCtrlTasks (conf : AgentConfigure) (held : List TaskRef) (conn : Connection)
    (message : BatchCtrl) (ec : ErrorCode) (s : Agent) : Option Handled :=
  conn.map (fun cred =>
    let controlled := batchCtrlTasksAs conf held cred message s
    ⟨controlled.1, ec, [.batchCtrl controlled.2]⟩)

def getStatusCode (t : Task) (ts : TorrentStatus) (isFinish : Bool) : StatusCode :=
  if ts.error ≠ [] ∨ t.error ≠ [] then .error
  else if t.canceled then .canceled
  else if ts.paused then .paused
  else if ts.isFinished then if isFinish then .finished else .seeding
  else
    match ts.state with
    | .downloadingMetadata => .dtorrent
    | .checkingResumeData => .checkq
    | .queuedForChecking => .checkq
    | .checkingFiles => .checking
    | .downloading => .download
    | .other => .download

def getStatus (env : RequestEnv) (t : Task) : TaskStatus :=
  let ts := env.torrentStatus t.torrent
  { taskid := t.id
    cmd := t.cmd
    uid := t.cred.uid.toInt32
    gid := t.cred.gid.toInt32
    infohash := t.infohash
    savePath := t.savePath
    newName := t.newName
    status := getStatusCode t ts false
    error := if ts.error = [] then t.error else ts.error
    progress := ts.progressPpm
    numPeers := ts.numPeers
    numSeeds := ts.numSeeds
    uploadRate := ts.uploadRate
    totalUpload := ts.totalPayloadUpload }

def listTask (env : RequestEnv) (taskid : Int64) (it : Option TaskRef) (s : Agent) : TaskStatus :=
  match it with
  | none => env.storedStatus taskid
  | some ref => getStatus env (s.tasks ref)

def listTasks (env : RequestEnv) (message : BatchCtrl) (ec : ErrorCode) (s : Agent) : Handled :=
  let taskids := if message.getCtrlAll then s.orderedIds else message.taskids
  ⟨s, ec, [.batchList (taskids.map
    (fun taskid => listTask env taskid (s.tasksMap.lookup taskid) s))]⟩

section Options

variable (conf : AgentConfigure) (conn : Connection)

/-- The locked section of both task option handlers. -/
def findTask (options : TaskOptions) (s : Agent) : Except Failure TaskRef :=
  match s.tasksMap.lookup (options.taskid.getD 0) with
  | none => .error Error.taskNotFound.failure
  | some ref => .ok ref

def setOptions (options : TaskOptions) (ref : TaskRef) (s : Agent) : Agent :=
  s.updateTorrent (s.tasks ref).torrent (Torrent.setOptions options)

def taskSetopt (options : TaskOptions) (ec : ErrorCode) (s : Agent) : Option Handled :=
  match findTask options s with
  | .error f => some ⟨s, some f, []⟩
  | .ok ref => conn.map (fun cred =>
    if (s.tasks ref).checkCred conf cred then
      ⟨setOptions options ref s, ec, [.base (baseRes ec)]⟩
    else ⟨s, some Error.checkCredFailed.failure, []⟩)

/-- Only the options that the request sets are read. -/
def getOptions (torrent : Torrent) (options : TaskOptions) : TaskOptions :=
  { options with
    uploadLimit := options.uploadLimit.map (fun _ => torrent.uploadLimit)
    maxConections := options.maxConections.map (fun _ => torrent.maxConnections) }

def taskGetopt (options : TaskOptions) (ec : ErrorCode) (s : Agent) : Handled :=
  match findTask options s with
  | .error f => ⟨s, some f, []⟩
  | .ok ref =>
    match s.session.lookup (s.tasks ref).torrent with
    | none => ⟨s, ec, [.taskGetopt { options with
        uploadLimit := options.uploadLimit.map (fun _ => 0)
        maxConections := options.maxConections.map (fun _ => 0) }]⟩
    | some torrent => ⟨s, ec, [.taskGetopt (getOptions torrent options)]⟩

def changeSettings (options : AgentOptions) (settings : SessionSettings) : SessionSettings where
  connectionsLimit := options.maxConections.getD settings.connectionsLimit
  uploadRateLimit := options.uploadLimit.getD settings.uploadRateLimit

/-- The database keeps whole megabytes. The statement runs three times. -/
def storeSettings (updateConfig : ℕ → Bool) (settings : SessionSettings)
    (rows : List ConfigRow) : List ConfigRow :=
  if updateConfig 0 || updateConfig 1 || updateConfig 2 then
    rows.map (fun _ => ⟨settings.uploadRateLimit / 1024 / 1024, settings.connectionsLimit⟩)
  else rows

def changesAgent (cred : Ucred) : Bool :=
  decide (cred.uid = 0) || decide (cred.uid = conf.selfUid)

def agentSetoptAs (updateConfig : ℕ → Bool) (cred : Ucred) (options : AgentOptions)
    (ec : ErrorCode) (s : Agent) : Handled :=
  if changesAgent conf cred then
    let settings := changeSettings options s.settings
    ⟨{ s with
        settings := settings.applied
        agentConfig := storeSettings updateConfig settings s.agentConfig },
      ec, [.base (baseRes ec)]⟩
  else ⟨s, some Error.checkCredFailed.failure, []⟩

def agentSetopt (updateConfig : ℕ → Bool) (options : AgentOptions) (ec : ErrorCode)
    (s : Agent) : Option Handled :=
  conn.map (fun cred => agentSetoptAs conf updateConfig cred options ec s)

def agentGetopt (options : AgentOptions) (ec : ErrorCode) (s : Agent) : Handled :=
  ⟨s, ec, [.agentGetopt
    { bindPort := some conf.listenPort
      uploadLimit := options.uploadLimit.map (fun _ => s.settings.uploadRateLimit)
      maxConections := options.maxConections.map (fun _ => s.settings.connectionsLimit) }]⟩

/-- The oldest metadata goes as long as the new one does not fit. -/
def makeRoom (length : Int32) : List MetadataEntry → Int32 → List MetadataEntry × Int32
  | [], total => ([], total)
  | front :: rest, total =>
    if length + total > conf.maxTotalMetaSize * 1024 * 1024 ∨
        Int32.ofNat (rest.length + 1) + 1 > conf.maxTotalMetaNum then
      makeRoom length rest (total - Int32.ofNat front.metadata.length)
    else (front :: rest, total)

def addMetadata (message : Metadata) (s : Agent) : Agent :=
  let metadata := message.data.getD []
  let length := Int32.ofNat metadata.length
  if length < 1 ∨ length > conf.maxTotalMetaSize * 1024 * 1024 then s
  else
    let room := makeRoom conf length s.metas s.currentMetasTotalSize
    { s with
      metas := room.1 ++ [⟨message.infohash.getD [], metadata⟩]
      currentMetasTotalSize := room.2 + length }

end Options

inductive RequestType where
  | addTask
  | taskGetopt
  | taskSetopt
  | agentGetopt
  | agentSetopt
  | batchCtrl
  | addMetadata
  deriving DecidableEq, Repr

def RequestType.ofCode (type : UInt32) : Option RequestType :=
  if type = 1 then some .addTask
  else if type = 2 then some .taskGetopt
  else if type = 3 then some .taskSetopt
  else if type = 4 then some .agentGetopt
  else if type = 5 then some .agentSetopt
  else if type = 6 then some .batchCtrl
  else if type = 100 then some .addMetadata
  else none

/-- The first four bytes at the payload, little endian. A short payload is read
past its end; the read faults where the memory ends. -/
def readType (data beyond : ByteString) : Option UInt32 :=
  match data ++ beyond with
  | a :: b :: c :: d :: _ =>
    some (a.toUInt32 + b.toUInt32 * 256 + c.toUInt32 * 65536 + d.toUInt32 * 16777216)
  | _ => none

def bodyOf (data : ByteString) : Option ByteString :=
  if 4 ≤ data.length then some (data.drop 4) else none

/-- `PARSE_MSG` leaves only its own loop when the payload does not parse. -/
def parseMsg (parsed : Bool) : ErrorCode :=
  if parsed then none else some Error.protobufParseError.failure

section Dispatch

variable (env : RequestEnv) (held : List TaskRef) (conn : Connection)

def handleBatchCtrl (parsed : Bool × BatchCtrl) (s : Agent) : Option Handled :=
  if parsed.2.getCtrlType = .list then some (listTasks env parsed.2 (parseMsg parsed.1) s)
  else batchCtrlTasks env.conf held conn parsed.2 (parseMsg parsed.1) s

def handleAddMetadata (parsed : Bool × Metadata) (s : Agent) : Handled :=
  ⟨addMetadata env.conf parsed.2 s, parseMsg parsed.1, [.base (baseRes (parseMsg parsed.1))]⟩

/-- The cases of the switch. -/
def handleRequest (type : RequestType) (body : Option ByteString) (s : Agent) : Option Handled :=
  match type with
  | .batchCtrl => handleBatchCtrl env held conn (env.protobuf.batchCtrl body) s
  | .addTask =>
    let parsed := env.protobuf.addTask body
    addTask env.add held conn parsed.2 (parseMsg parsed.1) s
  | .addMetadata => some (handleAddMetadata env (env.protobuf.metadata body) s)
  | .taskSetopt =>
    let parsed := env.protobuf.taskOptions body
    taskSetopt env.conf conn parsed.2 (parseMsg parsed.1) s
  | .taskGetopt =>
    let parsed := env.protobuf.taskOptions body
    some (taskGetopt parsed.2 (parseMsg parsed.1) s)
  | .agentSetopt =>
    let parsed := env.protobuf.agentOptions body
    agentSetopt env.conf conn env.updateConfig parsed.2 (parseMsg parsed.1) s
  | .agentGetopt =>
    let parsed := env.protobuf.agentOptions body
    some (agentGetopt env.conf parsed.2 (parseMsg parsed.1) s)

structure Outcome where
  agent : Agent
  replies : List Reply

/-- An error code that is set after the switch is sent as a further reply. -/
def sendError (h : Handled) : Outcome :=
  match h.ec with
  | none => ⟨h.agent, h.replies⟩
  | some f => ⟨h.agent, h.replies ++ [.base (baseRes (some f))]⟩

/-- A missing credential ends the call without a reply. -/
def processRequest (type : RequestType) (body : Option ByteString) (s : Agent) : Outcome :=
  match handleRequest env held conn type body s with
  | none => ⟨s, []⟩
  | some handled => sendError handled

/-- So does a faulting read. -/
def processMessage (data beyond : ByteString) (s : Agent) : Outcome :=
  match readType data beyond with
  | none => ⟨s, []⟩
  | some code =>
    match RequestType.ofCode code with
    | none => sendError ⟨s, some Error.msgArgsError.failure, []⟩
    | some type => processRequest env held conn type (bodyOf data) s

end Dispatch

end Gingko.AgentRequests
