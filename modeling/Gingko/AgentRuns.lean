import Gingko.AgentRequests
import Gingko.GuardedRuns

/-!
The agent with its requests in parallel. A request that takes the task lock
more than once, or that keeps a task after it has left the lock, is a call
whose sections are taken one by one. Timers, alerts of the session, the end of
the agent and its next start are events of their own; the start loads one
resume file at a time.
-/
namespace Gingko.AgentRuns

open KeyedMaps Base64Codec AgentMessages AgentTasks AgentAdds AgentRequests

abbrev CallId := ℕ

/-- A parsed request. The outcomes of the database update belong to the event. -/
inductive Request where
  | addTask (message : AddTask)
  | taskGetopt (options : TaskOptions)
  | taskSetopt (options : TaskOptions)
  | agentGetopt (options : AgentOptions)
  | agentSetopt (options : AgentOptions) (updateConfig : ℕ → Bool)
  | batchCtrl (message : BatchCtrl)
  | addMetadata (message : Metadata)

/-- Where a call stands: before the conflict test, before the insertion, or
outside the lock with a task in its hands. -/
inductive Call where
  | placing (cred : Ucred) (message : AddTask) (ti : TorrentInfo)
  | inserting (cred : Ucred) (message : AddTask) (ti : TorrentInfo)
  | created (cred : Ucred) (ref : TaskRef)
  | setting (cred : Ucred) (options : TaskOptions) (ref : TaskRef)
  | getting (cred : Ucred) (ref : TaskRef)

namespace Call

def cred : Call → Ucred
  | placing cred _ _ => cred
  | inserting cred _ _ => cred
  | created cred _ => cred
  | setting cred _ _ => cred
  | getting cred _ => cred

def task : Call → Option TaskRef
  | placing _ _ _ => none
  | inserting _ _ _ => none
  | created _ ref => some ref
  | setting _ _ ref => some ref
  | getting _ ref => some ref

end Call

abbrev Calls := Dict CallId Call

def heldBy (calls : Calls) : List TaskRef := (Dict.values calls).filterMap Call.task

structure World where
  agent : Agent
  calls : Calls

def World.held (w : World) : List TaskRef := heldBy w.calls

/-- The limit a start sets: the stored one if a row was read, at most 500 MB. -/
def startSettings (conf : AgentConfigure) (row : Option ConfigRow) : SessionSettings :=
  let read := row.getD ⟨conf.uploadLimit, conf.connectionLimit⟩
  let upload := read.uploadLimit * 1024 * 1024
  ⟨read.connectionLimit, if upload > 500 * 1024 * 1024 then 500 * 1024 * 1024 else upload⟩

def World.start (conf : AgentConfigure) (row : Option ConfigRow) (agentConfig : List ConfigRow) :
    World :=
  ⟨Agent.start (startSettings conf row).applied agentConfig, ∅⟩

inductive Event where
  | request (c : CallId) (cred : Ucred) (request : Request) (ec : ErrorCode) (env : AddEnv)
  | resume (c : CallId) (env : AddEnv)
  | seedingTimer (taskid : Int64)
  | torrentError (h : TorrentHandle) (error : ByteString)
  | persistTasks
  | restart (row : Option ConfigRow)
  | resumeFile (d : ResumeData) (env : AddEnv)

section Sections

variable (conf : AgentConfigure)

/-- The part of a request before its call first waits for a lock again. -/
def beginRequest (c : CallId) (cred : Ucred) (request : Request) (ec : ErrorCode) (env : AddEnv)
    (w : World) : World :=
  match request with
  | .addTask message =>
    match readTorrent env ec (setCred cred message.task) w.agent with
    | (s, .error _) => ⟨s, w.calls⟩
    | (s, .ok (t, ti)) =>
      ⟨s, w.calls.insert c (.placing cred { message with task := fillNewName t ti } ti)⟩
  | .taskGetopt options =>
    match findTask options w.agent with
    | .error _ => w
    | .ok ref => ⟨w.agent, w.calls.insert c (.getting cred ref)⟩
  | .taskSetopt options =>
    match findTask options w.agent with
    | .error _ => w
    | .ok ref =>
      if (w.agent.tasks ref).checkCred conf cred then
        ⟨w.agent, w.calls.insert c (.setting cred options ref)⟩
      else w
  | .agentGetopt _ => w
  | .agentSetopt options updateConfig =>
    ⟨(agentSetoptAs conf updateConfig cred options ec w.agent).agent, w.calls⟩
  | .batchCtrl message =>
    if message.getCtrlType = .list then w
    else ⟨(batchCtrlTasksAs conf w.held cred message w.agent).1, w.calls⟩
  | .addMetadata message => ⟨addMetadata conf message w.agent, w.calls⟩

/-- The call ends and lets go of its task. -/
def endCall (c : CallId) (ref : TaskRef) (w : World) : World :=
  let rest := w.calls.erase c
  ⟨w.agent.dropTask (heldBy rest) ref, rest⟩

/-- The next section of a call. -/
def resumeCall (c : CallId) (env : AddEnv) (w : World) : Call → World
  | .placing cred message ti =>
    match removeDup w.held message.task w.agent with
    | (s, some _) => ⟨s, w.calls.erase c⟩
    | (s, none) => ⟨s, w.calls.insert c (.inserting cred message ti)⟩
  | .inserting cred message ti =>
    match insertTask env w.held message ti w.agent with
    | (s, .error _) => ⟨s, w.calls.erase c⟩
    | (s, .ok _) => ⟨s, w.calls.insert c (.created cred w.agent.nextRef)⟩
  | .created _ ref => endCall c ref w
  | .setting _ options ref => endCall c ref ⟨setOptions options ref w.agent, w.calls⟩
  | .getting _ ref => endCall c ref w

/-- An event of a call that is not there, or is there already, changes nothing. -/
def next (w : World) : Event → World
  | .request c cred request ec env =>
    match w.calls.lookup c with
    | some _ => w
    | none => beginRequest conf c cred request ec env w
  | .resume c env =>
    match w.calls.lookup c with
    | none => w
    | some call => resumeCall c env w call
  | .seedingTimer taskid => ⟨w.agent.seedingTimerCallback w.held taskid.toInt32, w.calls⟩
  | .torrentError h error => ⟨w.agent.onTorrentError w.held h error, w.calls⟩
  | .persistTasks => ⟨w.agent.persistTasks w.held, w.calls⟩
  | .restart row => World.start conf row w.agent.agentConfig
  | .resumeFile d env => ⟨addResumeTask env w.held d w.agent, w.calls⟩

variable (c : CallId) (cred : Ucred) (env : AddEnv) (w : World)

theorem agent_beginAdd (message : AddTask) (ec : ErrorCode) :
    (beginRequest conf c cred (.addTask message) ec env w).agent =
      (readTorrent env ec (setCred cred message.task) w.agent).1 := by
  unfold beginRequest
  dsimp only
  split
  · rename_i hread
    rw [hread]
  · rename_i hread
    rw [hread]

theorem agent_placing (message : AddTask) (ti : TorrentInfo) :
    (resumeCall c env w (.placing cred message ti)).agent =
      (removeDup w.held message.task w.agent).1 := by
  unfold resumeCall
  dsimp only
  split
  · rename_i hremoved
    rw [hremoved]
  · rename_i hremoved
    rw [hremoved]

theorem agent_inserting (message : AddTask) (ti : TorrentInfo) :
    (resumeCall c env w (.inserting cred message ti)).agent =
      (insertTask env w.held message ti w.agent).1 := by
  unfold resumeCall
  dsimp only
  split
  · rename_i hinserted
    rw [hinserted]
  · rename_i hinserted
    rw [hinserted]

end Sections

/-- An agent of user 1000. -/
def plainConf : AgentConfigure := ⟨422, 16, 16, 100, 50000, 1000⟩

def user (uid : UInt32) : Ucred := ⟨1, uid, uid⟩

/-- Every step outside the agent succeeds, and the database gives this id. A
torrent file has a hash that starts with its path. -/
def answering (id : Int64) : AddEnv where
  fileSize := fun _ => 100
  torrentFile := fun path newName => .ok ⟨path ++ List.replicate 19 0, newName⟩
  torrentData := fun data newName => .ok ⟨data ++ List.replicate 19 0, newName⟩
  lazyBdecode := fun _ => none
  parseInfoSection := fun bytes newName _ => .ok ⟨bytes, newName⟩
  excute := fun _ => ⟨true, some id⟩
  getTrackersByInfohash := fun _ => []
  addTorrent := fun _ => none
  stalePid := 0

/-- A request to seed the data at a path under the root for a torrent file. -/
def addFile (type : TaskType) (torrentPath newName : ByteString) : AddTask where
  task :=
    { type := some type
      torrentPath := some torrentPath
      savePath := some []
      newName := some newName }

/-- An add request that is handled without other events in between. -/
def addedAtOnce (c : CallId) (cred : Ucred) (message : AddTask) (env : AddEnv) : List Event :=
  [.request c cred (.addTask message) none env, .resume c env, .resume c env, .resume c env]

end Gingko.AgentRuns
