import Gingko.Base64Codec

/-!
The messages between the agent and its clients, and the agent's error codes.
An optional protobuf field is an option, and reading an absent one gives the
default of the schema: the first member for an enumeration. An error code that
is set carries a nonzero value.
-/
namespace Gingko.AgentMessages

open Base64Codec

/-- The resume files hold the type as an integer, so types without a name exist. -/
inductive TaskType where
  | seedingTask
  | nocheckTask
  | unnamed (code : Int64)
  deriving DecidableEq, Repr

def TaskType.ofCode (code : Int64) : TaskType :=
  if code = 2 then .seedingTask else if code = 3 then .nocheckTask else .unnamed code

def TaskType.code : TaskType → Int64
  | .seedingTask => 2
  | .nocheckTask => 3
  | .unnamed code => code

theorem TaskType.code_ofCode (code : Int64) : (TaskType.ofCode code).code = code := by
  unfold TaskType.ofCode
  by_cases hseeding : code = 2
  · rw [if_pos hseeding, TaskType.code, hseeding]
  · by_cases hnocheck : code = 3
    · rw [if_neg hseeding, if_pos hnocheck, TaskType.code, hnocheck]
    · rw [if_neg hseeding, if_neg hnocheck, TaskType.code]

structure Host where
  ip : Option ByteString := none
  port : Option Int32 := none
  deriving DecidableEq

structure TaskOptions where
  taskid : Option Int64 := none
  uploadLimit : Option Int32 := none
  maxConections : Option Int32 := none
  deriving DecidableEq

structure AgentOptions where
  bindPort : Option Int32 := none
  uploadLimit : Option Int32 := none
  maxConections : Option Int32 := none
  deriving DecidableEq

/-- The task part of an add request. The credentials are filled in by the agent. -/
structure TaskInfo where
  type : Option TaskType := none
  infohash : Option ByteString := none
  torrentPath : Option ByteString := none
  data : Option ByteString := none
  savePath : Option ByteString := none
  newName : Option ByteString := none
  trackers : List Host := []
  cmd : Option ByteString := none
  uid : Option Int32 := none
  gid : Option Int32 := none
  seedingTime : Option Int32 := none
  deriving DecidableEq

namespace TaskInfo

def getType (t : TaskInfo) : TaskType := t.type.getD .seedingTask
def getInfohash (t : TaskInfo) : ByteString := t.infohash.getD []
def getSavePath (t : TaskInfo) : ByteString := t.savePath.getD []
def getNewName (t : TaskInfo) : ByteString := t.newName.getD []
def getCmd (t : TaskInfo) : ByteString := t.cmd.getD []
def getUid (t : TaskInfo) : Int32 := t.uid.getD 0
def getGid (t : TaskInfo) : Int32 := t.gid.getD 0
def getSeedingTime (t : TaskInfo) : Int32 := t.seedingTime.getD 0

end TaskInfo

/-- The path of the downloaded data, a slash between its two parts. -/
def dataPath (savePath newName : ByteString) : ByteString := savePath ++ 47 :: newName

structure AddTask where
  task : TaskInfo := {}
  options : TaskOptions := {}
  deriving DecidableEq

inductive CtrlType where
  | cancel
  | pause
  | resume
  | list
  deriving DecidableEq, Repr

structure BatchCtrl where
  ctrlType : Option CtrlType := none
  ctrlAll : Option Bool := none
  taskids : List Int64 := []
  deriving DecidableEq

def BatchCtrl.getCtrlType (m : BatchCtrl) : CtrlType := m.ctrlType.getD .cancel
def BatchCtrl.getCtrlAll (m : BatchCtrl) : Bool := m.ctrlAll.getD false

structure Metadata where
  infohash : Option ByteString := none
  data : Option ByteString := none
  deriving DecidableEq

structure BaseRes where
  retCode : Int32
  failMsg : String
  deriving DecidableEq

structure TaskRes where
  taskid : Int64
  res : Option BaseRes := none
  deriving DecidableEq

/-- The error codes of the agent, without the one for success. -/
inductive Error where
  | memAllocError
  | msgReadError
  | protobufParseError
  | msgArgsError
  | torrentFileError
  | infohashNotCorrect
  | dupTaskError
  | generateTaskIdFailed
  | addTorrentError
  | taskNotFound
  | trackerError
  | readCredFailed
  | checkCredFailed
  | dbError
  | noMetadata
  | parseMetadataFailed
  deriving DecidableEq, Repr

namespace Error

def value : Error → Int32
  | memAllocError => 1
  | msgReadError => 2
  | protobufParseError => 3
  | msgArgsError => 4
  | torrentFileError => 5
  | infohashNotCorrect => 6
  | dupTaskError => 7
  | generateTaskIdFailed => 8
  | addTorrentError => 9
  | taskNotFound => 10
  | trackerError => 11
  | readCredFailed => 12
  | checkCredFailed => 13
  | dbError => 14
  | noMetadata => 15
  | parseMetadataFailed => 16

def message : Error → String
  | memAllocError => "memery alloc failed"
  | msgReadError => "message read failed"
  | protobufParseError => "ptotobuf parse failed"
  | msgArgsError => "args not correct"
  | torrentFileError => "torrent file not correct"
  | infohashNotCorrect => "infohash not correct"
  | dupTaskError => "dup task error"
  | generateTaskIdFailed => "generate taskid failed"
  | addTorrentError => "add torrent failed"
  | taskNotFound => "task not found"
  | trackerError => "tracker failed"
  | readCredFailed => "read cred failed"
  | checkCredFailed => "check cred failed"
  | dbError => "db error"
  | noMetadata => "have no metadata"
  | parseMetadataFailed => "parse metadata failed"

end Error

/-- A set error code, of the agent or of a library. -/
structure Failure where
  value : Int32
  message : String
  nonzero : value ≠ 0
  deriving DecidableEq

def Error.failure (e : Error) : Failure := ⟨e.value, e.message, by cases e <;> decide⟩

abbrev ErrorCode := Option Failure

/-- The reply made from an error code. A clear code has the text of the system category. -/
def baseRes : ErrorCode → BaseRes
  | none => ⟨0, "Success"⟩
  | some f => ⟨f.value, f.message⟩

theorem baseRes_retCode (ec : ErrorCode) : (baseRes ec).retCode = 0 ↔ ec = none := by
  cases ec with
  | none => exact iff_of_true rfl rfl
  | some f => exact iff_of_false f.nonzero (Option.some_ne_none f)

end Gingko.AgentMessages
