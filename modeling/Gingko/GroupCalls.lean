import Gingko.GroupAdds
import Gingko.GuardedRuns

/-!
The calls on the tasks of a group manager and the ends of its downloads, each as one
step. Where the code would use an iterator past the end of a map there is no next state.
-/
namespace Gingko.GroupCalls

open KeyedMaps Base64Codec AgentTasks GroupTasks GroupAdds

/-- The limits of a message that are not set are -1. -/
structure TaskOptions where
  infohash : ByteString := []
  downloadLimit : Int32 := -1
  uploadLimit : Int32 := -1
  connectionsLimit : Int32 := -1
  deriving DecidableEq

def setLimitIntValue (min max value : Int32) : Int32 :=
  if max < value then max else if value < min then min else value

section Options

variable (options : TaskOptions)

def sessionLimits (settings : GroupSettings) : GroupSettings where
  connectionsLimit := if 0 < options.connectionsLimit then
      setLimitIntValue 1 32768 options.connectionsLimit
    else settings.connectionsLimit
  downloadRateLimit := if 0 < options.downloadLimit then
      setLimitIntValue 0 (2000 * 1024 * 1024) options.downloadLimit
    else settings.downloadRateLimit
  uploadRateLimit := if 0 < options.uploadLimit then
      setLimitIntValue 0 (2000 * 1024 * 1024) options.uploadLimit
    else settings.uploadRateLimit

def limitTorrent (torrent : Torrent) : Torrent :=
  let downloads := if 0 < options.downloadLimit then
      { torrent with downloadThrottle := Torrent.throttle options.downloadLimit }
    else torrent
  let uploads := if 0 < options.uploadLimit then downloads.setUploadLimit options.uploadLimit
    else downloads
  if 0 < options.connectionsLimit then uploads.setMaxConnections options.connectionsLimit
  else uploads

def limitParams (params : DownloadParam) : DownloadParam :=
  { params with
    downloadLimit := if 0 < options.downloadLimit then options.downloadLimit
      else params.downloadLimit
    uploadLimit := if 0 < options.uploadLimit then options.uploadLimit else params.uploadLimit
    connectionsLimit := if 0 < options.connectionsLimit then options.connectionsLimit
      else params.connectionsLimit }

end Options

def changeTorrent (g : Group) (handle : Option TorrentHandle) (f : Torrent → Torrent) : Group :=
  match handle with
  | none => g
  | some handle => { g with session := g.session.change handle f }

def changeTask (g : Group) (ref : TaskRef) (f : GroupTask → GroupTask) : Group :=
  { g with tasks := Function.update g.tasks ref (f (g.tasks ref)) }

/-- `GroupTask::SetOptions` on the task of the reference. -/
def setOptions (g : Group) (ref : TaskRef) (options : TaskOptions) : ClientRpcStatus × Group :=
  if options.infohash ≠ [] ∧ options.infohash ≠ (g.tasks ref).infohash then (.setOptFailed, g)
  else
    let limited := changeTorrent g (g.tasks ref).torrentHandle (limitTorrent options)
    (.success, changeTask limited ref fun t => { t with params := limitParams options t.params })

/-- `infohash_map_[options.infohash]` makes an entry where there is none. -/
def setTaskOptions (g : Group) (options : TaskOptions) : ClientRpcStatus × Group :=
  if options.infohash = [] then (.success, { g with settings := sessionLimits options g.settings })
  else match g.infohashMap.lookup options.infohash with
    | none => (.taskNotExist,
        { g with infohashMap := g.infohashMap.insert options.infohash none })
    | some none => (.taskNotExist, g)
    | some (some ref) => setOptions g ref options

/-- What a task without a torrent in the session answers is zero. -/
def getOptions (g : Group) (ref : TaskRef) : TaskOptions :=
  match (g.tasks ref).torrentHandle.bind g.session.torrents.lookup with
  | none => ⟨(g.tasks ref).infohash, 0, 0, 0⟩
  | some torrent => ⟨(g.tasks ref).infohash, torrent.downloadLimit, torrent.uploadLimit,
      torrent.maxConnections⟩

/-- No list entry is the return value -1. -/
def getTaskOptions (g : Group) (infohash : ByteString) : Option TaskOptions :=
  if infohash = [] then
    some ⟨[], g.settings.downloadRateLimit, g.settings.uploadRateLimit, g.settings.connectionsLimit⟩
  else match g.infohashMap.lookup infohash with
    | none => none
    | some none => none
    | some (some ref) => some (getOptions g ref)

section Removal

/-- The locked part of `RemoveTorrentTmp`. The entry is read before it is compared with
the end of the map. -/
def moveToFinished (g : Group) (handle : TorrentHandle) (infohash : ByteString) : Option Group :=
  match g.infohashMap.lookup infohash with
  | none => none
  | some none => some g
  | some (some ref) => some { g with
      finishedInfohashList := g.finishedInfohashList ++ [(infohash, ref)]
      infohashMap := g.infohashMap.erase infohash
      torrentMap := g.torrentMap.erase handle }

/-- The entry of the infohash moves, unless it has no task. -/
theorem moveToFinished_cases {g g' : Group} {handle : TorrentHandle} {infohash : ByteString}
    (h : moveToFinished g handle infohash = some g') :
    g' = g ∨ ∃ ref, g.infohashMap.lookup infohash = some (some ref) ∧ g' = { g with
      finishedInfohashList := g.finishedInfohashList ++ [(infohash, ref)]
      infohashMap := g.infohashMap.erase infohash
      torrentMap := g.torrentMap.erase handle } := by
  unfold moveToFinished at h
  split at h
  · contradiction
  · exact .inl (Option.some.inj h).symm
  · rename_i ref hlook
    exact .inr ⟨ref, hlook, (Option.some.inj h).symm⟩

def removeTorrentTmp (g : Group) (handle : TorrentHandle) (infohash : ByteString) : Option Group :=
  moveToFinished { g with session := g.session.remove handle } handle infohash

variable (env : GroupEnv)

/-- How a removed task ends. -/
def finishTask (isRemoveByUser : Bool) (t : GroupTask) : GroupTask :=
  { t with
    controlStatus := if isRemoveByUser then .canceled else .finished
    taskStatus := { t.taskStatus with
      isTaskFinished := true
      endTime := env.now
      state := if t.isTimeout then 16 else if isRemoveByUser then 11 else 4
      stateString := if t.isTimeout then "TIMEOUT"
        else if isRemoveByUser then "CANCELED" else "FINISHED" } }

/-- The timer keeps the finished tasks for a while; the others are destroyed. -/
def dropFinished (keep : ByteString × TaskRef → Bool) (g : Group) : Group :=
  let dropped := g.finishedInfohashList.filter fun entry => !keep entry
  dropped.foldl (fun g entry => g.destroy env (g.tasks entry.2))
    { g with finishedInfohashList := g.finishedInfohashList.filter keep }

/-- Destroying tasks changes nothing but their resume files. -/
theorem destroyAll_eq (dropped : List (ByteString × TaskRef)) (g : Group) : ∃ resumeDir,
    dropped.foldl (fun g entry => g.destroy env (g.tasks entry.2)) g =
      { g with resumeDir := resumeDir } := by
  induction dropped generalizing g with
  | nil => exact ⟨g.resumeDir, rfl⟩
  | cons entry rest ih =>
    obtain ⟨resumeDir, hrest⟩ := ih (g.destroy env (g.tasks entry.2))
    refine ⟨resumeDir, ?_⟩
    rw [List.foldl_cons, hrest, destroy_eq]

theorem dropFinished_eq (keep : ByteString × TaskRef → Bool) (g : Group) : ∃ resumeDir,
    dropFinished env keep g = { g with
      finishedInfohashList := g.finishedInfohashList.filter keep
      resumeDir := resumeDir } :=
  destroyAll_eq env _ _

def removeTorrent (g : Group) (ref : TaskRef) (isRemoveByUser : Bool) : Option Group :=
  match (g.tasks ref).torrentHandle with
  | none => some g
  | some handle =>
    if g.session.isValid handle then do
      let moved ← removeTorrentTmp g handle (g.tasks ref).infohash
      let finished := changeTask moved ref (finishTask env isRemoveByUser)
      some (finished.persist env (finished.tasks ref))
    else some g

end Removal

inductive ControlTaskType where
  | unknown
  | cancel
  | pause
  | resume
  deriving DecidableEq

section Control

variable (env : GroupEnv)

/-- `GroupTask::ControlTask` on the task of the reference. -/
def controlRef (type : ControlTaskType) (g : Group) (ref : TaskRef) : Option Group :=
  let handle := (g.tasks ref).torrentHandle
  match type with
  | .unknown => some g
  | .cancel =>
    removeTorrent env (changeTask g ref fun t => { t with controlStatus := .canceled }) ref true
  | .pause =>
    some (changeTorrent (changeTask g ref fun t => { t with controlStatus := .paused })
      handle Torrent.pause)
  | .resume =>
    some (changeTorrent (changeTask g ref fun t => { t with controlStatus := .resume })
      handle Torrent.resume)

def checkCred (cred : UserCred) (t : GroupTask) : Bool := cred.uid == 0 || cred.uid == t.cred.uid

/-- The tasks are collected first, so the ones added meanwhile are left alone. -/
def controlAllTasks (g : Group) (type : ControlTaskType) (cred : UserCred) :
    Option (ClientRpcStatus × Group) :=
  let taskList := (Dict.values g.infohashMap).filterMap fun pointer =>
    pointer.filter fun ref => checkCred cred (g.tasks ref)
  (taskList.foldlM (controlRef env type) g).map fun after => (.success, after)

def controlTaskByInfohash (g : Group) (infohash : ByteString) (type : ControlTaskType)
    (cred : UserCred) : Option (ClientRpcStatus × Group) :=
  match g.infohashMap.lookup infohash with
  | none => some (.taskNotExist, g)
  | some none => some (.taskNotExist, g)
  | some (some ref) =>
    if checkCred cred (g.tasks ref) then
      (controlRef env type g ref).map fun after => (.success, after)
    else some (.credFailed, g)

def controlTask (g : Group) (infohash : ByteString) (isAll : Bool) (type : ControlTaskType)
    (cred : UserCred) : Option (ClientRpcStatus × Group) :=
  if isAll then controlAllTasks env g type cred
  else if infohash = [] then some (.errorParams, g)
  else controlTaskByInfohash env g infohash type cred

end Control

section Rename

/-- An entry that is there is kept. -/
def insertNew (infohash : ByteString) (task : Option TaskRef)
    (m : Dict ByteString (Option TaskRef)) : Dict ByteString (Option TaskRef) :=
  match m.lookup infohash with
  | none => m.insert infohash task
  | some _ => m

/-- A url that only the finished list has leads to reading the end of the map. -/
def updateInfohashByTorrentUrl (g : Group) (torrentUrl infohash : ByteString) : Option Group :=
  if torrentUrl = [] ∨ infohash = [] ∨ infohash.length ≠ 40 then some g
  else match g.infohashMap.lookup torrentUrl with
    | none =>
      if g.finishedInfohashList.any fun entry => entry.1 == torrentUrl then none else some g
    | some task =>
      some { g with infohashMap := (insertNew infohash task g.infohashMap).erase torrentUrl }

/-- Only the key of the entry changes. -/
theorem updateInfohashByTorrentUrl_cases {g g' : Group} {torrentUrl infohash : ByteString}
    (h : updateInfohashByTorrentUrl g torrentUrl infohash = some g') :
    g' = g ∨ ∃ task, g.infohashMap.lookup torrentUrl = some task ∧ g' = { g with
      infohashMap := (insertNew infohash task g.infohashMap).erase torrentUrl } := by
  unfold updateInfohashByTorrentUrl at h
  split at h
  · exact .inl (Option.some.inj h).symm
  · split at h
    · exact .inl (Option.some.inj (Option.ite_none_left_eq_some.mp h).2).symm
    · rename_i task hlook
      exact .inr ⟨task, hlook, (Option.some.inj h).symm⟩

def onMetadataReceived (g : Group) (ref : TaskRef) (infohash : ByteString) : Option Group :=
  if (g.tasks ref).isTorrentUrl then
    let renamed := changeTask g ref fun t => { t with
      infohash := infohash
      params := { t.params with infohash := infohash }
      taskStatus := { t.taskStatus with infohash := infohash } }
    updateInfohashByTorrentUrl renamed (g.tasks ref).params.torrentUrl infohash
  else some g

end Rename
end Gingko.GroupCalls
