import Gingko.GroupCalls
import Gingko.Interleavings

/-!
Removing the tasks of a group manager from several threads. `RemoveTorrent` tests the
torrent handle, takes the torrent out of the session and then, under the lock, moves
the entry of the infohash to the finished list; a rename first changes the infohash
of the task and then, under the lock, the key of its entry. Each of these is a step.
The move reads the infohash of the task anew for each of the lists it changes, so a
rename that comes in between, which it can without the lock, is a step of its own.
-/
namespace Gingko.GroupRemovals

open KeyedMaps Base64Codec AgentTasks GroupTasks GroupAdds GroupCalls GuardedRuns Interleavings

/-- Where a thread is, with the task it works on. In `locking` the torrent is out of the
session, in `naming` the thread has the metadata, in `rekeying` the task has its new
infohash. -/
inductive Place where
  | idle
  | testing (ref : TaskRef) (isRemoveByUser : Bool)
  | removing (ref : TaskRef) (isRemoveByUser : Bool) (handle : TorrentHandle)
  | locking (ref : TaskRef) (isRemoveByUser : Bool) (handle : TorrentHandle)
  | ending (ref : TaskRef) (isRemoveByUser : Bool)
  | persisting (ref : TaskRef)
  | naming (ref : TaskRef) (infohash : ByteString)
  | rekeying (ref : TaskRef)

/-- `endRead` says that an iterator past the end of a map has been dereferenced, and
`moves` how often a task has been moved to the finished list. -/
structure Shared where
  group : Group
  endRead : Bool
  moves : TaskRef → ℕ

/-- A locked section without a result has read past the end. -/
def Shared.locked (sh : Shared) (result : Option Group) : Shared :=
  match result with
  | none => { sh with endRead := true }
  | some group => { sh with group := group }

/-- The move of an entry is counted for the task of the entry. -/
def Shared.move (sh : Shared) (handle : TorrentHandle) (infohash : ByteString) : Shared :=
  { sh.locked (moveToFinished sh.group handle infohash) with
    moves := match sh.group.infohashMap.lookup infohash with
      | some (some ref) => Function.update sh.moves ref (sh.moves ref + 1)
      | _ => sh.moves }

/-- The infohash of the metadata, which is written without the lock. -/
def setInfohash (infohash : ByteString) (t : GroupTask) : GroupTask :=
  { t with
    infohash := infohash
    params := { t.params with infohash := infohash }
    taskStatus := { t.taskStatus with infohash := infohash } }

/-- The move of an entry while the infohash of its task is written, after the entry has
been found: before it is listed or after that. The entry is erased under the new one. -/
def Shared.moveRenamed (sh : Shared) (ref : TaskRef) (handle : TorrentHandle)
    (infohash : ByteString) (listed : Bool) : Option Shared :=
  match sh.group.infohashMap.lookup (sh.group.tasks ref).infohash with
  | some (some found) =>
    let renamed := changeTask sh.group ref (setInfohash infohash)
    some { sh with
      group := { renamed with
        finishedInfohashList := renamed.finishedInfohashList ++
          [(if listed then (sh.group.tasks ref).infohash else infohash, found)]
        infohashMap := renamed.infohashMap.erase infohash
        torrentMap := renamed.torrentMap.erase handle }
      moves := Function.update sh.moves found (sh.moves found + 1) }
  | _ => none

section Steps

variable (env : GroupEnv)

/-- One step of a thread in `RemoveTorrent` or in `OnMetadataReceived`. -/
def advance (sh : Shared) : Place → Option (Shared × Place)
  | .idle => none
  | .testing ref byUser =>
    match (sh.group.tasks ref).torrentHandle with
    | none => some (sh, .idle)
    | some handle =>
      if sh.group.session.isValid handle then some (sh, .removing ref byUser handle)
      else some (sh, .idle)
  | .removing ref byUser handle =>
    some ({ sh with group := { sh.group with session := sh.group.session.remove handle } },
      .locking ref byUser handle)
  | .locking ref byUser handle =>
    some (sh.move handle (sh.group.tasks ref).infohash, .ending ref byUser)
  | .ending ref byUser =>
    some ({ sh with group := changeTask sh.group ref (finishTask env byUser) }, .persisting ref)
  | .persisting ref =>
    some ({ sh with group := sh.group.persist env (sh.group.tasks ref) }, .idle)
  | .naming ref infohash =>
    some ({ sh with group := changeTask sh.group ref (setInfohash infohash) }, .rekeying ref)
  | .rekeying ref =>
    some (sh.locked (updateInfohashByTorrentUrl sh.group (sh.group.tasks ref).params.torrentUrl
      (sh.group.tasks ref).infohash), .idle)

/-- The task of an alert is looked up under the lock, by its torrent. -/
def metadata (sh : Shared) (handle : TorrentHandle) (infohash : ByteString) :
    Option (Shared × Place) :=
  match sh.group.torrentMap.lookup handle with
  | none => none
  | some ref =>
    if (sh.group.tasks ref).isTorrentUrl then some (sh, .naming ref infohash) else none

variable {T : Type} [DecidableEq T]

abbrev State (T : Type) := System T Shared Place

def State.start (settings : GroupSettings) : State T :=
  ⟨⟨Group.start settings, false, fun _ => 0⟩, fun _ => .idle⟩

/-- A cancel is for a task that its thread has looked up before. The timers, a hang and a
cluster failure all remove the task in the same way. In `nameInside` the thread `u` writes
the infohash inside the locked section of `t`; alerts have one thread, so no other does. -/
inductive Event (T : Type) where
  | add (rights : AddRights) (param : DownloadParam) (cred : UserCred)
  | resumeEntry (name : ByteString)
  | dropFinished (keep : ByteString × TaskRef → Bool)
  | cancel (t : T) (ref : TaskRef)
  | giveUp (t : T) (ref : TaskRef) (isTimeout : Bool)
  | metadataReceived (t : T) (handle : TorrentHandle) (infohash : ByteString)
  | advance (t : T)
  | nameInside (t u : T) (listed : Bool)

def beginRemoval (s : State T) (t : T) (ref : TaskRef) (byUser : Bool)
    (f : GroupTask → GroupTask) : Option (State T) :=
  match s.threads t with
  | .idle =>
    if ref < s.shared.group.nextRef then
      some (s.act t ({ s.shared with group := changeTask s.shared.group ref f },
        .testing ref byUser))
    else none
  | _ => none

def step (s : State T) (e : GroupEnv × Event T) : Option (State T) :=
  match e.2 with
  | .add rights param cred => some { s with shared := { s.shared with
      group := (addTask e.1 rights param cred s.shared.group).group } }
  | .resumeEntry name => (addResumeEntry e.1 name s.shared.group).map fun after =>
    { s with shared := { s.shared with group := after.group } }
  | .dropFinished keep => some { s with shared := { s.shared with
      group := dropFinished e.1 keep s.shared.group } }
  | .cancel t ref => beginRemoval s t ref true fun task => { task with controlStatus := .canceled }
  | .giveUp t ref isTimeout =>
    beginRemoval s t ref false fun task => { task with isTimeout := task.isTimeout || isTimeout }
  | .metadataReceived t handle infohash =>
    match s.threads t with
    | .idle => (metadata s.shared handle infohash).map (s.act t)
    | _ => none
  | .advance t => (advance e.1 s.shared (s.threads t)).map (s.act t)
  | .nameInside t u listed =>
    match s.threads t, s.threads u with
    | .locking ref byUser handle, .naming named infohash =>
      if named = ref then
        (s.shared.moveRenamed ref handle infohash listed).map fun sh =>
          (s.act u (sh, .rekeying ref)).act t (sh, .ending ref byUser)
      else none
    | _, _ => none

end Steps

section Property

variable {T : Type}

/-- How many entries of the map hold the task. -/
def mapped (g : Group) (ref : TaskRef) : ℕ :=
  Dict.countEntries (fun _ pointer => pointer == some ref) g.infohashMap

/-- How many entries of the finished list hold the task. -/
def finishedCount (g : Group) (ref : TaskRef) : ℕ :=
  g.finishedInfohashList.countP fun entry => entry.2 == ref

/-- The thread has taken the torrent of this task out of the session and has not had the
lock yet. -/
def Locking (s : State T) (ref : TaskRef) : Prop :=
  ∃ t byUser handle, s.threads t = .locking ref byUser handle

/-- No end of a map has been read, and every task is in the map or has been moved to the
finished list, once: it is in the map while the session has its torrent, and it has been
moved once the torrent is gone and no thread is about to move it. -/
structure FinishesOnce (s : State T) : Prop where
  unread : s.shared.endRead = false
  once : ∀ ref < s.shared.group.nextRef, mapped s.shared.group ref + s.shared.moves ref = 1
  listed : ∀ ref, finishedCount s.shared.group ref ≤ s.shared.moves ref
  running : ∀ ref < s.shared.group.nextRef, ∀ handle,
    (s.shared.group.tasks ref).torrentHandle = some handle →
    handle ∈ s.shared.group.session.torrents → mapped s.shared.group ref = 1
  moved : ∀ ref < s.shared.group.nextRef, ∀ handle,
    (s.shared.group.tasks ref).torrentHandle = some handle →
    handle ∉ s.shared.group.session.torrents → ¬ Locking s ref → s.shared.moves ref = 1

/-- A rename that is not ignored finds the url as a key and the new infohash not, or the
url in neither list. -/
def RenameFinds (g : Group) (torrentUrl infohash : ByteString) : Prop :=
  torrentUrl ≠ [] → infohash.length = 40 → match g.infohashMap.lookup torrentUrl with
    | none => ∀ entry ∈ g.finishedInfohashList, entry.1 ≠ torrentUrl
    | some _ => g.infohashMap.lookup infohash = none

/-- A removal finds the entry of its own task under the infohash of the task, which is not
written while it has the lock, and a rename finds the url and no entry under the new
infohash. -/
def FindsOwn (s : State T) (e : GroupEnv × Event T) : Prop :=
  match e.2 with
  | .advance t =>
    match s.threads t with
    | .locking ref _ _ => s.shared.group.infohashMap.lookup (s.shared.group.tasks ref).infohash =
        some (some ref)
    | .rekeying ref => RenameFinds s.shared.group (s.shared.group.tasks ref).params.torrentUrl
        (s.shared.group.tasks ref).infohash
    | _ => True
  | .nameInside _ _ _ => False
  | _ => True

end Property
end Gingko.GroupRemovals
