import Gingko.AgentTasks

/-!
Adding a task. The torrent is read first, from a file, from the request or from
the stored metadata; then the older task that conflicts with the new one is
removed under the lock, and under a second lock the new task is created and
indexed. What the file system, libtorrent and sqlite answer is an environment.
-/
namespace Gingko.AgentAdds

open KeyedMaps Base64Codec AgentMessages AgentTasks

def digitToHex (digit : UInt8) : UInt8 := if digit < 10 then digit + 48 else digit + 87

def toHex : ByteString → ByteString
  | [] => []
  | byte :: rest => digitToHex (byte / 16) :: digitToHex (byte % 16) :: toHex rest

def hexcharToDigit (c : UInt8) : Option UInt8 :=
  if 48 ≤ c ∧ c ≤ 57 then some (c - 48)
  else if 97 ≤ c ∧ c ≤ 102 then some (c - 97 + 10)
  else if 65 ≤ c ∧ c ≤ 70 then some (c - 65 + 10)
  else none

def hexstrToBytes : ByteString → Option ByteString
  | [] => some []
  | [_] => none
  | high :: low :: rest =>
    match hexcharToDigit high, hexcharToDigit low, hexstrToBytes rest with
    | some h, some l, some bytes => some ((h * 16 + l) :: bytes)
    | _, _, _ => none

theorem hexcharToDigit_digitToHex (digit : UInt8) (h : digit < 16) :
    hexcharToDigit (digitToHex digit) = some digit := by
  have hnat : digit.toNat < 16 := UInt8.lt_iff_toNat_lt.mp h
  unfold digitToHex hexcharToDigit
  by_cases hten : digit < 10
  · have hsmall : digit.toNat < 10 := UInt8.lt_iff_toNat_lt.mp hten
    rw [if_pos hten, if_pos, UInt8.add_sub_cancel]
    simp only [UInt8.le_iff_toNat_le, UInt8.toNat_add, UInt8.reduceToNat]
    omega
  · have hlarge : 10 ≤ digit.toNat := by
      have := UInt8.not_lt.mp hten
      exact UInt8.le_iff_toNat_le.mp this
    rw [if_neg hten, if_neg, if_pos]
    · congr 1
      apply UInt8.toNat_inj.mp
      simp only [UInt8.toNat_add, UInt8.toNat_sub, UInt8.reduceToNat]
      omega
    · simp only [UInt8.le_iff_toNat_le, UInt8.toNat_add, UInt8.reduceToNat]
      omega
    · simp only [UInt8.le_iff_toNat_le, UInt8.toNat_add, UInt8.reduceToNat]
      omega

theorem hexstrToBytes_toHex (bytes : ByteString) : hexstrToBytes (toHex bytes) = some bytes := by
  induction bytes with
  | nil => rfl
  | cons byte rest ih =>
    have hhigh : byte / 16 < 16 := by
      rw [UInt8.lt_iff_toNat_lt, UInt8.toNat_div]
      have := byte.toNat_lt
      simp only [UInt8.reduceToNat]
      omega
    have hlow : byte % 16 < 16 := by
      rw [UInt8.lt_iff_toNat_lt, UInt8.toNat_mod]
      simp only [UInt8.reduceToNat]
      omega
    have hbyte : byte / 16 * 16 + byte % 16 = byte := by
      apply UInt8.toNat_inj.mp
      have := byte.toNat_lt
      simp only [UInt8.toNat_add, UInt8.toNat_mul, UInt8.toNat_div, UInt8.toNat_mod,
        UInt8.reduceToNat]
      omega
    simp only [toHex, hexstrToBytes, hexcharToDigit_digitToHex _ hhigh,
      hexcharToDigit_digitToHex _ hlow, ih, hbyte]
structure TorrentInfo where
  infoHash : ByteString
  name : ByteString
  deriving DecidableEq

/-- Whether a statement succeeded, and the row its callback was called with. -/
structure DbAnswer (α : Type) where
  ok : Bool
  row : Option α

/-- The parsers of libtorrent report an error by an error code that is set. The
constructor of a task leaves the process id of its credentials as it finds it. -/
structure AddEnv where
  fileSize : ByteString → Int64
  torrentFile : ByteString → ByteString → Except Failure TorrentInfo
  torrentData : ByteString → ByteString → Except Failure TorrentInfo
  lazyBdecode : ByteString → ErrorCode
  parseInfoSection : ByteString → ByteString → ByteString → Except Failure TorrentInfo
  excute : ℕ → DbAnswer Int64
  getTrackersByInfohash : ByteString → List (ByteString × Int32)
  addTorrent : AddTorrentParams → ErrorCode
  stalePid : Int32

/-- The stored metadata is used up when it is found. -/
def takeMeta (infohash : ByteString) :
    List MetadataEntry → Option (MetadataEntry × List MetadataEntry)
  | [] => none
  | entry :: rest =>
    if entry.infohash = infohash then some (entry, rest)
    else (takeMeta infohash rest).map (fun found => (found.1, entry :: found.2))

def getMetaByInfohash (infohash : ByteString) (s : Agent) : Option MetadataEntry × Agent :=
  match takeMeta infohash s.metas with
  | none => (none, s)
  | some (entry, rest) =>
    (some entry,
      { s with
        metas := rest
        currentMetasTotalSize :=
          s.currentMetasTotalSize - Int32.ofNat entry.metadata.length })

section Prepare

variable (env : AddEnv) (ec : ErrorCode) (t : TaskInfo)

/-- Reading a torrent file clears the error code of the caller. -/
def readTorrentFile (path : ByteString) : Except Failure (TaskInfo × TorrentInfo) :=
  if env.fileSize path ≤ 0 then .error Error.torrentFileError.failure
  else match env.torrentFile path t.getNewName with
    | .error f => .error f
    | .ok ti => .ok ({ t with infohash := some (toHex ti.infoHash) }, ti)

/-- The other parsers leave an error code alone that is set before. -/
def readTorrentData (data : ByteString) : Except Failure (TaskInfo × TorrentInfo) :=
  match env.torrentData data t.getNewName, ec with
  | .error f, _ => .error f
  | .ok _, some f => .error f
  | .ok ti, none => .ok (t, ti)

def readMetadata (bytes : ByteString) (metadata : ByteString) :
    Except Failure (TaskInfo × TorrentInfo) :=
  match env.lazyBdecode metadata, ec with
  | some f, _ => .error f
  | none, some f => .error f
  | none, none =>
    match env.parseInfoSection bytes t.getNewName metadata with
    | .error f => .error f
    | .ok ti => .ok (t, ti)

def readInfohash (infohash : ByteString) (s : Agent) :
    Agent × Except Failure (TaskInfo × TorrentInfo) :=
  match if infohash.length = 40 then hexstrToBytes infohash else none with
  | none => (s, .error Error.infohashNotCorrect.failure)
  | some bytes =>
    match getMetaByInfohash infohash s with
    | (none, s') => (s', .error Error.noMetadata.failure)
    | (some entry, s') => (s', readMetadata env ec t bytes entry.metadata)

def readTorrent (s : Agent) : Agent × Except Failure (TaskInfo × TorrentInfo) :=
  match t.torrentPath with
  | some path => (s, readTorrentFile env t path)
  | none =>
    match t.data with
    | some data => (s, readTorrentData env ec t data)
    | none =>
      match t.infohash with
      | some infohash => readInfohash env ec t infohash s
      | none => (s, .error Error.msgArgsError.failure)

/-- Reading a torrent changes the stored metadata at most. -/
theorem readTorrent_agent (s : Agent) : ∃ metas total, (readTorrent env ec t s).1 =
    { s with
      metas := metas
      currentMetasTotalSize := total } := by
  unfold readTorrent readInfohash
  split
  · exact ⟨s.metas, s.currentMetasTotalSize, rfl⟩
  · split
    · exact ⟨s.metas, s.currentMetasTotalSize, rfl⟩
    · split
      · rename_i infohash _
        split
        · exact ⟨s.metas, s.currentMetasTotalSize, rfl⟩
        · cases htake : takeMeta infohash s.metas with
          | none =>
            simp only [getMetaByInfohash, htake]
            exact ⟨s.metas, s.currentMetasTotalSize, rfl⟩
          | some found =>
            simp only [getMetaByInfohash, htake]
            exact ⟨found.2, _, rfl⟩
      · exact ⟨s.metas, s.currentMetasTotalSize, rfl⟩

end Prepare

def fillNewName (t : TaskInfo) (ti : TorrentInfo) : TaskInfo :=
  if t.getNewName = [] then { t with newName := some ti.name } else t

def setCred (cred : Ucred) (t : TaskInfo) : TaskInfo :=
  { t with uid := some cred.uid.toInt32, gid := some cred.gid.toInt32 }

section Sections

variable (held : List TaskRef) (t : TaskInfo)

/-- The conflict test looks at the data path only when the infohash is unknown. -/
def findDup (s : Agent) : Option TaskRef :=
  match s.infohashMap.lookup t.getInfohash with
  | some ref => s.lock held ref
  | none => (s.dataPathMap.lookup (dataPath t.getSavePath t.getNewName)).bind (s.lock held)

/-- The older task is given up for a seed, or when it is not a seed itself. -/
def givesWay (s : Agent) (dup : TaskRef) : Bool :=
  decide ((s.tasks dup).type = .nocheckTask) || decide (t.getType = .seedingTask)

def quitTask (s : Agent) (dup : TaskRef) : Agent :=
  let erased := s.eraseTaskFromMap (s.tasks dup)
  { erased with session := erased.session.erase (s.tasks dup).torrent }.setTask dup
    (s.tasks dup).cancel

/-- The first locked section. -/
def removeDup (s : Agent) : Agent × ErrorCode :=
  match findDup held t s with
  | none => (s, none)
  | some dup =>
    if givesWay t s dup then (quitTask s dup, none) else (s, some Error.dupTaskError.failure)

end Sections

def genTaskIdLoop : List (DbAnswer Int64) → Int64 → Int64
  | [], id => id
  | answer :: rest, id =>
    let id := answer.row.getD id
    if !answer.ok || decide (id < 0) then genTaskIdLoop rest id else id

/-- Three attempts; the id counts even when its statement failed afterwards. -/
def genTaskId (env : AddEnv) : Option Int64 :=
  let id := genTaskIdLoop [env.excute 0, env.excute 1, env.excute 2] (-1)
  if 0 ≤ id then some id else none

def newTaskOf (env : AddEnv) (t : TaskInfo) (id : Int64) : Task where
  id := id
  infohash := t.getInfohash
  cmd := t.getCmd
  cred := ⟨env.stalePid, t.getUid.toUInt32, t.getGid.toUInt32⟩
  savePath := t.getSavePath
  newName := t.getNewName
  type := t.getType
  trackers := t.trackers.map (fun h => (h.ip.getD [], h.port.getD 0))
  seedingTime := t.getSeedingTime

def paramsOf (env : AddEnv) (message : AddTask) (ti : TorrentInfo) : AddTorrentParams :=
  let t := message.task
  let trackers := if t.trackers = [] then env.getTrackersByInfohash t.getInfohash
    else t.trackers.map (fun h => (h.ip.getD [], h.port.getD 0))
  { addTorrentParams ti.infoHash t.getSavePath t.getType trackers with
    uploadLimit := message.options.uploadLimit.getD (-1)
    maxConnections := message.options.maxConections.getD (-1) }

/-- The new task and its torrent, already started. -/
def createTask (env : AddEnv) (message : AddTask) (ti : TorrentInfo) :
    Except Failure (Task × Torrent) :=
  match genTaskId env with
  | none => .error Error.generateTaskIdFailed.failure
  | some id =>
    match env.addTorrent (paramsOf env message ti) with
    | some f => .error f
    | none =>
      .ok (newTaskOf env message.task id, (Torrent.ofParams (paramsOf env message ti)).resume)

/-- The database gives the id and the session takes the torrent. -/
def CreatedWithId (env : AddEnv) (message : AddTask) (ti : TorrentInfo) (id : Int64) : Prop :=
  genTaskId env = some id ∧ env.addTorrent (paramsOf env message ti) = none

def CreationFails (env : AddEnv) (message : AddTask) (ti : TorrentInfo) : Prop :=
  genTaskId env = none ∨ ∃ f, env.addTorrent (paramsOf env message ti) = some f

section Create

variable (env : AddEnv) (message : AddTask) (ti : TorrentInfo)

theorem createdWithId_of_ok (t : Task) (torrent : Torrent)
    (h : createTask env message ti = .ok (t, torrent)) : CreatedWithId env message ti t.id := by
  unfold createTask at h
  split at h
  · contradiction
  · rename_i id hid
    split at h
    · contradiction
    · rename_i htaken
      rw [← (Prod.mk.inj (Except.ok.inj h)).1]
      exact ⟨hid, htaken⟩

theorem creationFails_of_error (f : Failure) (h : createTask env message ti = .error f) :
    CreationFails env message ti := by
  unfold createTask at h
  split at h
  · rename_i hid
    exact Or.inl hid
  · split at h
    · rename_i g hrejected
      exact Or.inr ⟨g, hrejected⟩
    · contradiction

theorem not_creationFails (id : Int64) (h : CreatedWithId env message ti id) :
    ¬ CreationFails env message ti := by
  intro hcase
  obtain hid | ⟨f, hrejected⟩ := hcase
  · rw [h.1] at hid
    contradiction
  · rw [h.2] at hrejected
    contradiction

end Create

/-- A created task gets its object and its torrent and goes into the maps. -/
def indexTask (held : List TaskRef) (s : Agent) (t : Task) (torrent : Torrent) : Agent :=
  let created := s.newTask t torrent
  created.addTaskToMap held s.nextRef (created.tasks s.nextRef)

/-- The second locked section. -/
def insertTask (env : AddEnv) (held : List TaskRef) (message : AddTask) (ti : TorrentInfo)
    (s : Agent) : Agent × Except Failure Int64 :=
  match createTask env message ti with
  | .error f => (s, .error f)
  | .ok (t, torrent) => (indexTask held s t torrent, .ok t.id)

/-- The dictionary of a resume file. -/
structure ResumeData where
  id : Int64
  pid : Int64
  uid : Int64
  gid : Int64
  cmd : ByteString
  seedingTime : Int64
  newName : ByteString
  savePath : ByteString
  type : Int64
  infoHash : Option ByteString
  metadata : Option ByteString
  trackers : Option (List (ByteString × Int64))
  maxConnections : Int64
  uploadLimit : Int64

def ResumeData.trackerList (d : ResumeData) : List (ByteString × Int32) :=
  (d.trackers.getD []).map (fun tracker => (tracker.1, tracker.2.toInt32))

def resumedTaskOf (d : ResumeData) (infohash : ByteString) : Task where
  id := d.id
  infohash := infohash
  cmd := d.cmd
  cred := ⟨d.pid.toInt32, d.uid.toInt32.toUInt32, d.gid.toInt32.toUInt32⟩
  savePath := d.savePath
  newName := d.newName
  type := TaskType.ofCode d.type
  trackers := d.trackerList
  seedingTime := d.seedingTime.toInt32

def resumedParamsOf (env : AddEnv) (d : ResumeData) (infohash : ByteString) (ti : TorrentInfo) :
    AddTorrentParams :=
  addTorrentParams ti.infoHash d.savePath (TaskType.ofCode d.type)
    (if d.trackers.isSome then d.trackerList else env.getTrackersByInfohash infohash)

/-- The metadata of a resume file is parsed like stored metadata. -/
def createFromResumeFile (env : AddEnv) (d : ResumeData) : Option (Task × Torrent) :=
  match d.infoHash with
  | none => none
  | some infohash =>
    match (if infohash.length = 40 then hexstrToBytes infohash else none), d.metadata with
    | some bytes, some metadata =>
      match readMetadata env none { newName := some d.newName } bytes metadata with
      | .error _ => none
      | .ok (_, ti) =>
        let params := resumedParamsOf env d infohash ti
        match env.addTorrent params with
        | some _ => none
        | none =>
          let limited := ((Torrent.ofParams params).setMaxConnections
            d.maxConnections.toInt32).setUploadLimit d.uploadLimit.toInt32
          some (resumedTaskOf d infohash, limited.resume)
    | _, _ => none

/-- One round of the loop over the resume directory. -/
def addResumeTask (env : AddEnv) (held : List TaskRef) (d : ResumeData) (s : Agent) : Agent :=
  match createFromResumeFile env d with
  | none => s
  | some (t, torrent) => indexTask held s t torrent

end Gingko.AgentAdds
