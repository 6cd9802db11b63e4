import Gingko.AgentAdds

/-!
The resume file of a task. It is a dictionary that one function fills and another
one reads, key by key; encoding and decoding it are assumed to be inverse. A
reader that meets an entry of another type throws, which ends the attempt.
-/
namespace Gingko.TaskResumes

open Base64Codec AgentMessages AgentTasks AgentAdds

inductive Entry where
  | undefined
  | integer (value : Int64)
  | string (value : ByteString)
  | list (values : List Entry)
  | dictionary (values : List (String × Entry))

namespace Entry

def findKey : Entry → String → Option Entry
  | dictionary values, key => values.lookup key
  | _, _ => none

/-- `operator[]` makes an undefined entry a dictionary and adds missing keys as undefined. -/
def index : Entry → String → Option Entry
  | undefined, _ => some undefined
  | dictionary values, key => some ((values.lookup key).getD undefined)
  | _, _ => none

def toInteger : Entry → Option Int64
  | undefined => some 0
  | integer value => some value
  | _ => none

def toText : Entry → Option ByteString
  | undefined => some []
  | string value => some value
  | _ => none

def toList : Entry → Option (List Entry)
  | undefined => some []
  | list values => some values
  | _ => none

def integerAt (e : Entry) (key : String) : Option Int64 := (e.index key).bind toInteger

def textAt (e : Entry) (key : String) : Option ByteString := (e.index key).bind toText

/-- An optional key is looked up first and then read. -/
def textIfFound (e : Entry) (key : String) : Option (Option ByteString) :=
  match e.findKey key with
  | none => some none
  | some found => found.toText.map some

end Entry

def readTracker (e : Entry) : Option (ByteString × Int64) := do
  let host ← e.textAt "host"
  let port ← e.integerAt "port"
  return (host, port)

def readTrackers (e : Entry) : Option (Option (List (ByteString × Int64))) :=
  match e.findKey "trackers" with
  | none => some none
  | some found => do
    let trackers ← found.toList
    let pairs ← trackers.mapM readTracker
    return some pairs

def readResumeData (e : Entry) : Option ResumeData := do
  let id ← e.integerAt "id"
  let cred ← e.index "cred"
  let pid ← cred.integerAt "pid"
  let uid ← cred.integerAt "uid"
  let gid ← cred.integerAt "gid"
  let cmd ← e.textAt "cmd"
  let seedingTime ← e.integerAt "seeding_time"
  let newName ← e.textAt "new_name"
  let savePath ← e.textAt "save_path"
  let type ← e.integerAt "type"
  let infoHash ← e.textIfFound "info_hash"
  let metadata ← e.textIfFound "metadata"
  let trackers ← readTrackers e
  let maxConnections ← e.integerAt "max_connections"
  let uploadLimit ← e.integerAt "upload_limit"
  return ⟨id, pid, uid, gid, cmd, seedingTime, newName, savePath, type, infoHash, metadata,
    trackers, maxConnections, uploadLimit⟩

def createFromResumeEntry (env : AddEnv) (e : Entry) : Option (Task × Torrent) :=
  (readResumeData e).bind (createFromResumeFile env)

/-- What `torrent_file` of a torrent answers. -/
structure TorrentFile where
  infoHash : ByteString
  metadata : ByteString

def zeroHash : ByteString := List.replicate 20 0

def credEntry (cred : Ucred) : Entry :=
  .dictionary [("pid", .integer cred.pid.toInt64), ("uid", .integer cred.uid.toUInt64.toInt64),
    ("gid", .integer cred.gid.toUInt64.toInt64)]

def trackerEntry (tracker : ByteString × Int32) : Entry :=
  .dictionary [("host", .string tracker.1), ("port", .integer tracker.2.toInt64)]

def trackersEntry (trackers : List (ByteString × Int32)) : List (String × Entry) :=
  if trackers.isEmpty then [] else [("trackers", .list (trackers.map trackerEntry))]

def resumeEntry (t : Task) (torrent : Torrent) (ti : TorrentFile) : Entry :=
  .dictionary ([("cred", credEntry t.cred), ("id", .integer t.id), ("cmd", .string t.cmd),
    ("seeding_time", .integer t.seedingTime.toInt64), ("save_path", .string t.savePath),
    ("new_name", .string t.newName), ("upload_limit", .integer torrent.uploadLimit.toInt64),
    ("download_limit", .integer torrent.downloadLimit.toInt64),
    ("max_connections", .integer torrent.maxConnections.toInt64),
    ("type", .integer t.type.code), ("info_hash", .string t.infohash)] ++
    trackersEntry t.trackers ++ [("metadata", .string ti.metadata)])

/-- The dictionary that is written, if one is. -/
def generateResumeFile (t : Task) (torrent : Torrent) (ti : TorrentFile) : Option Entry :=
  if !t.notNew then none
  else if ti.infoHash = zeroHash then none
  else some (resumeEntry t torrent ti)

/-- What the reader gets out of a file that the writer has written. -/
def writtenData (t : Task) (torrent : Torrent) (ti : TorrentFile) : ResumeData where
  id := t.id
  pid := t.cred.pid.toInt64
  uid := t.cred.uid.toUInt64.toInt64
  gid := t.cred.gid.toUInt64.toInt64
  cmd := t.cmd
  seedingTime := t.seedingTime.toInt64
  newName := t.newName
  savePath := t.savePath
  type := t.type.code
  infoHash := some t.infohash
  metadata := some ti.metadata
  trackers := if t.trackers.isEmpty then none
    else some (t.trackers.map (fun tracker => (tracker.1, tracker.2.toInt64)))
  maxConnections := torrent.maxConnections.toInt64
  uploadLimit := torrent.uploadLimit.toInt64

theorem readTracker_trackerEntry (tracker : ByteString × Int32) :
    readTracker (trackerEntry tracker) = some (tracker.1, tracker.2.toInt64) := rfl

theorem mapM_readTracker (trackers : List (ByteString × Int32)) :
    (trackers.map trackerEntry).mapM readTracker =
      some (trackers.map (fun tracker => (tracker.1, tracker.2.toInt64))) := by
  induction trackers with
  | nil => rfl
  | cons tracker rest ih =>
    rw [List.map_cons, List.mapM_cons, readTracker_trackerEntry, ih]
    rfl

theorem readResumeData_resumeEntry (t : Task) (torrent : Torrent) (ti : TorrentFile) :
    readResumeData (resumeEntry t torrent ti) = some (writtenData t torrent ti) := by
  cases htrackers : t.trackers with
  | nil =>
    have hentry : trackersEntry t.trackers = [] := by rw [htrackers]; rfl
    unfold resumeEntry writtenData
    rw [hentry, htrackers]
    rfl
  | cons tracker rest =>
    have hentry : trackersEntry t.trackers =
        [("trackers", .list (t.trackers.map trackerEntry))] := by rw [htrackers]; rfl
    have hread : readTrackers (resumeEntry t torrent ti) =
        some (some (t.trackers.map (fun tracker => (tracker.1, tracker.2.toInt64)))) := by
      unfold resumeEntry
      rw [hentry]
      show (do
        let pairs ← (t.trackers.map trackerEntry).mapM readTracker
        return some pairs) = _
      rw [mapM_readTracker]
      rfl
    unfold readResumeData
    rw [hread]
    unfold resumeEntry writtenData
    rw [hentry, htrackers]
    rfl

section Limits

/-- The values that the setters of libtorrent leave behind. -/
structure Held (torrent : Torrent) : Prop where
  upload : 0 ≤ torrent.uploadThrottle
  download : 0 ≤ torrent.downloadThrottle
  connections : torrent.connections < 16777216

theorem throttle_nonneg (limit : Int32) : 0 ≤ Torrent.throttle limit := by
  unfold Torrent.throttle
  split
  · exact Int32.le_refl 0
  · rename_i hpos
    exact Int32.le_of_lt (Int32.not_le.mp hpos)

theorem held_setMaxConnections (torrent : Torrent) (limit : Int32)
    (hupload : 0 ≤ torrent.uploadThrottle) (hdownload : 0 ≤ torrent.downloadThrottle) :
    Held (torrent.setMaxConnections limit) :=
  ⟨hupload, hdownload, UInt32.mod_lt _ (by decide)⟩

theorem held_ofParams (p : AddTorrentParams) : Held (Torrent.ofParams p) :=
  held_setMaxConnections _ _ (throttle_nonneg _) (throttle_nonneg _)

theorem Held.setOptions {torrent : Torrent} (h : Held torrent) (options : TaskOptions) :
    Held (torrent.setOptions options) := by
  have hlimited (limit : Int32) : Held (torrent.setUploadLimit limit) :=
    ⟨throttle_nonneg limit, h.download, h.connections⟩
  unfold Torrent.setOptions
  cases options.uploadLimit with
  | none =>
    cases options.maxConections with
    | none => exact h
    | some limit => exact held_setMaxConnections torrent limit h.upload h.download
  | some upload =>
    cases options.maxConections with
    | none => exact hlimited upload
    | some limit =>
      exact held_setMaxConnections _ limit (hlimited upload).upload (hlimited upload).download

/-- The largest throttle is reported as no limit. -/
theorem throttle_uploadLimit (torrent : Torrent) (h : 0 ≤ torrent.uploadThrottle) :
    Torrent.throttle torrent.uploadLimit = torrent.uploadThrottle ↔
      torrent.uploadThrottle ≠ 2147483647 := by
  unfold Torrent.uploadLimit
  by_cases hmax : torrent.uploadThrottle = 2147483647
  · rw [if_pos hmax, hmax]
    decide
  · rw [if_neg hmax, iff_true_right hmax, Torrent.throttle]
    by_cases hzero : torrent.uploadThrottle ≤ 0
    · rw [if_pos hzero]
      exact Int32.le_antisymm h hzero
    · rw [if_neg hzero]

/-- No connections at all are written as zero, which sets no limit. -/
theorem setMaxConnections_maxConnections (torrent other : Torrent)
    (h : torrent.connections < 16777216) :
    (other.setMaxConnections torrent.maxConnections).connections = torrent.connections ↔
      torrent.connections ≠ 0 := by
  have hnat : torrent.connections.toNat < 16777216 := UInt32.lt_iff_toNat_lt.mp h
  have hint : torrent.maxConnections.toInt = torrent.connections.toNat := by
    apply BitVec.toInt_eq_toNat_of_lt
    show 2 * torrent.connections.toNat < 2 ^ 32
    omega
  have hsign : torrent.maxConnections ≤ 0 ↔ torrent.connections = 0 := by
    rw [Int32.le_iff_toInt_le, hint, ← UInt32.toNat_inj]
    simp
  simp only [Torrent.setMaxConnections]
  by_cases hzero : torrent.connections = 0
  · rw [if_pos (hsign.mpr hzero), hzero]
    decide
  · rw [if_neg (fun hle => hzero (hsign.mp hle)), iff_true_right hzero, Torrent.maxConnections,
      UInt32.toUInt32_toInt32]
    apply UInt32.toNat_inj.mp
    rw [UInt32.toNat_mod]
    exact Nat.mod_eq_of_lt hnat

end Limits

theorem toUInt32_roundtrip (n : UInt32) : n.toUInt64.toInt64.toInt32.toUInt32 = n := by
  apply UInt32.toBitVec_inj.mp
  show (n.toBitVec.setWidth 64).signExtend 32 = n.toBitVec
  rw [BitVec.signExtend_eq_setWidth_of_le _ (by omega), BitVec.setWidth_setWidth_of_le _ (by omega),
    BitVec.setWidth_eq]

/-- What a resumed task has in common with the task that was written. -/
structure Restored (t : Task) (torrent : Torrent) (r : Task) (u : Torrent) : Prop where
  id : r.id = t.id
  cred : r.cred = t.cred
  cmd : r.cmd = t.cmd
  seedingTime : r.seedingTime = t.seedingTime
  savePath : r.savePath = t.savePath
  newName : r.newName = t.newName
  type : r.type.code = t.type.code
  infohash : r.infohash = t.infohash
  trackers : r.trackers = t.trackers
  uploadLimit : u.uploadThrottle = torrent.uploadThrottle
  downloadLimit : u.downloadThrottle = torrent.downloadThrottle
  connectionLimit : u.connections = torrent.connections

/-- libtorrent parses the metadata of a torrent of its own, and the session, which
has just started, takes the torrent. -/
structure Accepts (env : AddEnv) (metadata : ByteString) : Prop where
  decoded : env.lazyBdecode metadata = none
  parsed : ∀ bytes name, ∃ ti, env.parseInfoSection bytes name metadata = .ok ti
  added : ∀ bytes name ti params, env.parseInfoSection bytes name metadata = .ok ti →
    params.infoHash = ti.infoHash → env.addTorrent params = none

def HexInfohash (infohash : ByteString) : Prop :=
  infohash.length = 40 ∧ (hexstrToBytes infohash).isSome

theorem resumedTask_restored (t : Task) (torrent : Torrent) (ti : TorrentFile) :
    let r := resumedTaskOf (writtenData t torrent ti) t.infohash
    r.cred = t.cred ∧ r.seedingTime = t.seedingTime ∧ r.type.code = t.type.code ∧
      r.trackers = t.trackers := by
  refine ⟨?_, Int32.toInt32_toInt64 _, TaskType.code_ofCode _, ?_⟩
  · simp [resumedTaskOf, writtenData, toUInt32_roundtrip]
  · show (writtenData t torrent ti).trackerList = t.trackers
    cases htrackers : t.trackers with
    | nil => simp [ResumeData.trackerList, writtenData, htrackers]
    | cons tracker rest =>
      simp [ResumeData.trackerList, writtenData, htrackers, Function.comp_def]

theorem createFromResumeFile_written (env : AddEnv) (t : Task) (torrent : Torrent)
    (ti : TorrentFile) (haccepts : Accepts env ti.metadata) (hhex : HexInfohash t.infohash) :
    ∃ params, createFromResumeFile env (writtenData t torrent ti) =
      some (resumedTaskOf (writtenData t torrent ti) t.infohash,
        (((Torrent.ofParams params).setMaxConnections torrent.maxConnections).setUploadLimit
          torrent.uploadLimit).resume) := by
  obtain ⟨hlength, hsome⟩ := hhex
  obtain ⟨bytes, hbytes⟩ := Option.isSome_iff_exists.mp hsome
  obtain ⟨info, hinfo⟩ := haccepts.parsed bytes t.newName
  have hread : readMetadata env none { newName := some t.newName } bytes ti.metadata =
      .ok ({ newName := some t.newName }, info) := by
    unfold readMetadata
    simp only [haccepts.decoded, TaskInfo.getNewName, Option.getD_some, hinfo]
  have hadd : env.addTorrent (resumedParamsOf env (writtenData t torrent ti) t.infohash info) =
      none := haccepts.added bytes t.newName info _ hinfo rfl
  refine ⟨resumedParamsOf env (writtenData t torrent ti) t.infohash info, ?_⟩
  unfold createFromResumeFile
  simp only [writtenData, hlength, hbytes, if_true, hread] at hadd ⊢
  rw [hadd, Int32.toInt32_toInt64, Int32.toInt32_toInt64]

theorem createFromResumeFile_rejects (env : AddEnv) (t : Task) (torrent : Torrent)
    (ti : TorrentFile) (hhex : ¬ HexInfohash t.infohash) :
    createFromResumeFile env (writtenData t torrent ti) = none := by
  have hbytes : (if t.infohash.length = 40 then hexstrToBytes t.infohash else none) = none := by
    by_cases hlength : t.infohash.length = 40
    · rw [if_pos hlength]
      exact Option.not_isSome_iff_eq_none.mp (fun hsome => hhex ⟨hlength, hsome⟩)
    · rw [if_neg hlength]
  unfold createFromResumeFile
  simp only [writtenData, hbytes]

theorem generateResumeFile_eq (t : Task) (torrent : Torrent) (ti : TorrentFile) (e : Entry)
    (h : generateResumeFile t torrent ti = some e) : e = resumeEntry t torrent ti := by
  unfold generateResumeFile at h
  split at h
  · simp at h
  · split at h
    · simp at h
    · exact (Option.some.inj h).symm

theorem createFromResumeEntry_written (env : AddEnv) (t : Task) (torrent : Torrent)
    (ti : TorrentFile) (haccepts : Accepts env ti.metadata) (hhex : HexInfohash t.infohash) :
    ∃ u other, createFromResumeEntry env (resumeEntry t torrent ti) =
        some (resumedTaskOf (writtenData t torrent ti) t.infohash, u) ∧
      u.uploadThrottle = Torrent.throttle torrent.uploadLimit ∧ u.downloadThrottle = 0 ∧
      u.connections = (Torrent.setMaxConnections other torrent.maxConnections).connections := by
  obtain ⟨params, hcreate⟩ := createFromResumeFile_written env t torrent ti haccepts hhex
  rw [createFromResumeEntry, readResumeData_resumeEntry, Option.bind_some, hcreate]
  exact ⟨_, Torrent.ofParams params, rfl, rfl, rfl, rfl⟩

/-- What a restored task tells about the one that was written. -/
theorem kept_of_restored (env : AddEnv) (t : Task) (torrent : Torrent) (ti : TorrentFile)
    (hheld : Held torrent) (haccepts : Accepts env ti.metadata) (r : Task) (u : Torrent)
    (hcreate : createFromResumeEntry env (resumeEntry t torrent ti) = some (r, u))
    (hrestored : Restored t torrent r u) :
    HexInfohash t.infohash ∧ torrent.downloadThrottle = 0 ∧
      torrent.uploadThrottle ≠ 2147483647 ∧ torrent.connections ≠ 0 := by
  have hhex : HexInfohash t.infohash := by
    by_contra hbad
    rw [createFromResumeEntry, readResumeData_resumeEntry, Option.bind_some,
      createFromResumeFile_rejects env t torrent ti hbad] at hcreate
    simp at hcreate
  obtain ⟨v, other, heq, hupload, hdownload, hconnections⟩ :=
    createFromResumeEntry_written env t torrent ti haccepts hhex
  obtain ⟨-, rfl⟩ := Prod.mk.inj (Option.some.inj (hcreate.symm.trans heq))
  refine ⟨hhex, ?_, ?_, ?_⟩
  · rw [← hrestored.downloadLimit, hdownload]
  · rw [← throttle_uploadLimit torrent hheld.upload, ← hupload]
    exact hrestored.uploadLimit
  · rw [← setMaxConnections_maxConnections torrent other hheld.connections, ← hconnections]
    exact hrestored.connectionLimit

/-- A resumed task is the task that was written, as far as its infohash, its
download limit and two extreme limits of its torrent let it be. -/
theorem resume_restores_iff (env : AddEnv) (t : Task) (torrent : Torrent) (ti : TorrentFile)
    (e : Entry) (hwritten : generateResumeFile t torrent ti = some e) (hheld : Held torrent)
    (haccepts : Accepts env ti.metadata) :
    (∃ r u, createFromResumeEntry env e = some (r, u) ∧ Restored t torrent r u) ↔
      HexInfohash t.infohash ∧ torrent.downloadThrottle = 0 ∧
        torrent.uploadThrottle ≠ 2147483647 ∧ torrent.connections ≠ 0 := by
  obtain rfl := generateResumeFile_eq t torrent ti e hwritten
  constructor
  · intro hresumed
    obtain ⟨r, u, hcreate, hrestored⟩ := hresumed
    exact kept_of_restored env t torrent ti hheld haccepts r u hcreate hrestored
  · intro hall
    obtain ⟨hhex, hdownload, hupload, hconnections⟩ := hall
    obtain ⟨u, other, heq, hu, hd, hc⟩ :=
      createFromResumeEntry_written env t torrent ti haccepts hhex
    obtain ⟨hcred, hseeding, htype, htrackers⟩ := resumedTask_restored t torrent ti
    refine ⟨_, u, heq, rfl, hcred, rfl, hseeding, rfl, rfl, htype, rfl, htrackers, ?_, ?_, ?_⟩
    · rw [hu, throttle_uploadLimit torrent hheld.upload]
      exact hupload
    · rw [hd, hdownload]
    · rw [hc, setMaxConnections_maxConnections torrent other hheld.connections]
      exact hconnections

section Samples

def zeroInfohash : ByteString := List.replicate 40 48

def plainTask : Task where
  notNew := true
  id := 7
  infohash := zeroInfohash
  trackers := [([104], 80)]

def plainFile : TorrentFile := ⟨[1], []⟩

/-- Every parser succeeds, and the session takes every torrent. -/
def acceptingEnv : AddEnv where
  fileSize _ := 0
  torrentFile _ _ := .ok ⟨[1], []⟩
  torrentData _ _ := .ok ⟨[1], []⟩
  lazyBdecode _ := none
  parseInfoSection _ _ _ := .ok ⟨[1], []⟩
  excute _ := ⟨true, some 7⟩
  getTrackersByInfohash _ := []
  addTorrent _ := none
  stalePid := 0

theorem acceptingEnv_accepts (metadata : ByteString) : Accepts acceptingEnv metadata where
  decoded := rfl
  parsed _ _ := ⟨⟨[1], []⟩, rfl⟩
  added _ _ _ _ _ _ := rfl

/-- A torrent as the session adds it, with the options that a request has set. -/
def torrentWith (options : TaskOptions) : Torrent :=
  (Torrent.ofParams (addTorrentParams [1] [] .nocheckTask [])).setOptions options

theorem resume_restores_iff_plain :
    ∃ r u, createFromResumeEntry acceptingEnv (resumeEntry plainTask
        (torrentWith { uploadLimit := some 1000 }) plainFile) = some (r, u) ∧
      Restored plainTask (torrentWith { uploadLimit := some 1000 }) r u := by
  have hwritten : generateResumeFile plainTask (torrentWith { uploadLimit := some 1000 })
      plainFile = some (resumeEntry plainTask (torrentWith { uploadLimit := some 1000 })
        plainFile) := rfl
  have hheld : Held (torrentWith { uploadLimit := some 1000 }) := (held_ofParams _).setOptions _
  refine (resume_restores_iff acceptingEnv plainTask _ plainFile _ hwritten hheld
    (acceptingEnv_accepts _)).mpr ?_
  exact ⟨⟨rfl, by decide⟩, by decide, by decide, by decide⟩

/-- The file of the task is written and accepted, and the task does not come back. -/
def LosesLimits (torrent : Torrent) : Prop :=
  generateResumeFile plainTask torrent plainFile = some (resumeEntry plainTask torrent plainFile) ∧
    Held torrent ∧ Accepts acceptingEnv plainFile.metadata ∧
    ¬ ∃ r u, createFromResumeEntry acceptingEnv (resumeEntry plainTask torrent plainFile) =
      some (r, u) ∧ Restored plainTask torrent r u

/-- A download limit is written and not read back. The connection limit that a
request for 16777216 connections leaves is read back as no limit. -/
theorem resume_changes_limits :
    LosesLimits { torrentWith {} with downloadThrottle := 1000 } ∧
      LosesLimits (torrentWith { maxConections := some 16777216 }) := by
  constructor
  · have hplain : Held (torrentWith {}) := (held_ofParams _).setOptions {}
    have hheld : Held { torrentWith {} with downloadThrottle := 1000 } :=
      ⟨hplain.upload, by decide, hplain.connections⟩
    refine ⟨rfl, hheld, acceptingEnv_accepts _, ?_⟩
    intro hresumed
    obtain ⟨r, u, hcreate, hrestored⟩ := hresumed
    have hkept := kept_of_restored _ _ _ _ hheld (acceptingEnv_accepts _) r u hcreate hrestored
    simp at hkept
  · have hheld : Held (torrentWith { maxConections := some 16777216 }) :=
      (held_ofParams _).setOptions _
    refine ⟨rfl, hheld, acceptingEnv_accepts _, ?_⟩
    intro hresumed
    obtain ⟨r, u, hcreate, hrestored⟩ := hresumed
    have hkept := kept_of_restored _ _ _ _ hheld (acceptingEnv_accepts _) r u hcreate hrestored
    exact hkept.2.2.2 rfl

end Samples
end Gingko.TaskResumes
