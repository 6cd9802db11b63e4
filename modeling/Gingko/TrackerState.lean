import Gingko.GuardedRuns
import Gingko.PeerScans
import Gingko.ThriftFields

/-!
The state of one tracker and its operations, each taken as one step: announces,
stop and resume orders, cycles of the garbage cleaner and updates of the remote
peers from a redis reply. Clock readings, raw random draws and the iteration
orders of the unordered maps are part of the event.
-/
namespace Gingko.TrackerState

open KeyedMaps Base64Codec PeerRecords RandomDraws PeerUpdates PeerScans GuardedRuns

/-- Records are written in the binary encoding and expire after an hour. -/
def defaultConf : TrackerConf := ⟨ThriftFields.binaryCodec, 3600⟩

abbrev InfoHashMap := Dict ByteString SingleInfoHashInfo

structure InfoHashQueue where
  queryMap : Dict ByteString Bool
  haveQuery : Bool

structure Tracker where
  localInfoHashMap : InfoHashMap
  remoteInfoHashMap : InfoHashMap
  infoHashQueue : InfoHashQueue
  commands : List RedisCommand

def Tracker.empty : Tracker := ⟨∅, ∅, ⟨∅, false⟩, []⟩

structure ChooseDraws where
  peerVisit : VisitDraws
  seedVisit : VisitDraws
  remoteStart : ℕ
  remoteSeedStart : ℕ

structure HandleEnv where
  update : UpdateEnv
  choose : ChooseDraws

/-- The entry an announce works on, created when missing. -/
def preHandleInfoHashInfo (input : PeerInfo) (now : UInt64) (map : InfoHashMap) :
    SingleInfoHashInfo :=
  match map.lookup input.base64InfoHash with
  | none => SingleInfoHashInfo.new now
  | some info => { info with timestamp := now }

def updatePeer (conf : TrackerConf) (env : UpdateEnv) (input : PeerInfo) (t : Tracker) :
    ℤ × Tracker :=
  let updated := updatePeerEntry conf env input
    (preHandleInfoHashInfo input env.now t.localInfoHashMap)
  (updated.ret,
    { t with
      localInfoHashMap := t.localInfoHashMap.insert input.base64InfoHash updated.info
      commands := t.commands ++ updated.commands })

/-- One announce with the outcome of its clock readings and draws. -/
structure Update where
  input : PeerInfo
  env : UpdateEnv

def updateStep (conf : TrackerConf) (t : Tracker) (u : Update) : Tracker :=
  (updatePeer conf u.env u.input t).2

def TrackerRefsOk (t : Tracker) : Prop := Dict.Holds (fun _ => RefsOk) t.localInfoHashMap

/-- A fresh entry and a refreshed one have the lists and the map of the old one. -/
theorem preHandle_holds (P : ByteString → SingleInfoHashInfo → Prop) (input : PeerInfo)
    (now : UInt64) (map : InfoHashMap) (hnew : P input.base64InfoHash (SingleInfoHashInfo.new now))
    (hrefresh : ∀ info, P input.base64InfoHash info →
      P input.base64InfoHash { info with timestamp := now })
    (h : Dict.Holds P map) : P input.base64InfoHash (preHandleInfoHashInfo input now map) := by
  unfold preHandleInfoHashInfo
  cases hlook : map.lookup input.base64InfoHash with
  | none => exact hnew
  | some info => exact hrefresh info (h _ info hlook)

theorem refsOk_preHandle (input : PeerInfo) (now : UInt64) (map : InfoHashMap)
    (h : Dict.Holds (fun _ => RefsOk) map) : RefsOk (preHandleInfoHashInfo input now map) :=
  preHandle_holds (fun _ => RefsOk) input now map (refsOk_new now)
    (fun _ hok => ⟨hok.allocated, hok.unique⟩) h

theorem trackerRefsOk_updatePeer (conf : TrackerConf) (env : UpdateEnv) (input : PeerInfo)
    (t : Tracker) (h : TrackerRefsOk t) : TrackerRefsOk (updatePeer conf env input t).2 := by
  apply (Dict.holds_insert _ t.localInfoHashMap _ _ (fun k v _ => h k v)).mpr
  exact refsOk_update conf env input _ (refsOk_preHandle input env.now t.localInfoHashMap h)

structure Choice where
  info : SingleInfoHashInfo
  output : PeerList
  haveSeed : Bool

section Choose

variable (lock : PeerRef → Option PeerInfo) (input : PeerInfo) (draws : ChooseDraws)

/-- The scan of all local lists. -/
def chooseLocalPeers (haveSeed : Bool) (info : SingleInfoHashInfo) : Choice :=
  let visited := visitIdcToPeers input.base64PeerId input.getIdc lock
    input.getWantNumber.toInt draws.peerVisit info.idcToPeerVector haveSeed
  ⟨{ info with idcToPeerVector := visited.lists }, visited.output, visited.ifSeedInserted⟩

/-- The scan of the local seed lists, for one peer, when no seed was chosen. -/
def chooseLocalSeed (chosen : Choice) : Choice :=
  if !chosen.haveSeed && decide (0 < chosen.info.idcToSeedVector.entries.length) then
    let visited := visitIdcToPeers input.base64PeerId input.getIdc lock 1 draws.seedVisit
      chosen.info.idcToSeedVector chosen.haveSeed
    ⟨{ chosen.info with idcToSeedVector := visited.lists }, chosen.output ++ visited.output,
      visited.ifSeedInserted⟩
  else chosen

/-- The scan of all remote peers, up to ten peers in the list. -/
def chooseRemotePeers (chosen : Choice) : Choice :=
  if chosen.output.length < 10 then
    let scanned := choosePeersByMap input.base64PeerId lock draws.remoteStart
      chosen.info.peerVec (10 - chosen.output.length) chosen.output chosen.haveSeed
    ⟨{ chosen.info with peerVec := scanned.peerVec }, scanned.output, scanned.ifSeedInserted⟩
  else chosen

def chooseRemoteSeed (chosen : Choice) : Choice :=
  if !chosen.haveSeed && !chosen.info.peerSeedVec.isEmpty then
    let scanned := choosePeersByMap input.base64PeerId lock draws.remoteSeedStart
      chosen.info.peerSeedVec 1 chosen.output chosen.haveSeed
    ⟨{ chosen.info with peerSeedVec := scanned.peerVec }, scanned.output, scanned.ifSeedInserted⟩
  else chosen

end Choose

def addNeedInfoHash (input : PeerInfo) (queue : InfoHashQueue) : InfoHashQueue :=
  match queue.queryMap.lookup input.base64InfoHash with
  | none => ⟨queue.queryMap.insert input.base64InfoHash false, true⟩
  | some querying => { queue with haveQuery := if querying then queue.haveQuery else true }

structure Chosen where
  tracker : Tracker
  output : PeerList
  haveSeed : Bool

def chooseFromLocal (input : PeerInfo) (draws : ChooseDraws) (haveSeed : Bool) (t : Tracker) :
    Chosen :=
  match t.localInfoHashMap.lookup input.base64InfoHash with
  | none => ⟨t, [], haveSeed⟩
  | some info =>
    let chosen := chooseLocalSeed info.lockPeer input draws
      (chooseLocalPeers info.lockPeer input draws haveSeed info)
    ⟨{ t with
        localInfoHashMap := t.localInfoHashMap.insert input.base64InfoHash chosen.info },
      chosen.output, chosen.haveSeed⟩

def chooseFromRemote (input : PeerInfo) (draws : ChooseDraws) (c : Chosen) : Chosen :=
  let t := { c.tracker with infoHashQueue := addNeedInfoHash input c.tracker.infoHashQueue }
  match t.remoteInfoHashMap.lookup input.base64InfoHash with
  | none => ⟨t, c.output, c.haveSeed⟩
  | some info =>
    let chosen := chooseRemoteSeed info.lockPeer input draws
      (chooseRemotePeers info.lockPeer input draws ⟨info, c.output, c.haveSeed⟩)
    ⟨{ t with
        remoteInfoHashMap := t.remoteInfoHashMap.insert input.base64InfoHash chosen.info },
      chosen.output, chosen.haveSeed⟩

/-- The list starts out empty; remote peers are asked for unless the requester is
a seed or a local seed was found. -/
def choosePeers (input : PeerInfo) (draws : ChooseDraws) (haveSeed : Bool) (t : Tracker) :
    Chosen :=
  let c := chooseFromLocal input draws haveSeed t
  if input.isASeed || (decide (0 < c.output.length) && c.haveSeed) then c
  else chooseFromRemote input draws c

structure HandleResult where
  ret : ℤ
  peerList : PeerList
  haveSeed : Bool
  tracker : Tracker

/-- The caller's list and seed flag are returned as they were when no peers are chosen. -/
def handle (conf : TrackerConf) (env : HandleEnv) (input : PeerInfo) (peerList : PeerList)
    (haveSeed : Bool) (t : Tracker) : HandleResult :=
  let updated := updatePeer conf env.update input t
  if updated.1 ≠ 0 then ⟨updated.1, peerList, haveSeed, updated.2⟩
  else if input.checkNeedMorePeers then
    let c := choosePeers input env.choose haveSeed updated.2
    ⟨0, c.output, c.haveSeed, c.tracker⟩
  else ⟨updated.1, peerList, haveSeed, updated.2⟩

inductive ControlType where
  | stopDownloading
  | resumeDownload
  | other (code : ℤ)
  deriving DecidableEq

inductive ControlError where
  | infohashNotFound
  | invalidOperatType
  deriving DecidableEq

/-- An order of an unknown type still refreshes the timestamp. -/
def controlByInfohash (infohash : ByteString) (type : ControlType) (now : UInt64) (t : Tracker) :
    Option ControlError × Tracker :=
  match t.localInfoHashMap.lookup infohash with
  | none => (some .infohashNotFound, t)
  | some info =>
    let refreshed := { info with timestamp := now }
    let store (i : SingleInfoHashInfo) : Tracker :=
      { t with localInfoHashMap := t.localInfoHashMap.insert infohash i }
    match type with
    | .stopDownloading => (none, store { refreshed with needStop := true })
    | .resumeDownload => (none, store { refreshed with needStop := false })
    | .other _ => (some .invalidOperatType, store refreshed)

/-- An order changes the timestamp and the stop flag of one entry at most. -/
theorem control_holds (P : ByteString → SingleInfoHashInfo → Prop) (infohash : ByteString)
    (type : ControlType) (now : UInt64) (t : Tracker)
    (hcontrol : ∀ info stop, P infohash info →
      P infohash { info with timestamp := now, needStop := stop })
    (h : Dict.Holds P t.localInfoHashMap) :
    Dict.Holds P (controlByInfohash infohash type now t).2.localInfoHashMap := by
  unfold controlByInfohash
  cases hlook : t.localInfoHashMap.lookup infohash with
  | none => exact h
  | some info =>
    have hstored : ∀ stop, Dict.Holds P (t.localInfoHashMap.insert infohash
        { info with timestamp := now, needStop := stop }) := by
      intro stop
      exact (Dict.holds_insert P _ infohash _ (fun k v _ => h k v)).mpr
        (hcontrol info stop (h infohash info hlook))
    cases type with
    | stopDownloading => exact hstored true
    | resumeDownload => exact hstored false
    | other code => exact hstored info.needStop

/-- The subtraction is unsigned, as the timestamp is. -/
def toDelete (now expireInterval : UInt64) (info : SingleInfoHashInfo) : Bool :=
  decide (expireInterval < now - info.timestamp) || decide (info.peerMap.entries.length = 0)

def periodSchedule (now expireInterval : UInt64) (t : Tracker) : Tracker :=
  let kept := Dict.filter (fun _ info => !toDelete now expireInterval info) t.localInfoHashMap
  let infoHashsToDelete := t.localInfoHashMap.keys.filter (fun key => decide (key ∉ kept.keys))
  if infoHashsToDelete = [] then t
  else
    { t with
      localInfoHashMap := kept
      remoteInfoHashMap :=
        Dict.filter (fun key _ => decide (key ∉ infoHashsToDelete)) t.remoteInfoHashMap }

inductive Event where
  | announce (input : PeerInfo) (env : HandleEnv)
  | control (infohash : ByteString) (type : ControlType) (now : UInt64)
  | collect (now expireInterval : UInt64)

/-- The server passes an empty list and no seed for every request. -/
def next (conf : TrackerConf) (t : Tracker) : Event → Tracker
  | .announce input env => (handle conf env input [] false t).tracker
  | .control infohash type now => (controlByInfohash infohash type now t).2
  | .collect now expireInterval => periodSchedule now expireInterval t

/-- One clock reading for the whole request and one raw value for all its draws. -/
def plainEnv (now : UInt64) (raw : ℕ) : HandleEnv where
  update := ⟨now, BitVec.ofNat 64 now.toNat, raw⟩
  choose :=
    { peerVisit := ⟨⟨id, fun _ => List.Perm.refl _⟩, raw, fun _ => raw⟩
      seedVisit := ⟨⟨id, fun _ => List.Perm.refl _⟩, raw, fun _ => raw⟩
      remoteStart := raw
      remoteSeedStart := raw }

/-- The entry of an infohash after one announce has been handled. -/
def handleEntry (conf : TrackerConf) (env : HandleEnv) (input : PeerInfo) (haveSeed : Bool)
    (info : SingleInfoHashInfo) : SingleInfoHashInfo :=
  let updated := updatePeerEntry conf env.update input info
  if updated.ret = 0 ∧ input.checkNeedMorePeers = true then
    (chooseLocalSeed updated.info.lockPeer input env.choose
      (chooseLocalPeers updated.info.lockPeer input env.choose haveSeed updated.info)).info
  else updated.info

section Handle

variable (conf : TrackerConf) (env : HandleEnv) (input : PeerInfo) (peerList : PeerList)
  (haveSeed : Bool) (t : Tracker)

theorem choosePeers_localInfoHashMap (draws : ChooseDraws) :
    (choosePeers input draws haveSeed t).tracker.localInfoHashMap =
      (chooseFromLocal input draws haveSeed t).tracker.localInfoHashMap := by
  simp only [choosePeers, chooseFromRemote]
  split
  · rfl
  · split <;> rfl

theorem handle_ret : (handle conf env input peerList haveSeed t).ret =
    (updatePeerEntry conf env.update input
      (preHandleInfoHashInfo input env.update.now t.localInfoHashMap)).ret := by
  unfold handle
  by_cases hret : (updatePeer conf env.update input t).1 = 0
  · by_cases hmore : input.checkNeedMorePeers = true
    · simp only [hret, ne_eq, not_true_eq_false, if_false, hmore, if_true]
      exact hret.symm
    · simp only [hret, ne_eq, not_true_eq_false, if_false, hmore]
      exact hret.symm
  · simp only [ne_eq, hret, not_false_eq_true, if_true]
    rfl

/-- An announce rewrites the entry of its own infohash and no other. -/
theorem handle_localInfoHashMap :
    (handle conf env input peerList haveSeed t).tracker.localInfoHashMap =
      t.localInfoHashMap.insert input.base64InfoHash (handleEntry conf env input haveSeed
        (preHandleInfoHashInfo input env.update.now t.localInfoHashMap)) := by
  unfold handle handleEntry
  by_cases hret : (updatePeer conf env.update input t).1 = 0
  · have hentry := hret
    unfold updatePeer at hentry
    by_cases hmore : input.checkNeedMorePeers = true
    · simp only [hret, ne_eq, not_true_eq_false, if_false, hmore, if_true]
      rw [choosePeers_localInfoHashMap, if_pos ⟨hentry, trivial⟩]
      simp only [chooseFromLocal, updatePeer, AList.lookup_insert, AList.insert_insert]
    · have hskip : ¬ ((updatePeerEntry conf env.update input (preHandleInfoHashInfo input
          env.update.now t.localInfoHashMap)).ret = 0 ∧ input.checkNeedMorePeers = true) :=
        fun h => hmore h.2
      rw [if_neg hskip]
      simp only [hret, ne_eq, not_true_eq_false, if_false, hmore]
      rfl
  · have hentry := hret
    unfold updatePeer at hentry
    simp only [ne_eq, hret, not_false_eq_true, if_true]
    rw [if_neg (fun h => hentry h.1)]
    rfl

end Handle

/-- Choosing peers rewrites the lists of the entry and nothing else. -/
theorem handleEntry_lists (conf : TrackerConf) (env : HandleEnv) (input : PeerInfo)
    (haveSeed : Bool) (info : SingleInfoHashInfo) :
    ∃ peerLists seedLists, handleEntry conf env input haveSeed info =
      { (updatePeerEntry conf env.update input info).info with
        idcToPeerVector := peerLists
        idcToSeedVector := seedLists } := by
  simp only [handleEntry]
  split
  · unfold chooseLocalSeed
    split <;> exact ⟨_, _, rfl⟩
  · exact ⟨_, _, rfl⟩

/-- A cycle keeps exactly the entries that are not to be deleted. -/
theorem lookup_periodSchedule (now expireInterval : UInt64) (t : Tracker) (key : ByteString) :
    (periodSchedule now expireInterval t).localInfoHashMap.lookup key =
      (t.localInfoHashMap.lookup key).filter (fun info => !toDelete now expireInterval info) := by
  unfold periodSchedule
  simp only
  split
  · rename_i hempty
    cases hlook : t.localInfoHashMap.lookup key with
    | none => rfl
    | some info =>
      have hkey : key ∈ t.localInfoHashMap.keys := by
        rw [← AList.mem_keys, ← AList.lookup_isSome, hlook]
        rfl
      have hkept := List.filter_eq_nil_iff.mp hempty key hkey
      rw [decide_not, Bool.not_eq_true, Bool.not_eq_false', decide_eq_true_eq] at hkept
      obtain ⟨kept, hkept⟩ := Dict.lookup_isSome_of_mem_keys _ key hkept
      rw [Dict.lookup_filter, hlook] at hkept
      rw [hkept]
      exact (Option.filter_eq_some_iff.mp hkept).1
  · rw [Dict.lookup_filter]

inductive RedisReply where
  | null
  | notArray
  | array (elements : List ByteString)

def cString (text : ByteString) : ByteString := text.takeWhile (· ≠ 0)

/-- Values that do not decode are left out; a value with the key of an earlier one
takes its place in the map while both stay in the lists. -/
def loadRemotePeer (codec : ThriftCodec) (info : SingleInfoHashInfo) (value : ByteString) :
    SingleInfoHashInfo :=
  match base64Decode (cString value) with
  | none => info
  | some text =>
    match PeerInfo.constructPeerInfoByString codec text with
    | none => info
    | some p =>
      { info with
        peers := Function.update info.peers info.nextRef p
        nextRef := info.nextRef + 1
        peerMap := info.peerMap.insert p.base64PeerId info.nextRef
        peerVec := info.peerVec ++ [info.nextRef]
        peerSeedVec :=
          if p.isASeed then info.peerSeedVec ++ [info.nextRef] else info.peerSeedVec }

def updateInfoHashMapByReply (codec : ThriftCodec) (key : ByteString) (reply : RedisReply)
    (now : UInt64) (t : Tracker) : Tracker :=
  match reply with
  | .null => t
  | .notArray => t
  | .array elements =>
    let info := elements.foldl (loadRemotePeer codec) (SingleInfoHashInfo.new now)
    { t with remoteInfoHashMap := t.remoteInfoHashMap.insert key info }

end Gingko.TrackerState
