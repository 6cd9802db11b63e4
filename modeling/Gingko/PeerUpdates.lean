import Gingko.KeyedMaps
import Gingko.PeerRecords
import Gingko.RandomDraws

/-!
Registration of one announce in the entry of its infohash. Peer objects are
numbered; the map owns them and the lists per machine room hold weak references,
which can be locked while the map still owns the object. The steps follow the
separately locked sections of the update: registration under the peer key,
the refusal of a stopped infohash, the copy of the announced fields with the
push of a new peer, and the publication in redis.
-/
namespace Gingko.PeerUpdates

open KeyedMaps Base64Codec PeerRecords RandomDraws

abbrev PeerRef := ℕ
abbrev SinglePeerMap := Dict ByteString PeerRef
abbrev SinglePeerVec := List PeerRef
abbrev IdcToSingleVector := Dict ByteString SinglePeerVec

structure SingleInfoHashInfo where
  peers : PeerRef → PeerInfo
  nextRef : PeerRef
  peerMap : SinglePeerMap
  idcToPeerVector : IdcToSingleVector
  idcToSeedVector : IdcToSingleVector
  peerVec : SinglePeerVec
  peerSeedVec : SinglePeerVec
  remotePeerCount : UInt64
  completeNum : UInt64
  timestamp : UInt64
  needStop : Bool

/-- A command and the key that selects its redis server. -/
structure RedisCommand where
  redisKey : ByteString
  command : ByteString
  deriving DecidableEq

structure TrackerConf where
  codec : ThriftCodec
  infoHashExpireSecond : UInt32

/-- Clock readings and the raw lottery value of one update. -/
structure UpdateEnv where
  now : UInt64
  updateNow : BitVec 64
  lottery : ℕ

namespace RedisCommandCreator

def ascii (s : String) : ByteString := s.toList.map (fun c => UInt8.ofNat c.toNat)

def setHashOneItemInfo (key hashKey value : ByteString) : ByteString :=
  ascii "hset " ++ key ++ ascii " " ++ hashKey ++ ascii " " ++ value

def deleteOneHashItem (key hashKey : ByteString) : ByteString :=
  ascii "hdel " ++ key ++ ascii " " ++ hashKey

def setExpire (key : ByteString) (expireTime : UInt32) : ByteString :=
  ascii "EXPIRE " ++ key ++ ascii " " ++ ascii (toString expireTime.toNat)

end RedisCommandCreator

open RedisCommandCreator

def constructInfoHashKey (base64InfoHash : ByteString) : ByteString :=
  ascii "info_hash_key_" ++ base64InfoHash

def constructPeerKey (base64PeerId : ByteString) : ByteString := base64PeerId

def setPeerRemote (conf : TrackerConf) (input : PeerInfo) : ℤ × List RedisCommand :=
  match base64Encode (input.constructStringByPeerInfo conf.codec) with
  | none => (-1, [])
  | some value =>
    let infoHashKey := constructInfoHashKey input.base64InfoHash
    let peerIdKey := constructPeerKey input.base64PeerId
    (0, [⟨input.base64InfoHash, setHashOneItemInfo infoHashKey peerIdKey value⟩,
      ⟨input.base64InfoHash, setExpire infoHashKey conf.infoHashExpireSecond⟩])

def deletePeerRemote (input : PeerInfo) : ℤ × List RedisCommand :=
  (0, [⟨input.base64InfoHash, deleteOneHashItem (constructInfoHashKey input.base64InfoHash)
    (constructPeerKey input.base64PeerId)⟩])

theorem setPeerRemote_ret (conf : TrackerConf) (input : PeerInfo) :
    (setPeerRemote conf input).1 = 0 := by
  simp [setPeerRemote, base64Encode_eq]

namespace SingleInfoHashInfo

def new (now : UInt64) : SingleInfoHashInfo where
  peers := fun _ => {}
  nextRef := 0
  peerMap := ∅
  idcToPeerVector := ∅
  idcToSeedVector := ∅
  peerVec := []
  peerSeedVec := []
  remotePeerCount := 0
  completeNum := 0
  timestamp := now
  needStop := false

/-- Locking a weak reference while no announce is in flight. -/
def lockPeer (info : SingleInfoHashInfo) (ref : PeerRef) : Option PeerInfo :=
  if ref ∈ Dict.values info.peerMap then some (info.peers ref) else none

def setPeer (info : SingleInfoHashInfo) (ref : PeerRef) (p : PeerInfo) : SingleInfoHashInfo :=
  { info with peers := Function.update info.peers ref p }

def insertPeer (info : SingleInfoHashInfo) (key : ByteString) : SingleInfoHashInfo :=
  { info with
    peers := Function.update info.peers info.nextRef {}
    nextRef := info.nextRef + 1
    peerMap := info.peerMap.insert key info.nextRef }

/-- A stopped peer leaves the map; its weak references stay in the lists. -/
def erasePeer (info : SingleInfoHashInfo) (input : PeerInfo) (ref : PeerRef) :
    SingleInfoHashInfo :=
  { info with
    remotePeerCount :=
      if (info.peers ref).isSetRemote && decide ((deletePeerRemote input).1 = 0)
      then info.remotePeerCount - 1
      else info.remotePeerCount
    peerMap := info.peerMap.erase input.base64PeerId
    completeNum := info.completeNum + 1 }

end SingleInfoHashInfo

structure PreHandled where
  info : SingleInfoHashInfo
  peerInfo : Option PeerRef
  peerIsNew : Bool
  commands : List RedisCommand

def preHandlePeerInfo (input : PeerInfo) (info : SingleInfoHashInfo) : PreHandled :=
  match info.peerMap.lookup input.base64PeerId with
  | none =>
    if input.checkToStop then ⟨info, none, false, []⟩
    else ⟨info.insertPeer input.base64PeerId, some info.nextRef, true, []⟩
  | some ref =>
    if input.checkToStop then
      ⟨info.erasePeer input ref, none, false,
        if (info.peers ref).isSetRemote then (deletePeerRemote input).2 else []⟩
    else ⟨info, some ref, false, []⟩

/-- Append a weak reference to the list of a machine room, created when missing. -/
def pushBack (lists : IdcToSingleVector) (idc : ByteString) (ref : PeerRef) :
    IdcToSingleVector :=
  lists.insert idc ((lists.lookup idc).getD [] ++ [ref])

/-- Every reference of the lists with the machine room it is filed under. -/
def filed (lists : IdcToSingleVector) : List (ByteString × PeerRef) :=
  lists.entries.flatMap (fun e => e.2.map (fun ref => (e.1, ref)))

theorem mem_filed (lists : IdcToSingleVector) (idc : ByteString) (ref : PeerRef) :
    (idc, ref) ∈ filed lists ↔ ∃ peerVec, lists.lookup idc = some peerVec ∧ ref ∈ peerVec := by
  simp only [filed, List.mem_flatMap, List.mem_map, Prod.mk.injEq]
  constructor
  · intro h
    obtain ⟨⟨room, peerVec⟩, hentry, r, hr, rfl, rfl⟩ := h
    exact ⟨peerVec, (Dict.mem_entries_iff lists room peerVec).mp hentry, hr⟩
  · intro h
    obtain ⟨peerVec, hlook, hr⟩ := h
    exact ⟨⟨idc, peerVec⟩, (Dict.mem_entries_iff lists idc peerVec).mpr hlook, ref, hr, rfl, rfl⟩

theorem filed_insert (lists : IdcToSingleVector) (idc : ByteString) (peerVec : SinglePeerVec) :
    filed (lists.insert idc peerVec) =
      peerVec.map (fun ref => (idc, ref)) ++ filed (lists.erase idc) :=
  rfl

theorem filed_perm_of_lookup (lists : IdcToSingleVector) (idc : ByteString)
    (peerVec : SinglePeerVec) (h : lists.lookup idc = some peerVec) :
    (filed lists).Perm (peerVec.map (fun ref => (idc, ref)) ++ filed (lists.erase idc)) :=
  (Dict.entries_perm_of_lookup lists idc peerVec h).flatMap_right _

theorem filed_pushBack (lists : IdcToSingleVector) (idc : ByteString) (ref : PeerRef) :
    (filed (pushBack lists idc ref)).Perm ((idc, ref) :: filed lists) := by
  unfold pushBack
  rw [filed_insert, List.map_append, List.append_assoc]
  refine List.perm_middle.trans (List.Perm.cons _ ?_)
  cases hlook : lists.lookup idc with
  | none =>
    have herase : lists.erase idc = lists := by
      apply AList.ext
      exact List.kerase_of_notMem_keys (AList.lookup_eq_none.mp hlook)
    rw [herase]
    exact List.Perm.refl _
  | some peerVec => exact (filed_perm_of_lookup lists idc peerVec hlook).symm

theorem mem_filed_pushBack (lists : IdcToSingleVector) (idc room : ByteString) (ref r : PeerRef)
    (h : (room, r) ∈ filed (pushBack lists idc ref)) :
    room = idc ∧ r = ref ∨ (room, r) ∈ filed lists := by
  rcases List.mem_cons.mp ((filed_pushBack lists idc ref).mem_iff.mp h) with heq | hold
  · exact Or.inl (Prod.mk.inj heq)
  · exact Or.inr hold

/-- The section under the list lock: only a new peer enters the lists. -/
def fillPeerInfo (input : PeerInfo) (now : BitVec 64) (ref : PeerRef) (peerIsNew : Bool)
    (info : SingleInfoHashInfo) : SingleInfoHashInfo :=
  let filled := info.setPeer ref ((info.peers ref).updateInfo input now)
  if peerIsNew then
    { filled with
      idcToPeerVector := pushBack filled.idcToPeerVector input.getIdc ref
      idcToSeedVector :=
        if (filled.peers ref).isASeed then pushBack filled.idcToSeedVector input.getIdc ref
        else filled.idcToSeedVector }
  else filled

/-- Whether an accepted announce is published: the stored flag, an announced
seed, or a seeding peer that wins the lottery. -/
def wantsPublish (input : PeerInfo) (raw : ℕ) (ref : PeerRef) (info : SingleInfoHashInfo) : Bool :=
  (info.peers ref).isSetRemote || input.isASeed ||
    (input.isSeeding && ifSetPeerRemote info.remotePeerCount raw)

def publishPeer (conf : TrackerConf) (input : PeerInfo) (raw : ℕ) (ref : PeerRef)
    (peerIsNew : Bool) (info : SingleInfoHashInfo) : SingleInfoHashInfo × List RedisCommand :=
  if wantsPublish input raw ref info then
    if (setPeerRemote conf input).1 = 0 then
      ({ info.setPeer ref ((info.peers ref).setIsSetRemote true) with
          remotePeerCount :=
            if peerIsNew then info.remotePeerCount + 1 else info.remotePeerCount },
        (setPeerRemote conf input).2)
    else (info, (setPeerRemote conf input).2)
  else (info, [])

structure EntryUpdate where
  ret : ℤ
  info : SingleInfoHashInfo
  commands : List RedisCommand

/-- The answer that tells a client to stop downloading. -/
def stopDownloadCode : ℤ := 26234

def updatePeerEntry (conf : TrackerConf) (env : UpdateEnv) (input : PeerInfo)
    (info : SingleInfoHashInfo) : EntryUpdate :=
  let pre := preHandlePeerInfo input info
  match pre.peerInfo with
  | none => ⟨0, pre.info, pre.commands⟩
  | some ref =>
    if pre.info.needStop && !input.isASeed then ⟨stopDownloadCode, pre.info, pre.commands⟩
    else
      let published := publishPeer conf input env.lottery ref pre.peerIsNew
        (fillPeerInfo input env.updateNow ref pre.peerIsNew pre.info)
      ⟨0, published.1, pre.commands ++ published.2⟩

/-- The entry after an accepted announce. -/
def acceptPeer (conf : TrackerConf) (env : UpdateEnv) (input : PeerInfo) (ref : PeerRef)
    (peerIsNew : Bool) (info : SingleInfoHashInfo) : SingleInfoHashInfo :=
  (publishPeer conf input env.lottery ref peerIsNew
    (fillPeerInfo input env.updateNow ref peerIsNew info)).1

/-- Everything an update can do to the entry of its infohash. -/
inductive UpdateCase (conf : TrackerConf) (env : UpdateEnv) (input : PeerInfo)
    (info : SingleInfoHashInfo) : ℤ → SingleInfoHashInfo → Prop
  | unknownStop (hstop : input.checkToStop = true)
      (hnone : info.peerMap.lookup input.base64PeerId = none) :
      UpdateCase conf env input info 0 info
  | knownStop (ref : PeerRef) (hstop : input.checkToStop = true)
      (hsome : info.peerMap.lookup input.base64PeerId = some ref) :
      UpdateCase conf env input info 0 (info.erasePeer input ref)
  | newRefused (hstop : input.checkToStop = false)
      (hnone : info.peerMap.lookup input.base64PeerId = none)
      (hrefuse : (info.needStop && !input.isASeed) = true) :
      UpdateCase conf env input info stopDownloadCode (info.insertPeer input.base64PeerId)
  | knownRefused (ref : PeerRef) (hstop : input.checkToStop = false)
      (hsome : info.peerMap.lookup input.base64PeerId = some ref)
      (hrefuse : (info.needStop && !input.isASeed) = true) :
      UpdateCase conf env input info stopDownloadCode info
  | newAccepted (hstop : input.checkToStop = false)
      (hnone : info.peerMap.lookup input.base64PeerId = none)
      (haccept : (info.needStop && !input.isASeed) = false) :
      UpdateCase conf env input info 0
        (acceptPeer conf env input info.nextRef true (info.insertPeer input.base64PeerId))
  | knownAccepted (ref : PeerRef) (hstop : input.checkToStop = false)
      (hsome : info.peerMap.lookup input.base64PeerId = some ref)
      (haccept : (info.needStop && !input.isASeed) = false) :
      UpdateCase conf env input info 0 (acceptPeer conf env input ref false info)

theorem updatePeerEntry_cases (conf : TrackerConf) (env : UpdateEnv) (input : PeerInfo)
    (info : SingleInfoHashInfo) :
    UpdateCase conf env input info (updatePeerEntry conf env input info).ret
      (updatePeerEntry conf env input info).info := by
  unfold updatePeerEntry preHandlePeerInfo
  cases hlook : info.peerMap.lookup input.base64PeerId with
  | none =>
    cases hstop : input.checkToStop with
    | true => exact .unknownStop hstop hlook
    | false =>
      cases hrefuse : (info.needStop && !input.isASeed) with
      | true =>
        simp only [Bool.false_eq_true, if_false, SingleInfoHashInfo.insertPeer, hrefuse, if_true]
        exact .newRefused hstop hlook hrefuse
      | false =>
        simp only [Bool.false_eq_true, if_false, SingleInfoHashInfo.insertPeer, hrefuse]
        exact .newAccepted hstop hlook hrefuse
  | some ref =>
    cases hstop : input.checkToStop with
    | true => exact .knownStop ref hstop hlook
    | false =>
      cases hrefuse : (info.needStop && !input.isASeed) with
      | true =>
        simp only [Bool.false_eq_true, if_false, hrefuse, if_true]
        exact .knownRefused ref hstop hlook hrefuse
      | false =>
        simp only [Bool.false_eq_true, if_false, hrefuse]
        exact .knownAccepted ref hstop hlook hrefuse

section Fields

variable (conf : TrackerConf) (env : UpdateEnv) (input : PeerInfo) (ref : PeerRef) (new : Bool)
  (info : SingleInfoHashInfo)

@[simp] theorem fillPeerInfo_peers (now : BitVec 64) :
    (fillPeerInfo input now ref new info).peers =
      Function.update info.peers ref ((info.peers ref).updateInfo input now) := by
  cases new <;> rfl

@[simp] theorem fillPeerInfo_peerMap (now : BitVec 64) :
    (fillPeerInfo input now ref new info).peerMap = info.peerMap := by
  cases new <;> rfl

@[simp] theorem fillPeerInfo_nextRef (now : BitVec 64) :
    (fillPeerInfo input now ref new info).nextRef = info.nextRef := by
  cases new <;> rfl

@[simp] theorem fillPeerInfo_remotePeerCount (now : BitVec 64) :
    (fillPeerInfo input now ref new info).remotePeerCount = info.remotePeerCount := by
  cases new <;> rfl

@[simp] theorem fillPeerInfo_idcToPeerVector (now : BitVec 64) :
    (fillPeerInfo input now ref new info).idcToPeerVector =
      if new then pushBack info.idcToPeerVector input.getIdc ref else info.idcToPeerVector := by
  cases new <;> rfl

@[simp] theorem fillPeerInfo_idcToSeedVector (now : BitVec 64) :
    (fillPeerInfo input now ref new info).idcToSeedVector =
      if new && ((info.peers ref).updateInfo input now).isASeed then
        pushBack info.idcToSeedVector input.getIdc ref
      else info.idcToSeedVector := by
  cases new
  · rfl
  · simp [fillPeerInfo, SingleInfoHashInfo.setPeer]

/-- Publication only sets the flag of the peer and counts a new one. -/
theorem publishPeer_info (raw : ℕ) :
    (publishPeer conf input raw ref new info).1 =
      if wantsPublish input raw ref info then
        { info.setPeer ref ((info.peers ref).setIsSetRemote true) with
          remotePeerCount := if new then info.remotePeerCount + 1 else info.remotePeerCount }
      else info := by
  unfold publishPeer
  rw [if_pos (setPeerRemote_ret conf input)]
  split <;> rfl

@[simp] theorem acceptPeer_peerMap : (acceptPeer conf env input ref new info).peerMap =
    info.peerMap := by
  rw [acceptPeer, publishPeer_info]
  split <;> simp [SingleInfoHashInfo.setPeer]

@[simp] theorem acceptPeer_idcToPeerVector :
    (acceptPeer conf env input ref new info).idcToPeerVector =
      if new then pushBack info.idcToPeerVector input.getIdc ref else info.idcToPeerVector := by
  rw [acceptPeer, publishPeer_info]
  split <;> simp [SingleInfoHashInfo.setPeer]

@[simp] theorem acceptPeer_idcToSeedVector :
    (acceptPeer conf env input ref new info).idcToSeedVector =
      if new && ((info.peers ref).updateInfo input env.updateNow).isASeed then
        pushBack info.idcToSeedVector input.getIdc ref
      else info.idcToSeedVector := by
  rw [acceptPeer, publishPeer_info]
  split <;> simp [SingleInfoHashInfo.setPeer]

theorem filed_acceptPeer (room : ByteString) (r : PeerRef)
    (h : (room, r) ∈ filed (acceptPeer conf env input ref new info).idcToPeerVector) :
    r = ref ∨ (room, r) ∈ filed info.idcToPeerVector := by
  rw [acceptPeer_idcToPeerVector] at h
  split at h
  · exact (mem_filed_pushBack _ _ room ref r h).imp And.right id
  · exact Or.inr h

theorem seedsFiled_acceptPeer (room : ByteString) (r : PeerRef)
    (h : (room, r) ∈ filed (acceptPeer conf env input ref new info).idcToSeedVector) :
    r = ref ∨ (room, r) ∈ filed info.idcToSeedVector := by
  rw [acceptPeer_idcToSeedVector] at h
  split at h
  · exact (mem_filed_pushBack _ _ room ref r h).imp And.right id
  · exact Or.inr h

/-- An accepted peer has the announced thrift fields, apart from the clock and
the expiry time. -/
theorem acceptPeer_thriftPeer (ref' : PeerRef) :
    ((acceptPeer conf env input ref new info).peers ref').thriftPeer =
      if ref' = ref then ((info.peers ref).updateInfo input env.updateNow).thriftPeer
      else (info.peers ref').thriftPeer := by
  rw [acceptPeer, publishPeer_info]
  by_cases href : ref' = ref
  · subst href
    split <;> simp [SingleInfoHashInfo.setPeer, PeerInfo.setIsSetRemote]
  · split <;> simp [SingleInfoHashInfo.setPeer, href]

@[simp] theorem acceptPeer_nextRef : (acceptPeer conf env input ref new info).nextRef =
    info.nextRef := by
  rw [acceptPeer, publishPeer_info]
  split <;> simp [SingleInfoHashInfo.setPeer]

@[simp] theorem acceptPeer_needStop : (acceptPeer conf env input ref new info).needStop =
    info.needStop := by
  rw [acceptPeer, publishPeer_info]
  split <;> cases new <;> rfl

end Fields

/-- References of the map are allocated and belong to one key each. -/
structure RefsOk (info : SingleInfoHashInfo) : Prop where
  allocated : ∀ key ref, info.peerMap.lookup key = some ref → ref < info.nextRef
  unique : ∀ key key' ref, info.peerMap.lookup key = some ref →
    info.peerMap.lookup key' = some ref → key = key'

theorem refsOk_new (now : UInt64) : RefsOk (SingleInfoHashInfo.new now) where
  allocated key ref h := by simp [SingleInfoHashInfo.new] at h
  unique key key' ref h _ := by simp [SingleInfoHashInfo.new] at h

theorem RefsOk.insertPeer (info : SingleInfoHashInfo) (h : RefsOk info) (key : ByteString) :
    RefsOk (info.insertPeer key) where
  allocated k ref hk := by
    by_cases hkey : k = key
    · subst hkey
      have href : info.nextRef = ref := by simpa [SingleInfoHashInfo.insertPeer] using hk
      simp [SingleInfoHashInfo.insertPeer, ← href]
    · simp only [SingleInfoHashInfo.insertPeer, AList.lookup_insert_ne hkey] at hk
      have hlt := h.allocated k ref hk
      exact Nat.lt_succ_of_lt hlt
  unique k k' ref hk hk' := by
    simp only [SingleInfoHashInfo.insertPeer] at hk hk'
    by_cases hkey : k = key <;> by_cases hkey' : k' = key
    · rw [hkey, hkey']
    · rw [hkey, AList.lookup_insert] at hk
      rw [AList.lookup_insert_ne hkey'] at hk'
      have hlt := h.allocated k' ref hk'
      rw [Option.some.inj hk] at hlt
      exact absurd hlt (lt_irrefl ref)
    · rw [AList.lookup_insert_ne hkey] at hk
      rw [hkey', AList.lookup_insert] at hk'
      have hlt := h.allocated k ref hk
      rw [Option.some.inj hk'] at hlt
      exact absurd hlt (lt_irrefl ref)
    · rw [AList.lookup_insert_ne hkey] at hk
      rw [AList.lookup_insert_ne hkey'] at hk'
      exact h.unique k k' ref hk hk'

theorem lookup_erasePeer (info : SingleInfoHashInfo) (input : PeerInfo) (ref : PeerRef)
    (key : ByteString) (r : PeerRef)
    (h : (info.erasePeer input ref).peerMap.lookup key = some r) :
    info.peerMap.lookup key = some r := by
  by_cases hkey : key = input.base64PeerId
  · subst hkey
    simp [SingleInfoHashInfo.erasePeer] at h
  · simpa only [SingleInfoHashInfo.erasePeer, AList.lookup_erase_ne hkey] using h

theorem RefsOk.erasePeer (info : SingleInfoHashInfo) (h : RefsOk info) (input : PeerInfo)
    (ref : PeerRef) : RefsOk (info.erasePeer input ref) where
  allocated k r hk := h.allocated k r (lookup_erasePeer info input ref k r hk)
  unique k k' r hk hk' := h.unique k k' r (lookup_erasePeer info input ref k r hk)
    (lookup_erasePeer info input ref k' r hk')

theorem RefsOk.acceptPeer (info : SingleInfoHashInfo) (h : RefsOk info) (conf : TrackerConf)
    (env : UpdateEnv) (input : PeerInfo) (ref : PeerRef) (new : Bool) :
    RefsOk (acceptPeer conf env input ref new info) :=
  ⟨fun k r hk => by simpa using h.allocated k r (by simpa using hk),
    fun k k' r hk hk' => h.unique k k' r (by simpa using hk) (by simpa using hk')⟩

theorem refsOk_update (conf : TrackerConf) (env : UpdateEnv) (input : PeerInfo)
    (info : SingleInfoHashInfo) (h : RefsOk info) :
    RefsOk (updatePeerEntry conf env input info).info := by
  have hcase := updatePeerEntry_cases conf env input info
  generalize (updatePeerEntry conf env input info).ret = ret at hcase
  generalize (updatePeerEntry conf env input info).info = info' at hcase ⊢
  cases hcase with
  | unknownStop hstop hnone => exact h
  | knownStop ref hstop hsome => exact h.erasePeer info input ref
  | newRefused hstop hnone hrefuse => exact h.insertPeer info _
  | knownRefused ref hstop hsome hrefuse => exact h
  | newAccepted hstop hnone haccept => exact (h.insertPeer info _).acceptPeer _ _ _ _ _ _
  | knownAccepted ref hstop hsome haccept => exact h.acceptPeer _ _ _ _ _ _

end Gingko.PeerUpdates
