import Gingko.ScanPicks
import Gingko.TrackerState
import Mathlib.Data.List.TakeWhile

/-!
Runs of a tracker in which the two halves of an announce are separate events,
together with orders, collection cycles and updates of the remote peers from
published values. Every entry reached has its peers stored under their keys and
its lists free of repeated references; remote lists hold live references of
peers with distinct identifiers.
-/
namespace Gingko.TrackerRuns

open KeyedMaps Base64Codec PeerRecords RandomDraws PeerUpdates PeerScans ScanPicks TrackerState
  GuardedRuns

/-- A hash of published values has one value for each peer key of one infohash. -/
structure PublishedValues (infohash : ByteString) where
  peers : List Announce
  published : ∀ p ∈ peers, p.val.base64InfoHash = infohash
  distinct : (peers.map (fun p => p.val.base64PeerId)).Nodup

/-- The value that publication stores for a peer. -/
def publishedValue (conf : TrackerConf) (p : PeerInfo) : ByteString :=
  base64Text (p.constructStringByPeerInfo conf.codec)

theorem setPeerRemote_value (conf : TrackerConf) (p : PeerInfo) :
    (setPeerRemote conf p).2.head? = some ⟨p.base64InfoHash,
      RedisCommandCreator.setHashOneItemInfo (constructInfoHashKey p.base64InfoHash)
        (constructPeerKey p.base64PeerId) (publishedValue conf p)⟩ := by
  simp [setPeerRemote, base64Encode_eq, publishedValue]

/-- A published value is a C string. -/
theorem cString_publishedValue (conf : TrackerConf) (p : PeerInfo) :
    cString (publishedValue conf p) = publishedValue conf p := by
  apply List.takeWhile_eq_self_iff.mpr
  intro c hc
  exact decide_eq_true (base64Text_ne_zero _ c hc)

inductive RunEvent where
  | update (input : Announce) (env : UpdateEnv)
  | choose (input : Announce) (draws : ChooseDraws) (haveSeed : Bool)
  | control (infohash : ByteString) (type : ControlType) (now : UInt64)
  | collect (now expireInterval : UInt64)
  | synchronize (infohash : ByteString) (values : PublishedValues infohash) (now : UInt64)

def runNext (conf : TrackerConf) (t : Tracker) : RunEvent → Tracker
  | .update input env => (updatePeer conf env input.val t).2
  | .choose input draws haveSeed => (choosePeers input.val draws haveSeed t).tracker
  | .control infohash type now => (controlByInfohash infohash type now t).2
  | .collect now expireInterval => periodSchedule now expireInterval t
  | .synchronize infohash values now => updateInfoHashMapByReply conf.codec infohash
      (.array (values.peers.map (fun p => publishedValue conf p.val))) now t

/-- The record library reads back the values that an event delivers. -/
def Decodes (codec : ThriftCodec) : RunEvent → Prop
  | .synchronize _ values _ => ∀ p ∈ values.peers,
      codec.parse (codec.serialize p.val.thriftPeer) = some p.val.thriftPeer
  | _ => True

/-- What holds of every local entry that is reached. -/
structure LocalOk (info : SingleInfoHashInfo) : Prop where
  refs : RefsOk info
  stored : ∀ key ref, info.peerMap.lookup key = some ref →
    (info.peers ref).initialized = true →
      (info.peers ref).Keyed ∧ (info.peers ref).base64PeerId = key
  peersFiled : ∀ idc ref, (idc, ref) ∈ filed info.idcToPeerVector →
    ref < info.nextRef ∧ (info.peers ref).initialized = true
  seedsFiled : ∀ idc ref, (idc, ref) ∈ filed info.idcToSeedVector →
    ref < info.nextRef ∧ (info.peers ref).initialized = true
  apart : ListsApart info.idcToPeerVector

/-- What holds of every remote entry that is reached. -/
structure RemoteOk (info : SingleInfoHashInfo) : Prop where
  allocated : ∀ ref, ref ∈ info.peerVec ∨ ref ∈ info.peerSeedVec → ref < info.nextRef
  nodup : info.peerVec.Nodup
  own : ∀ ref, ref ∈ info.peerVec ∨ ref ∈ info.peerSeedVec →
    info.peerMap.lookup (info.peers ref).getPeerId = some ref
  seeds : ∀ ref ∈ info.peerSeedVec, (info.peers ref).isASeed = true

theorem listsApart_empty : ListsApart ∅ where
  each idc peerVec h := by simp at h
  apart idc idc' ref h _ := by simp [filed] at h

/-- A reference that is in no list can be appended to one. -/
theorem listsApart_pushBack {lists : IdcToSingleVector} (h : ListsApart lists) (idc : ByteString)
    (ref : PeerRef) (hfresh : ∀ room, (room, ref) ∉ filed lists) :
    ListsApart (pushBack lists idc ref) := by
  have hmem : ∀ room r, (room, r) ∈ filed (pushBack lists idc ref) →
      (room = idc ∧ r = ref) ∨ (room, r) ∈ filed lists ∧ r ≠ ref := by
    intro room r hr
    rcases mem_filed_pushBack lists idc room ref r hr with heq | hold
    · exact Or.inl heq
    · refine Or.inr ⟨hold, ?_⟩
      intro heq
      exact hfresh room (heq ▸ hold)
  refine ⟨?_, ?_⟩
  · intro room peerVec hlook
    by_cases hroom : room = idc
    · subst hroom
      rw [pushBack, AList.lookup_insert] at hlook
      have heq := Option.some.inj hlook
      subst heq
      cases hold : lists.lookup room with
      | none => simp
      | some old =>
        have hnot : ref ∉ old := fun hin =>
          hfresh room ((mem_filed lists room ref).mpr ⟨old, hold, hin⟩)
        rw [Option.getD_some]
        rw [← List.concat_eq_append]
        exact (h.each room old hold).concat hnot
    · rw [pushBack, AList.lookup_insert_ne hroom] at hlook
      exact h.each room peerVec hlook
  · intro room room' r hr hr'
    rcases hmem room r hr with ⟨hroom, hr₁⟩ | ⟨hold, hne⟩
    · rcases hmem room' r hr' with ⟨hroom', _⟩ | ⟨_, hne'⟩
      · rw [hroom, hroom']
      · exact absurd hr₁ hne'
    · rcases hmem room' r hr' with ⟨_, hr₁⟩ | ⟨hold', _⟩
      · exact absurd hr₁ hne
      · exact h.apart room room' r hold hold'

/-- Scans keep the lists apart, as they only erase. -/
theorem listsApart_scanIdc (selfId : ByteString) (lock : PeerRef → Option PeerInfo)
    (start : ByteString → ℕ) (idc : ByteString) (want : ℤ) (s : VisitState)
    (h : ListsApart s.lists) :
    ListsApart (scanIdc selfId lock start idc want s).lists := by
  have hsub := scanIdc_subset selfId lock start idc want s
  refine ⟨?_, fun room room' ref hr hr' => h.apart room room' ref (hsub hr) (hsub hr')⟩
  intro room peerVec hlook
  unfold scanIdc at hlook
  split at hlook
  · exact h.each room peerVec hlook
  · rename_i old hold
    by_cases hroom : room = idc
    · subst hroom
      rw [AList.lookup_insert] at hlook
      rw [← Option.some.inj hlook]
      exact (h.each room old hold).sublist (choosePeersByMap_sublist selfId lock _ old want _ _)
    · rw [AList.lookup_insert_ne hroom] at hlook
      exact h.each room peerVec hlook

theorem listsApart_visit (selfId : ByteString) (lock : PeerRef → Option PeerInfo)
    (ownIdc : ByteString) (numWant : ℤ) (draws : VisitDraws) (lists : IdcToSingleVector)
    (seed : Bool) (h : ListsApart lists) :
    ListsApart (visitIdcToPeers selfId ownIdc lock numWant draws lists seed).lists :=
  visitIdcToPeers_invariant selfId lock (fun s : VisitState => ListsApart s.lists) ownIdc numWant
    draws lists seed (listsApart_scanIdc selfId lock draws.start) h

section Local

variable (conf : TrackerConf) (env : UpdateEnv) (input : PeerInfo) (info : SingleInfoHashInfo)

theorem localOk_new (now : UInt64) : LocalOk (SingleInfoHashInfo.new now) where
  refs := refsOk_new now
  stored key ref h := by simp [SingleInfoHashInfo.new] at h
  peersFiled idc ref h := by simp [SingleInfoHashInfo.new, filed] at h
  seedsFiled idc ref h := by simp [SingleInfoHashInfo.new, filed] at h
  apart := listsApart_empty

/-- The fields the invariant reads. -/
theorem localOk_congr (info' : SingleInfoHashInfo) (h : LocalOk info)
    (hpeers : info'.peers = info.peers) (hnext : info'.nextRef = info.nextRef)
    (hmap : ∀ key ref, info'.peerMap.lookup key = some ref → info.peerMap.lookup key = some ref)
    (hlists : filed info'.idcToPeerVector ⊆ filed info.idcToPeerVector)
    (hseeds : filed info'.idcToSeedVector ⊆ filed info.idcToSeedVector)
    (hapart : ListsApart info'.idcToPeerVector) : LocalOk info' where
  refs := by
    refine ⟨?_, fun k k' r hk hk' => h.refs.unique k k' r (hmap k r hk) (hmap k' r hk')⟩
    intro k r hk
    rw [hnext]
    exact h.refs.allocated k r (hmap k r hk)
  stored key ref hk hinit := by
    rw [hpeers] at hinit ⊢
    exact h.stored key ref (hmap key ref hk) hinit
  peersFiled idc ref hmem := by
    rw [hnext, hpeers]
    exact h.peersFiled idc ref (hlists hmem)
  seedsFiled idc ref hmem := by
    rw [hnext, hpeers]
    exact h.seedsFiled idc ref (hseeds hmem)
  apart := hapart

theorem localOk_erasePeer (h : LocalOk info) (ref : PeerRef) :
    LocalOk (info.erasePeer input ref) :=
  localOk_congr info _ h rfl rfl (lookup_erasePeer info input ref) (List.Subset.refl _)
    (List.Subset.refl _) h.apart

theorem localOk_insertPeer (h : LocalOk info) (key : ByteString) :
    LocalOk (info.insertPeer key) := by
  have hkept : ∀ ref, ref < info.nextRef →
      (info.insertPeer key).peers ref = info.peers ref := by
    intro ref hlt
    exact Function.update_of_ne (Nat.ne_of_lt hlt) _ _
  refine ⟨h.refs.insertPeer info key, ?_, ?_, ?_, h.apart⟩
  · intro k ref hk hinit
    by_cases hkey : k = key
    · subst hkey
      rw [SingleInfoHashInfo.insertPeer, AList.lookup_insert] at hk
      rw [← Option.some.inj hk] at hinit
      simp [SingleInfoHashInfo.insertPeer, PeerInfo.initialized] at hinit
    · rw [SingleInfoHashInfo.insertPeer, AList.lookup_insert_ne hkey] at hk
      rw [hkept ref (h.refs.allocated k ref hk)] at hinit ⊢
      exact h.stored k ref hk hinit
  · intro idc ref hmem
    obtain ⟨hlt, hinit⟩ := h.peersFiled idc ref hmem
    rw [hkept ref hlt]
    exact ⟨Nat.lt_succ_of_lt hlt, hinit⟩
  · intro idc ref hmem
    obtain ⟨hlt, hinit⟩ := h.seedsFiled idc ref hmem
    rw [hkept ref hlt]
    exact ⟨Nat.lt_succ_of_lt hlt, hinit⟩

/-- The thrift fields and keys of the peers after an accepted announce. -/
theorem acceptPeer_peers (ref r : PeerRef) (new : Bool) :
    ∃ flag, (acceptPeer conf env input ref new info).peers r =
      (if r = ref then (info.peers ref).updateInfo input env.updateNow
        else info.peers r).setIsSetRemote flag := by
  rw [acceptPeer, publishPeer_info]
  by_cases hr : r = ref
  · subst hr
    split
    · exact ⟨true, by simp [SingleInfoHashInfo.setPeer, PeerInfo.setIsSetRemote]⟩
    · exact ⟨_, by simp [PeerInfo.setIsSetRemote]; rfl⟩
  · split
    · exact ⟨_, by simp [SingleInfoHashInfo.setPeer, PeerInfo.setIsSetRemote, hr]; rfl⟩
    · exact ⟨_, by simp [PeerInfo.setIsSetRemote, hr]; rfl⟩

theorem acceptPeer_peers_other (ref r : PeerRef) (new : Bool) (hne : r ≠ ref) :
    ∃ flag, (acceptPeer conf env input ref new info).peers r =
      (info.peers r).setIsSetRemote flag := by
  obtain ⟨flag, hpeer⟩ := acceptPeer_peers conf env input info ref r new
  rw [if_neg hne] at hpeer
  exact ⟨flag, hpeer⟩

/-- An accepted announce stores its peer under its key. -/
theorem acceptPeer_stored (hkeyed : input.Keyed) (ref : PeerRef) (new : Bool) :
    ((acceptPeer conf env input ref new info).peers ref).Keyed ∧
      ((acceptPeer conf env input ref new info).peers ref).base64PeerId = input.base64PeerId := by
  obtain ⟨flag, hpeer⟩ := acceptPeer_peers conf env input info ref ref new
  rw [if_pos rfl] at hpeer
  have hstored := PeerInfo.keyed_updateInfo (info.peers ref) input env.updateNow hkeyed
  rw [hpeer]
  refine ⟨⟨hstored.infoHash, hstored.peerId, hstored.infoHashKey, hstored.peerIdKey⟩, ?_⟩
  show ((info.peers ref).updateInfo input env.updateNow).base64PeerId = input.base64PeerId
  rw [hstored.peerIdKey, PeerInfo.getPeerId_updateInfo _ input _ hkeyed, hkeyed.peerIdKey]

theorem acceptPeer_initialized (hkeyed : input.Keyed) (ref r : PeerRef) (new : Bool)
    (hr : r = ref ∨ (info.peers r).initialized = true) :
    ((acceptPeer conf env input ref new info).peers r).initialized = true := by
  by_cases heq : r = ref
  · rw [heq]
    exact PeerInfo.keyed_initialized _ (acceptPeer_stored conf env input info hkeyed ref new).1
  · obtain ⟨flag, hpeer⟩ := acceptPeer_peers_other conf env input info ref r new heq
    rw [hpeer]
    exact hr.resolve_left heq

/-- A new peer is in no list yet. -/
theorem localOk_acceptPeer (h : LocalOk info) (hkeyed : input.Keyed) (ref : PeerRef) (new : Bool)
    (hsome : info.peerMap.lookup input.base64PeerId = some ref)
    (hfresh : new = true → ∀ room, (room, ref) ∉ filed info.idcToPeerVector) :
    LocalOk (acceptPeer conf env input ref new info) := by
  have hinit := fun r => acceptPeer_initialized conf env input info hkeyed ref r new
  have hallocated := h.refs.allocated _ ref hsome
  refine ⟨h.refs.acceptPeer info conf env input ref new, ?_, ?_, ?_, ?_⟩
  · intro key r hk hr
    rw [acceptPeer_peerMap] at hk
    by_cases heq : r = ref
    · rw [heq] at hk ⊢
      rw [h.refs.unique key _ ref hk hsome]
      exact acceptPeer_stored conf env input info hkeyed ref new
    · obtain ⟨flag, hpeer⟩ := acceptPeer_peers_other conf env input info ref r new heq
      rw [hpeer] at hr ⊢
      obtain ⟨hold, hkey⟩ := h.stored key r hk hr
      exact ⟨⟨hold.infoHash, hold.peerId, hold.infoHashKey, hold.peerIdKey⟩, hkey⟩
  · intro room r hmem
    rw [acceptPeer_nextRef]
    rcases filed_acceptPeer conf env input ref new info room r hmem with heq | hold
    · exact ⟨heq ▸ hallocated, hinit r (Or.inl heq)⟩
    · exact ⟨(h.peersFiled room r hold).1, hinit r (Or.inr (h.peersFiled room r hold).2)⟩
  · intro room r hmem
    rw [acceptPeer_nextRef]
    rcases seedsFiled_acceptPeer conf env input ref new info room r hmem with heq | hold
    · exact ⟨heq ▸ hallocated, hinit r (Or.inl heq)⟩
    · exact ⟨(h.seedsFiled room r hold).1, hinit r (Or.inr (h.seedsFiled room r hold).2)⟩
  · rw [acceptPeer_idcToPeerVector]
    split
    · rename_i hnew
      exact listsApart_pushBack h.apart input.getIdc ref (hfresh hnew)
    · exact h.apart

theorem localOk_update (h : LocalOk info) (hkeyed : input.Keyed) :
    LocalOk (updatePeerEntry conf env input info).info := by
  have hcase := updatePeerEntry_cases conf env input info
  generalize (updatePeerEntry conf env input info).ret = ret at hcase
  generalize (updatePeerEntry conf env input info).info = info' at hcase ⊢
  cases hcase with
  | unknownStop hstop hnone => exact h
  | knownStop ref hstop hsome => exact localOk_erasePeer input info h ref
  | newRefused hstop hnone hrefuse => exact localOk_insertPeer info h _
  | knownRefused ref hstop hsome hrefuse => exact h
  | newAccepted hstop hnone haccept =>
    apply localOk_acceptPeer conf env input _ (localOk_insertPeer info h _) hkeyed info.nextRef true
      (AList.lookup_insert _)
    intro _ room hmem
    exact absurd (h.peersFiled room info.nextRef hmem).1 (Nat.lt_irrefl info.nextRef)
  | knownAccepted ref hstop hsome haccept =>
    exact localOk_acceptPeer conf env input info h hkeyed ref false hsome (by simp)

/-- Choosing peers only erases references from the lists. -/
theorem localOk_choose (h : LocalOk info) (draws : ChooseDraws) (haveSeed : Bool) :
    LocalOk (chooseLocalSeed info.lockPeer input draws
      (chooseLocalPeers info.lockPeer input draws haveSeed info)).info := by
  have hpeers := visitIdcToPeers_subset input.base64PeerId info.lockPeer input.getIdc
    input.getWantNumber.toInt draws.peerVisit info.idcToPeerVector haveSeed
  have hapart := listsApart_visit input.base64PeerId info.lockPeer input.getIdc
    input.getWantNumber.toInt draws.peerVisit info.idcToPeerVector haveSeed h.apart
  unfold chooseLocalSeed
  split
  · exact localOk_congr info _ h rfl rfl (fun _ _ hk => hk) hpeers
      (visitIdcToPeers_subset _ _ _ _ _ _ _) hapart
  · exact localOk_congr info _ h rfl rfl (fun _ _ hk => hk) hpeers (List.Subset.refl _) hapart

end Local

section Remote

theorem remoteOk_new (now : UInt64) : RemoteOk (SingleInfoHashInfo.new now) where
  allocated ref h := by simp [SingleInfoHashInfo.new] at h
  nodup := List.nodup_nil
  own ref h := by simp [SingleInfoHashInfo.new] at h
  seeds ref h := by simp [SingleInfoHashInfo.new] at h

/-- Loading one decodable value appends its record under the raw identifier. -/
theorem loadRemotePeer_value (conf : TrackerConf) (info : SingleInfoHashInfo) (p : PeerInfo)
    (hdecode : conf.codec.parse (conf.codec.serialize p.thriftPeer) = some p.thriftPeer) :
    ∃ q : PeerInfo, q.thriftPeer = p.thriftPeer ∧
      loadRemotePeer conf.codec info (publishedValue conf p) =
        { info with
          peers := Function.update info.peers info.nextRef q
          nextRef := info.nextRef + 1
          peerMap := info.peerMap.insert p.getPeerId info.nextRef
          peerVec := info.peerVec ++ [info.nextRef]
          peerSeedVec :=
            if q.isASeed then info.peerSeedVec ++ [info.nextRef] else info.peerSeedVec } := by
  have hconstruct := construct_serialized conf.codec p hdecode
  refine ⟨{ thriftPeer := p.thriftPeer, base64InfoHash := base64Text p.getInfoHash,
            base64PeerId := p.getPeerId }, rfl, ?_⟩
  unfold loadRemotePeer
  rw [cString_publishedValue, publishedValue, base64Decode_text]
  simp only [hconstruct]

/-- What a load puts into the lists of the entry. -/
theorem mem_loaded (info : SingleInfoHashInfo) (h : RemoteOk info) (q : PeerInfo) (ref : PeerRef)
    (href : ref ∈ info.peerVec ++ [info.nextRef] ∨
      ref ∈ if q.isASeed then info.peerSeedVec ++ [info.nextRef] else info.peerSeedVec) :
    ref = info.nextRef ∨ ref ≠ info.nextRef ∧ (ref ∈ info.peerVec ∨ ref ∈ info.peerSeedVec) := by
  have hcase : ref = info.nextRef ∨ (ref ∈ info.peerVec ∨ ref ∈ info.peerSeedVec) := by
    rcases href with hvec | hseed
    · rcases List.mem_append.mp hvec with hold | hnew
      · exact Or.inr (Or.inl hold)
      · exact Or.inl (List.mem_singleton.mp hnew)
    · split at hseed
      · rcases List.mem_append.mp hseed with hold | hnew
        · exact Or.inr (Or.inr hold)
        · exact Or.inl (List.mem_singleton.mp hnew)
      · exact Or.inr (Or.inr hseed)
  rcases hcase with heq | hold
  · exact Or.inl heq
  · exact Or.inr ⟨Nat.ne_of_lt (h.allocated ref hold), hold⟩

/-- A value of a new peer identifier keeps the invariant. -/
theorem remoteOk_load (conf : TrackerConf) (info : SingleInfoHashInfo) (p : PeerInfo)
    (hdecode : conf.codec.parse (conf.codec.serialize p.thriftPeer) = some p.thriftPeer)
    (h : RemoteOk info)
    (hfresh : ∀ ref, ref ∈ info.peerVec ∨ ref ∈ info.peerSeedVec →
      (info.peers ref).getPeerId ≠ p.getPeerId) :
    RemoteOk (loadRemotePeer conf.codec info (publishedValue conf p)) ∧
      ∀ ref, ref ∈ (loadRemotePeer conf.codec info (publishedValue conf p)).peerVec ∨
          ref ∈ (loadRemotePeer conf.codec info (publishedValue conf p)).peerSeedVec →
        ((loadRemotePeer conf.codec info (publishedValue conf p)).peers ref).getPeerId =
            p.getPeerId ∨
          (ref ∈ info.peerVec ∨ ref ∈ info.peerSeedVec) ∧
            ((loadRemotePeer conf.codec info (publishedValue conf p)).peers ref).getPeerId =
              (info.peers ref).getPeerId := by
  obtain ⟨q, hq, hload⟩ := loadRemotePeer_value conf info p hdecode
  have hqid : q.getPeerId = p.getPeerId := by
    unfold PeerInfo.getPeerId
    rw [hq]
  rw [hload]
  have hmem := mem_loaded info h q
  constructor
  · refine ⟨?_, ?_, ?_, ?_⟩
    · intro ref href
      rcases hmem ref href with rfl | ⟨_, hold⟩
      · exact Nat.lt_succ_self _
      · exact Nat.lt_succ_of_lt (h.allocated ref hold)
    · rw [← List.concat_eq_append]
      apply h.nodup.concat
      intro hin
      exact Nat.lt_irrefl _ (h.allocated _ (Or.inl hin))
    · intro ref href
      rcases hmem ref href with rfl | ⟨hne, hold⟩
      · have hid : (Function.update info.peers info.nextRef q info.nextRef).getPeerId =
            p.getPeerId := by
          rw [Function.update_self, hqid]
        simp only
        rw [hid, AList.lookup_insert]
      · have hid : (Function.update info.peers info.nextRef q ref).getPeerId =
            (info.peers ref).getPeerId := by
          rw [Function.update_of_ne hne]
        simp only
        rw [hid, AList.lookup_insert_ne (hfresh ref hold)]
        exact h.own ref hold
    · intro ref href
      by_cases heq : ref = info.nextRef
      · subst heq
        simp only [Function.update_self]
        by_contra hnot
        rw [if_neg hnot] at href
        exact Nat.lt_irrefl _ (h.allocated _ (Or.inr href))
      · simp only [Function.update_of_ne heq]
        apply h.seeds
        split at href
        · rcases List.mem_append.mp href with hold | hnew
          · exact hold
          · exact absurd (List.mem_singleton.mp hnew) heq
        · exact href
  · intro ref href
    rcases hmem ref href with rfl | ⟨hne, hold⟩
    · exact Or.inl (by simp only [Function.update_self, hqid])
    · exact Or.inr ⟨hold, by simp only [Function.update_of_ne hne]⟩

/-- Loading the values of peers with distinct identifiers, one after the other. -/
theorem remoteOk_loadAll (conf : TrackerConf) (peers : List PeerInfo) (info : SingleInfoHashInfo)
    (hdecode : ∀ p ∈ peers, conf.codec.parse (conf.codec.serialize p.thriftPeer) =
      some p.thriftPeer)
    (hdistinct : (peers.map PeerInfo.getPeerId).Nodup) (h : RemoteOk info)
    (hfresh : ∀ p ∈ peers, ∀ ref, ref ∈ info.peerVec ∨ ref ∈ info.peerSeedVec →
      (info.peers ref).getPeerId ≠ p.getPeerId) :
    RemoteOk ((peers.map (publishedValue conf)).foldl (loadRemotePeer conf.codec) info) := by
  induction peers generalizing info with
  | nil => exact h
  | cons p rest ih =>
    obtain ⟨hnot, hrest⟩ := List.nodup_cons.mp hdistinct
    obtain ⟨hnext, hids⟩ := remoteOk_load conf info p (hdecode p (List.mem_cons_self ..)) h
      (hfresh p (List.mem_cons_self ..))
    refine ih _ (fun q hq => hdecode q (List.mem_cons_of_mem p hq)) hrest hnext ?_
    intro q hq ref href
    rcases hids ref href with hown | ⟨hold, hsame⟩
    · rw [hown]
      intro heq
      exact hnot (heq ▸ List.mem_map.mpr ⟨q, hq, rfl⟩)
    · rw [hsame]
      exact hfresh q (List.mem_cons_of_mem p hq) ref hold

/-- The remote scans only erase references from their lists. -/
theorem remoteOk_congr (info info' : SingleInfoHashInfo) (h : RemoteOk info)
    (hpeers : info'.peers = info.peers) (hnext : info'.nextRef = info.nextRef)
    (hmap : info'.peerMap = info.peerMap) (hvec : info'.peerVec.Sublist info.peerVec)
    (hseeds : info'.peerSeedVec.Sublist info.peerSeedVec) : RemoteOk info' := by
  have hsub : ∀ ref, ref ∈ info'.peerVec ∨ ref ∈ info'.peerSeedVec →
      ref ∈ info.peerVec ∨ ref ∈ info.peerSeedVec := by
    intro ref href
    exact href.imp (fun hm => hvec.subset hm) (fun hm => hseeds.subset hm)
  refine ⟨?_, h.nodup.sublist hvec, ?_, ?_⟩
  · intro ref href
    rw [hnext]
    exact h.allocated ref (hsub ref href)
  · intro ref href
    rw [hpeers, hmap]
    exact h.own ref (hsub ref href)
  · intro ref href
    rw [hpeers]
    exact h.seeds ref (hseeds.subset href)

theorem chooseRemotePeers_info (lock : PeerRef → Option PeerInfo) (input : PeerInfo)
    (draws : ChooseDraws) (chosen : Choice) (h : RemoteOk chosen.info) :
    RemoteOk (chooseRemotePeers lock input draws chosen).info := by
  unfold chooseRemotePeers
  split
  · exact remoteOk_congr chosen.info _ h rfl rfl rfl (choosePeersByMap_sublist _ _ _ _ _ _ _)
      (List.Sublist.refl _)
  · exact h

theorem chooseRemoteSeed_info (lock : PeerRef → Option PeerInfo) (input : PeerInfo)
    (draws : ChooseDraws) (chosen : Choice) (h : RemoteOk chosen.info) :
    RemoteOk (chooseRemoteSeed lock input draws chosen).info := by
  unfold chooseRemoteSeed
  split
  · exact remoteOk_congr chosen.info _ h rfl rfl rfl (List.Sublist.refl _)
      (choosePeersByMap_sublist _ _ _ _ _ _ _)
  · exact h

end Remote

def LocalsOk (t : Tracker) : Prop := Dict.Holds (fun _ => LocalOk) t.localInfoHashMap

def RemotesOk (t : Tracker) : Prop := Dict.Holds (fun _ => RemoteOk) t.remoteInfoHashMap

theorem holds_filter {V : Type} (P : ByteString → V → Prop) (m : Dict ByteString V)
    (keep : ByteString → V → Bool) (h : Dict.Holds P m) : Dict.Holds P (Dict.filter keep m) := by
  intro k v hk
  rw [Dict.lookup_filter] at hk
  exact h k v (Option.filter_eq_some_iff.mp hk).1

theorem localsOk_update (conf : TrackerConf) (env : UpdateEnv) (input : PeerInfo) (t : Tracker)
    (hkeyed : input.Keyed) (h : LocalsOk t) : LocalsOk (updatePeer conf env input t).2 := by
  apply (Dict.holds_insert _ _ _ _ (fun k v _ => h k v)).mpr
  apply localOk_update conf env input _ _ hkeyed
  exact preHandle_holds (fun _ => LocalOk) input env.now _ (localOk_new _) (fun info hok =>
    localOk_congr info _ hok rfl rfl (fun _ _ hk => hk) (List.Subset.refl _) (List.Subset.refl _)
      hok.apart) h

theorem localsOk_chooseFromLocal (input : PeerInfo) (draws : ChooseDraws) (haveSeed : Bool)
    (t : Tracker) (h : LocalsOk t) : LocalsOk (chooseFromLocal input draws haveSeed t).tracker := by
  unfold chooseFromLocal
  cases hlook : t.localInfoHashMap.lookup input.base64InfoHash with
  | none => exact h
  | some info =>
    apply (Dict.holds_insert _ _ _ _ (fun k v _ => h k v)).mpr
    exact localOk_choose input info (h _ info hlook) draws haveSeed

theorem localsOk_next (conf : TrackerConf) (t : Tracker) (e : RunEvent) (h : LocalsOk t) :
    LocalsOk (runNext conf t e) := by
  cases e with
  | update input env => exact localsOk_update conf env input.val t input.property.1 h
  | choose input draws haveSeed =>
    unfold LocalsOk runNext
    simp only
    rw [choosePeers_localInfoHashMap]
    exact localsOk_chooseFromLocal input.val draws haveSeed t h
  | control infohash type now =>
    exact control_holds (fun _ => LocalOk) infohash type now t (fun info stop hok =>
      localOk_congr info _ hok rfl rfl (fun _ _ hk => hk) (List.Subset.refl _)
        (List.Subset.refl _) hok.apart) h
  | collect now expireInterval =>
    simp only [runNext, periodSchedule]
    split
    · exact h
    · exact holds_filter _ _ _ h
  | synchronize infohash values now => exact h

theorem chooseFromLocal_remote (input : PeerInfo) (draws : ChooseDraws) (haveSeed : Bool)
    (t : Tracker) : (chooseFromLocal input draws haveSeed t).tracker.remoteInfoHashMap =
      t.remoteInfoHashMap := by
  unfold chooseFromLocal
  split <;> rfl

theorem remotesOk_choose (input : PeerInfo) (draws : ChooseDraws) (haveSeed : Bool) (t : Tracker)
    (h : RemotesOk t) : RemotesOk (choosePeers input draws haveSeed t).tracker := by
  have hlocal := chooseFromLocal_remote input draws haveSeed t
  unfold RemotesOk at h ⊢
  simp only [choosePeers, chooseFromRemote]
  split
  · rw [hlocal]
    exact h
  · rw [hlocal]
    cases hlook : t.remoteInfoHashMap.lookup input.base64InfoHash with
    | none => exact h
    | some info =>
      apply (Dict.holds_insert _ _ _ _ (fun k v _ => h k v)).mpr
      exact chooseRemoteSeed_info _ _ _ _ (chooseRemotePeers_info _ _ _ _ (h _ info hlook))

/-- The values of a hash are loaded into a fresh entry. -/
theorem remotesOk_synchronize (conf : TrackerConf) (infohash : ByteString)
    (values : PublishedValues infohash) (now : UInt64) (t : Tracker)
    (hdecode : Decodes conf.codec (.synchronize infohash values now)) (h : RemotesOk t) :
    RemotesOk (runNext conf t (.synchronize infohash values now)) := by
  apply (Dict.holds_insert _ _ _ _ (fun k v _ => h k v)).mpr
  have hids : ((values.peers.map Subtype.val).map PeerInfo.getPeerId).Nodup := by
    rw [List.map_map]
    refine List.Nodup.of_map base64Text ?_
    have hkeys := values.distinct
    rw [List.map_map]
    convert hkeys using 1
    apply List.map_congr_left
    intro p _
    exact p.property.1.peerIdKey.symm
  have hload := remoteOk_loadAll conf (values.peers.map Subtype.val) (SingleInfoHashInfo.new now)
    (by
      intro p hp
      obtain ⟨announce, hmem, rfl⟩ := List.mem_map.mp hp
      exact hdecode announce hmem) hids (remoteOk_new now) (by
      intro p _ ref href
      simp [SingleInfoHashInfo.new] at href)
  rw [List.map_map] at hload
  exact hload

theorem remotesOk_next (conf : TrackerConf) (t : Tracker) (e : RunEvent)
    (hdecode : Decodes conf.codec e) (h : RemotesOk t) : RemotesOk (runNext conf t e) := by
  cases e with
  | update input env => exact h
  | choose input draws haveSeed => exact remotesOk_choose input.val draws haveSeed t h
  | control infohash type now =>
    simp only [runNext, controlByInfohash]
    split
    · exact h
    · split <;> exact h
  | collect now expireInterval =>
    simp only [runNext, periodSchedule]
    split
    · exact h
    · exact holds_filter _ _ _ h
  | synchronize infohash values now =>
    exact remotesOk_synchronize conf infohash values now t hdecode h

/-- The local entries of every reached state are in order. -/
theorem localsOk_final (conf : TrackerConf) (events : List RunEvent) :
    LocalsOk (final (runNext conf) Tracker.empty events) := by
  have hempty : LocalsOk Tracker.empty := Dict.holds_empty _
  exact final_invariant (runNext conf) LocalsOk (localsOk_next conf) _ events hempty

/-- So are the remote ones, when the record library reads back what is delivered. -/
theorem remotesOk_final (conf : TrackerConf) (events : List RunEvent)
    (hdecode : ∀ e ∈ events, Decodes conf.codec e) :
    RemotesOk (final (runNext conf) Tracker.empty events) := by
  have hempty : RemotesOk Tracker.empty := Dict.holds_empty _
  apply final_guarded (runNext conf) (fun _ e => Decodes conf.codec e) RemotesOk
    (fun t e h hd => remotesOk_next conf t e hd h) _ events hempty
  exact guarded_of_forall (runNext conf) _ _ events hdecode

end Gingko.TrackerRuns
