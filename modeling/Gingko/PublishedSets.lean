import Gingko.RedisHashes
import Gingko.RemoteCounts

/-!
The fields a tracker has in redis against the flags of its registered peers.
An announce either sends nothing and leaves the flags as they are, or sends the
write of a peer it flags, or sends the deletion of a flagged peer it drops. Redis
refuses both for a peer without an identifier. So redis holds the flagged peers of
every infohash as long as no such peer is published.
-/
namespace Gingko.PublishedSets

open KeyedMaps Base64Codec PeerRecords RandomDraws PeerUpdates TrackerState RemoteCounts
  CommandTexts RedisHashes GuardedRuns

/-- The keys of the registered peers that are flagged as published. -/
def flagged (info : SingleInfoHashInfo) : Set ByteString :=
  {key | ∃ ref, info.peerMap.lookup key = some ref ∧ (info.peers ref).isSetRemote = true}

/-- The update publishes the announced peer: it goes on, is not refused, and the peer is
published already, is a seed, or is seeding and wins the lottery. -/
def Publishes (env : UpdateEnv) (input : PeerInfo) (info : SingleInfoHashInfo) : Prop :=
  input.checkToStop = false ∧ (info.needStop && !input.isASeed) = false ∧
    (storedFlag input info || input.isASeed ||
      (input.isSeeding && ifSetPeerRemote info.remotePeerCount env.lottery)) = true

instance (env : UpdateEnv) (input : PeerInfo) (info : SingleInfoHashInfo) :
    Decidable (Publishes env input info) := inferInstanceAs (Decidable (_ ∧ _ ∧ _))

/-- What one announce sends, and the flagged keys it leaves. -/
inductive Effect (conf : TrackerConf) (env : UpdateEnv) (input : PeerInfo)
    (info : SingleInfoHashInfo) : List RedisCommand → Set ByteString → Prop
  | silent (hnot : ¬ Publishes env input info) : Effect conf env input info [] (flagged info)
  | published (hpublishes : Publishes env input info) :
      Effect conf env input info (setPeerRemote conf input).2
        (insert input.base64PeerId (flagged info))
  | withdrawn (hnot : ¬ Publishes env input info) (hflag : input.base64PeerId ∈ flagged info) :
      Effect conf env input info (deletePeerRemote input).2
        (flagged info \ {input.base64PeerId})

theorem Effect.flagged_eq {conf : TrackerConf} {env : UpdateEnv} {input : PeerInfo}
    {info : SingleInfoHashInfo} {commands : List RedisCommand} {after : Set ByteString}
    (h : Effect conf env input info commands after) (hpublishes : Publishes env input info) :
    after = insert input.base64PeerId (flagged info) := by
  cases h with
  | silent hnot => exact absurd hpublishes hnot
  | published _ => rfl
  | withdrawn hnot hflag => exact absurd hpublishes hnot

section Entry

variable (conf : TrackerConf) (env : UpdateEnv) (input : PeerInfo) (info : SingleInfoHashInfo)

theorem flagged_insertPeer (h : RefsOk info) (key : ByteString)
    (hnone : info.peerMap.lookup key = none) : flagged (info.insertPeer key) = flagged info := by
  ext k
  simp only [flagged, Set.mem_ofPred_eq, SingleInfoHashInfo.insertPeer]
  by_cases hk : k = key
  · subst hk
    simp [hnone]
  · rw [AList.lookup_insert_ne hk]
    apply exists_congr
    intro ref
    apply and_congr_right
    intro hlook
    rw [Function.update_of_ne (Nat.ne_of_lt (h.allocated k ref hlook))]

theorem flagged_erasePeer (ref : PeerRef) :
    flagged (info.erasePeer input ref) = flagged info \ {input.base64PeerId} := by
  ext k
  simp only [flagged, Set.mem_ofPred_eq, SingleInfoHashInfo.erasePeer, Set.mem_sdiff,
    Set.mem_singleton_iff]
  by_cases hk : k = input.base64PeerId
  · subst hk
    simp
  · rw [AList.lookup_erase_ne hk]
    simp [hk]

theorem flagged_acceptPeer (h : RefsOk info) (ref : PeerRef) (new : Bool)
    (hsome : info.peerMap.lookup input.base64PeerId = some ref) :
    flagged (acceptPeer conf env input ref new info) =
      if wantsPublish input env.lottery ref info then insert input.base64PeerId (flagged info)
      else flagged info := by
  have hflag : ∀ k r, info.peerMap.lookup k = some r →
      (((acceptPeer conf env input ref new info).peers r).isSetRemote = true ↔
        k = input.base64PeerId ∧ wantsPublish input env.lottery ref info = true ∨
          (info.peers r).isSetRemote = true) := by
    intro k r hlook
    rw [isSetRemote_acceptPeer]
    by_cases hr : r = ref
    · subst hr
      have hk : k = input.base64PeerId := h.unique k _ r hlook hsome
      simp [hk, or_comm]
    · have hk : k ≠ input.base64PeerId := by
        intro heq
        obtain rfl := heq
        exact hr (Option.some.inj (hlook.symm.trans hsome))
      simp [hr, hk]
  ext k
  have hmem : k ∈ flagged (acceptPeer conf env input ref new info) ↔
      k = input.base64PeerId ∧ wantsPublish input env.lottery ref info = true ∨
        k ∈ flagged info := by
    simp only [flagged, Set.mem_ofPred_eq, acceptPeer_peerMap]
    constructor
    · intro hboth
      obtain ⟨r, hlook, hset⟩ := hboth
      exact ((hflag k r hlook).mp hset).imp id (fun hold => ⟨r, hlook, hold⟩)
    · intro hcase
      obtain ⟨hk, hwant⟩ | ⟨r, hlook, hset⟩ := hcase
      · have hlook : info.peerMap.lookup k = some ref := by rw [hk, hsome]
        exact ⟨ref, hlook, (hflag k ref hlook).mpr (Or.inl ⟨hk, hwant⟩)⟩
      · exact ⟨r, hlook, (hflag k r hlook).mpr (Or.inr hset)⟩
  rw [hmem]
  by_cases hwant : wantsPublish input env.lottery ref info = true <;> simp [hwant]

/-- An accepted announce publishes exactly when the peer is to be published. -/
theorem effect_accept (before : SingleInfoHashInfo) (h : RefsOk info) (ref : PeerRef) (new : Bool)
    (hsome : info.peerMap.lookup input.base64PeerId = some ref)
    (hbefore : flagged info = flagged before)
    (hwant : wantsPublish input env.lottery ref info = true ↔ Publishes env input before) :
    Effect conf env input before
      (publishPeer conf input env.lottery ref new
        (fillPeerInfo input env.updateNow ref new info)).2
      (flagged (acceptPeer conf env input ref new info)) := by
  rw [publishPeer_commands, wantsPublish_fillPeerInfo,
    flagged_acceptPeer conf env input info h ref new hsome, hbefore]
  by_cases hpublishes : Publishes env input before
  · rw [if_pos (hwant.mpr hpublishes), if_pos (hwant.mpr hpublishes)]
    exact .published hpublishes
  · rw [if_neg (hwant.not.mpr hpublishes), if_neg (hwant.not.mpr hpublishes)]
    exact .silent hpublishes

/-- A stopped peer that was not flagged is dropped in silence. -/
theorem effect_stop (ref : PeerRef) (hstop : input.checkToStop = true)
    (hsome : info.peerMap.lookup input.base64PeerId = some ref) :
    Effect conf env input info
      (if (info.peers ref).isSetRemote then (deletePeerRemote input).2 else [])
      (flagged (info.erasePeer input ref)) := by
  have hstopped : ¬ Publishes env input info := by simp [Publishes, hstop]
  rw [flagged_erasePeer]
  by_cases hflag : (info.peers ref).isSetRemote = true
  · rw [if_pos hflag]
    exact .withdrawn hstopped ⟨ref, hsome, hflag⟩
  · have hnot : input.base64PeerId ∉ flagged info := by
      intro hboth
      obtain ⟨r, hlook, hset⟩ := hboth
      rw [hsome] at hlook
      exact hflag (Option.some.inj hlook ▸ hset)
    rw [if_neg hflag, Set.sdiff_singleton_eq_self hnot]
    exact .silent hstopped

theorem updatePeerEntry_effect (h : RefsOk info) :
    Effect conf env input info (updatePeerEntry conf env input info).commands
      (flagged (updatePeerEntry conf env input info).info) := by
  unfold updatePeerEntry preHandlePeerInfo
  cases hlook : info.peerMap.lookup input.base64PeerId with
  | none =>
    have hinsert := flagged_insertPeer info h _ hlook
    cases hstop : input.checkToStop with
    | true => exact .silent (by simp [Publishes, hstop])
    | false =>
      simp only [Bool.false_eq_true, if_false]
      split
      · rename_i hrefused
        rw [hinsert]
        refine .silent fun hpublishes => ?_
        exact absurd (hrefused.symm.trans hpublishes.2.1) (by decide)
      · rename_i haccepted
        refine effect_accept conf env input _ info (h.insertPeer info _) info.nextRef true
          (AList.lookup_insert _) hinsert ?_
        have haccept := Bool.eq_false_iff.mpr haccepted
        simp only [SingleInfoHashInfo.insertPeer] at haccept
        simp [Publishes, hstop, haccept, storedFlag, hlook, wantsPublish,
          SingleInfoHashInfo.insertPeer]
  | some ref =>
    cases hstop : input.checkToStop with
    | true => exact effect_stop conf env input info ref hstop hlook
    | false =>
      simp only [Bool.false_eq_true, if_false]
      split
      · rename_i hrefused
        refine .silent fun hpublishes => ?_
        exact absurd (hrefused.symm.trans hpublishes.2.1) (by decide)
      · rename_i haccepted
        refine effect_accept conf env input info info h ref false hlook rfl ?_
        have haccept := Bool.eq_false_iff.mpr haccepted
        simp [Publishes, hstop, haccept, storedFlag, hlook, wantsPublish]

/-- A refreshed entry has the flags of the old one, a fresh entry has none. -/
theorem flagged_preHandle (now : UInt64) (map : InfoHashMap) :
    flagged (preHandleInfoHashInfo input now map) =
      ((map.lookup input.base64InfoHash).map flagged).getD ∅ := by
  unfold preHandleInfoHashInfo
  cases map.lookup input.base64InfoHash with
  | none =>
    ext k
    simp [flagged, SingleInfoHashInfo.new]
  | some info => rfl

/-- The choice of peers rewrites lists only. -/
theorem flagged_handleEntry (henv : HandleEnv) (haveSeed : Bool) :
    flagged (handleEntry conf henv input haveSeed info) =
      flagged (updatePeerEntry conf henv.update input info).info := by
  obtain ⟨peerLists, seedLists, heq⟩ := handleEntry_lists conf henv input haveSeed info
  rw [heq]
  rfl

theorem refsOk_handleEntry (henv : HandleEnv) (haveSeed : Bool) (h : RefsOk info) :
    RefsOk (handleEntry conf henv input haveSeed info) := by
  obtain ⟨peerLists, seedLists, heq⟩ := handleEntry_lists conf henv input haveSeed info
  have hok := refsOk_update conf henv.update input info h
  rw [heq]
  exact ⟨hok.allocated, hok.unique⟩

end Entry

section Runs

/-- One announce of a client with the outcome of its clock readings and draws. -/
structure Announced where
  input : Announce
  env : HandleEnv

/-- The server passes an empty list and no seed for every request. -/
def announceStep (conf : TrackerConf) (t : Tracker) (a : Announced) : Tracker :=
  (handle conf a.env a.input.val [] false t).tracker

/-- The flagged peers of an infohash, none when it has no entry. -/
def remotePeers (t : Tracker) (base64InfoHash : ByteString) : Set ByteString :=
  ((t.localInfoHashMap.lookup base64InfoHash).map flagged).getD ∅

theorem choosePeers_commands (input : PeerInfo) (draws : ChooseDraws) (haveSeed : Bool)
    (t : Tracker) : (choosePeers input draws haveSeed t).tracker.commands = t.commands := by
  have hlocal : (chooseFromLocal input draws haveSeed t).tracker.commands = t.commands := by
    unfold chooseFromLocal
    split <;> rfl
  simp only [choosePeers, chooseFromRemote]
  split
  · exact hlocal
  · split <;> exact hlocal

theorem announceStep_commands (conf : TrackerConf) (t : Tracker) (a : Announced) :
    (announceStep conf t a).commands = t.commands ++
      (updatePeerEntry conf a.env.update a.input.val (preHandleInfoHashInfo a.input.val
        a.env.update.now t.localInfoHashMap)).commands := by
  have hupdate : (updatePeer conf a.env.update a.input.val t).2.commands = _ := rfl
  unfold announceStep handle
  simp only
  split
  · exact hupdate
  · split
    · exact (choosePeers_commands _ _ _ _).trans hupdate
    · exact hupdate

theorem remotePeers_announceStep (conf : TrackerConf) (t : Tracker) (a : Announced)
    (base64InfoHash : ByteString) :
    remotePeers (announceStep conf t a) base64InfoHash =
      if base64InfoHash = a.input.val.base64InfoHash then
        flagged (updatePeerEntry conf a.env.update a.input.val (preHandleInfoHashInfo
          a.input.val a.env.update.now t.localInfoHashMap)).info
      else remotePeers t base64InfoHash := by
  unfold remotePeers announceStep
  rw [handle_localInfoHashMap]
  split
  · next heq =>
    rw [heq, AList.lookup_insert, Option.map_some, Option.getD_some, flagged_handleEntry]
  · next hne => rw [AList.lookup_insert_ne hne]

section Redis

variable (split : ByteString → Option (List ByteString)) (redisNum : ℕ)

/-- The redis servers after all commands of the tracker, empty before the first. -/
def stored (t : Tracker) : RedisServers := pipelineAll split redisNum (fun _ => ∅) t.commands

/-- Redis and the flags agree on every infohash. -/
def SetsAgree (t : Tracker) : Prop := ∀ base64InfoHash,
  publishedFields redisNum (stored split redisNum t) base64InfoHash = remotePeers t base64InfoHash

/-- The references are in order, and redis has no field without a name. -/
structure FieldsNamed (t : Tracker) : Prop where
  refs : TrackerRefsOk t
  named : ∀ base64InfoHash,
    [] ∉ publishedFields redisNum (stored split redisNum t) base64InfoHash

end Redis

/-- The peer that an announce publishes has an identifier. -/
def PublishesNamed (t : Tracker) (a : Announced) : Prop :=
  Publishes a.env.update a.input.val (preHandleInfoHashInfo a.input.val a.env.update.now
    t.localInfoHashMap) → a.input.val.getPeerId ≠ []

theorem peerId_eq_nil (input : Announce) : input.1.base64PeerId = [] ↔ input.1.getPeerId = [] := by
  rw [input.2.1.peerIdKey, base64Text_eq_nil]

section Steps

variable (split : ByteString → Option (List ByteString)) (hsplit : SplitsAtSpaces split)
  (conf : TrackerConf) (hserialize : ∀ p, conf.codec.serialize p ≠ []) (redisNum : ℕ)

theorem stored_announceStep (t : Tracker) (a : Announced) :
    stored split redisNum (announceStep conf t a) =
      pipelineAll split redisNum (stored split redisNum t)
        (updatePeerEntry conf a.env.update a.input.val (preHandleInfoHashInfo a.input.val
          a.env.update.now t.localInfoHashMap)).commands := by
  unfold stored
  rw [announceStep_commands]
  exact List.foldl_append

variable {split conf redisNum}

include hsplit hserialize

/-- What redis holds of one infohash after the commands of one announce. -/
theorem publishedFields_effect (servers : RedisServers) (env : UpdateEnv) (input : Announce)
    (info : SingleInfoHashInfo) (commands : List RedisCommand) (after : Set ByteString)
    (heffect : Effect conf env input.1 info commands after)
    (hnamed : Publishes env input.1 info → input.1.getPeerId ≠ [])
    (hempty : [] ∉ publishedFields redisNum servers input.1.base64InfoHash)
    (hbefore : publishedFields redisNum servers input.1.base64InfoHash = flagged info)
    (base64InfoHash : ByteString) :
    publishedFields redisNum (pipelineAll split redisNum servers commands) base64InfoHash =
      if base64InfoHash = input.1.base64InfoHash then after
      else publishedFields redisNum servers base64InfoHash := by
  by_cases hhash : base64InfoHash = input.1.base64InfoHash
  · rw [if_pos hhash]
    cases heffect with
    | silent hnot => exact (congrArg _ hhash).trans hbefore
    | published hpublishes =>
      rw [publishedFields_setPeerRemote split redisNum servers base64InfoHash hsplit input conf
        hserialize, if_pos ⟨hhash, hnamed hpublishes⟩, hhash, hbefore]
    | withdrawn hnot hflag =>
      have hpeer : input.1.getPeerId ≠ [] := by
        intro hnil
        rw [← hbefore, (peerId_eq_nil input).mpr hnil] at hflag
        exact hempty hflag
      rw [publishedFields_deletePeerRemote split redisNum servers base64InfoHash hsplit input,
        if_pos ⟨hhash, hpeer⟩, hhash, hbefore]
  · rw [if_neg hhash]
    cases heffect with
    | silent hnot => rfl
    | published hpublishes =>
      rw [publishedFields_setPeerRemote split redisNum servers base64InfoHash hsplit input conf
        hserialize, if_neg (fun h => hhash h.1)]
    | withdrawn hnot hflag =>
      rw [publishedFields_deletePeerRemote split redisNum servers base64InfoHash hsplit input,
        if_neg (fun h => hhash h.1)]

theorem named_effect (servers : RedisServers) (env : UpdateEnv) (input : Announce)
    (info : SingleInfoHashInfo) (commands : List RedisCommand) (after : Set ByteString)
    (heffect : Effect conf env input.1 info commands after) (base64InfoHash : ByteString)
    (hnone : [] ∉ publishedFields redisNum servers base64InfoHash) :
    [] ∉ publishedFields redisNum (pipelineAll split redisNum servers commands)
      base64InfoHash := by
  cases heffect with
  | silent hnot => exact hnone
  | published hpublishes =>
    rw [publishedFields_setPeerRemote split redisNum servers base64InfoHash hsplit input conf
      hserialize]
    split
    · rename_i hpeer
      simp [hnone, (peerId_eq_nil input).not.mpr hpeer.2, eq_comm]
    · exact hnone
  | withdrawn hnot hflag =>
    rw [publishedFields_deletePeerRemote split redisNum servers base64InfoHash hsplit input]
    split
    · exact fun hmem => hnone hmem.1
    · exact hnone

/-- No command writes a field without a name. -/
theorem fieldsNamed_step (t : Tracker) (a : Announced) (h : FieldsNamed split redisNum t) :
    FieldsNamed split redisNum (announceStep conf t a) := by
  have hrefs := refsOk_preHandle a.input.val a.env.update.now t.localInfoHashMap h.refs
  refine ⟨?_, ?_⟩
  · show Dict.Holds _ (handle conf a.env a.input.val [] false t).tracker.localInfoHashMap
    rw [handle_localInfoHashMap]
    apply (Dict.holds_insert _ t.localInfoHashMap _ _ (fun k v _ => h.refs k v)).mpr
    exact refsOk_handleEntry conf a.input.val _ a.env false hrefs
  · intro base64InfoHash
    rw [stored_announceStep]
    exact named_effect hsplit hserialize _ a.env.update a.input _ _ _
      (updatePeerEntry_effect conf a.env.update a.input.val _ hrefs) base64InfoHash
      (h.named base64InfoHash)

/-- One announce keeps the agreement exactly when the peer it publishes has a name. -/
theorem setsAgree_step_iff (t : Tracker) (a : Announced) (h : FieldsNamed split redisNum t)
    (hagree : SetsAgree split redisNum t) :
    SetsAgree split redisNum (announceStep conf t a) ↔ PublishesNamed t a := by
  have hrefs := refsOk_preHandle a.input.val a.env.update.now t.localInfoHashMap h.refs
  have heffect := updatePeerEntry_effect conf a.env.update a.input.val _ hrefs
  constructor
  · intro hafter hpublishes hnil
    have hnone := (fieldsNamed_step hsplit hserialize t a h).named a.input.val.base64InfoHash
    rw [hafter, remotePeers_announceStep, if_pos rfl, heffect.flagged_eq hpublishes] at hnone
    exact hnone (Or.inl ((peerId_eq_nil a.input).mpr hnil).symm)
  · intro hnamed base64InfoHash
    have hbefore : publishedFields redisNum (stored split redisNum t)
        a.input.val.base64InfoHash =
          flagged (preHandleInfoHashInfo a.input.val a.env.update.now t.localInfoHashMap) := by
      rw [hagree, flagged_preHandle]
      rfl
    rw [stored_announceStep, publishedFields_effect hsplit hserialize _ a.env.update a.input _ _ _
      heffect hnamed (h.named _) hbefore, remotePeers_announceStep, hagree]

end Steps

theorem fieldsNamed_empty (split : ByteString → Option (List ByteString)) (redisNum : ℕ) :
    FieldsNamed split redisNum Tracker.empty := by
  refine ⟨Dict.holds_empty _, ?_⟩
  intro base64InfoHash
  simp [publishedFields, stored, pipelineAll, Tracker.empty, hget]

theorem setsAgree_empty (split : ByteString → Option (List ByteString)) (redisNum : ℕ) :
    SetsAgree split redisNum Tracker.empty := by
  intro base64InfoHash
  ext f
  simp [publishedFields, stored, pipelineAll, Tracker.empty, hget, remotePeers]

/-- For a library that splits at spaces and a serializer that always writes something, redis
holds exactly the flagged peers of every infohash throughout a sequence of announces,
precisely when every peer that they publish has an identifier. -/
theorem published_eq_flagged_iff (split : ByteString → Option (List ByteString))
    (hsplit : SplitsAtSpaces split) (conf : TrackerConf)
    (hserialize : ∀ p, conf.codec.serialize p ≠ []) (redisNum : ℕ) (announces : List Announced) :
    Throughout (announceStep conf) (SetsAgree split redisNum) Tracker.empty announces ↔
      Guarded (announceStep conf) PublishesNamed Tracker.empty announces :=
  throughout_iff_guarded (announceStep conf) PublishesNamed (FieldsNamed split redisNum)
    (SetsAgree split redisNum) (fun t a h => fieldsNamed_step hsplit hserialize t a h)
    (fun t a h hagree => setsAgree_step_iff hsplit hserialize t a h hagree) _ announces
    (fieldsNamed_empty split redisNum) (setsAgree_empty split redisNum)

end Runs

section Samples

def sampleVisit : PeerScans.VisitDraws := ⟨⟨id, fun keys => .refl keys⟩, 0, fun _ => 0⟩

def sampleDraws : HandleEnv := ⟨⟨100, 100, 0⟩, ⟨sampleVisit, sampleVisit, 0, 0⟩⟩

/-- A seed with this identifier says that it seeds, or that it stops. -/
def seedAnnounce (peerid : ByteString) (status : Status) : Announced :=
  ⟨⟨requested [1] peerid [3] status true 0, requested_announce ..⟩, sampleDraws⟩

/-- A seed is published, leaves and comes back. -/
theorem published_eq_flagged_iff_returning :
    Throughout (announceStep defaultConf) (SetsAgree formatCommand 2) Tracker.empty
        [seedAnnounce [2] .seeding, seedAnnounce [2] .stopped, seedAnnounce [2] .seeding] ∧
      Publishes sampleDraws.update (seedAnnounce [2] .seeding).input.val
        (SingleInfoHashInfo.new 100) := by
  have hnamed : (seedAnnounce [2] .seeding).input.val.getPeerId ≠ [] ∧
      (seedAnnounce [2] .stopped).input.val.getPeerId ≠ [] := by decide
  refine ⟨(published_eq_flagged_iff formatCommand formatCommand_splits defaultConf
    defaultConf_serialize 2 _).mpr ?_, by decide⟩
  exact ⟨fun _ => hnamed.1, fun _ => hnamed.2, fun _ => hnamed.1, trivial⟩

/-- A seed without an identifier is flagged, and redis has refused its field. -/
theorem unnamed_seed_not_stored : ¬ ∀ announces : List Announced,
    SetsAgree formatCommand 2 (final (announceStep defaultConf) Tracker.empty announces) := by
  intro hall
  have hagree := (setsAgree_step_iff formatCommand_splits defaultConf_serialize Tracker.empty
    (seedAnnounce [] .seeding) (fieldsNamed_empty formatCommand 2)
    (setsAgree_empty formatCommand 2)).mp (hall [seedAnnounce [] .seeding])
  exact hagree (by decide) rfl

end Samples
end Gingko.PublishedSets
