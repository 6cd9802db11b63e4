import Gingko.TrackerState

/-!
The counter of published peers against the flags of the registered peers.
The counter goes down whenever a flagged peer stops, but it goes up only when a
peer is published by its first announce. A peer that is published later is
flagged without being counted, and its stop takes the counter below zero.
-/
namespace Gingko.RemoteCounts

open KeyedMaps Base64Codec PeerRecords RandomDraws PeerUpdates TrackerState GuardedRuns

/-- The number of registered peers that are flagged as published. -/
def setRemotePeers (info : SingleInfoHashInfo) : ℕ :=
  Dict.countEntries (fun _ ref => (info.peers ref).isSetRemote) info.peerMap

/-- The counter is exact, so the stop of a flagged peer finds it positive. -/
structure CountsAgree (info : SingleInfoHashInfo) : Prop where
  count : info.remotePeerCount.toNat = setRemotePeers info
  decrement : ∀ key ref, info.peerMap.lookup key = some ref →
    (info.peers ref).isSetRemote = true → 0 < info.remotePeerCount.toNat

theorem countsAgree_iff (info : SingleInfoHashInfo) :
    CountsAgree info ↔ info.remotePeerCount.toNat = setRemotePeers info := by
  constructor
  · intro h
    exact h.count
  · intro h
    refine ⟨h, ?_⟩
    intro key ref hlook hflag
    rw [h]
    exact Dict.countEntries_pos _ info.peerMap key ref hlook hflag

def storedFlag (input : PeerInfo) (info : SingleInfoHashInfo) : Bool :=
  match info.peerMap.lookup input.base64PeerId with
  | none => false
  | some ref => (info.peers ref).isSetRemote

/-- An accepted announce that leads to publication comes from a flagged peer, or
registers the peer while the counter has room. -/
def KeepsCount (env : UpdateEnv) (input : PeerInfo) (info : SingleInfoHashInfo) : Prop :=
  input.checkToStop = false →
  (info.needStop = true → input.isASeed = true) →
  (input.isASeed = true ∨
    input.isSeeding = true ∧ ifSetPeerRemote info.remotePeerCount env.lottery = true) →
  storedFlag input info = true ∨
    info.peerMap.lookup input.base64PeerId = none ∧ info.remotePeerCount.toNat + 1 < 2 ^ 64

section Entry

variable (conf : TrackerConf) (env : UpdateEnv) (input : PeerInfo) (info : SingleInfoHashInfo)

theorem setRemotePeers_insertPeer (h : RefsOk info) (key : ByteString)
    (hnone : info.peerMap.lookup key = none) :
    setRemotePeers (info.insertPeer key) = setRemotePeers info := by
  simp only [setRemotePeers, SingleInfoHashInfo.insertPeer]
  rw [Dict.countEntries_insert_new _ info.peerMap key info.nextRef hnone]
  simp only [Function.update_self, Bool.false_eq_true, if_false, Nat.add_zero]
  apply Dict.countEntries_congr
  intro k ref hlook
  have hne : ref ≠ info.nextRef := Nat.ne_of_lt (h.allocated k ref hlook)
  rw [Function.update_of_ne hne]

theorem setRemotePeers_erasePeer (ref : PeerRef)
    (hsome : info.peerMap.lookup input.base64PeerId = some ref) :
    setRemotePeers info = setRemotePeers (info.erasePeer input ref) +
      if (info.peers ref).isSetRemote then 1 else 0 :=
  Dict.countEntries_of_lookup _ info.peerMap input.base64PeerId ref hsome

theorem wantsPublish_fillPeerInfo (raw : ℕ) (now : BitVec 64) (ref : PeerRef) (new : Bool) :
    wantsPublish input raw ref (fillPeerInfo input now ref new info) =
      wantsPublish input raw ref info := by
  simp [wantsPublish, PeerInfo.isSetRemote_updateInfo]

theorem publishPeer_commands (raw : ℕ) (ref : PeerRef) (new : Bool) :
    (publishPeer conf input raw ref new info).2 =
      if wantsPublish input raw ref info then (setPeerRemote conf input).2 else [] := by
  unfold publishPeer
  rw [if_pos (setPeerRemote_ret conf input)]
  split <;> rfl

theorem isSetRemote_acceptPeer (ref ref' : PeerRef) (new : Bool) :
    ((acceptPeer conf env input ref new info).peers ref').isSetRemote =
      if ref' = ref then (info.peers ref).isSetRemote || wantsPublish input env.lottery ref info
      else (info.peers ref').isSetRemote := by
  rw [acceptPeer, publishPeer_info, wantsPublish_fillPeerInfo]
  by_cases hwant : wantsPublish input env.lottery ref info = true
  · by_cases href : ref' = ref
    · subst href
      simp [hwant, SingleInfoHashInfo.setPeer, PeerInfo.setIsSetRemote]
    · simp [hwant, href, SingleInfoHashInfo.setPeer]
  · by_cases href : ref' = ref
    · subst href
      simp [hwant, PeerInfo.isSetRemote_updateInfo]
    · simp [hwant, href]

theorem remotePeerCount_acceptPeer (ref : PeerRef) (new : Bool) :
    (acceptPeer conf env input ref new info).remotePeerCount =
      if wantsPublish input env.lottery ref info && new then info.remotePeerCount + 1
      else info.remotePeerCount := by
  rw [acceptPeer, publishPeer_info, wantsPublish_fillPeerInfo]
  by_cases hwant : wantsPublish input env.lottery ref info = true
  · cases new <;> simp [hwant, SingleInfoHashInfo.setPeer]
  · simp [hwant]

theorem setRemotePeers_acceptPeer (h : RefsOk info) (key : ByteString) (ref : PeerRef) (new : Bool)
    (hsome : info.peerMap.lookup key = some ref) :
    setRemotePeers (acceptPeer conf env input ref new info) +
        (if (info.peers ref).isSetRemote then 1 else 0) =
      setRemotePeers info +
        if (info.peers ref).isSetRemote || wantsPublish input env.lottery ref info then 1
        else 0 := by
  have hchange := Dict.countEntries_change
    (fun _ r => ((acceptPeer conf env input ref new info).peers r).isSetRemote)
    (fun _ r => (info.peers r).isSetRemote) info.peerMap key ref hsome (by
      intro key' ref' hkey hlook
      have hne : ref' ≠ ref := by
        intro heq
        rw [heq] at hlook
        exact hkey (h.unique key' key ref hlook hsome)
      rw [isSetRemote_acceptPeer, if_neg hne])
  rw [isSetRemote_acceptPeer, if_pos rfl] at hchange
  unfold setRemotePeers
  rw [acceptPeer_peerMap]
  exact hchange

theorem countsAgree_erasePeer (h : CountsAgree info) (ref : PeerRef)
    (hsome : info.peerMap.lookup input.base64PeerId = some ref) :
    CountsAgree (info.erasePeer input ref) := by
  have hcount := h.count
  have herase := setRemotePeers_erasePeer input info ref hsome
  rw [countsAgree_iff]
  by_cases hflag : (info.peers ref).isSetRemote = true
  · have hpos := h.decrement _ ref hsome hflag
    rw [hflag, if_pos rfl] at herase
    simp only [SingleInfoHashInfo.erasePeer, hflag, deletePeerRemote, decide_true, Bool.and_self,
      if_true]
    have hone : (1 : UInt64) ≤ info.remotePeerCount := UInt64.le_iff_toNat_le.mpr hpos
    rw [UInt64.toNat_sub_of_le _ _ hone]
    show info.remotePeerCount.toNat - 1 = setRemotePeers (info.erasePeer input ref)
    omega
  · rw [if_neg hflag] at herase
    simp only [SingleInfoHashInfo.erasePeer, hflag, Bool.false_and, Bool.false_eq_true, if_false]
    show info.remotePeerCount.toNat = setRemotePeers (info.erasePeer input ref)
    omega

theorem wantsPublish_iff (raw : ℕ) (ref : PeerRef) :
    wantsPublish input raw ref info = true ↔ (info.peers ref).isSetRemote = true ∨
      (input.isASeed = true ∨
        input.isSeeding = true ∧ ifSetPeerRemote info.remotePeerCount raw = true) := by
  simp [wantsPublish, or_assoc]

theorem keepsCount_known (h : CountsAgree info) (hrefs : RefsOk info) (ref : PeerRef)
    (hstop : input.checkToStop = false)
    (hsome : info.peerMap.lookup input.base64PeerId = some ref)
    (haccept : (info.needStop && !input.isASeed) = false) :
    CountsAgree (acceptPeer conf env input ref false info) ↔ KeepsCount env input info := by
  have hcount := h.count
  have hset := setRemotePeers_acceptPeer conf env input info hrefs _ ref false hsome
  have hguard : KeepsCount env input info ↔
      (wantsPublish input env.lottery ref info = true → (info.peers ref).isSetRemote = true) := by
    have hrun : info.needStop = true → input.isASeed = true := by simpa using haccept
    rw [wantsPublish_iff]
    simp only [KeepsCount, storedFlag, hsome, hstop]
    grind
  rw [countsAgree_iff, hguard, remotePeerCount_acceptPeer]
  simp only [Bool.and_false, Bool.false_eq_true, if_false]
  by_cases hflag : (info.peers ref).isSetRemote = true
  · simp only [hflag, Bool.true_or, if_true, implies_true, iff_true] at hset ⊢
    omega
  · by_cases hwant : wantsPublish input env.lottery ref info = true
    · simp only [hflag, hwant, Bool.false_or, if_true, if_false, Bool.false_eq_true, imp_false,
        not_true_eq_false, iff_false] at hset ⊢
      omega
    · simp only [hflag, hwant, Bool.or_self, if_false, Bool.false_eq_true, false_implies,
        iff_true] at hset ⊢
      omega

theorem keepsCount_new (h : CountsAgree info) (hrefs : RefsOk info)
    (hstop : input.checkToStop = false)
    (hnone : info.peerMap.lookup input.base64PeerId = none)
    (haccept : (info.needStop && !input.isASeed) = false) :
    CountsAgree (acceptPeer conf env input info.nextRef true
        (info.insertPeer input.base64PeerId)) ↔ KeepsCount env input info := by
  have hcount := h.count
  have hsome : (info.insertPeer input.base64PeerId).peerMap.lookup input.base64PeerId =
      some info.nextRef := AList.lookup_insert _
  have hset := setRemotePeers_acceptPeer conf env input _
    (hrefs.insertPeer info input.base64PeerId) _ info.nextRef true hsome
  have hfresh : ((info.insertPeer input.base64PeerId).peers info.nextRef).isSetRemote = false := by
    simp [SingleInfoHashInfo.insertPeer]
  have hwants := wantsPublish_iff input (info.insertPeer input.base64PeerId) env.lottery
    info.nextRef
  have hguard : KeepsCount env input info ↔
      (wantsPublish input env.lottery info.nextRef (info.insertPeer input.base64PeerId) = true →
        info.remotePeerCount.toNat + 1 < 2 ^ 64) := by
    have hrun : info.needStop = true → input.isASeed = true := by simpa using haccept
    rw [hwants, hfresh]
    simp only [KeepsCount, storedFlag, hnone, hstop, SingleInfoHashInfo.insertPeer]
    grind
  rw [setRemotePeers_insertPeer info hrefs _ hnone, hfresh] at hset
  rw [countsAgree_iff, hguard, remotePeerCount_acceptPeer]
  change _ = _ at hset
  have hkept : (info.insertPeer input.base64PeerId).remotePeerCount = info.remotePeerCount := rfl
  rw [hkept]
  by_cases hwant : wantsPublish input env.lottery info.nextRef
      (info.insertPeer input.base64PeerId) = true
  · have hlt := info.remotePeerCount.toNat_lt
    simp only [hwant, Bool.and_self, Bool.or_true, if_true, forall_const, Bool.false_eq_true,
      if_false, UInt64.toNat_add, UInt64.toNat_one] at hset ⊢
    omega
  · simp only [hwant, Bool.false_and, Bool.or_self, Bool.false_eq_true, if_false, false_implies,
      iff_true] at hset ⊢
    omega

/-- One update keeps the counter exact precisely when its announce meets the guard. -/
theorem countsAgree_update (h : CountsAgree info) (hrefs : RefsOk info) :
    CountsAgree (updatePeerEntry conf env input info).info ↔ KeepsCount env input info := by
  have hcase := updatePeerEntry_cases conf env input info
  generalize (updatePeerEntry conf env input info).ret = ret at hcase
  generalize (updatePeerEntry conf env input info).info = info' at hcase ⊢
  cases hcase with
  | unknownStop hstop hnone => simp [h, KeepsCount, hstop]
  | knownStop ref hstop hsome =>
    simp [countsAgree_erasePeer input info h ref hsome, KeepsCount, hstop]
  | newRefused hstop hnone hrefuse =>
    have hkept : CountsAgree (info.insertPeer input.base64PeerId) := by
      rw [countsAgree_iff, setRemotePeers_insertPeer info hrefs _ hnone]
      exact h.count
    have hguard : KeepsCount env input info := by
      intro _ hrun
      simp_all
    exact iff_of_true hkept hguard
  | knownRefused ref hstop hsome hrefuse =>
    have hguard : KeepsCount env input info := by
      intro _ hrun
      simp_all
    exact iff_of_true h hguard
  | newAccepted hstop hnone haccept =>
    exact keepsCount_new conf env input info h hrefs hstop hnone haccept
  | knownAccepted ref hstop hsome haccept =>
    exact keepsCount_known conf env input info h hrefs ref hstop hsome haccept

end Entry

/-- Every local entry counts its published peers exactly. -/
def RemoteCountsAgree (t : Tracker) : Prop := Dict.Holds (fun _ => CountsAgree) t.localInfoHashMap

/-- The guard of an announce in the state that takes it. -/
def UpdateKeepsCount (t : Tracker) (u : Update) : Prop :=
  KeepsCount u.env u.input (preHandleInfoHashInfo u.input u.env.now t.localInfoHashMap)

theorem countsAgree_new (now : UInt64) : CountsAgree (SingleInfoHashInfo.new now) := by
  rw [countsAgree_iff]
  rfl

theorem countsAgree_preHandle (input : PeerInfo) (now : UInt64) (map : InfoHashMap)
    (h : Dict.Holds (fun _ => CountsAgree) map) :
    CountsAgree (preHandleInfoHashInfo input now map) :=
  preHandle_holds (fun _ => CountsAgree) input now map (countsAgree_new now)
    (fun _ hok => ⟨hok.count, hok.decrement⟩) h

/-- Over every run of announces, the counters stay exact precisely when each
published announce is of a flagged peer or of a new one. -/
theorem remote_counts_agree_iff (conf : TrackerConf) (updates : List Update) :
    Throughout (updateStep conf) RemoteCountsAgree Tracker.empty updates ↔
      Guarded (updateStep conf) UpdateKeepsCount Tracker.empty updates := by
  apply throughout_iff_guarded (updateStep conf) UpdateKeepsCount TrackerRefsOk RemoteCountsAgree
  · intro t u h
    exact trackerRefsOk_updatePeer conf u.env u.input t h
  · intro t u hrefs hcounts
    have hinfo := countsAgree_preHandle u.input u.env.now t.localInfoHashMap hcounts
    have hok := refsOk_preHandle u.input u.env.now t.localInfoHashMap hrefs
    have hentry := countsAgree_update conf u.env u.input _ hinfo hok
    rw [UpdateKeepsCount, ← hentry]
    exact Dict.holds_insert _ t.localInfoHashMap _ _ (fun k v _ => hcounts k v)
  · exact Dict.holds_empty _
  · exact Dict.holds_empty _

/-- A peer registers while downloading, is published once it is seeding, and stops. -/
def seedingLater : List Update :=
  [⟨requested [1] [2] [3] .download false 50, ⟨100, 100, 0⟩⟩,
    ⟨requested [1] [2] [3] .seeding false 50, ⟨101, 101, 0⟩⟩,
    ⟨requested [1] [2] [3] .stopped false 0, ⟨102, 102, 0⟩⟩]

theorem remote_counts_wrap :
    ¬ Throughout (updateStep defaultConf) RemoteCountsAgree Tracker.empty seedingLater := by
  intro h
  have hlast := (throughout_iff _ _ _ _).mp h seedingLater List.prefix_rfl
  have hwrapped : ((final (updateStep defaultConf) Tracker.empty seedingLater).localInfoHashMap.lookup
      (base64Text [1])).map (fun info => (info.remotePeerCount.toNat, setRemotePeers info)) =
        some (2 ^ 64 - 1, 0) := by
    decide
  obtain ⟨info, hlook, hcounts⟩ := Option.map_eq_some_iff.mp hwrapped
  have hcount := (hlast _ info hlook).count
  simp only [Prod.mk.injEq] at hcounts
  omega

end Gingko.RemoteCounts
