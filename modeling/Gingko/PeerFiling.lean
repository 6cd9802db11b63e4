import Gingko.TrackerState

/-!
The lists of the machine rooms against the peer map. A peer enters the lists in
the call that registers it and stays under that room. So the lists are in step
with the map as long as no stop order refuses a peer it has just registered and
no registered peer announces another room.
-/
namespace Gingko.PeerFiling

open KeyedMaps Base64Codec PeerRecords PeerUpdates PeerScans TrackerState GuardedRuns

inductive FilingEvent where
  | announce (input : Announce) (env : HandleEnv)
  | control (infohash : ByteString) (type : ControlType) (now : UInt64)

/-- A tracker and, for every infohash and peer key, the machine room named by the
last accepted announce. -/
structure Filing where
  tracker : Tracker
  lastIdc : ByteString → ByteString → ByteString

def Filing.empty : Filing := ⟨Tracker.empty, fun _ _ => []⟩

/-- The announce is not a stop and is answered with 0. -/
def acceptedAnnounce (input : PeerInfo) (ret : ℤ) : Bool :=
  decide (ret = 0) && !input.checkToStop

def fileStep (conf : TrackerConf) (s : Filing) : FilingEvent → Filing
  | .announce input env =>
    let answer := handle conf env input.val [] false s.tracker
    { tracker := answer.tracker
      lastIdc :=
        if acceptedAnnounce input.val answer.ret then
          Function.update s.lastIdc input.val.base64InfoHash
            (Function.update (s.lastIdc input.val.base64InfoHash) input.val.base64PeerId
              input.val.getIdc)
        else s.lastIdc }
  | .control infohash type now =>
    { s with tracker := (controlByInfohash infohash type now s.tracker).2 }

/-- The live references of all lists are the registered peers, each once and
under the room of its last accepted announce. -/
def FiledUnder (lastIdc : ByteString → ByteString) (info : SingleInfoHashInfo) : Prop :=
  (liveFiled info.lockPeer info.idcToPeerVector).Perm
    (info.peerMap.entries.map (fun e => (lastIdc e.1, e.2)))

def AllFiled (s : Filing) : Prop :=
  Dict.Holds (fun infohash => FiledUnder (s.lastIdc infohash)) s.tracker.localInfoHashMap

/-- The announce is a stop, or registers its peer and is accepted, or is of a
registered peer and names the stored room unless it is refused. -/
def KeepsFiled (input : PeerInfo) (info : SingleInfoHashInfo) : Prop :=
  input.checkToStop = false →
    match info.peerMap.lookup input.base64PeerId with
    | none => info.needStop = true → input.isASeed = true
    | some ref => (info.needStop = true → input.isASeed = true) →
        (info.peers ref).getIdc = input.getIdc

def EventKeepsFiled (s : Filing) : FilingEvent → Prop
  | .announce input env => KeepsFiled input.val
      (preHandleInfoHashInfo input.val env.update.now s.tracker.localInfoHashMap)
  | .control _ _ _ => True

/-- What holds of an entry in any case: references are allocated, and a peer that
no accepted announce has filled in is in no list. -/
structure EntryOk (lastIdc : ByteString → ByteString) (info : SingleInfoHashInfo) : Prop where
  refs : RefsOk info
  filedAllocated : ∀ idc ref, (idc, ref) ∈ filed info.idcToPeerVector → ref < info.nextRef
  storedIdc : ∀ key ref, info.peerMap.lookup key = some ref →
    (info.peers ref).initialized = true → (info.peers ref).getIdc = lastIdc key
  blankUnfiled : ∀ key ref, info.peerMap.lookup key = some ref →
    (info.peers ref).initialized = false → ∀ idc, (idc, ref) ∉ filed info.idcToPeerVector

theorem lockPeer_isSome (info : SingleInfoHashInfo) (ref : PeerRef) :
    (info.lockPeer ref).isSome = decide (ref ∈ Dict.values info.peerMap) := by
  unfold SingleInfoHashInfo.lockPeer
  split <;> simp_all

theorem liveFiled_lockPeer (info : SingleInfoHashInfo) (lists : IdcToSingleVector) :
    liveFiled info.lockPeer lists =
      (filed lists).filter (fun e => decide (e.2 ∈ Dict.values info.peerMap)) := by
  unfold liveFiled
  simp only [lockPeer_isSome]

theorem mem_liveFiled (info : SingleInfoHashInfo) (idc : ByteString) (ref : PeerRef) :
    (idc, ref) ∈ liveFiled info.lockPeer info.idcToPeerVector ↔
      (idc, ref) ∈ filed info.idcToPeerVector ∧ ∃ key, info.peerMap.lookup key = some ref := by
  rw [liveFiled_lockPeer, List.mem_filter, decide_eq_true_eq, Dict.mem_values_iff]

section Entry

variable (conf : TrackerConf) (env : UpdateEnv) (input : PeerInfo) (info : SingleInfoHashInfo)
  (lastIdc : ByteString → ByteString)

/-- A registered peer of a properly filed entry has been filled in. -/
theorem initialized_of_filed (hok : EntryOk lastIdc info) (hfiled : FiledUnder lastIdc info)
    (key : ByteString) (ref : PeerRef) (hlook : info.peerMap.lookup key = some ref) :
    (info.peers ref).initialized = true := by
  have hmem : (lastIdc key, ref) ∈ info.peerMap.entries.map (fun e => (lastIdc e.1, e.2)) :=
    List.mem_map.mpr ⟨⟨key, ref⟩, (Dict.mem_entries_iff _ key ref).mpr hlook, rfl⟩
  have hlive := hfiled.mem_iff.mpr hmem
  by_contra hblank
  exact hok.blankUnfiled key ref hlook (by simpa using hblank) _
    ((mem_liveFiled info _ ref).mp hlive).1

/-- The departure of a peer removes its reference from both sides. -/
theorem filed_erasePeer (hok : EntryOk lastIdc info) (hfiled : FiledUnder lastIdc info)
    (ref : PeerRef) (hsome : info.peerMap.lookup input.base64PeerId = some ref) :
    FiledUnder lastIdc (info.erasePeer input ref) := by
  have hvalues := fun r => Dict.mem_values_erase info.peerMap input.base64PeerId ref r hsome
    (fun key hkey => hok.refs.unique key _ ref hkey hsome)
  have hlive : liveFiled (info.erasePeer input ref).lockPeer info.idcToPeerVector =
      (liveFiled info.lockPeer info.idcToPeerVector).filter (fun e => decide (e.2 ≠ ref)) := by
    rw [liveFiled_lockPeer, liveFiled_lockPeer, List.filter_filter]
    congr 1
    funext e
    rw [Bool.eq_iff_iff, Bool.and_eq_true, decide_eq_true_eq, decide_eq_true_eq, decide_eq_true_eq]
    exact (hvalues e.2).trans and_comm
  have hrest : ((info.peerMap.erase input.base64PeerId).entries.map
      (fun e => (lastIdc e.1, e.2))).filter (fun e => decide (e.2 ≠ ref)) =
        (info.peerMap.erase input.base64PeerId).entries.map (fun e => (lastIdc e.1, e.2)) := by
    rw [List.filter_eq_self]
    intro e he
    obtain ⟨entry, hentry, rfl⟩ := List.mem_map.mp he
    have hne := ((hvalues entry.2).mp (List.mem_map.mpr ⟨entry, hentry, rfl⟩)).2
    exact decide_eq_true hne
  have hentries := ((Dict.entries_perm_of_lookup info.peerMap input.base64PeerId ref hsome).map
    (fun e => (lastIdc e.1, e.2))).filter (fun e => decide (e.2 ≠ ref))
  rw [List.map_cons, List.filter_cons_of_neg (by simp), hrest] at hentries
  show (liveFiled (info.erasePeer input ref).lockPeer info.idcToPeerVector).Perm _
  rw [hlive]
  exact (hfiled.filter _).trans hentries

/-- A new reference is in no list yet. -/
theorem liveFiled_insertPeer (hok : EntryOk lastIdc info) (key : ByteString)
    (hnone : info.peerMap.lookup key = none) :
    liveFiled (info.insertPeer key).lockPeer info.idcToPeerVector =
      liveFiled info.lockPeer info.idcToPeerVector := by
  rw [liveFiled_lockPeer, liveFiled_lockPeer]
  apply List.filter_congr
  intro e he
  have hlt := hok.filedAllocated e.1 e.2 he
  have hmem := Dict.mem_values_insert_new info.peerMap key info.nextRef e.2 hnone
  have hne : e.2 ≠ info.nextRef := Nat.ne_of_lt hlt
  simp only [SingleInfoHashInfo.insertPeer, hmem, hne, false_or]

/-- A refused newcomer is registered but in no list. -/
theorem not_filed_insertPeer (hok : EntryOk lastIdc info) (hfiled : FiledUnder lastIdc info)
    (key : ByteString) (hnone : info.peerMap.lookup key = none) :
    ¬ FiledUnder lastIdc (info.insertPeer key) := by
  intro h
  have hlength := h.length_eq
  have hold := hfiled.length_eq
  change (liveFiled (info.insertPeer key).lockPeer info.idcToPeerVector).length = _ at hlength
  rw [liveFiled_insertPeer info lastIdc hok key hnone, hold] at hlength
  simp only [SingleInfoHashInfo.insertPeer,
    AList.entries_insert_of_notMem (AList.lookup_eq_none.mp hnone), List.map_cons, List.length_cons,
    List.length_map] at hlength
  omega

/-- Registration and filing of an accepted newcomer. -/
theorem filed_newAccepted (hok : EntryOk lastIdc info) (hfiled : FiledUnder lastIdc info)
    (hnone : info.peerMap.lookup input.base64PeerId = none) :
    FiledUnder (Function.update lastIdc input.base64PeerId input.getIdc)
      (acceptPeer conf env input info.nextRef true (info.insertPeer input.base64PeerId)) := by
  have hentries : (info.peerMap.entries.map
      (fun e => (Function.update lastIdc input.base64PeerId input.getIdc e.1, e.2))) =
        info.peerMap.entries.map (fun e => (lastIdc e.1, e.2)) := by
    apply List.map_congr_left
    intro e he
    have hne : e.1 ≠ input.base64PeerId := by
      intro heq
      have hlook := (Dict.mem_entries_iff info.peerMap e.1 e.2).mp he
      rw [heq, hnone] at hlook
      contradiction
    rw [Function.update_of_ne hne]
  have hold := liveFiled_insertPeer info lastIdc hok input.base64PeerId hnone
  unfold FiledUnder
  rw [liveFiled_lockPeer] at hold ⊢
  rw [acceptPeer_idcToPeerVector, acceptPeer_peerMap, if_pos rfl]
  refine ((filed_pushBack info.idcToPeerVector input.getIdc info.nextRef).filter _).trans ?_
  have hin : info.nextRef ∈ Dict.values (info.insertPeer input.base64PeerId).peerMap :=
    (Dict.mem_values_iff _ _).mpr ⟨input.base64PeerId, AList.lookup_insert _⟩
  rw [List.filter_cons_of_pos (by simpa using hin), hold]
  simp only [SingleInfoHashInfo.insertPeer,
    AList.entries_insert_of_notMem (AList.lookup_eq_none.mp hnone), List.map_cons,
    Function.update_self, hentries]
  exact hfiled.cons _

/-- An accepted announce of a registered peer leaves the lists as they are. -/
theorem filed_knownAccepted (hok : EntryOk lastIdc info) (hfiled : FiledUnder lastIdc info)
    (ref : PeerRef) (hsome : info.peerMap.lookup input.base64PeerId = some ref) :
    FiledUnder (Function.update lastIdc input.base64PeerId input.getIdc)
        (acceptPeer conf env input ref false info) ↔
      (info.peers ref).getIdc = input.getIdc := by
  have hstored := hok.storedIdc _ ref hsome
    (initialized_of_filed info lastIdc hok hfiled _ ref hsome)
  have hlive : liveFiled (acceptPeer conf env input ref false info).lockPeer
      (acceptPeer conf env input ref false info).idcToPeerVector =
        liveFiled info.lockPeer info.idcToPeerVector := by
    rw [liveFiled_lockPeer, liveFiled_lockPeer, acceptPeer_idcToPeerVector, acceptPeer_peerMap]
    rfl
  unfold FiledUnder
  rw [hlive, acceptPeer_peerMap]
  constructor
  · intro h
    have hentry := (Dict.mem_entries_iff info.peerMap _ ref).mpr hsome
    have hmem : (input.getIdc, ref) ∈ info.peerMap.entries.map (fun e =>
        (Function.update lastIdc input.base64PeerId input.getIdc e.1, e.2)) :=
      List.mem_map.mpr ⟨⟨input.base64PeerId, ref⟩, hentry, by rw [Function.update_self]⟩
    have hold := hfiled.mem_iff.mp (h.mem_iff.mpr hmem)
    obtain ⟨entry, hentry', heq⟩ := List.mem_map.mp hold
    have hlook := (Dict.mem_entries_iff info.peerMap entry.1 entry.2).mp hentry'
    rw [Prod.mk.injEq] at heq
    rw [heq.2] at hlook
    rw [hok.refs.unique entry.1 _ ref hlook hsome] at heq
    exact hstored.trans heq.1
  · intro h
    have hsame : Function.update lastIdc input.base64PeerId input.getIdc = lastIdc := by
      rw [← h, hstored]
      exact Function.update_eq_self _ _
    rw [hsame]
    exact hfiled

/-- The room book of an entry after an announce that was answered with `ret`. -/
def bookIdc (ret : ℤ) : ByteString → ByteString :=
  if acceptedAnnounce input ret then Function.update lastIdc input.base64PeerId input.getIdc
  else lastIdc

/-- One update keeps the lists in step precisely when its announce meets the guard. -/
theorem filed_update (hok : EntryOk lastIdc info) (hfiled : FiledUnder lastIdc info) :
    FiledUnder (bookIdc input lastIdc (updatePeerEntry conf env input info).ret)
      (updatePeerEntry conf env input info).info ↔ KeepsFiled input info := by
  have hcase := updatePeerEntry_cases conf env input info
  generalize (updatePeerEntry conf env input info).ret = ret at hcase ⊢
  generalize (updatePeerEntry conf env input info).info = info' at hcase ⊢
  cases hcase with
  | unknownStop hstop hnone =>
    simp [bookIdc, acceptedAnnounce, KeepsFiled, hstop, hfiled]
  | knownStop ref hstop hsome =>
    have herased := filed_erasePeer input info lastIdc hok hfiled ref hsome
    simp [bookIdc, acceptedAnnounce, KeepsFiled, hstop, herased]
  | newRefused hstop hnone hrefuse =>
    have hnot := not_filed_insertPeer info lastIdc hok hfiled input.base64PeerId hnone
    simp only [Bool.and_eq_true, Bool.not_eq_true'] at hrefuse
    simp [bookIdc, acceptedAnnounce, stopDownloadCode, KeepsFiled, hstop, hnone, hrefuse, hnot]
  | knownRefused ref hstop hsome hrefuse =>
    simp only [Bool.and_eq_true, Bool.not_eq_true'] at hrefuse
    simp [bookIdc, acceptedAnnounce, stopDownloadCode, KeepsFiled, hstop, hsome, hrefuse, hfiled]
  | newAccepted hstop hnone haccept =>
    have hnew := filed_newAccepted conf env input info lastIdc hok hfiled hnone
    have hrun : info.needStop = true → input.isASeed = true := by simpa using haccept
    simp only [bookIdc, acceptedAnnounce, hstop, KeepsFiled, hnone]
    simpa [hnew] using hrun
  | knownAccepted ref hstop hsome haccept =>
    have hknown := filed_knownAccepted conf env input info lastIdc hok hfiled ref hsome
    have hrun : info.needStop = true → input.isASeed = true := by simpa using haccept
    simp only [bookIdc, acceptedAnnounce, hstop, KeepsFiled, hsome]
    simpa [hknown] using Or.inl hrun

theorem entryOk_new (now : UInt64) : EntryOk lastIdc (SingleInfoHashInfo.new now) where
  refs := refsOk_new now
  filedAllocated idc ref h := by simp [SingleInfoHashInfo.new, filed] at h
  storedIdc key ref h := by simp [SingleInfoHashInfo.new] at h
  blankUnfiled key ref h := by simp [SingleInfoHashInfo.new] at h

theorem entryOk_erasePeer (hok : EntryOk lastIdc info) (ref : PeerRef) :
    EntryOk lastIdc (info.erasePeer input ref) where
  refs := hok.refs.erasePeer info input ref
  filedAllocated := hok.filedAllocated
  storedIdc key ref' h := hok.storedIdc key ref' (lookup_erasePeer info input ref key ref' h)
  blankUnfiled key ref' h := hok.blankUnfiled key ref' (lookup_erasePeer info input ref key ref' h)

theorem entryOk_insertPeer (hok : EntryOk lastIdc info) (key : ByteString) :
    EntryOk lastIdc (info.insertPeer key) := by
  have hlook : ∀ k r, (info.insertPeer key).peerMap.lookup k = some r →
      r = info.nextRef ∨ r ≠ info.nextRef ∧ info.peerMap.lookup k = some r := by
    intro k r hk
    by_cases hkey : k = key
    · subst hkey
      rw [SingleInfoHashInfo.insertPeer, AList.lookup_insert] at hk
      exact Or.inl (Option.some.inj hk).symm
    · rw [SingleInfoHashInfo.insertPeer, AList.lookup_insert_ne hkey] at hk
      exact Or.inr ⟨Nat.ne_of_lt (hok.refs.allocated k r hk), hk⟩
  refine ⟨hok.refs.insertPeer info key, ?_, ?_, ?_⟩
  · intro idc ref hmem
    exact Nat.lt_succ_of_lt (hok.filedAllocated idc ref hmem)
  · intro k r hk hinit
    rcases hlook k r hk with rfl | ⟨hne, hold⟩
    · simp [SingleInfoHashInfo.insertPeer, PeerInfo.initialized] at hinit
    · simp only [SingleInfoHashInfo.insertPeer, Function.update_of_ne hne] at hinit ⊢
      exact hok.storedIdc k r hold hinit
  · intro k r hk hblank idc hmem
    have hlt := hok.filedAllocated idc r hmem
    rcases hlook k r hk with rfl | ⟨hne, hold⟩
    · exact absurd hlt (Nat.lt_irrefl info.nextRef)
    · simp only [SingleInfoHashInfo.insertPeer, Function.update_of_ne hne] at hblank
      exact hok.blankUnfiled k r hold hblank idc hmem

/-- An accepted announce fills in its peer with the announced room. -/
theorem entryOk_acceptPeer (hok : EntryOk lastIdc info) (hkeyed : input.Keyed) (ref : PeerRef)
    (new : Bool) (hsome : info.peerMap.lookup input.base64PeerId = some ref) :
    EntryOk (Function.update lastIdc input.base64PeerId input.getIdc)
      (acceptPeer conf env input ref new info) := by
  have hlists := filed_acceptPeer conf env input ref new info
  have hother : ∀ k r, info.peerMap.lookup k = some r → r ≠ ref → k ≠ input.base64PeerId := by
    intro k r hk hne heq
    rw [heq, hsome] at hk
    exact hne (Option.some.inj hk).symm
  have hfilled : ((acceptPeer conf env input ref new info).peers ref).thriftPeer =
      ((info.peers ref).updateInfo input env.updateNow).thriftPeer := by
    rw [acceptPeer_thriftPeer, if_pos rfl]
  have hkept : ∀ r, r ≠ ref → ((acceptPeer conf env input ref new info).peers r).thriftPeer =
      (info.peers r).thriftPeer := by
    intro r hne
    rw [acceptPeer_thriftPeer, if_neg hne]
  refine ⟨hok.refs.acceptPeer info conf env input ref new, ?_, ?_, ?_⟩
  · intro idc r hmem
    rw [acceptPeer_nextRef]
    rcases hlists idc r hmem with rfl | hold
    · exact hok.refs.allocated _ r hsome
    · exact hok.filedAllocated idc r hold
  · intro k r hk hinit
    rw [acceptPeer_peerMap] at hk
    by_cases href : r = ref
    · subst href
      rw [hok.refs.unique k _ r hk hsome, Function.update_self, PeerInfo.getIdc, hfilled]
      exact PeerInfo.getIdc_updateInfo _ input env.updateNow hkeyed
    · rw [PeerInfo.initialized, hkept r href] at hinit
      rw [Function.update_of_ne (hother k r hk href), PeerInfo.getIdc, hkept r href]
      exact hok.storedIdc k r hk hinit
  · intro k r hk hblank idc hmem
    rw [acceptPeer_peerMap] at hk
    by_cases href : r = ref
    · subst href
      rw [PeerInfo.initialized, hfilled] at hblank
      have hinit := PeerInfo.keyed_initialized _
        (PeerInfo.keyed_updateInfo (info.peers r) input env.updateNow hkeyed)
      rw [PeerInfo.initialized, hblank] at hinit
      contradiction
    · rw [PeerInfo.initialized, hkept r href] at hblank
      rcases hlists idc r hmem with heq | hold
      · exact href heq
      · exact hok.blankUnfiled k r hk hblank idc hold

theorem entryOk_update (hok : EntryOk lastIdc info) (hkeyed : input.Keyed) :
    EntryOk (bookIdc input lastIdc (updatePeerEntry conf env input info).ret)
      (updatePeerEntry conf env input info).info := by
  have hcase := updatePeerEntry_cases conf env input info
  generalize (updatePeerEntry conf env input info).ret = ret at hcase ⊢
  generalize (updatePeerEntry conf env input info).info = info' at hcase ⊢
  cases hcase with
  | unknownStop hstop hnone => simpa [bookIdc, acceptedAnnounce, hstop] using hok
  | knownStop ref hstop hsome =>
    simpa [bookIdc, acceptedAnnounce, hstop] using entryOk_erasePeer input info lastIdc hok ref
  | newRefused hstop hnone hrefuse =>
    simpa [bookIdc, acceptedAnnounce, stopDownloadCode] using
      entryOk_insertPeer info lastIdc hok input.base64PeerId
  | knownRefused ref hstop hsome hrefuse =>
    simpa [bookIdc, acceptedAnnounce, stopDownloadCode] using hok
  | newAccepted hstop hnone haccept =>
    have hnew := entryOk_acceptPeer conf env input (info.insertPeer input.base64PeerId) lastIdc
      (entryOk_insertPeer info lastIdc hok _) hkeyed info.nextRef true (AList.lookup_insert _)
    simpa [bookIdc, acceptedAnnounce, hstop] using hnew
  | knownAccepted ref hstop hsome haccept =>
    have hknown := entryOk_acceptPeer conf env input info lastIdc hok hkeyed ref false hsome
    simpa [bookIdc, acceptedAnnounce, hstop] using hknown

/-- The peer lists of a handled announce are those of the update or what a visit of them left. -/
theorem handleEntry_visited (P : IdcToSingleVector → Prop) (e : HandleEnv) (haveSeed : Bool)
    (hvisit : ∀ numWant draws,
      P (visitIdcToPeers input.base64PeerId input.getIdc
        (updatePeerEntry conf e.update input info).info.lockPeer numWant draws
        (updatePeerEntry conf e.update input info).info.idcToPeerVector haveSeed).lists)
    (hupdated : P (updatePeerEntry conf e.update input info).info.idcToPeerVector) :
    P (handleEntry conf e input haveSeed info).idcToPeerVector := by
  unfold handleEntry
  simp only
  split
  · unfold chooseLocalSeed
    split
    · exact hvisit _ _
    · exact hvisit _ _
  · exact hupdated

/-- The scans of a handled announce drop dead references and keep the rest. -/
theorem liveFiled_handleEntry (e : HandleEnv) (haveSeed : Bool) :
    (liveFiled (handleEntry conf e input haveSeed info).lockPeer
      (handleEntry conf e input haveSeed info).idcToPeerVector).Perm
      (liveFiled (updatePeerEntry conf e.update input info).info.lockPeer
        (updatePeerEntry conf e.update input info).info.idcToPeerVector) := by
  have hlock : (handleEntry conf e input haveSeed info).lockPeer =
      (updatePeerEntry conf e.update input info).info.lockPeer := by
    obtain ⟨peerLists, seedLists, hentry⟩ := handleEntry_lists conf e input haveSeed info
    rw [hentry]
    rfl
  rw [hlock]
  apply handleEntry_visited conf input info (fun lists => (liveFiled _ lists).Perm (liveFiled _ _))
  · intro numWant draws
    exact visitIdcToPeers_live _ _ _ _ _ _ _
  · exact List.Perm.refl _

theorem filed_handleEntry (e : HandleEnv) (haveSeed : Bool) (book : ByteString → ByteString) :
    FiledUnder book (handleEntry conf e input haveSeed info) ↔
      FiledUnder book (updatePeerEntry conf e.update input info).info := by
  have hlive := liveFiled_handleEntry conf input info e haveSeed
  obtain ⟨peerLists, seedLists, hentry⟩ := handleEntry_lists conf e input haveSeed info
  have hmap : (handleEntry conf e input haveSeed info).peerMap =
      (updatePeerEntry conf e.update input info).info.peerMap := by
    rw [hentry]
  unfold FiledUnder
  rw [hmap]
  exact ⟨fun h => hlive.symm.trans h, fun h => hlive.trans h⟩

theorem filed_handleEntry_subset (e : HandleEnv) (haveSeed : Bool) :
    filed (handleEntry conf e input haveSeed info).idcToPeerVector ⊆
      filed (updatePeerEntry conf e.update input info).info.idcToPeerVector := by
  apply handleEntry_visited conf input info (fun lists => filed lists ⊆ filed _)
  · intro numWant draws
    exact visitIdcToPeers_subset _ _ _ _ _ _ _
  · exact List.Subset.refl _

theorem entryOk_handleEntry (e : HandleEnv) (haveSeed : Bool) (book : ByteString → ByteString)
    (h : EntryOk book (updatePeerEntry conf e.update input info).info) :
    EntryOk book (handleEntry conf e input haveSeed info) := by
  have hsub := filed_handleEntry_subset conf input info e haveSeed
  obtain ⟨peerLists, seedLists, hentry⟩ := handleEntry_lists conf e input haveSeed info
  rw [hentry] at hsub ⊢
  exact ⟨⟨h.refs.allocated, h.refs.unique⟩, fun idc ref hmem => h.filedAllocated idc ref (hsub hmem),
    h.storedIdc, fun key ref hlook hblank idc hmem =>
      h.blankUnfiled key ref hlook hblank idc (hsub hmem)⟩

end Entry

/-- The unconditional facts about every entry. -/
def FilingOk (s : Filing) : Prop :=
  Dict.Holds (fun infohash => EntryOk (s.lastIdc infohash)) s.tracker.localInfoHashMap

theorem filedUnder_new (book : ByteString → ByteString) (now : UInt64) :
    FiledUnder book (SingleInfoHashInfo.new now) :=
  List.Perm.refl _

section Run

variable (conf : TrackerConf) (s : Filing) (input : Announce) (env : HandleEnv)

theorem lastIdc_announce (key : ByteString) :
    (fileStep conf s (.announce input env)).lastIdc key =
      if key = input.val.base64InfoHash then
        bookIdc input.val (s.lastIdc key) (handle conf env input.val [] false s.tracker).ret
      else s.lastIdc key := by
  simp only [fileStep, bookIdc]
  by_cases hkey : key = input.val.base64InfoHash
  · subst hkey
    split <;> simp
  · split <;> simp [hkey]

/-- An announce is judged by its own entry; the other entries keep their books. -/
theorem announce_holds (P : (ByteString → ByteString) → SingleInfoHashInfo → Prop)
    (h : Dict.Holds (fun infohash => P (s.lastIdc infohash)) s.tracker.localInfoHashMap) :
    Dict.Holds (fun infohash => P ((fileStep conf s (.announce input env)).lastIdc infohash))
        (fileStep conf s (.announce input env)).tracker.localInfoHashMap ↔
      P (bookIdc input.val (s.lastIdc input.val.base64InfoHash)
          (handle conf env input.val [] false s.tracker).ret)
        (handleEntry conf env input.val false (preHandleInfoHashInfo input.val env.update.now
          s.tracker.localInfoHashMap)) := by
  have hmap : (fileStep conf s (.announce input env)).tracker.localInfoHashMap = _ :=
    handle_localInfoHashMap conf env input.val [] false s.tracker
  rw [hmap, Dict.holds_insert]
  · rw [lastIdc_announce, if_pos rfl]
  · intro key info hne hlook
    rw [lastIdc_announce, if_neg hne]
    exact h key info hlook

theorem filingOk_step (e : FilingEvent) (h : FilingOk s) : FilingOk (fileStep conf s e) := by
  cases e with
  | announce input env =>
    apply (announce_holds conf s input env EntryOk h).mpr
    rw [handle_ret]
    apply entryOk_handleEntry
    apply entryOk_update conf env.update input.val _ _ _ input.property.1
    exact preHandle_holds (fun infohash => EntryOk (s.lastIdc infohash)) input.val _ _
      (entryOk_new _ _) (fun info hok => ⟨⟨hok.refs.allocated, hok.refs.unique⟩,
        hok.filedAllocated, hok.storedIdc, hok.blankUnfiled⟩) h
  | control infohash type now =>
    exact control_holds (fun key => EntryOk (s.lastIdc key)) infohash type now s.tracker
      (fun info stop hok => ⟨⟨hok.refs.allocated, hok.refs.unique⟩, hok.filedAllocated,
        hok.storedIdc, hok.blankUnfiled⟩) h

theorem allFiled_step (e : FilingEvent) (hok : FilingOk s) (h : AllFiled s) :
    AllFiled (fileStep conf s e) ↔ EventKeepsFiled s e := by
  cases e with
  | announce input env =>
    have hentry : EntryOk (s.lastIdc input.val.base64InfoHash)
        (preHandleInfoHashInfo input.val env.update.now s.tracker.localInfoHashMap) :=
      preHandle_holds (fun infohash => EntryOk (s.lastIdc infohash)) input.val _ _
        (entryOk_new _ _) (fun info hok => ⟨⟨hok.refs.allocated, hok.refs.unique⟩,
          hok.filedAllocated, hok.storedIdc, hok.blankUnfiled⟩) hok
    have hfiled : FiledUnder (s.lastIdc input.val.base64InfoHash)
        (preHandleInfoHashInfo input.val env.update.now s.tracker.localInfoHashMap) :=
      preHandle_holds (fun infohash => FiledUnder (s.lastIdc infohash)) input.val _ _
        (filedUnder_new _ _) (fun info hf => hf) h
    refine (announce_holds conf s input env FiledUnder h).trans ?_
    rw [handle_ret, filed_handleEntry]
    exact filed_update conf env.update input.val _ _ hentry hfiled
  | control infohash type now =>
    refine iff_of_true ?_ trivial
    exact control_holds (fun key => FiledUnder (s.lastIdc key)) infohash type now s.tracker
      (fun info stop hf => hf) h

end Run

/-- Over every run of announces and orders, the live references stay in step
with the registered peers precisely when every event meets its guard. -/
theorem all_filed_iff (conf : TrackerConf) (events : List FilingEvent) :
    Throughout (fileStep conf) AllFiled Filing.empty events ↔
      Guarded (fileStep conf) EventKeepsFiled Filing.empty events :=
  throughout_iff_guarded (fileStep conf) EventKeepsFiled FilingOk AllFiled
    (fun s e h => filingOk_step conf s e h) (fun s e hok h => allFiled_step conf s e hok h)
    Filing.empty events (Dict.holds_empty _) (Dict.holds_empty _)

/-- A peer is refused by a stop order in the call that registers it. -/
def refusedNewcomer : List FilingEvent :=
  [.announce ⟨requested [1] [2] [3] .download false 0, requested_announce ..⟩ (plainEnv 100 0),
    .control (base64Text [1]) .stopDownloading 101,
    .announce ⟨requested [1] [4] [3] .download false 0, requested_announce ..⟩ (plainEnv 102 0)]

theorem refused_newcomer_unfiled :
    ¬ Throughout (fileStep defaultConf) AllFiled Filing.empty refusedNewcomer := by
  intro h
  have hlast := (throughout_iff _ _ _ _).mp h refusedNewcomer List.prefix_rfl
  have hcounts : ((final (fileStep defaultConf) Filing.empty
      refusedNewcomer).tracker.localInfoHashMap.lookup (base64Text [1])).map (fun info =>
        ((liveFiled info.lockPeer info.idcToPeerVector).length, info.peerMap.entries.length)) =
          some (1, 2) := by
    decide
  obtain ⟨info, hlook, hlengths⟩ := Option.map_eq_some_iff.mp hcounts
  have hfiled := (hlast _ info hlook).length_eq
  rw [List.length_map] at hfiled
  simp only [Prod.mk.injEq] at hlengths
  omega

end Gingko.PeerFiling
