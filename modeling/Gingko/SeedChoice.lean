import Gingko.ChoiceScans
import Gingko.TrackerRuns

/-!
Whether a seed reaches a downloading peer. The flag of an answer says whether
its list holds a seed. The scan of the seed lists stops at the first live
reference of another peer, but it visits only the requester's own machine room
and the rooms up to a random position, and the lists keep peers that have
stopped being seeds and miss those that became seeds after they registered.
-/
namespace Gingko.SeedChoice

open KeyedMaps Base64Codec PeerRecords RandomDraws PeerUpdates PeerScans ScanPicks TrackerState
  TrackerRuns GuardedRuns ChoiceScans

section Finds

variable (selfId : ByteString) (lock : PeerRef → Option PeerInfo)

/-- Every live reference of the list is of another, initialised peer. -/
def LivePickable (peerVec : SinglePeerVec) : Prop :=
  ∀ ref ∈ peerVec, (lock ref).isSome = true → Pickable selfId lock ref

/-- As long as dead references are all it meets, the walk stays at its start. -/
theorem choosePeersByMap_finds (raw : ℕ) (peerVec : SinglePeerVec) (numWant : ℤ)
    (output : PeerList) (seed : Bool) (hwant : 0 < numWant)
    (hall : LivePickable selfId lock peerVec) (hlive : ∃ ref ∈ peerVec, (lock ref).isSome = true) :
    output.length <
      (choosePeersByMap selfId lock raw peerVec numWant output seed).output.length := by
  unfold choosePeersByMap
  have hdone := scanLoop_done selfId lock (getRandomNumber (peerVec.length - 1) raw) peerVec.length
    ⟨peerVec, 0, numWant, output, seed⟩ (by simp)
  have hloop := scanLoop_invariant selfId lock (getRandomNumber (peerVec.length - 1) raw)
    (fun s : ScanState => output.length < s.output.length ∨
      s.i = 0 ∧ s.numWant = numWant ∧ s.output = output ∧ s.peerVec.Sublist peerVec ∧
        ∃ ref ∈ s.peerVec, (lock ref).isSome = true) (by
    intro s hs hi _
    have hcurrent := current_mem (getRandomNumber (peerVec.length - 1) raw) s hi
    have hcase := scanStep_cases selfId lock (getRandomNumber (peerVec.length - 1) raw) s
    generalize scanStep selfId lock _ s = t at hcase ⊢
    rcases hs with hfound | ⟨hstart, hnum, hout, hsub, ref, href, hsome⟩
    · left
      cases hcase with
      | skipped p hlock hskip => exact hfound
      | chosen p hlock hinit hself =>
        simp only [List.length_append, List.length_cons, List.length_nil]
        omega
      | erased hdead => exact hfound
    · cases hcase with
      | skipped p hlock hskip =>
        obtain ⟨q, hq, hinit, hself⟩ := hall _ (hsub.subset hcurrent) (by rw [hlock]; rfl)
        rw [hlock] at hq
        rw [← Option.some.inj hq] at hinit hself
        rcases hskip with hblank | hsame
        · rw [hblank] at hinit
          contradiction
        · exact absurd hsame hself
      | chosen p hlock hinit hself =>
        left
        simp only [hout, List.length_append, List.length_cons, List.length_nil]
        omega
      | erased hdead =>
        right
        refine ⟨hstart, hnum, hout, (List.eraseIdx_sublist _ _).trans hsub, ?_⟩
        have hin : ref ∈ s.peerVec.filter (fun r => (lock r).isSome) :=
          List.mem_filter.mpr ⟨href, hsome⟩
        rw [← filter_erased lock _ s hi hdead] at hin
        exact ⟨ref, (List.mem_filter.mp hin).1, hsome⟩) peerVec.length
    ⟨peerVec, 0, numWant, output, seed⟩ (Or.inr ⟨rfl, rfl, rfl, List.Sublist.refl _, hlive⟩)
  rcases hloop with hfound | ⟨hstart, hnum, _, _, ref, href, _⟩
  · exact hfound
  · have hpos := List.length_pos_of_mem href
    exact absurd ⟨by omega, by omega⟩ hdone

theorem visitLoop_mono (ownIdc : ByteString) (numWant : ℤ) (start : ByteString → ℕ)
    (randomIndex nowIndex : ℤ) (idcs : List ByteString) (s : VisitState) :
    s.output.length ≤
      (visitLoop selfId ownIdc lock numWant start randomIndex nowIndex idcs s).output.length := by
  apply visitLoop_invariant selfId lock (fun t => s.output.length ≤ t.output.length)
  · intro idc want t ht
    exact ht.trans (scanIdc_mono selfId lock start idc want t)
  · exact Nat.le_refl _

/-- The list of a room has a live reference, and only pickable ones. -/
def Offers (lists : IdcToSingleVector) (idc : ByteString) : Prop :=
  ∃ peerVec, lists.lookup idc = some peerVec ∧ LivePickable selfId lock peerVec ∧
    ∃ ref ∈ peerVec, (lock ref).isSome = true

theorem scanIdc_finds (start : ByteString → ℕ) (idc : ByteString) (want : ℤ) (s : VisitState)
    (hwant : 0 < want) (h : Offers selfId lock s.lists idc) :
    0 < (scanIdc selfId lock start idc want s).output.length := by
  obtain ⟨peerVec, hlook, hall, hlive⟩ := h
  have hfound := choosePeersByMap_finds selfId lock (start idc) peerVec want s.output
    s.ifSeedInserted hwant hall hlive
  unfold scanIdc
  rw [hlook]
  simp only
  omega

/-- A visit for one peer that reaches an offering room in time finds one. -/
theorem visitLoop_finds (ownIdc : ByteString) (start : ByteString → ℕ) (randomIndex nowIndex : ℤ)
    (idcs : List ByteString) (s : VisitState) (idc : ByteString) (hother : idc ≠ ownIdc)
    (position : ℕ) (hposition : idcs[position]? = some idc)
    (hreached : nowIndex + position ≤ randomIndex) (h : Offers selfId lock s.lists idc) :
    0 < (visitLoop selfId ownIdc lock 1 start randomIndex nowIndex idcs s).output.length := by
  induction idcs generalizing nowIndex s position with
  | nil => simp at hposition
  | cons room rest ih =>
    by_cases hempty : s.output.length = 0
    · have hleft : numLeft 1 s = 1 := by
        unfold numLeft
        rw [hempty]
        rfl
      unfold visitLoop
      rw [hleft, if_neg (by omega)]
      cases position with
      | zero =>
        have hroom : room = idc := by simpa using hposition
        subst hroom
        rw [if_neg (by omega), if_neg hother]
        have hscan := scanIdc_finds selfId lock start room 1 s (by omega) h
        exact lt_of_lt_of_le hscan (visitLoop_mono selfId lock ownIdc 1 start _ _ rest _)
      | succ position =>
        have hrest : rest[position]? = some idc := by simpa using hposition
        have hlater : nowIndex + 1 + position ≤ randomIndex := by
          push_cast at hreached
          omega
        split
        · exact ih (nowIndex + 1) s position hrest hlater h
        · split
          · exact ih (nowIndex + 1) s position hrest hlater h
          · by_cases hroom : room = idc
            · subst hroom
              have hscan := scanIdc_finds selfId lock start room 1 s (by omega) h
              exact lt_of_lt_of_le hscan (visitLoop_mono selfId lock ownIdc 1 start _ _ rest _)
            · apply ih (nowIndex + 1) _ position hrest hlater
              obtain ⟨peerVec, hlook, hoffer⟩ := h
              refine ⟨peerVec, ?_, hoffer⟩
              unfold scanIdc
              split
              · exact hlook
              · rw [AList.lookup_insert_ne (Ne.symm hroom)]
                exact hlook
    · have hpos : 0 < s.output.length := Nat.pos_of_ne_zero hempty
      exact lt_of_lt_of_le hpos (visitLoop_mono selfId lock ownIdc 1 start _ _ (room :: rest) s)

/-- The rooms a visit is sure to reach: the requester's own and those up to the cut. -/
def Reached (ownIdc : ByteString) (draws : VisitDraws) (lists : IdcToSingleVector)
    (idc : ByteString) : Prop :=
  idc = ownIdc ∨ ∃ position : ℕ, (draws.order.arrange lists.keys)[position]? = some idc ∧
    (position : ℤ) ≤ getRandomNumber (lists.entries.length - 1) draws.cut

theorem visitIdcToPeers_finds (ownIdc : ByteString) (draws : VisitDraws)
    (lists : IdcToSingleVector) (seed : Bool) (idc : ByteString)
    (hreached : Reached ownIdc draws lists idc) (h : Offers selfId lock lists idc) :
    0 < (visitIdcToPeers selfId ownIdc lock 1 draws lists seed).output.length := by
  unfold visitIdcToPeers
  by_cases hown : idc = ownIdc
  · subst hown
    have hscan := scanIdc_finds selfId lock draws.start idc 1 ⟨lists, [], seed⟩ (by omega) h
    exact lt_of_lt_of_le hscan (visitLoop_mono selfId lock idc 1 draws.start _ 0 _ _)
  · obtain ⟨position, hposition, hcut⟩ := hreached.resolve_left hown
    apply visitLoop_finds selfId lock ownIdc draws.start _ 0 _ _ idc hown position hposition
      (by omega)
    obtain ⟨peerVec, hlook, hoffer⟩ := h
    refine ⟨peerVec, ?_, hoffer⟩
    unfold scanIdc
    split
    · exact hlook
    · rw [AList.lookup_insert_ne hown]
      exact hlook

end Finds

/-- The flag says whether the list holds a seed. -/
def FlagExact (output : PeerList) (haveSeed : Bool) : Prop :=
  haveSeed = output.any PeerInfo.isASeed

theorem pickedSeed_eq (lock : PeerRef → Option PeerInfo) (refs : List PeerRef) :
    pickedSeed lock refs = (refs.map (pick lock)).any PeerInfo.isASeed := by
  unfold pickedSeed
  rw [List.any_map]
  rfl

/-- A scan keeps the flag exact. -/
theorem flagExact_adds (lock : PeerRef → Option PeerInfo) (selfId : ByteString)
    (chosen result : Choice) (refs : List PeerRef) (hadds : Adds lock selfId chosen result refs)
    (h : FlagExact chosen.output chosen.haveSeed) : FlagExact result.output result.haveSeed := by
  unfold FlagExact at h ⊢
  rw [hadds.output, hadds.haveSeed, List.any_append, h, pickedSeed_eq]

section Choose

variable (lock : PeerRef → Option PeerInfo) (input : PeerInfo) (draws : ChooseDraws)

theorem flagExact_localScans (info : SingleInfoHashInfo) :
    let chosen := chooseLocalSeed lock input draws (chooseLocalPeers lock input draws false info)
    FlagExact chosen.output chosen.haveSeed := by
  obtain ⟨refs, hpeers, _⟩ := chooseLocalPeers_adds lock input draws false info
  obtain ⟨seeds, hseeds, _⟩ := chooseLocalSeed_adds lock input draws
    (chooseLocalPeers lock input draws false info)
  exact flagExact_adds lock _ _ _ _ (hpeers.trans hseeds) rfl

theorem flagExact_remoteScans (chosen : Choice) (h : FlagExact chosen.output chosen.haveSeed) :
    let result := chooseRemoteSeed lock input draws (chooseRemotePeers lock input draws chosen)
    FlagExact result.output result.haveSeed := by
  obtain ⟨refs, hpeers, _⟩ := chooseRemotePeers_adds lock input draws chosen
  obtain ⟨seeds, hseeds, _⟩ := chooseRemoteSeed_adds lock input draws
    (chooseRemotePeers lock input draws chosen)
  exact flagExact_adds lock _ _ _ _ (hpeers.trans hseeds) h

theorem flagExact_choosePeers (t : Tracker) :
    FlagExact (choosePeers input draws false t).output
      (choosePeers input draws false t).haveSeed := by
  have hlocal : FlagExact (chooseFromLocal input draws false t).output
      (chooseFromLocal input draws false t).haveSeed := by
    unfold chooseFromLocal
    split
    · rfl
    · exact flagExact_localScans _ input draws _
  simp only [choosePeers, chooseFromRemote]
  split
  · exact hlocal
  · split
    · exact hlocal
    · exact flagExact_remoteScans _ input draws _ hlocal

end Choose

/-- Every live reference of the seed lists is of a peer that is still a seed. -/
def SeedsCurrent (entry : SingleInfoHashInfo) : Prop :=
  ∀ idc ref p, (idc, ref) ∈ filed entry.idcToSeedVector → entry.lockPeer ref = some p →
    p.isASeed = true

/-- The seed lists have a live reference in a room that the visit is sure to reach. -/
def SeedReachable (input : PeerInfo) (draws : ChooseDraws) (entry : SingleInfoHashInfo) : Prop :=
  ∃ idc ref, (idc, ref) ∈ filed entry.idcToSeedVector ∧ (entry.lockPeer ref).isSome = true ∧
    Reached input.getIdc draws.seedVisit entry.idcToSeedVector idc

section Entry

variable (conf : TrackerConf) (env : UpdateEnv) (input : PeerInfo) (info : SingleInfoHashInfo)

theorem updatePeerEntry_accepted (hneed : info.needStop = false) :
    (updatePeerEntry conf env input info).ret = 0 := by
  have hcase := updatePeerEntry_cases conf env input info
  generalize (updatePeerEntry conf env input info).ret = ret at hcase ⊢
  generalize (updatePeerEntry conf env input info).info = info' at hcase
  cases hcase with
  | newRefused h hnone hrefuse => simp [hneed] at hrefuse
  | knownRefused ref h hsome hrefuse => simp [hneed] at hrefuse
  | _ => rfl

/-- An accepted requester is stored with the seed flag it announces. -/
theorem updatePeerEntry_own (hkeyed : input.Keyed) (hneed : info.needStop = false)
    (hstop : input.checkToStop = false) (ref : PeerRef)
    (hlook : (updatePeerEntry conf env input info).info.peerMap.lookup input.base64PeerId =
      some ref) :
    ((updatePeerEntry conf env input info).info.peers ref).isASeed = input.isASeed := by
  have hown : ∀ (base : SingleInfoHashInfo) (r : PeerRef) (new : Bool),
      ((acceptPeer conf env input r new base).peers r).isASeed = input.isASeed := by
    intro base r new
    rw [PeerInfo.isASeed, PeerInfo.getIsSeed, acceptPeer_thriftPeer, if_pos rfl]
    exact PeerInfo.getIsSeed_updateInfo _ input env.updateNow hkeyed
  have hcase := updatePeerEntry_cases conf env input info
  generalize (updatePeerEntry conf env input info).ret = ret at hcase
  generalize (updatePeerEntry conf env input info).info = info' at hcase hlook ⊢
  cases hcase with
  | unknownStop h hnone => simp [hstop] at h
  | knownStop r h hsome => simp [hstop] at h
  | newRefused h hnone hrefuse => simp [hneed] at hrefuse
  | knownRefused r h hsome hrefuse => simp [hneed] at hrefuse
  | newAccepted h hnone haccept =>
    rw [acceptPeer_peerMap, SingleInfoHashInfo.insertPeer, AList.lookup_insert] at hlook
    rw [← Option.some.inj hlook]
    exact hown _ _ true
  | knownAccepted r h hsome haccept =>
    rw [acceptPeer_peerMap, hsome] at hlook
    rw [← Option.some.inj hlook]
    exact hown _ _ false

/-- Current seeds other than the requester can be picked. -/
theorem offers_of_current (entry : SingleInfoHashInfo) (hok : LocalOk entry)
    (hcurrent : SeedsCurrent entry) (hseedless : input.isASeed = false)
    (hown : ∀ ref, entry.peerMap.lookup input.base64PeerId = some ref →
      (entry.peers ref).isASeed = input.isASeed)
    (idc : ByteString) (ref : PeerRef) (hfiled : (idc, ref) ∈ filed entry.idcToSeedVector)
    (hlive : (entry.lockPeer ref).isSome = true) :
    Offers input.base64PeerId entry.lockPeer entry.idcToSeedVector idc := by
  obtain ⟨peerVec, hlook, hmem⟩ := (mem_filed _ _ _).mp hfiled
  refine ⟨peerVec, hlook, ?_, ref, hmem, hlive⟩
  intro r hr hsome
  obtain ⟨p, hp⟩ := Option.isSome_iff_exists.mp hsome
  have hr' := (mem_filed _ idc r).mpr ⟨peerVec, hlook, hr⟩
  have hseed := hcurrent idc r p hr' hp
  obtain ⟨rfl, key, hkey⟩ := lockPeer_eq_some entry r p hp
  have hinit := (hok.seedsFiled idc r hr').2
  refine ⟨_, hp, hinit, ?_⟩
  intro heq
  have hstored := (hok.stored key r hkey hinit).2
  rw [← hstored, ← heq] at hkey
  rw [hown r hkey, hseedless] at hseed
  contradiction

theorem haveSeed_of_reachable (entry : SingleInfoHashInfo) (draws : ChooseDraws)
    (hok : LocalOk entry) (hcurrent : SeedsCurrent entry) (hseedless : input.isASeed = false)
    (hown : ∀ ref, entry.peerMap.lookup input.base64PeerId = some ref →
      (entry.peers ref).isASeed = input.isASeed)
    (hreach : SeedReachable input draws entry) :
    (chooseLocalSeed entry.lockPeer input draws
      (chooseLocalPeers entry.lockPeer input draws false entry)).haveSeed = true := by
  by_cases hfirst : (chooseLocalPeers entry.lockPeer input draws false entry).haveSeed = true
  · unfold chooseLocalSeed
    rw [if_neg (by simp [hfirst])]
    exact hfirst
  · obtain ⟨idc, ref, hfiled, hlive, hroom⟩ := hreach
    have hoffers := offers_of_current input entry hok hcurrent hseedless hown idc ref hfiled hlive
    have hrooms : 0 < entry.idcToSeedVector.entries.length := by
      obtain ⟨peerVec, hlook, _⟩ := hoffers
      exact List.length_pos_of_mem ((Dict.mem_entries_iff _ _ _).mpr hlook)
    unfold chooseLocalSeed
    rw [if_pos (by
      rw [Bool.and_eq_true]
      exact ⟨by simpa using hfirst, decide_eq_true hrooms⟩)]
    obtain ⟨seen, refs, hrefs⟩ := visitIdcToPeers_picks input.base64PeerId entry.lockPeer
      entry.idcToSeedVector (chooseLocalPeers entry.lockPeer input draws false entry).haveSeed
      input.getIdc 1 (by omega) (by omega) draws.seedVisit
    have hfound := visitIdcToPeers_finds input.base64PeerId entry.lockPeer input.getIdc
      draws.seedVisit entry.idcToSeedVector
      (chooseLocalPeers entry.lockPeer input draws false entry).haveSeed idc hroom hoffers
    rw [hrefs.output, List.length_map] at hfound
    obtain ⟨r, hr⟩ := List.exists_mem_of_length_pos hfound
    obtain ⟨⟨room, _, hr'⟩, p, hlock, _⟩ := hrefs.pickable r hr
    have hpicked : pickedSeed entry.lockPeer refs = true := by
      refine List.any_eq_true.mpr ⟨r, hr, ?_⟩
      rw [pick_of_lock _ _ _ hlock]
      exact hcurrent room r p hr' hlock
    have hflag := hrefs.seed
    rw [hpicked, Bool.or_true] at hflag
    exact hflag

end Entry

/-- A downloading requester of a running infohash gets 0 and an exact seed flag,
and a seed whenever the seed lists are current and offer one in a room that is
reached. -/
theorem seed_reported (conf : TrackerConf) (events : List RunEvent) (input : Announce)
    (env : HandleEnv) (hseedless : input.val.isASeed = false)
    (hstop : input.val.checkToStop = false) (hwant : input.val.getWantNumber ≠ 0)
    (hrunning : ∀ info, (final (runNext conf) Tracker.empty events).localInfoHashMap.lookup
      input.val.base64InfoHash = some info → info.needStop = false) :
    let t := final (runNext conf) Tracker.empty events
    let entry := (updatePeerEntry conf env.update input.val
      (preHandleInfoHashInfo input.val env.update.now t.localInfoHashMap)).info
    let answer := handle conf env input.val [] false t
    answer.ret = 0 ∧ answer.haveSeed = answer.peerList.any PeerInfo.isASeed ∧
      (SeedsCurrent entry → SeedReachable input.val env.choose entry → answer.haveSeed = true) := by
  intro t entry answer
  have hneed : (preHandleInfoHashInfo input.val env.update.now t.localInfoHashMap).needStop =
      false := by
    unfold preHandleInfoHashInfo
    split
    · rfl
    · rename_i info hlook
      exact hrunning info hlook
  have hret := updatePeerEntry_accepted conf env.update input.val _ hneed
  have hmore : input.val.checkNeedMorePeers = true := by
    have hpos : input.val.getWantNumber.toNat ≠ 0 := fun hzero => hwant (BitVec.eq_of_toNat_eq hzero)
    simp [PeerInfo.checkNeedMorePeers, hstop, hpos]
  have hanswer : answer = ⟨0,
      (choosePeers input.val env.choose false (updatePeer conf env.update input.val t).2).output,
      (choosePeers input.val env.choose false (updatePeer conf env.update input.val t).2).haveSeed,
      (choosePeers input.val env.choose false
        (updatePeer conf env.update input.val t).2).tracker⟩ := by
    have hzero : (updatePeer conf env.update input.val t).1 = 0 := hret
    simp only [answer, handle, hzero, hmore, ne_eq, not_true_eq_false, if_false, if_true]
  have hexact := flagExact_choosePeers input.val env.choose
    (updatePeer conf env.update input.val t).2
  rw [hanswer]
  refine ⟨rfl, hexact, ?_⟩
  intro hcurrent hreach
  have hlocals := localsOk_update conf env.update input.val t input.property.1
    (localsOk_final conf events)
  have hlook : (updatePeer conf env.update input.val t).2.localInfoHashMap.lookup
      input.val.base64InfoHash = some entry := AList.lookup_insert _
  have hseed := haveSeed_of_reachable input.val entry env.choose (hlocals _ entry hlook) hcurrent
    hseedless (updatePeerEntry_own conf env.update input.val _ input.property.1 hneed hstop) hreach
  have hlocal : (chooseFromLocal input.val env.choose false
      (updatePeer conf env.update input.val t).2).haveSeed = true := by
    unfold chooseFromLocal
    rw [hlook]
    exact hseed
  have houtput : 0 < (chooseFromLocal input.val env.choose false
      (updatePeer conf env.update input.val t).2).output.length := by
    have hflag : FlagExact (chooseFromLocal input.val env.choose false
        (updatePeer conf env.update input.val t).2).output true := by
      rw [← hlocal]
      unfold chooseFromLocal
      rw [hlook]
      exact flagExact_localScans _ _ _ _
    obtain ⟨p, hp, _⟩ := List.any_eq_true.mp hflag.symm
    exact List.length_pos_of_mem hp
  simp only [choosePeers]
  rw [if_pos (by simp [hlocal, houtput])]
  exact hlocal

def downloader : Announce := ⟨requested [1] [2] [3] .download false 30, requested_announce ..⟩

/-- One seed in the downloader's own room. -/
def oneSeed : List RunEvent :=
  [.update ⟨requested [1] [4] [3] .seeding true 0, requested_announce ..⟩ (plainEnv 100 0).update]

theorem seed_reported_one_seed :
    (handle defaultConf (plainEnv 101 0) downloader.val [] false
      (final (runNext defaultConf) Tracker.empty oneSeed)).haveSeed = true := by
  have hreport := seed_reported defaultConf oneSeed downloader (plainEnv 101 0) (by decide)
    (by decide) (by decide) (by
    intro info hlook
    have hrunning : ((final (runNext defaultConf) Tracker.empty oneSeed).localInfoHashMap.lookup
        downloader.val.base64InfoHash).map SingleInfoHashInfo.needStop = some false := by
      decide
    rw [hlook] at hrunning
    exact Option.some.inj hrunning)
  refine hreport.2.2 ?_ ?_
  · intro idc ref p hfiled hlock
    have hlist : filed (updatePeerEntry defaultConf (plainEnv 101 0).update downloader.val
        (preHandleInfoHashInfo downloader.val (plainEnv 101 0).update.now
          (final (runNext defaultConf) Tracker.empty oneSeed).localInfoHashMap)).info.idcToSeedVector =
        [([3], 0)] := by
      decide
    rw [hlist, List.mem_singleton] at hfiled
    obtain ⟨rfl, rfl⟩ := Prod.mk.inj hfiled
    obtain ⟨rfl, _⟩ := lockPeer_eq_some _ _ p hlock
    decide
  · exact ⟨[3], 0, by decide, by decide, Or.inl rfl⟩

/-- A registered seed other than the requester. -/
def hasOtherSeed (input : PeerInfo) (info : SingleInfoHashInfo) : Bool :=
  info.peerMap.entries.any (fun e => decide (e.1 ≠ input.base64PeerId) &&
    (info.peers e.2).initialized && (info.peers e.2).isASeed)

/-- Seeds register in the rooms [5] and [7], and the one in room [7] departs. -/
def twoRooms : List RunEvent :=
  [.update ⟨requested [1] [4] [5] .seeding true 0, requested_announce ..⟩ (plainEnv 100 0).update,
    .update ⟨requested [1] [6] [7] .seeding true 0, requested_announce ..⟩ (plainEnv 101 0).update,
    .update ⟨requested [1] [6] [7] .stopped true 0, requested_announce ..⟩ (plainEnv 102 0).update]

/-- Both scans are cut before room [5], where the only seed is. -/
theorem seed_cut_off :
    let t := final (runNext defaultConf) Tracker.empty twoRooms
    ((t.localInfoHashMap.lookup (base64Text [1])).map (hasOtherSeed downloader.val) = some true ∧
      (t.localInfoHashMap.lookup (base64Text [1])).map SingleInfoHashInfo.needStop = some false ∧
      downloader.val.isASeed = false ∧ downloader.val.checkToStop = false ∧
      downloader.val.checkNeedMorePeers = true) ∧
    ¬ ((handle defaultConf (plainEnv 103 0) downloader.val [] false t).haveSeed = true ∧
      (handle defaultConf (plainEnv 103 0) downloader.val [] false t).peerList.any
        PeerInfo.isASeed = true) := by
  decide

end Gingko.SeedChoice
