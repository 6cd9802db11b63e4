import Gingko.SeedChoice

/-!
The answer to an announce as a whole: its seed flag and its length. The local scan is
bound by the wanted number, the seed lists add one peer at most, the remote list fills
the answer up to ten, and the remote seeds add one peer at most. A peer of the local seed
lists that has stopped being a seed does not end the search, so both can come.
-/
namespace Gingko.AnnounceAnswers

open KeyedMaps Base64Codec PeerRecords RandomDraws PeerUpdates PeerScans ScanPicks TrackerState
  TrackerRuns GuardedRuns ChoiceScans SeedChoice

section Answers

variable (conf : TrackerConf) (env : HandleEnv) (input : PeerInfo) (t : Tracker)

theorem handle_choosing (peerList : PeerList) (haveSeed : Bool)
    (hret : (updatePeer conf env.update input t).1 = 0)
    (hmore : input.checkNeedMorePeers = true) :
    let chosen := choosePeers input env.choose haveSeed (updatePeer conf env.update input t).2
    handle conf env input peerList haveSeed t =
      ⟨0, chosen.output, chosen.haveSeed, chosen.tracker⟩ := by
  simp only [handle, hret, hmore, ne_eq, not_true_eq_false, if_false, if_true]

theorem handle_idle (peerList : PeerList) (haveSeed : Bool)
    (h : ¬ ((updatePeer conf env.update input t).1 = 0 ∧ input.checkNeedMorePeers = true)) :
    (handle conf env input peerList haveSeed t).peerList = peerList := by
  unfold handle
  by_cases hret : (updatePeer conf env.update input t).1 = 0
  · have hmore : ¬ input.checkNeedMorePeers = true := fun hmore => h ⟨hret, hmore⟩
    simp only [hret, ne_eq, not_true_eq_false, if_false, hmore, Bool.false_eq_true]
  · simp only [ne_eq, hret, not_false_eq_true, if_true]

/-- When peers are chosen, the flag of the answer is set precisely when its list has a
seed. -/
theorem handle_haveSeed_iff (peerList : PeerList)
    (hret : (updatePeer conf env.update input t).1 = 0)
    (hmore : input.checkNeedMorePeers = true) :
    (handle conf env input peerList false t).haveSeed = true ↔
      ∃ p ∈ (handle conf env input peerList false t).peerList, p.isASeed = true := by
  have hexact := flagExact_choosePeers input env.choose (updatePeer conf env.update input t).2
  rw [handle_choosing conf env input t peerList false hret hmore]
  unfold FlagExact at hexact
  simp only
  rw [hexact, List.any_eq_true]

theorem handle_haveSeed_one_seed :
    (handle defaultConf (plainEnv 101 0) downloader.val [] false
      (final (runNext defaultConf) Tracker.empty oneSeed)).haveSeed = true ↔
    ∃ p ∈ (handle defaultConf (plainEnv 101 0) downloader.val [] false
      (final (runNext defaultConf) Tracker.empty oneSeed)).peerList, p.isASeed = true :=
  handle_haveSeed_iff defaultConf (plainEnv 101 0) downloader.val _ [] (by decide) (by decide)

end Answers

section Lengths

variable (lock : PeerRef → Option PeerInfo) (input : PeerInfo) (draws : ChooseDraws)

/-- The seed lists add one peer at most, and a seed if all their peers are seeds. -/
theorem localSeed_length (chosen : Choice) :
    (chooseLocalSeed lock input draws chosen).output.length ≤ chosen.output.length + 1 ∧
      ((∀ idc ref p, (idc, ref) ∈ filed chosen.info.idcToSeedVector → lock ref = some p →
          p.isASeed = true) →
        (chooseLocalSeed lock input draws chosen).haveSeed = true ∨
          (chooseLocalSeed lock input draws chosen).output = chosen.output) := by
  obtain ⟨refs, hseeds, hone, _, hfiled⟩ := chooseLocalSeed_adds lock input draws chosen
  constructor
  · rw [hseeds.length]
    omega
  · intro hcurrent
    cases refs with
    | nil => exact Or.inr (by rw [hseeds.output, List.map_nil, List.append_nil])
    | cons ref rest =>
      obtain ⟨idc, hin⟩ := hfiled ref (List.mem_cons_self ..)
      obtain ⟨p, hlock, _⟩ := hseeds.pickable ref (List.mem_cons_self ..)
      have hseed : (pick lock ref).isASeed = true := by
        rw [pick_of_lock lock ref p hlock]
        exact hcurrent idc ref p hin hlock
      exact Or.inl (by simp [hseeds.haveSeed, pickedSeed, hseed])

/-- The local part of an answer. -/
theorem local_length (haveSeed : Bool) (t : Tracker) :
    (chooseFromLocal input draws haveSeed t).output.length ≤
        input.getWantNumber.toInt.toNat + 1 ∧
      ((∀ info, t.localInfoHashMap.lookup input.base64InfoHash = some info → SeedsCurrent info) →
        (chooseFromLocal input draws haveSeed t).haveSeed = true ∨
          (chooseFromLocal input draws haveSeed t).output.length ≤
            input.getWantNumber.toInt.toNat) := by
  unfold chooseFromLocal
  cases hlook : t.localInfoHashMap.lookup input.base64InfoHash with
  | none => exact ⟨Nat.zero_le _, fun _ => Or.inr (Nat.zero_le _)⟩
  | some info =>
    obtain ⟨refs, hadds, hmost, _⟩ := chooseLocalPeers_adds info.lockPeer input draws haveSeed info
    have hpeers : (chooseLocalPeers info.lockPeer input draws haveSeed info).output.length ≤
        input.getWantNumber.toInt.toNat := by
      rw [hadds.length]
      exact (Nat.zero_add _).trans_le hmost
    obtain ⟨hone, hseed⟩ := localSeed_length info.lockPeer input draws
      (chooseLocalPeers info.lockPeer input draws haveSeed info)
    refine ⟨hone.trans (Nat.succ_le_succ hpeers), fun hcurrent => ?_⟩
    rcases hseed (hcurrent info rfl) with hfound | hsame
    · exact Or.inl hfound
    · right
      simp only [hsame]
      exact hpeers

theorem remote_length (c : Chosen) :
    (chooseFromRemote input draws c).output.length ≤ max c.output.length 10 + 1 := by
  unfold chooseFromRemote
  simp only
  split
  · exact (Nat.le_max_left _ 10).trans (Nat.le_add_right _ 1)
  · rename_i info hlook
    obtain ⟨refs, hpeers, hten, _⟩ := chooseRemotePeers_adds info.lockPeer input draws
      ⟨info, c.output, c.haveSeed⟩
    obtain ⟨seeds, hseeds, hone, _⟩ := chooseRemoteSeed_adds info.lockPeer input draws
      (chooseRemotePeers info.lockPeer input draws ⟨info, c.output, c.haveSeed⟩)
    rw [hseeds.length, hpeers.length]
    have hfill : c.output.length + refs.length ≤ max c.output.length 10 := by
      by_cases hnone : refs = []
      · rw [hnone, List.length_nil]
        omega
      · have hfull : c.output.length + refs.length ≤ 10 := hten hnone
        omega
    exact Nat.add_le_add hfill hone

theorem choosePeers_length (haveSeed : Bool) (t : Tracker) :
    ((choosePeers input draws haveSeed t).output.length : ℤ) ≤
        max (input.getWantNumber.toInt + 2) 11 ∧
      ((∀ info, t.localInfoHashMap.lookup input.base64InfoHash = some info → SeedsCurrent info) →
        ((choosePeers input draws haveSeed t).output.length : ℤ) ≤
          max (input.getWantNumber.toInt + 1) 11) := by
  obtain ⟨hlocal, hseeds⟩ := local_length input draws haveSeed t
  have hremote := remote_length input draws (chooseFromLocal input draws haveSeed t)
  simp only [choosePeers]
  split
  · omega
  · rename_i hgoes
    refine ⟨by omega, fun hcurrent => ?_⟩
    rcases hseeds hcurrent with hfound | hfew
    · -- a seed without a peer cannot be, so the local part is empty here
      simp only [hfound, Bool.and_true, Bool.or_eq_true, decide_eq_true_eq, not_or] at hgoes
      omega
    · omega

end Lengths

def announces (peerid : ByteString) (isSeed : Bool) (numWant : BitVec 32) : Announce :=
  ⟨requested [1] peerid [3] .download isSeed numWant, requested_announce ..⟩

def otherSeed : PublishedValues (announces [30] true 0).val.base64InfoHash where
  peers := [announces [30] true 0]
  published p hp := by rw [List.mem_singleton.mp hp]
  distinct := List.nodup_singleton _

/-- Ten peers register in the requester's room, the first of them as a seed that it then
is no longer, and a seed is published by another tracker. -/
def crowd : List RunEvent :=
  .update (announces [10] true 0) (plainEnv 100 0).update ::
    (List.range 10).map (fun n =>
      .update (announces [UInt8.ofNat (10 + n)] false 0) (plainEnv 101 0).update) ++
    [.synchronize _ otherSeed 102]

theorem crowd_decodes : ∀ e ∈ crowd, Decodes defaultConf.codec e := by
  intro e he
  simp only [crowd, List.mem_append, List.mem_cons, List.mem_map, List.not_mem_nil,
    or_false] at he
  rcases he with (rfl | ⟨n, _, rfl⟩) | rfl
  · trivial
  · trivial
  · intro p hp
    rw [List.mem_singleton.mp hp]
    decide

end Gingko.AnnounceAnswers
