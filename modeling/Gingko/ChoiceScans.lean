import Gingko.ScanPicks
import Gingko.TrackerState

/-!
What each of the four scans of a choice adds to it: the local peers, one entry of the
local seed lists, the remote peers and one remote seed.
-/
namespace Gingko.ChoiceScans

open KeyedMaps Base64Codec PeerRecords RandomDraws PeerUpdates PeerScans ScanPicks TrackerState

/-- The choice has grown by copies of live, initialised peers other than the requester,
and its flag is set if there is a seed among them. -/
structure Adds (lock : PeerRef → Option PeerInfo) (selfId : ByteString) (chosen result : Choice)
    (refs : List PeerRef) : Prop where
  output : result.output = chosen.output ++ refs.map (pick lock)
  haveSeed : result.haveSeed = (chosen.haveSeed || pickedSeed lock refs)
  pickable : ∀ ref ∈ refs, Pickable selfId lock ref

section Added

variable {lock : PeerRef → Option PeerInfo} {selfId : ByteString} {chosen result : Choice}
  {refs : List PeerRef}

theorem Adds.length (h : Adds lock selfId chosen result refs) :
    result.output.length = chosen.output.length + refs.length := by
  rw [h.output, List.length_append, List.length_map]

theorem Adds.trans {first : Choice} {before : List PeerRef}
    (hfirst : Adds lock selfId first chosen before) (h : Adds lock selfId chosen result refs) :
    Adds lock selfId first result (before ++ refs) := by
  refine ⟨?_, ?_, ?_⟩
  · rw [h.output, hfirst.output, List.map_append, List.append_assoc]
  · rw [h.haveSeed, hfirst.haveSeed, pickedSeed_append, Bool.or_assoc]
  · intro ref href
    rcases List.mem_append.mp href with hold | hnew
    · exact hfirst.pickable ref hold
    · exact h.pickable ref hnew

end Added

variable (lock : PeerRef → Option PeerInfo) (input : PeerInfo) (draws : ChooseDraws)

theorem adds_nothing (chosen : Choice) : Adds lock input.base64PeerId chosen chosen [] :=
  ⟨(List.append_nil _).symm, (Bool.or_false _).symm, nofun⟩

theorem chooseLocalPeers_adds (haveSeed : Bool) (info : SingleInfoHashInfo) :
    ∃ refs, Adds lock input.base64PeerId ⟨info, [], haveSeed⟩
        (chooseLocalPeers lock input draws haveSeed info) refs ∧
      refs.length ≤ input.getWantNumber.toInt.toNat ∧
      (StartsLive lock draws.peerVisit.start info.idcToPeerVector →
        ListsApart info.idcToPeerVector → refs.Nodup) := by
  obtain ⟨hlow, hhigh⟩ := bitVec_toInt_range input.getWantNumber
  obtain ⟨seen, refs, hrefs⟩ := visitIdcToPeers_picks input.base64PeerId lock
    info.idcToPeerVector haveSeed input.getIdc input.getWantNumber.toInt hlow hhigh draws.peerVisit
  exact ⟨refs, ⟨hrefs.output, hrefs.seed, fun ref href => (hrefs.pickable ref href).2⟩,
    hrefs.length, hrefs.nodup⟩

/-- The visit of the seed lists is for one peer, and only as long as there is no seed. -/
theorem chooseLocalSeed_adds (chosen : Choice) :
    ∃ refs, Adds lock input.base64PeerId chosen (chooseLocalSeed lock input draws chosen) refs ∧
      refs.length ≤ 1 ∧ (refs ≠ [] → chosen.haveSeed = false) ∧
      ∀ ref ∈ refs, ∃ idc, (idc, ref) ∈ filed chosen.info.idcToSeedVector := by
  unfold chooseLocalSeed
  split
  · rename_i hscan
    obtain ⟨seen, refs, hrefs⟩ := visitIdcToPeers_picks input.base64PeerId lock
      chosen.info.idcToSeedVector chosen.haveSeed input.getIdc 1 (by omega) (by omega)
      draws.seedVisit
    refine ⟨refs, ⟨?_, hrefs.seed, fun ref href => (hrefs.pickable ref href).2⟩, hrefs.length,
      ?_, ?_⟩
    · simp only [hrefs.output]
    · intro _
      simp only [Bool.and_eq_true, Bool.not_eq_true'] at hscan
      exact hscan.1
    · intro ref href
      obtain ⟨⟨idc, _, hfiled⟩, _⟩ := hrefs.pickable ref href
      exact ⟨idc, hfiled⟩
  · exact ⟨[], adds_nothing lock input chosen, Nat.zero_le 1, nofun, nofun⟩

/-- The scan of the remote peers fills the list up to ten. -/
theorem chooseRemotePeers_adds (chosen : Choice) :
    ∃ refs, Adds lock input.base64PeerId chosen (chooseRemotePeers lock input draws chosen) refs ∧
      (refs ≠ [] → chosen.output.length + refs.length ≤ 10) ∧
      (∀ ref ∈ refs, ref ∈ chosen.info.peerVec) ∧
      (StartLive lock (getRandomNumber (chosen.info.peerVec.length - 1) draws.remoteStart).toNat
        chosen.info.peerVec → chosen.info.peerVec.Nodup → refs.Nodup) := by
  unfold chooseRemotePeers
  split
  · rename_i hfew
    obtain ⟨refs, hrefs, hnodup⟩ := choosePeersByMap_picks input.base64PeerId lock
      draws.remoteStart chosen.info.peerVec (10 - chosen.output.length) chosen.output
      chosen.haveSeed
    refine ⟨refs, ⟨hrefs.output, hrefs.seed, fun ref href => (hrefs.pickable ref href).2⟩, ?_,
      fun ref href => (hrefs.pickable ref href).1, hnodup⟩
    intro _
    have hbound := hrefs.length_le input.base64PeerId lock (10 - chosen.output.length) (by omega)
    omega
  · exact ⟨[], adds_nothing lock input chosen, nofun, nofun, fun _ _ => List.nodup_nil⟩

/-- The scan of the remote seeds is for one peer, and only as long as there is no seed. -/
theorem chooseRemoteSeed_adds (chosen : Choice) :
    ∃ refs, Adds lock input.base64PeerId chosen (chooseRemoteSeed lock input draws chosen) refs ∧
      refs.length ≤ 1 ∧ (refs ≠ [] → chosen.haveSeed = false) ∧
      ∀ ref ∈ refs, ref ∈ chosen.info.peerSeedVec := by
  unfold chooseRemoteSeed
  split
  · rename_i hscan
    obtain ⟨refs, hrefs, _⟩ := choosePeersByMap_picks input.base64PeerId lock
      draws.remoteSeedStart chosen.info.peerSeedVec 1 chosen.output chosen.haveSeed
    refine ⟨refs, ⟨hrefs.output, hrefs.seed, fun ref href => (hrefs.pickable ref href).2⟩,
      hrefs.length_le input.base64PeerId lock 1 (by omega), ?_,
      fun ref href => (hrefs.pickable ref href).1⟩
    intro _
    simp only [Bool.and_eq_true, Bool.not_eq_true'] at hscan
    exact hscan.1
  · exact ⟨[], adds_nothing lock input chosen, Nat.zero_le 1, nofun, nofun⟩

end Gingko.ChoiceScans
