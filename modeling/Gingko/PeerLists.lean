import Gingko.ChoiceScans
import Gingko.TrackerRuns

/-!
The list of peers an announce is answered with. It is put together from two
scans of the local lists and two of the remote ones, and nothing compares the
local part with the remote part, so a peer can come from both. Within one part
the references are distinct, and peers of distinct references have distinct
identifiers.
-/
namespace Gingko.PeerLists

open KeyedMaps Base64Codec PeerRecords RandomDraws PeerUpdates PeerScans ScanPicks TrackerState
  TrackerRuns GuardedRuns ChoiceScans

/-- The part of the list that the scan of all local lists contributes. -/
def firstScan (input : PeerInfo) (draws : ChooseDraws) (haveSeed : Bool) (t : Tracker) : PeerList :=
  match t.localInfoHashMap.lookup input.base64InfoHash with
  | none => []
  | some info => (chooseLocalPeers info.lockPeer input draws haveSeed info).output

/-- The part that both scans of the local lists contribute. -/
def localScans (input : PeerInfo) (draws : ChooseDraws) (haveSeed : Bool) (t : Tracker) : PeerList :=
  (chooseFromLocal input draws haveSeed t).output

/-- No scan of a local list starts behind a dead reference. -/
def LocalStartsLive (input : PeerInfo) (draws : ChooseDraws) (t : Tracker) : Prop :=
  ∀ info, t.localInfoHashMap.lookup input.base64InfoHash = some info →
    StartsLive info.lockPeer draws.peerVisit.start info.idcToPeerVector

section Entry

variable (info : SingleInfoHashInfo) (input : PeerInfo)

/-- A local pick is a stored peer under its own key. -/
theorem local_pickable (hok : LocalOk info) (ref : PeerRef)
    (h : Pickable input.base64PeerId info.lockPeer ref) :
    (info.peers ref).Keyed ∧ (pick info.lockPeer ref).getPeerId = (info.peers ref).getPeerId ∧
      info.peerMap.lookup (info.peers ref).base64PeerId = some ref ∧
        input.base64PeerId ≠ (info.peers ref).base64PeerId := by
  obtain ⟨p, hlock, hinit, hself⟩ := h
  obtain ⟨rfl, key, hkey⟩ := lockPeer_eq_some info ref p hlock
  obtain ⟨hkeyed, hown⟩ := hok.stored key ref hkey hinit
  refine ⟨hkeyed, ?_, ?_, hself⟩
  · rw [pick_of_lock info.lockPeer ref _ hlock]
    rfl
  · rw [hown]
    exact hkey

theorem local_pick_ne_self (hok : LocalOk info) (hkeyed : input.Keyed) (ref : PeerRef)
    (h : Pickable input.base64PeerId info.lockPeer ref) :
    (pick info.lockPeer ref).getPeerId ≠ input.getPeerId := by
  obtain ⟨hstored, hid, _, hself⟩ := local_pickable info input hok ref h
  rw [hid]
  intro heq
  exact hself ((PeerInfo.Keyed.peerId_inj _ _ hkeyed hstored).mpr heq.symm)

theorem local_pick_inj (hok : LocalOk info) (ref ref' : PeerRef)
    (h : Pickable input.base64PeerId info.lockPeer ref)
    (h' : Pickable input.base64PeerId info.lockPeer ref')
    (heq : (pick info.lockPeer ref).getPeerId = (pick info.lockPeer ref').getPeerId) :
    ref = ref' := by
  obtain ⟨hkeyed, hid, hlook, _⟩ := local_pickable info input hok ref h
  obtain ⟨hkeyed', hid', hlook', _⟩ := local_pickable info input hok ref' h'
  rw [hid, hid'] at heq
  have hkeys := (PeerInfo.Keyed.peerId_inj _ _ hkeyed hkeyed').mpr heq
  rw [hkeys, hlook'] at hlook
  exact (Option.some.inj hlook).symm

/-- A remote pick is a live peer whose identifier leads back to it. -/
theorem remote_pick_inj (hok : RemoteOk info) (self : ByteString) (ref ref' : PeerRef)
    (hmem : ref ∈ info.peerVec ∨ ref ∈ info.peerSeedVec)
    (hmem' : ref' ∈ info.peerVec ∨ ref' ∈ info.peerSeedVec)
    (h : Pickable self info.lockPeer ref) (h' : Pickable self info.lockPeer ref')
    (heq : (pick info.lockPeer ref).getPeerId = (pick info.lockPeer ref').getPeerId) :
    ref = ref' := by
  obtain ⟨p, hlock, _, _⟩ := h
  obtain ⟨p', hlock', _, _⟩ := h'
  rw [pick_of_lock _ _ _ hlock, pick_of_lock _ _ _ hlock'] at heq
  obtain ⟨rfl, _⟩ := lockPeer_eq_some info ref p hlock
  obtain ⟨rfl, _⟩ := lockPeer_eq_some info ref' p' hlock'
  have hown := hok.own ref hmem
  have hown' := hok.own ref' hmem'
  change (info.peers ref).getPeerId = (info.peers ref').getPeerId at heq
  rw [heq, hown'] at hown
  exact (Option.some.inj hown).symm

theorem remote_live (hok : RemoteOk info) (ref : PeerRef)
    (hmem : ref ∈ info.peerVec ∨ ref ∈ info.peerSeedVec) : (info.lockPeer ref).isSome = true := by
  have hvalue : ref ∈ Dict.values info.peerMap :=
    (Dict.mem_values_iff _ _).mpr ⟨_, hok.own ref hmem⟩
  rw [SingleInfoHashInfo.lockPeer, if_pos hvalue]
  rfl

end Entry

theorem nodup_pick_ids (lock : PeerRef → Option PeerInfo) (refs : List PeerRef)
    (hnodup : refs.Nodup)
    (hinj : ∀ ref ∈ refs, ∀ ref' ∈ refs,
      (pick lock ref).getPeerId = (pick lock ref').getPeerId → ref = ref') :
    ((refs.map (pick lock)).map PeerInfo.getPeerId).Nodup := by
  rw [List.map_map]
  exact hnodup.map_on hinj

theorem nodup_of_length_le_one (refs : List PeerRef) (h : refs.length ≤ 1) : refs.Nodup := by
  cases refs with
  | nil => exact List.nodup_nil
  | cons ref rest =>
    have hrest : rest = [] := List.length_eq_zero_iff.mp (by
      rw [List.length_cons] at h
      omega)
    rw [hrest]
    exact List.nodup_singleton ref

/-- The conclusion about the local part of a list. -/
structure LocalPart (input : PeerInfo) (first seeds : PeerList) (startsLive : Prop) : Prop where
  others : ∀ p ∈ first ++ seeds, p.getPeerId ≠ input.getPeerId
  single : seeds.length ≤ 1
  distinct : startsLive → (first.map PeerInfo.getPeerId).Nodup
  seedsNew : ∀ p ∈ seeds, p.isASeed = true → p.getPeerId ∉ first.map PeerInfo.getPeerId

section Parts

variable (info : SingleInfoHashInfo) (input : PeerInfo) (draws : ChooseDraws) (haveSeed : Bool)

/-- The local scans of one entry. -/
theorem localPart_entry (hok : LocalOk info) (hkeyed : input.Keyed) :
    ∃ seeds, (chooseLocalSeed info.lockPeer input draws
        (chooseLocalPeers info.lockPeer input draws haveSeed info)).output =
        (chooseLocalPeers info.lockPeer input draws haveSeed info).output ++ seeds ∧
      LocalPart input (chooseLocalPeers info.lockPeer input draws haveSeed info).output seeds
        (StartsLive info.lockPeer draws.peerVisit.start info.idcToPeerVector) := by
  obtain ⟨refs, hfirst, _, hnodup⟩ := chooseLocalPeers_adds info.lockPeer input draws haveSeed info
  have hlists : (chooseLocalPeers info.lockPeer input draws haveSeed info).output =
      refs.map (pick info.lockPeer) := hfirst.output
  have hothers : ∀ rs : List PeerRef, (∀ ref ∈ rs, Pickable input.base64PeerId info.lockPeer ref) →
      ∀ p ∈ rs.map (pick info.lockPeer), p.getPeerId ≠ input.getPeerId := by
    intro rs hpick p hp
    obtain ⟨ref, href, rfl⟩ := List.mem_map.mp hp
    exact local_pick_ne_self info input hok hkeyed ref (hpick ref href)
  obtain ⟨seeds, hseeds, hone, hunless, _⟩ := chooseLocalSeed_adds info.lockPeer input draws
    (chooseLocalPeers info.lockPeer input draws haveSeed info)
  refine ⟨seeds.map (pick info.lockPeer), hseeds.output, ?_⟩
  rw [hlists]
  refine ⟨?_, ?_, ?_, ?_⟩
  · intro p hp
    rcases List.mem_append.mp hp with hold | hnew
    · exact hothers refs hfirst.pickable p hold
    · exact hothers seeds hseeds.pickable p hnew
  · rw [List.length_map]
    exact hone
  · intro hlive
    apply nodup_pick_ids info.lockPeer refs (hnodup hlive hok.apart)
    intro ref href ref' href' heq
    exact local_pick_inj info input hok ref ref' (hfirst.pickable ref href)
      (hfirst.pickable ref' href') heq
  · intro p hp hpseed hin
    obtain ⟨ref, href, rfl⟩ := List.mem_map.mp hp
    obtain ⟨q, hq, hids⟩ := List.mem_map.mp hin
    obtain ⟨ref', href', rfl⟩ := List.mem_map.mp hq
    have hsame := local_pick_inj info input hok ref' ref (hfirst.pickable ref' href')
      (hseeds.pickable ref href) hids
    subst hsame
    have hpicked : pickedSeed info.lockPeer refs = true :=
      List.any_eq_true.mpr ⟨ref', href', hpseed⟩
    have hflag := hunless (List.ne_nil_of_mem href)
    rw [hfirst.haveSeed, hpicked, Bool.or_true] at hflag
    contradiction

/-- The remote scans of one entry. -/
theorem remotePart_entry (hok : RemoteOk info) (output : PeerList) :
    ∃ remote, (chooseRemoteSeed info.lockPeer input draws
        (chooseRemotePeers info.lockPeer input draws ⟨info, output, haveSeed⟩)).output =
        output ++ remote ∧ (remote.map PeerInfo.getPeerId).Nodup := by
  have hinfo : (chooseRemotePeers info.lockPeer input draws
      ⟨info, output, haveSeed⟩).info.peerSeedVec = info.peerSeedVec := by
    unfold chooseRemotePeers
    split <;> rfl
  obtain ⟨refs, hpeers, _, hlist, hnodup⟩ := chooseRemotePeers_adds info.lockPeer input draws
    ⟨info, output, haveSeed⟩
  obtain ⟨seeds, hseeds, hone, hunless, hseedList⟩ := chooseRemoteSeed_adds info.lockPeer input
    draws (chooseRemotePeers info.lockPeer input draws ⟨info, output, haveSeed⟩)
  rw [hinfo] at hseedList
  have hboth := hpeers.trans hseeds
  refine ⟨(refs ++ seeds).map (pick info.lockPeer), hboth.output, ?_⟩
  have hlive : refs.Nodup := by
    refine hnodup ?_ hok.nodup
    intro ref href
    exact remote_live info hok ref (Or.inl (List.mem_of_mem_take href))
  have hnew : ∀ ref ∈ refs, ∀ ref' ∈ seeds, ref ≠ ref' := by
    intro ref href ref' href' heq
    subst heq
    obtain ⟨p, hlock, _, _⟩ := hpeers.pickable ref href
    have hpicked : pickedSeed info.lockPeer refs = true := by
      refine List.any_eq_true.mpr ⟨ref, href, ?_⟩
      rw [pick_of_lock _ _ _ hlock]
      obtain ⟨rfl, _⟩ := lockPeer_eq_some info ref p hlock
      exact hok.seeds ref (hseedList ref href')
    have hflag := hunless (List.ne_nil_of_mem href')
    rw [hpeers.haveSeed, hpicked, Bool.or_true] at hflag
    contradiction
  have hmem : ∀ ref ∈ refs ++ seeds, ref ∈ info.peerVec ∨ ref ∈ info.peerSeedVec := by
    intro ref href
    rcases List.mem_append.mp href with hold | hnew
    · exact Or.inl (hlist ref hold)
    · exact Or.inr (hseedList ref hnew)
  apply nodup_pick_ids info.lockPeer _ (List.nodup_append.mpr
    ⟨hlive, nodup_of_length_le_one seeds hone, hnew⟩)
  intro ref href ref' href' heq
  exact remote_pick_inj info hok input.base64PeerId ref ref' (hmem ref href) (hmem ref' href')
    (hboth.pickable ref href) (hboth.pickable ref' href') heq

end Parts

/-- The list of any reached state. Local peers are never the requester; the scan
of all local lists repeats no identifier unless it starts behind a dead
reference; a seed added from the seed lists is new; the remote part repeats no
identifier. -/
theorem peer_list_parts (conf : TrackerConf) (events : List RunEvent)
    (hdecode : ∀ e ∈ events, Decodes conf.codec e) (input : Announce) (draws : ChooseDraws)
    (haveSeed : Bool) :
    let t := final (runNext conf) Tracker.empty events
    ∃ seeds remote,
      localScans input.val draws haveSeed t = firstScan input.val draws haveSeed t ++ seeds ∧
      (choosePeers input.val draws haveSeed t).output =
        localScans input.val draws haveSeed t ++ remote ∧
      LocalPart input.val (firstScan input.val draws haveSeed t) seeds
        (LocalStartsLive input.val draws t) ∧
      (remote.map PeerInfo.getPeerId).Nodup := by
  intro t
  have hlocals : LocalsOk t := localsOk_final conf events
  have hremotes : RemotesOk t := remotesOk_final conf events hdecode
  have hlocal : ∃ seeds,
      localScans input.val draws haveSeed t = firstScan input.val draws haveSeed t ++ seeds ∧
      LocalPart input.val (firstScan input.val draws haveSeed t) seeds
        (LocalStartsLive input.val draws t) := by
    unfold localScans firstScan chooseFromLocal LocalStartsLive
    cases hlook : t.localInfoHashMap.lookup input.val.base64InfoHash with
    | none => exact ⟨[], rfl, by simp, by simp, by simp, by simp⟩
    | some info =>
      obtain ⟨seeds, hout, hpart⟩ := localPart_entry info input.val draws haveSeed
        (hlocals _ info hlook) input.property.1
      refine ⟨seeds, hout, hpart.others, hpart.single, ?_, hpart.seedsNew⟩
      intro hlive
      exact hpart.distinct (hlive info rfl)
  have hremote : ∃ remote, (choosePeers input.val draws haveSeed t).output =
      localScans input.val draws haveSeed t ++ remote ∧ (remote.map PeerInfo.getPeerId).Nodup := by
    have hkept := chooseFromLocal_remote input.val draws haveSeed t
    simp only [choosePeers, localScans]
    split
    · exact ⟨[], (List.append_nil _).symm, List.nodup_nil⟩
    · unfold chooseFromRemote
      simp only
      split
      · exact ⟨[], (List.append_nil _).symm, List.nodup_nil⟩
      · rename_i info hlook
        rw [hkept] at hlook
        exact remotePart_entry info input.val draws _ (hremotes _ info hlook) _
  obtain ⟨seeds, hseeds, hpart⟩ := hlocal
  obtain ⟨remote, hout, hnodup⟩ := hremote
  exact ⟨seeds, remote, hseeds, hout, hpart, hnodup⟩

/-- A downloading requester and a seeding peer that is published. -/
def requester : Announce := ⟨requested [1] [2] [3] .download false 50, requested_announce ..⟩

def seeder : Announce := ⟨requested [1] [4] [3] .seeding false 50, requested_announce ..⟩

def seederValues : PublishedValues seeder.val.base64InfoHash where
  peers := [seeder]
  published p hp := by rw [List.mem_singleton.mp hp]
  distinct := List.nodup_singleton _

/-- Both peers announce, and the published value of the seeding peer comes back. -/
def publishedRun : List RunEvent :=
  [.update seeder (plainEnv 100 0).update, .update requester (plainEnv 101 0).update,
    .synchronize _ seederValues 102]

theorem publishedRun_decodes : ∀ e ∈ publishedRun, Decodes defaultConf.codec e := by
  intro e he
  simp only [publishedRun, List.mem_cons, List.not_mem_nil, or_false] at he
  rcases he with rfl | rfl | rfl
  · trivial
  · trivial
  · intro p hp
    rw [List.mem_singleton.mp hp]
    decide

theorem peer_list_parts_published :
    let t := final (runNext defaultConf) Tracker.empty publishedRun
    let draws := (plainEnv 103 0).choose
    ∃ seeds remote,
      localScans requester.val draws false t = firstScan requester.val draws false t ++ seeds ∧
      (choosePeers requester.val draws false t).output =
        localScans requester.val draws false t ++ remote ∧
      LocalPart requester.val (firstScan requester.val draws false t) seeds
        (LocalStartsLive requester.val draws t) ∧
      (remote.map PeerInfo.getPeerId).Nodup :=
  peer_list_parts defaultConf publishedRun publishedRun_decodes requester
    (plainEnv 103 0).choose false

/-- The seeding peer comes once from the local list and once from the remote one. -/
theorem peer_list_repeats :
    (∀ e ∈ publishedRun, Decodes defaultConf.codec e) ∧
      ¬ ((choosePeers requester.val (plainEnv 103 0).choose false
        (final (runNext defaultConf) Tracker.empty publishedRun)).output.map
          PeerInfo.getPeerId).Nodup := by
  refine ⟨publishedRun_decodes, ?_⟩
  decide +kernel

end Gingko.PeerLists
