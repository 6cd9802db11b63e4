import Gingko.RemoteCounts

/-!
The publish lottery. The chance of a seeding peer halves with every published
one, by a shift of a 32-bit one. From 31 published peers on the shifted bit
reaches the sign or leaves the word, and the draw is no longer the one meant.
-/
namespace Gingko.PublishLotteries

open KeyedMaps Base64Codec PeerRecords RandomDraws PeerUpdates TrackerState RemoteCounts

theorem shiftOne_of_lt (n : UInt64) (h : n.toNat % 32 < 31) :
    shiftOne n = (2 ^ (n.toNat % 32) : ℕ) := by
  unfold shiftOne
  generalize n.toNat % 32 = k at h ⊢
  have hpow : 2 ^ k < 2 ^ 31 := Nat.pow_lt_pow_right (by omega) h
  have hshift : (BitVec.ofNat 32 1 <<< k).toNat = 2 ^ k := by
    rw [BitVec.toNat_shiftLeft, Nat.shiftLeft_eq]
    show 1 * 2 ^ k % 2 ^ 32 = 2 ^ k
    rw [Nat.one_mul, Nat.mod_eq_of_lt (by omega)]
  rw [BitVec.toInt_eq_toNat_of_lt (by omega), hshift]

theorem shiftOne_sign (n : UInt64) (h : n.toNat % 32 = 31) : shiftOne n = -2 ^ 31 := by
  unfold shiftOne
  rw [h]
  rfl

theorem ifSetPeerRemote_of_lt (n : UInt64) (raw : ℕ) (h : n.toNat % 32 < 31) :
    ifSetPeerRemote n raw = true ↔ raw % 2 ^ (n.toNat % 32) ≤ 1 := by
  unfold ifSetPeerRemote
  rw [shiftOne_of_lt n h]
  have hpos : 0 < 2 ^ (n.toNat % 32) := Nat.two_pow_pos _
  generalize 2 ^ (n.toNat % 32) = k at hpos ⊢
  have hmod : getRandomNumber (k : ℤ) raw = (raw % k : ℕ) := by
    unfold getRandomNumber
    rw [if_neg (by omega), if_neg (by omega)]
    exact (Int.natCast_emod raw k).symm
  rw [hmod, decide_eq_true_eq]
  omega

theorem ifSetPeerRemote_sign (n : UInt64) (raw : ℕ) (h : n.toNat % 32 = 31) :
    ifSetPeerRemote n raw = true := by
  simp [ifSetPeerRemote, shiftOne_sign n h, getRandomNumber]

/-- The draw is the one meant as long as the shifted bit stays below the sign. -/
theorem lottery_iff (n : UInt64) :
    (∀ raw < 2 ^ 31, ifSetPeerRemote n raw = true ↔ raw % 2 ^ n.toNat ≤ 1) ↔ n.toNat ≤ 30 := by
  constructor
  · intro hlaw
    by_contra hlarge
    -- a raw value of two or more that wins although the power of two exceeds it
    have hwins : ∃ k, 1 ≤ k ∧ k ≤ 30 ∧ ifSetPeerRemote n (2 ^ k) = true := by
      rcases Nat.lt_or_ge (n.toNat % 32) 31 with hlt | hsign
      · by_cases hzero : n.toNat % 32 = 0
        · refine ⟨1, by omega, by omega, (ifSetPeerRemote_of_lt n _ hlt).mpr ?_⟩
          rw [hzero]
          omega
        · refine ⟨n.toNat % 32, by omega, by omega, (ifSetPeerRemote_of_lt n _ hlt).mpr ?_⟩
          rw [Nat.mod_self]
          omega
      · exact ⟨1, by omega, by omega, ifSetPeerRemote_sign n _ (by omega)⟩
    obtain ⟨k, hk, hsmall, hwin⟩ := hwins
    have hbound : 2 ^ k < 2 ^ 31 := Nat.pow_lt_pow_right (by omega) (by omega)
    have hbelow : 2 ^ k < 2 ^ n.toNat := Nat.pow_lt_pow_right (by omega) (by omega)
    have htwo : 2 ^ 1 ≤ 2 ^ k := Nat.pow_le_pow_right (by omega) hk
    have hlow := (hlaw (2 ^ k) hbound).mp hwin
    rw [Nat.mod_eq_of_lt hbelow] at hlow
    omega
  · intro hsmall raw _
    have hmod : n.toNat % 32 = n.toNat := Nat.mod_eq_of_lt (by omega)
    have hiff := ifSetPeerRemote_of_lt n raw (by omega)
    rwa [hmod] at hiff

/-- A raw value that wins for more published peers also wins for fewer. -/
theorem lottery_antitone (n m raw : ℕ) (h : n ≤ m) (hwin : raw % 2 ^ m ≤ 1) :
    raw % 2 ^ n ≤ 1 := by
  have hdvd : 2 ^ n ∣ 2 ^ m := Nat.pow_dvd_pow 2 h
  have hmod : raw % 2 ^ n = raw % 2 ^ m % 2 ^ n := (Nat.mod_mod_of_dvd raw hdvd).symm
  rw [hmod]
  exact (Nat.mod_le _ _).trans hwin

/-- The announce of a seeding peer that is no seed, is not published yet and is
not refused: it reaches the lottery and depends on it. -/
structure Drawing (input : PeerInfo) (info : SingleInfoHashInfo) : Prop where
  seeding : input.isSeeding = true
  noSeed : input.isASeed = false
  unpublished : storedFlag input info = false
  accepted : info.needStop = false

/-- The update queues the commands that publish the peer and flags it. -/
def Published (conf : TrackerConf) (env : UpdateEnv) (input : PeerInfo)
    (info : SingleInfoHashInfo) : Prop :=
  (updatePeerEntry conf env input info).commands = (setPeerRemote conf input).2 ∧
    storedFlag input (updatePeerEntry conf env input info).info = true

theorem Drawing.goesOn {input : PeerInfo} {info : SingleInfoHashInfo} (h : Drawing input info) :
    input.checkToStop = false := by
  have hseeding := h.seeding
  have hseed := h.noSeed
  unfold PeerInfo.isASeed at hseed
  rw [PeerInfo.isSeeding, hseed, Bool.false_or, decide_eq_true_eq] at hseeding
  simp [PeerInfo.checkToStop, hseeding]

theorem storedFlag_acceptPeer (conf : TrackerConf) (env : UpdateEnv) (input : PeerInfo)
    (ref : PeerRef) (new : Bool) (info : SingleInfoHashInfo)
    (hsome : info.peerMap.lookup input.base64PeerId = some ref) :
    storedFlag input (acceptPeer conf env input ref new info) =
      ((info.peers ref).isSetRemote || wantsPublish input env.lottery ref info) := by
  simp only [storedFlag, acceptPeer_peerMap, hsome, isSetRemote_acceptPeer, if_true]

section Draw

variable (conf : TrackerConf) (env : UpdateEnv) (input : PeerInfo) (info : SingleInfoHashInfo)

theorem Drawing.wantsPublish_iff (h : Drawing input info) (ref : PeerRef)
    (hflag : (info.peers ref).isSetRemote = false) :
    wantsPublish input env.lottery ref info = ifSetPeerRemote info.remotePeerCount env.lottery := by
  simp [wantsPublish, hflag, h.noSeed, h.seeding]

/-- A drawing announce is published when it wins, and otherwise nothing is sent
and no flag is set. -/
theorem Drawing.update (h : Drawing input info) :
    (updatePeerEntry conf env input info).commands =
        (if ifSetPeerRemote info.remotePeerCount env.lottery then (setPeerRemote conf input).2
          else []) ∧
      storedFlag input (updatePeerEntry conf env input info).info =
        ifSetPeerRemote info.remotePeerCount env.lottery := by
  have hflag := h.unpublished
  unfold storedFlag at hflag
  unfold updatePeerEntry preHandlePeerInfo
  cases hlook : info.peerMap.lookup input.base64PeerId with
  | none =>
    have hnew : Drawing input (info.insertPeer input.base64PeerId) := by
      refine ⟨h.seeding, h.noSeed, ?_, h.accepted⟩
      simp [storedFlag, SingleInfoHashInfo.insertPeer]
    have hfresh :
        ((info.insertPeer input.base64PeerId).peers info.nextRef).isSetRemote = false := by
      simp [SingleInfoHashInfo.insertPeer]
    have hwant := hnew.wantsPublish_iff env input _ info.nextRef hfresh
    have haccept : ((info.insertPeer input.base64PeerId).needStop && !input.isASeed) = false := by
      simp [SingleInfoHashInfo.insertPeer, h.accepted]
    simp only [h.goesOn, Bool.false_eq_true, if_false, haccept]
    refine ⟨?_, ?_⟩
    · rw [publishPeer_commands, wantsPublish_fillPeerInfo, hwant]
      rfl
    · have hstored := storedFlag_acceptPeer conf env input info.nextRef true
        (info.insertPeer input.base64PeerId) (AList.lookup_insert _)
      rw [hfresh, hwant, Bool.false_or] at hstored
      exact hstored
  | some ref =>
    simp only [hlook] at hflag
    have hwant := h.wantsPublish_iff env input info ref hflag
    have haccept : (info.needStop && !input.isASeed) = false := by simp [h.accepted]
    simp only [h.goesOn, Bool.false_eq_true, if_false, haccept]
    refine ⟨?_, ?_⟩
    · rw [publishPeer_commands, wantsPublish_fillPeerInfo, hwant]
      rfl
    · have hstored := storedFlag_acceptPeer conf env input ref false info hlook
      rw [hflag, hwant, Bool.false_or] at hstored
      exact hstored

theorem Drawing.published_iff (h : Drawing input info) :
    Published conf env input info ↔ ifSetPeerRemote info.remotePeerCount env.lottery = true := by
  obtain ⟨hsent, hflag⟩ := h.update conf env input info
  unfold Published
  rw [hsent, hflag]
  constructor
  · intro hpublished
    exact hpublished.2
  · intro hwin
    rw [if_pos hwin]
    exact ⟨rfl, hwin⟩

/-- With raw values below 2^31, as `rand_r` returns them, the lottery follows its
law precisely up to 30 published peers, and there a raw value that publishes
still does so with fewer published peers. -/
theorem publish_lottery_iff (h : Drawing input info) :
    ((∀ raw < 2 ^ 31, Published conf { env with lottery := raw } input info ↔
        raw % 2 ^ info.remotePeerCount.toNat ≤ 1) ↔ info.remotePeerCount.toNat ≤ 30) ∧
      (info.remotePeerCount.toNat ≤ 30 → ∀ fewer : UInt64,
        fewer.toNat ≤ info.remotePeerCount.toNat → ∀ raw < 2 ^ 31,
          Published conf { env with lottery := raw } input info →
          Published conf { env with lottery := raw } input
            { info with remotePeerCount := fewer }) := by
  have hlaw := lottery_iff info.remotePeerCount
  refine ⟨?_, ?_⟩
  · rw [← hlaw]
    constructor
    · intro hall raw hraw
      rw [← h.published_iff conf { env with lottery := raw } input info]
      exact hall raw hraw
    · intro hall raw hraw
      rw [h.published_iff conf { env with lottery := raw } input info]
      exact hall raw hraw
  · intro hsmall fewer hfewer raw hraw hpublished
    have hdrawing : Drawing input { info with remotePeerCount := fewer } :=
      ⟨h.seeding, h.noSeed, h.unpublished, h.accepted⟩
    rw [h.published_iff] at hpublished
    rw [hdrawing.published_iff]
    have hwin := ((lottery_iff info.remotePeerCount).mpr hsmall raw hraw).mp hpublished
    apply ((lottery_iff fewer).mpr (hfewer.trans hsmall) raw hraw).mpr
    exact lottery_antitone fewer.toNat info.remotePeerCount.toNat raw hfewer hwin

end Draw

/-- An entry without peers that counts three published ones. -/
def threePublished : SingleInfoHashInfo :=
  { SingleInfoHashInfo.new 100 with remotePeerCount := 3 }

theorem drawing_newcomer (count : UInt64) :
    Drawing (requested [1] [2] [3] .seeding false 50)
      { SingleInfoHashInfo.new 100 with remotePeerCount := count } where
  seeding := by decide
  noSeed := by decide
  unpublished := by simp [storedFlag, SingleInfoHashInfo.new]
  accepted := rfl

theorem publish_lottery_iff_three :
    let input := requested [1] [2] [3] .seeding false 50
    let env : UpdateEnv := ⟨100, 100, 0⟩
    ((∀ raw < 2 ^ 31, Published defaultConf { env with lottery := raw } input threePublished ↔
        raw % 2 ^ threePublished.remotePeerCount.toNat ≤ 1) ↔
        threePublished.remotePeerCount.toNat ≤ 30) ∧
      (threePublished.remotePeerCount.toNat ≤ 30 → ∀ fewer : UInt64,
        fewer.toNat ≤ threePublished.remotePeerCount.toNat → ∀ raw < 2 ^ 31,
          Published defaultConf { env with lottery := raw } input threePublished →
          Published defaultConf { env with lottery := raw } input
            { threePublished with remotePeerCount := fewer }) :=
  publish_lottery_iff defaultConf ⟨100, 100, 0⟩ (requested [1] [2] [3] .seeding false 50)
    threePublished (drawing_newcomer 3)

/-- With 31 published peers the shifted bit is the sign, and everybody wins. -/
theorem lottery_lost_sign :
    ¬ ∀ (conf : TrackerConf) (env : UpdateEnv) (input : PeerInfo) (info : SingleInfoHashInfo),
      Drawing input info → 1 ≤ info.remotePeerCount.toNat → ∀ raw < 2 ^ 31,
        (Published conf { env with lottery := raw } input info ↔
          raw % 2 ^ info.remotePeerCount.toNat ≤ 1) := by
  intro h
  have hdrawing := drawing_newcomer 31
  have hlaw := h defaultConf ⟨100, 100, 0⟩ _ _ hdrawing (by decide) 2 (by omega)
  rw [hdrawing.published_iff] at hlaw
  have hlow := hlaw.mp (ifSetPeerRemote_sign 31 2 rfl)
  contradiction

end Gingko.PublishLotteries
