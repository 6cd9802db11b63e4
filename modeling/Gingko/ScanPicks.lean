import Gingko.PeerScans
import Mathlib.Data.List.InsertIdx
import Mathlib.Data.List.Rotate

/-!
The peers that scans pick. Every pick is a copy of a live, initialised peer
other than the requester. A walk that erases no reference in front of its
starting point visits the list in rotated order, each reference once; after an
erasure there the walk comes back to references it has passed already.
-/
namespace Gingko.ScanPicks

open KeyedMaps Base64Codec PeerRecords RandomDraws PeerUpdates PeerScans

theorem lockPeer_eq_some (info : SingleInfoHashInfo) (ref : PeerRef) (p : PeerInfo)
    (h : info.lockPeer ref = some p) :
    info.peers ref = p ∧ ∃ key, info.peerMap.lookup key = some ref := by
  unfold SingleInfoHashInfo.lockPeer at h
  split at h
  · rename_i hmem
    exact ⟨Option.some.inj h, (Dict.mem_values_iff _ _).mp hmem⟩
  · contradiction

theorem bitVec_toInt_range (v : BitVec 32) : -2 ^ 31 ≤ v.toInt ∧ v.toInt < 2 ^ 31 := by
  have hlow := BitVec.le_toInt v
  have hhigh := BitVec.toInt_lt (x := v)
  omega

section Scan

variable (selfId : ByteString) (lock : PeerRef → Option PeerInfo)

def pick (ref : PeerRef) : PeerInfo := ((lock ref).getD {}).copy

def Pickable (ref : PeerRef) : Prop :=
  ∃ p, lock ref = some p ∧ p.initialized = true ∧ selfId ≠ p.base64PeerId

def pickedSeed (refs : List PeerRef) : Bool := refs.any (fun ref => (pick lock ref).isASeed)

/-- The references a scan of `peerVec` has picked so far. -/
structure Picks (peerVec : SinglePeerVec) (numWant : ℤ) (output : PeerList) (seed : Bool)
    (refs : List PeerRef) (s : ScanState) : Prop where
  remaining : s.peerVec.Sublist peerVec
  output : s.output = output ++ refs.map (pick lock)
  seed : s.ifSeedInserted = (seed || pickedSeed lock refs)
  pickable : ∀ ref ∈ refs, ref ∈ peerVec ∧ Pickable selfId lock ref
  want : s.numWant + refs.length = numWant
  bounded : refs ≠ [] → 0 ≤ s.numWant

/-- No reference in front of the starting point is dead. -/
def StartLive (start : ℕ) (peerVec : SinglePeerVec) : Prop :=
  ∀ ref ∈ peerVec.take start, (lock ref).isSome = true

/-- The walk has kept the part in front of its start and picked in rotated order. -/
def Rotated (start : ℕ) (peerVec : SinglePeerVec) (refs : List PeerRef) (s : ScanState) : Prop :=
  ∃ rest, s.peerVec = peerVec.take start ++ rest ∧ rest.Sublist (peerVec.drop start) ∧
    refs.Sublist ((rest ++ peerVec.take start).take s.i)

theorem current_eq_rotate (start : ℕ) (s : ScanState) (h : s.i < s.peerVec.length) :
    (s.peerVec.rotate start)[s.i]? = some (current (start : ℤ) s) := by
  have hlt := peerIndex_lt (start : ℤ) s h
  have hindex : peerIndex (start : ℤ) s = (s.i + start) % s.peerVec.length := by
    unfold peerIndex
    rw [← Int.natCast_add, ← Int.natCast_mod, Int.toNat_natCast]
  unfold current
  rw [List.getElem?_rotate h, ← hindex, List.getD_eq_getElem?_getD, List.getElem?_eq_getElem hlt,
    Option.getD_some]

theorem pick_of_lock (ref : PeerRef) (p : PeerInfo) (h : lock ref = some p) :
    pick lock ref = p.copy := by
  rw [pick, h, Option.getD_some]

theorem pickedSeed_append (refs refs' : List PeerRef) :
    pickedSeed lock (refs ++ refs') = (pickedSeed lock refs || pickedSeed lock refs') :=
  List.any_append

section Step

variable (start : ℕ) (peerVec : SinglePeerVec) (numWant : ℤ) (output : PeerList) (seed : Bool)

theorem picks_step (refs : List PeerRef) (s : ScanState) (hi : s.i < s.peerVec.length)
    (hwant : 0 < s.numWant) (h : Picks selfId lock peerVec numWant output seed refs s) :
    Picks selfId lock peerVec numWant output seed refs (scanStep selfId lock start s) ∨
      Picks selfId lock peerVec numWant output seed (refs ++ [current (start : ℤ) s])
          (scanStep selfId lock start s) ∧
        (scanStep selfId lock start s).i = s.i + 1 ∧
          (scanStep selfId lock start s).peerVec = s.peerVec := by
  have hcase := scanStep_cases selfId lock (start : ℤ) s
  generalize scanStep selfId lock (start : ℤ) s = t at hcase ⊢
  cases hcase with
  | skipped p hlock hskip =>
    exact Or.inl ⟨h.remaining, h.output, h.seed, h.pickable, h.want, h.bounded⟩
  | chosen p hlock hinit hself =>
    refine Or.inr ⟨⟨h.remaining, ?_, ?_, ?_, ?_, ?_⟩, rfl, rfl⟩
    · simp only [h.output, List.map_append, List.map_cons, List.map_nil, pick_of_lock lock _ p hlock,
        List.append_assoc]
    · simp only [pickedSeed_append, h.seed, Bool.or_assoc]
      simp only [pickedSeed, List.any_cons, List.any_nil, Bool.or_false, pick_of_lock lock _ p hlock]
      rfl
    · intro ref hmem
      rcases List.mem_append.mp hmem with hold | hnew
      · exact h.pickable ref hold
      · rw [List.mem_singleton.mp hnew]
        exact ⟨h.remaining.subset (current_mem (start : ℤ) s hi), p, hlock, hinit, hself⟩
    · have hold := h.want
      simp only [List.length_append, List.length_cons, List.length_nil]
      omega
    · intro _
      simp only
      omega
  | erased hdead =>
    exact Or.inl ⟨(List.eraseIdx_sublist _ _).trans h.remaining, h.output, h.seed, h.pickable,
      h.want, h.bounded⟩

/-- One pass of a walk whose front is live. -/
theorem rotated_step (hstart : start ≤ peerVec.length) (hlive : StartLive lock start peerVec)
    (refs : List PeerRef) (s : ScanState) (hi : s.i < s.peerVec.length)
    (h : Rotated start peerVec refs s) :
    Rotated start peerVec refs (scanStep selfId lock start s) ∧
      ((scanStep selfId lock start s).i = s.i + 1 →
        (scanStep selfId lock start s).peerVec = s.peerVec →
        Rotated start peerVec (refs ++ [current (start : ℤ) s]) (scanStep selfId lock start s)) := by
  obtain ⟨rest, hvec, hrest, hrefs⟩ := h
  have hfront : (peerVec.take start).length = start := List.length_take_of_le hstart
  have hrotate : s.peerVec.rotate start = rest ++ peerVec.take start := by
    have happend := List.rotate_append_length_eq (peerVec.take start) rest
    rw [hfront] at happend
    rw [hvec, happend]
  have hcurrent : (rest ++ peerVec.take start)[s.i]? = some (current (start : ℤ) s) := by
    rw [← hrotate]
    exact current_eq_rotate start s hi
  have hgrow : (refs ++ [current (start : ℤ) s]).Sublist
      ((rest ++ peerVec.take start).take (s.i + 1)) := by
    rw [List.take_add_one, hcurrent]
    exact hrefs.append (List.Sublist.refl _)
  have hcase := scanStep_cases selfId lock (start : ℤ) s
  generalize scanStep selfId lock (start : ℤ) s = t at hcase ⊢
  cases hcase with
  | skipped p hlock hskip =>
    exact ⟨⟨rest, hvec, hrest, (List.sublist_append_left _ _).trans hgrow⟩,
      fun _ _ => ⟨rest, hvec, hrest, hgrow⟩⟩
  | chosen p hlock hinit hself =>
    exact ⟨⟨rest, hvec, hrest, (List.sublist_append_left _ _).trans hgrow⟩,
      fun _ _ => ⟨rest, hvec, hrest, hgrow⟩⟩
  | erased hdead =>
    have hbefore : s.i < rest.length := by
      by_contra hge
      have hin : current (start : ℤ) s ∈ peerVec.take start := by
        rw [List.getElem?_append_right (by omega)] at hcurrent
        exact List.mem_of_getElem? hcurrent
      have hsome := hlive _ hin
      rw [hdead] at hsome
      contradiction
    have hindex : peerIndex (start : ℤ) s = start + s.i := by
      have hsum : s.peerVec.length = start + rest.length := by
        rw [hvec, List.length_append, hfront]
      unfold peerIndex
      rw [Int.emod_eq_of_lt (by omega) (by omega)]
      omega
    refine ⟨⟨rest.eraseIdx s.i, ?_, (List.eraseIdx_sublist _ _).trans hrest, ?_⟩, ?_⟩
    · simp only [hindex, hvec]
      rw [List.eraseIdx_append_of_length_le (by omega), hfront, Nat.add_sub_cancel_left]
    · simp only
      rw [List.take_append_of_le_length (by omega)] at hrefs
      rw [List.take_append_of_le_length (by rw [List.length_eraseIdx_of_lt hbefore]; omega),
        List.take_eraseIdx_eq_take_of_le _ _ _ (le_refl _)]
      exact hrefs
    · intro hadvance
      simp at hadvance

end Step

/-- What a whole scan picks. -/
theorem choosePeersByMap_picks (raw : ℕ) (peerVec : SinglePeerVec) (numWant : ℤ)
    (output : PeerList) (seed : Bool) :
    ∃ refs, Picks selfId lock peerVec numWant output seed refs
        (choosePeersByMap selfId lock raw peerVec numWant output seed) ∧
      (StartLive lock (getRandomNumber (peerVec.length - 1) raw).toNat peerVec →
        peerVec.Nodup → refs.Nodup) := by
  by_cases hempty : peerVec = []
  · subst hempty
    refine ⟨[], ⟨?_, ?_, ?_, ?_, ?_, ?_⟩, fun _ _ => List.nodup_nil⟩ <;>
      simp [choosePeersByMap, scanLoop, pickedSeed]
  have hpos : 0 < peerVec.length := List.length_pos_iff.mpr hempty
  have hnonneg := getRandomNumber_nonneg (peerVec.length - 1) raw (by omega)
  have hle := getRandomNumber_le (peerVec.length - 1) raw (by omega)
  obtain ⟨start, hstart⟩ := Int.eq_ofNat_of_zero_le hnonneg
  unfold choosePeersByMap
  rw [hstart, Int.toNat_natCast]
  have hloop := scanLoop_invariant selfId lock (start : ℤ) (fun s : ScanState =>
    ∃ refs, Picks selfId lock peerVec numWant output seed refs s ∧
      (StartLive lock start peerVec → Rotated start peerVec refs s)) (by
    intro s hs hi hwant
    obtain ⟨refs, hpicks, hrotated⟩ := hs
    rcases picks_step selfId lock start peerVec numWant output seed refs s hi hwant hpicks with
      hkept | ⟨hgrown, hadvance, hsame⟩
    · refine ⟨refs, hkept, fun hlive => ?_⟩
      exact (rotated_step selfId lock start peerVec (by omega) hlive refs s hi (hrotated hlive)).1
    · refine ⟨_, hgrown, fun hlive => ?_⟩
      exact (rotated_step selfId lock start peerVec (by omega) hlive refs s hi (hrotated hlive)).2
        hadvance hsame) peerVec.length ⟨peerVec, 0, numWant, output, seed⟩ (by
    refine ⟨[], ⟨List.Sublist.refl _, by simp, by simp [pickedSeed], by simp, by simp, by simp⟩, ?_⟩
    intro _
    exact ⟨peerVec.drop start, (List.take_append_drop start peerVec).symm, List.Sublist.refl _,
      List.nil_sublist _⟩)
  obtain ⟨refs, hpicks, hrotated⟩ := hloop
  refine ⟨refs, hpicks, ?_⟩
  intro hlive hnodup
  obtain ⟨rest, _, hrest, hrefs⟩ := hrotated hlive
  have hwhole : (peerVec.drop start ++ peerVec.take start).Nodup := by
    have hperm : (peerVec.take start ++ peerVec.drop start).Nodup ↔
        (peerVec.drop start ++ peerVec.take start).Nodup := List.perm_append_comm.nodup_iff
    rw [List.take_append_drop] at hperm
    exact hperm.mp hnodup
  have hsub := (hrest.append (List.Sublist.refl (peerVec.take start)))
  exact hwhole.sublist (hrefs.trans ((List.take_sublist _ _).trans hsub))

/-- A scan picks no more than it was asked for. -/
theorem Picks.length_le {peerVec : SinglePeerVec} {numWant : ℤ} {output : PeerList} {seed : Bool}
    {refs : List PeerRef} {s : ScanState}
    (h : Picks selfId lock peerVec numWant output seed refs s) (bound : ℕ)
    (hbound : numWant ≤ bound) : refs.length ≤ bound := by
  have hwant := h.want
  by_cases hempty : refs = []
  · rw [hempty]
    exact Nat.zero_le bound
  · have hnonneg := h.bounded hempty
    omega

theorem choosePeersByMap_mono (raw : ℕ) (peerVec : SinglePeerVec) (numWant : ℤ)
    (output : PeerList) (seed : Bool) : output.length ≤
      (choosePeersByMap selfId lock raw peerVec numWant output seed).output.length := by
  obtain ⟨refs, hrefs, _⟩ := choosePeersByMap_picks selfId lock raw peerVec numWant output seed
  rw [hrefs.output, List.length_append]
  omega

theorem scanIdc_mono (start : ByteString → ℕ) (idc : ByteString) (want : ℤ) (s : VisitState) :
    s.output.length ≤ (scanIdc selfId lock start idc want s).output.length := by
  unfold scanIdc
  split
  · exact Nat.le_refl _
  · exact choosePeersByMap_mono selfId lock _ _ _ _ _

end Scan

/-- Each list holds a reference once, and no two lists hold the same one. -/
structure ListsApart (lists : IdcToSingleVector) : Prop where
  each : ∀ idc peerVec, lists.lookup idc = some peerVec → peerVec.Nodup
  apart : ∀ idc idc' ref, (idc, ref) ∈ filed lists → (idc', ref) ∈ filed lists → idc = idc'

section Visit

variable (selfId : ByteString) (lock : PeerRef → Option PeerInfo)

/-- The scans of a visit start behind live references only. -/
def StartsLive (start : ByteString → ℕ) (lists : IdcToSingleVector) : Prop :=
  ∀ idc peerVec, lists.lookup idc = some peerVec →
    StartLive lock (getRandomNumber (peerVec.length - 1) (start idc)).toNat peerVec

/-- The references a visit has picked from the rooms seen so far. -/
structure VisitPicks (start : ByteString → ℕ) (lists : IdcToSingleVector) (bound : ℕ) (seed : Bool)
    (seen : List ByteString) (refs : List PeerRef) (s : VisitState) : Prop where
  output : s.output = refs.map (pick lock)
  seed : s.ifSeedInserted = (seed || pickedSeed lock refs)
  pickable : ∀ ref ∈ refs, (∃ idc ∈ seen, (idc, ref) ∈ filed lists) ∧ Pickable selfId lock ref
  untouched : ∀ idc, idc ∉ seen → s.lists.lookup idc = lists.lookup idc
  length : refs.length ≤ bound
  nodup : StartsLive lock start lists → ListsApart lists → refs.Nodup

variable (start : ByteString → ℕ) (lists : IdcToSingleVector) (bound : ℕ) (seed : Bool)

theorem scanIdc_picks (seen : List ByteString) (refs : List PeerRef) (s : VisitState)
    (h : VisitPicks selfId lock start lists bound seed seen refs s) (idc : ByteString)
    (hidc : idc ∉ seen) (want : ℤ) (hwant : want ≤ bound - refs.length) :
    ∃ refs', VisitPicks selfId lock start lists bound seed (idc :: seen) refs'
      (scanIdc selfId lock start idc want s) := by
  unfold scanIdc
  cases hlook : s.lists.lookup idc with
  | none =>
    refine ⟨refs, h.output, h.seed, ?_, ?_, h.length, h.nodup⟩
    · intro ref hmem
      obtain ⟨⟨room, hroom, hfiled⟩, hpick⟩ := h.pickable ref hmem
      exact ⟨⟨room, List.mem_cons_of_mem idc hroom, hfiled⟩, hpick⟩
    · intro room hroom
      exact h.untouched room (fun hin => hroom (List.mem_cons_of_mem idc hin))
  | some peerVec =>
    have hstored : lists.lookup idc = some peerVec := (h.untouched idc hidc).symm.trans hlook
    obtain ⟨new, hnew, hfresh⟩ := choosePeersByMap_picks selfId lock (start idc) peerVec want
      s.output s.ifSeedInserted
    have hin : ∀ ref ∈ new, (idc, ref) ∈ filed lists := by
      intro ref hmem
      exact (mem_filed lists idc ref).mpr ⟨peerVec, hstored, (hnew.pickable ref hmem).1⟩
    have hlength := h.length
    have hcount : new.length ≤ bound - refs.length :=
      hnew.length_le selfId lock (bound - refs.length) (by omega)
    refine ⟨refs ++ new, ?_, ?_, ?_, ?_, ?_, ?_⟩
    · exact hnew.output.trans (by rw [h.output, List.map_append])
    · exact hnew.seed.trans (by rw [h.seed, pickedSeed_append, Bool.or_assoc])
    · intro ref hmem
      rcases List.mem_append.mp hmem with hold | hnewmem
      · obtain ⟨⟨room, hroom, hfiled⟩, hpick⟩ := h.pickable ref hold
        exact ⟨⟨room, List.mem_cons_of_mem idc hroom, hfiled⟩, hpick⟩
      · exact ⟨⟨idc, List.mem_cons_self .., hin ref hnewmem⟩, (hnew.pickable ref hnewmem).2⟩
    · intro room hroom
      have hne : room ≠ idc := by
        intro heq
        exact hroom (heq ▸ List.mem_cons_self ..)
      simp only [AList.lookup_insert_ne hne]
      exact h.untouched room (fun hmem => hroom (List.mem_cons_of_mem idc hmem))
    · rw [List.length_append]
      omega
    · intro hlive hapart
      have hnewNodup := hfresh (hlive idc peerVec hstored) (hapart.each idc peerVec hstored)
      refine List.nodup_append.mpr ⟨h.nodup hlive hapart, hnewNodup, ?_⟩
      intro ref hold ref' hnewmem heq
      subst heq
      obtain ⟨⟨room, hroom, hfiled⟩, _⟩ := h.pickable ref hold
      have hsame := hapart.apart room idc ref hfiled (hin ref hnewmem)
      exact hidc (hsame ▸ hroom)

theorem visitLoop_picks (ownIdc : ByteString) (numWant : ℤ) (hlow : -2 ^ 31 ≤ numWant)
    (hhigh : numWant < 2 ^ 31) (hbound : bound = numWant.toNat)
    (randomIndex nowIndex : ℤ) (idcs : List ByteString) (hnodup : idcs.Nodup)
    (seen : List ByteString) (hseen : ∀ idc ∈ idcs, idc ≠ ownIdc → idc ∉ seen)
    (refs : List PeerRef) (s : VisitState)
    (h : VisitPicks selfId lock start lists bound seed seen refs s) :
    ∃ seen' refs', VisitPicks selfId lock start lists bound seed seen' refs'
      (visitLoop selfId ownIdc lock numWant start randomIndex nowIndex idcs s) := by
  induction idcs generalizing nowIndex seen refs s with
  | nil => exact ⟨seen, refs, h⟩
  | cons idc rest ih =>
    have hrest := (List.nodup_cons.mp hnodup).2
    have hskip : ∀ room ∈ rest, room ≠ ownIdc → room ∉ seen := fun room hroom =>
      hseen room (List.mem_cons_of_mem idc hroom)
    unfold visitLoop
    split
    · exact ⟨seen, refs, h⟩
    · split
      · exact ih (nowIndex + 1) hrest seen hskip refs s h
      · split
        · exact ih (nowIndex + 1) hrest seen hskip refs s h
        · rename_i hleft _ hother
          have hidc : idc ∉ seen := hseen idc (List.mem_cons_self ..) hother
          have hlen : s.output.length = refs.length := by rw [h.output, List.length_map]
          have hsize := h.length
          have hnarrow : numLeft numWant s = numWant - s.output.length := by
            unfold numLeft
            apply narrowInt_eq <;> omega
          obtain ⟨refs', hrefs'⟩ := scanIdc_picks selfId lock start lists bound seed seen refs s h idc
            hidc (numLeft numWant s) (by omega)
          apply ih (nowIndex + 1) hrest (idc :: seen) ?_ refs' _ hrefs'
          intro room hroom hne hmem
          rcases List.mem_cons.mp hmem with heq | hold
          · exact (List.nodup_cons.mp hnodup).1 (heq ▸ hroom)
          · exact hskip room hroom hne hold

/-- What a whole visit picks. -/
theorem visitIdcToPeers_picks (ownIdc : ByteString) (numWant : ℤ) (hlow : -2 ^ 31 ≤ numWant)
    (hhigh : numWant < 2 ^ 31) (draws : VisitDraws) :
    ∃ seen refs, VisitPicks selfId lock draws.start lists numWant.toNat seed seen refs
      (visitIdcToPeers selfId ownIdc lock numWant draws lists seed) := by
  have hempty : VisitPicks selfId lock draws.start lists numWant.toNat seed [] []
      ⟨lists, [], seed⟩ :=
    ⟨rfl, by simp [pickedSeed], by simp, fun _ _ => rfl, Nat.zero_le _, fun _ _ => List.nodup_nil⟩
  obtain ⟨own, hown⟩ := scanIdc_picks selfId lock draws.start lists numWant.toNat seed [] []
    ⟨lists, [], seed⟩ hempty ownIdc (List.not_mem_nil) numWant (by simp)
  have hkeys : (draws.order.arrange lists.keys).Nodup :=
    (draws.order.perm lists.keys).nodup_iff.mpr lists.keys_nodup
  exact visitLoop_picks selfId lock draws.start lists numWant.toNat seed ownIdc numWant hlow hhigh rfl
    _ 0 _ hkeys [ownIdc] (fun idc _ hne hmem => hne (List.mem_singleton.mp hmem)) own _ hown

end Visit
end Gingko.ScanPicks
