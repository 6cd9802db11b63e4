import Gingko.CircularScans
import Gingko.VisitIndexes

/-!
How a visit spreads the wanted number over the machine rooms. It scans the
requester's own room and then the other rooms up to the drawn position, each with
what is left to find. Scans that pass over no entry together find what these rooms
have to offer, and another room's peers come after all of the own room's.
-/
namespace Gingko.RoomVisits

open KeyedMaps Base64Codec PeerRecords RandomDraws PeerUpdates PeerScans ScanPicks
  CircularScans

section Rooms

variable (selfId ownIdc : ByteString) (lock : PeerRef → Option PeerInfo) (numWant : ℤ)
  (start : ByteString → ℕ)

/-- The scans of some rooms in their order, as long as peers are wanted. -/
def visitRooms : List ByteString → VisitState → VisitState
  | [], s => s
  | idc :: rest, s =>
    if numLeft numWant s ≤ 0 then s
    else visitRooms rest (scanIdc selfId lock start idc (numLeft numWant s) s)

/-- The other rooms that the loop of a visit scans. -/
def otherRooms (randomIndex nowIndex : ℤ) (idcs : List ByteString) : List ByteString :=
  (idcs.take (randomIndex + 1 - nowIndex).toNat).filter (fun idc => !decide (idc = ownIdc))

theorem visitRooms_sated (rooms : List ByteString) (s : VisitState) (h : numLeft numWant s ≤ 0) :
    visitRooms selfId lock numWant start rooms s = s := by
  cases rooms with
  | nil => rfl
  | cons idc rest => rw [visitRooms, if_pos h]

theorem visitLoop_eq (randomIndex nowIndex : ℤ) (idcs : List ByteString) (s : VisitState) :
    visitLoop selfId ownIdc lock numWant start randomIndex nowIndex idcs s =
      visitRooms selfId lock numWant start (otherRooms ownIdc randomIndex nowIndex idcs) s := by
  induction idcs generalizing nowIndex s with
  | nil => simp [visitLoop, otherRooms, visitRooms]
  | cons idc rest ih =>
    unfold visitLoop
    split
    · rename_i hsated
      rw [visitRooms_sated selfId lock numWant start _ s hsated]
    · rename_i hleft
      split
      · -- every room behind this one is past the cut, too
        have hcut : (randomIndex + 1 - nowIndex).toNat = 0 := by omega
        have hcut' : (randomIndex + 1 - (nowIndex + 1)).toNat = 0 := by omega
        rw [ih]
        simp only [otherRooms, hcut, hcut', List.take_zero]
      · have hroom : (randomIndex + 1 - nowIndex).toNat =
            (randomIndex + 1 - (nowIndex + 1)).toNat + 1 := by
          omega
        rw [ih, ih]
        simp only [otherRooms, hroom, List.take_succ_cons, List.filter_cons]
        split
        · rename_i hown
          simp [hown]
        · rename_i hother
          simp only [hother, decide_false, Bool.not_false, if_true, visitRooms, if_neg hleft]

/-- The eligible entries that the list of a room holds. -/
def eligibleIn (lists : IdcToSingleVector) (idc : ByteString) : ℕ :=
  (((lists.lookup idc).getD []).filter (eligible selfId lock)).length

/-- A scan of the room's list does no harm. -/
def RoomUntroubled (lists : IdcToSingleVector) (idc : ByteString) (want : ℤ) : Prop :=
  ∀ peerVec, lists.lookup idc = some peerVec →
    Untroubled selfId lock peerVec want (scanStart (start idc) peerVec)

/-- No room's scan does harm, each with what is left for it to find. -/
def RoomsUntroubled (lists : IdcToSingleVector) : ℤ → List ByteString → Prop
  | _, [] => True
  | want, idc :: rest =>
    0 < want → RoomUntroubled selfId lock start lists idc want ∧
      RoomsUntroubled lists (want - eligibleIn selfId lock lists idc) rest

variable {selfId lock start}

theorem scanIdc_count (lists : IdcToSingleVector) (idc : ByteString) (want : ℤ) (s : VisitState)
    (hwant : 0 ≤ want) (hsame : s.lists.lookup idc = lists.lookup idc)
    (huntroubled : RoomUntroubled selfId lock start lists idc want) :
    ((scanIdc selfId lock start idc want s).output.length : ℤ) =
      s.output.length + min want (eligibleIn selfId lock lists idc) := by
  unfold scanIdc eligibleIn
  rw [hsame]
  cases hlook : lists.lookup idc with
  | none => simp [hwant]
  | some peerVec =>
    obtain ⟨refs, houtput, _, _, hlength⟩ := (choosePeersByMap_exact selfId lock (start idc) hwant
      s.output s.ifSeedInserted (huntroubled peerVec hlook)).picks
    simp only [houtput, List.length_append, List.length_map, Option.getD_some]
    omega

theorem lookup_scanIdc_ne (idc room : ByteString) (want : ℤ) (s : VisitState) (hne : room ≠ idc) :
    (scanIdc selfId lock start idc want s).lists.lookup room = s.lists.lookup room := by
  unfold scanIdc
  split
  · rfl
  · exact AList.lookup_insert_ne hne

theorem visitRooms_count (lists : IdcToSingleVector) (rooms : List ByteString)
    (hnodup : rooms.Nodup) (hhigh : numWant < 2 ^ 31) (s : VisitState)
    (hlists : ∀ idc ∈ rooms, s.lists.lookup idc = lists.lookup idc)
    (hleft : 0 ≤ numWant - s.output.length)
    (huntroubled : RoomsUntroubled selfId lock start lists (numWant - s.output.length) rooms) :
    ((visitRooms selfId lock numWant start rooms s).output.length : ℤ) =
      s.output.length + min (numWant - s.output.length)
        (rooms.map (eligibleIn selfId lock lists)).sum := by
  induction rooms generalizing s with
  | nil =>
    rw [visitRooms, List.map_nil, List.sum_nil]
    omega
  | cons idc rest ih =>
    obtain ⟨hfresh, hrest⟩ := List.nodup_cons.mp hnodup
    have hnarrow : numLeft numWant s = numWant - s.output.length :=
      narrowInt_eq _ (by omega) (by omega)
    rw [visitRooms, hnarrow, List.map_cons, List.sum_cons]
    split
    · omega
    · rename_i hmore
      obtain ⟨hroom, hothers⟩ := huntroubled (by omega)
      have hcount := scanIdc_count lists idc (numWant - s.output.length) s hleft
        (hlists idc (List.mem_cons_self ..)) hroom
      have hkept : ∀ room ∈ rest, (scanIdc selfId lock start idc (numWant - s.output.length)
          s).lists.lookup room = lists.lookup room := by
        intro room hmem
        have hne : room ≠ idc := fun heq => hfresh (heq ▸ hmem)
        rw [lookup_scanIdc_ne idc room _ s hne]
        exact hlists room (List.mem_cons_of_mem idc hmem)
      by_cases hsated : numWant - s.output.length ≤ eligibleIn selfId lock lists idc
      · -- the room has enough, so the rest is not looked at
        have hfull : numLeft numWant (scanIdc selfId lock start idc (numWant - s.output.length) s)
            ≤ 0 := by
          unfold numLeft
          rw [narrowInt_eq _ (by omega) (by omega)]
          omega
        rw [visitRooms_sated selfId lock numWant start _ _ hfull]
        omega
      · have hquota : numWant - (scanIdc selfId lock start idc (numWant - s.output.length)
            s).output.length = numWant - s.output.length - eligibleIn selfId lock lists idc := by
          omega
        rw [ih hrest _ hkept (by omega) (by rw [hquota]; exact hothers)]
        omega

end Rooms

section Visits

variable (selfId ownIdc : ByteString) (lock : PeerRef → Option PeerInfo)

/-- The rooms that a visit gets to as long as peers are wanted: the requester's own and
the others up to the drawn position. -/
def reachedRooms (draws : VisitDraws) (idcMap : IdcToSingleVector) : List ByteString :=
  ownIdc :: otherRooms ownIdc (getRandomNumber (idcMap.entries.length - 1) draws.cut) 0
    (draws.order.arrange idcMap.keys)

theorem reachedRooms_nodup (draws : VisitDraws) (idcMap : IdcToSingleVector) :
    (reachedRooms ownIdc draws idcMap).Nodup := by
  have hkeys : (draws.order.arrange idcMap.keys).Nodup :=
    (draws.order.perm idcMap.keys).nodup_iff.mpr idcMap.keys_nodup
  refine List.nodup_cons.mpr ⟨?_, ?_⟩
  · simp [otherRooms]
  · exact (hkeys.sublist (List.take_sublist _ _)).filter _

theorem visitIdcToPeers_eq (numWant : ℤ) (draws : VisitDraws) (idcMap : IdcToSingleVector)
    (seed : Bool) : visitIdcToPeers selfId ownIdc lock numWant draws idcMap seed =
      visitRooms selfId lock numWant draws.start
        (otherRooms ownIdc (getRandomNumber (idcMap.entries.length - 1) draws.cut) 0
          (draws.order.arrange idcMap.keys))
        (scanIdc selfId lock draws.start ownIdc numWant ⟨idcMap, [], seed⟩) :=
  visitLoop_eq ..

/-- A visit finds as many peers as it is asked for and the rooms it gets to have to offer,
if none of its scans does harm. With fewer than 2^31 rooms and lists of up to 2^30 entries
it is the visit with the ints of the code. -/
theorem visit_count (draws : VisitDraws) (idcMap : IdcToSingleVector) (numWant : BitVec 32)
    (seed : Bool) (hwant : 0 < numWant.toInt)
    (huntroubled : RoomsUntroubled selfId lock draws.start idcMap numWant.toInt
      (reachedRooms ownIdc draws idcMap)) :
    ((visitIdcToPeers selfId ownIdc lock numWant.toInt draws idcMap seed).output.length : ℤ) =
      min numWant.toInt
        ((reachedRooms ownIdc draws idcMap).map (eligibleIn selfId lock idcMap)).sum ∧
    (idcMap.entries.length < 2147483648 → VisitIndexes.ListsSized idcMap →
      VisitIndexes.visitIdcToPeers selfId ownIdc lock numWant.toInt draws idcMap seed =
        some (visitIdcToPeers selfId ownIdc lock numWant.toInt draws idcMap seed)) := by
  refine ⟨?_, VisitIndexes.visitIdcToPeers_eq selfId ownIdc lock numWant.toInt draws idcMap seed⟩
  have hhigh := (bitVec_toInt_range numWant).2
  have hfirst : numLeft numWant.toInt ⟨idcMap, [], seed⟩ = numWant.toInt := by
    unfold numLeft
    rw [narrowInt_eq _ (by simp; omega) (by simp; omega)]
    simp
  have hcount := visitRooms_count numWant.toInt idcMap (reachedRooms ownIdc draws idcMap)
    (reachedRooms_nodup ownIdc draws idcMap) hhigh ⟨idcMap, [], seed⟩ (fun _ _ => rfl)
    (by simp; omega) (by simpa using huntroubled)
  rw [visitIdcToPeers_eq]
  rw [reachedRooms, visitRooms, hfirst, if_neg (by omega)] at hcount
  rw [hcount, reachedRooms]
  simp

/-- The requester is alone in room [9]; rooms [5] and [7] have a peer each. -/
def threeRooms : IdcToSingleVector :=
  ((AList.insert [7] [1] ∅).insert [5] [0, 3]).insert [9] [2]

def keptOrder : IterationOrder := ⟨id, fun keys => List.Perm.refl keys⟩

/-- The visit gets to room [5], whose dead entry is erased behind the start of its scan. -/
theorem visit_count_two_rooms :
    (visitIdcToPeers (registered [6]).base64PeerId [9] oneGone (5 : BitVec 32).toInt
      ⟨keptOrder, 1, fun _ => 0⟩ threeRooms false).output.length = 1 := by
  have hrooms : reachedRooms [9] ⟨keptOrder, 1, fun _ => 0⟩ threeRooms = [[9], [5]] := by decide
  have hclean : ∀ idc want, RoomUntroubled (registered [6]).base64PeerId oneGone (fun _ => 0)
      threeRooms idc want := by
    intro idc want peerVec _
    rw [scanStart_zero]
    exact Or.inl (by simp)
  obtain ⟨hcount, _⟩ := visit_count (registered [6]).base64PeerId [9] oneGone
    ⟨keptOrder, 1, fun _ => 0⟩ threeRooms 5 false (by decide) (by
      rw [hrooms]
      exact fun _ => ⟨hclean _ _, fun _ => ⟨hclean _ _, trivial⟩⟩)
  have hmin : min (5 : BitVec 32).toInt (([[9], [5]].map (eligibleIn (registered [6]).base64PeerId
      oneGone threeRooms)).sum : ℕ) = 1 := by
    decide
  rw [hrooms, hmin] at hcount
  omega

/-- The draw cuts the visit off behind room [9], though room [5] has an eligible peer. -/
theorem visit_cut_off :
    ¬ ((visitIdcToPeers (registered [6]).base64PeerId [9] oneGone (5 : BitVec 32).toInt
        ⟨keptOrder, 0, fun _ => 0⟩ threeRooms false).output.length : ℤ) =
      min (5 : BitVec 32).toInt
        ((threeRooms.keys.map (eligibleIn (registered [6]).base64PeerId oneGone threeRooms)).sum
          : ℕ) := by
  decide

/-- A copy of a live, initialised entry of a room other than the requester's. -/
def FromOtherRoom (lists : IdcToSingleVector) (p : PeerInfo) : Prop :=
  ∃ idc ref, idc ≠ ownIdc ∧ (idc, ref) ∈ filed lists ∧ Pickable selfId lock ref ∧
    p = pick lock ref

/-- A scan of a room adds picks of entries of its list, no more than are wanted. -/
theorem scanIdc_adds (start : ByteString → ℕ) (idc : ByteString) (want : ℤ) (s : VisitState) :
    ∃ refs : List PeerRef, (scanIdc selfId lock start idc want s).output =
        s.output ++ refs.map (pick lock) ∧ refs.length ≤ want.toNat ∧
      ∀ ref ∈ refs, (idc, ref) ∈ filed s.lists ∧ Pickable selfId lock ref := by
  unfold scanIdc
  cases hlook : s.lists.lookup idc with
  | none => exact ⟨[], (List.append_nil _).symm, Nat.zero_le _, nofun⟩
  | some peerVec =>
    obtain ⟨refs, hrefs, _⟩ := choosePeersByMap_picks selfId lock (start idc) peerVec want s.output
      s.ifSeedInserted
    refine ⟨refs, hrefs.output, hrefs.length_le selfId lock want.toNat (Int.self_le_toNat want), ?_⟩
    intro ref href
    obtain ⟨hmem, hpick⟩ := hrefs.pickable ref href
    exact ⟨(mem_filed _ _ _).mpr ⟨peerVec, hlook, hmem⟩, hpick⟩

theorem FromOtherRoom.mono {lists lists' : IdcToSingleVector} {p : PeerInfo}
    (h : FromOtherRoom selfId ownIdc lock lists p) (hsub : filed lists ⊆ filed lists') :
    FromOtherRoom selfId ownIdc lock lists' p := by
  obtain ⟨idc, ref, hne, hmem, hpick⟩ := h
  exact ⟨idc, ref, hne, hsub hmem, hpick⟩

/-- The scans of other rooms add peers of these rooms, and only while peers are wanted. -/
theorem visitRooms_adds (numWant : ℤ) (start : ByteString → ℕ) (rooms : List ByteString)
    (hothers : ∀ idc ∈ rooms, idc ≠ ownIdc) (s : VisitState) :
    ∃ added, (visitRooms selfId lock numWant start rooms s).output = s.output ++ added ∧
      (∀ p ∈ added, FromOtherRoom selfId ownIdc lock s.lists p) ∧
      (added ≠ [] → 0 < numLeft numWant s) := by
  induction rooms generalizing s with
  | nil => exact ⟨[], by simp [visitRooms], by simp, by simp⟩
  | cons idc rest ih =>
    rw [visitRooms]
    split
    · exact ⟨[], by simp, by simp, by simp⟩
    · rename_i hmore
      obtain ⟨refs, hfirst, _, hfrom⟩ := scanIdc_adds selfId lock start idc (numLeft numWant s) s
      obtain ⟨later, hlater, hfrom', _⟩ := ih
        (fun room hroom => hothers room (List.mem_cons_of_mem idc hroom))
        (scanIdc selfId lock start idc (numLeft numWant s) s)
      refine ⟨refs.map (pick lock) ++ later, ?_, ?_, fun _ => by omega⟩
      · rw [hlater, hfirst, List.append_assoc]
      · intro p hp
        rcases List.mem_append.mp hp with hin | hin
        · obtain ⟨ref, href, rfl⟩ := List.mem_map.mp hin
          exact ⟨idc, ref, hothers idc (List.mem_cons_self ..), (hfrom ref href).1,
            (hfrom ref href).2, rfl⟩
        · exact (hfrom' p hin).mono selfId ownIdc lock (scanIdc_subset selfId lock start idc _ s)

/-- A scan that does no harm and leaves something to find has picked every eligible entry. -/
theorem scanIdc_complete (start : ByteString → ℕ) (idc : ByteString) (want : ℤ) (s : VisitState)
    (huntroubled : RoomUntroubled selfId lock start s.lists idc want)
    (hmore : ((scanIdc selfId lock start idc want s).output.length : ℤ) < s.output.length + want)
    (ref : PeerRef) (hmem : (idc, ref) ∈ filed s.lists)
    (helig : eligible selfId lock ref = true) :
    pick lock ref ∈ (scanIdc selfId lock start idc want s).output := by
  obtain ⟨peerVec, hlook, href⟩ := (mem_filed _ _ _).mp hmem
  have hwant : 0 ≤ want := by
    have hgrown := scanIdc_mono selfId lock start idc want s
    omega
  have hcircle := choosePeersByMap_circle selfId lock (start idc) hwant s.output s.ifSeedInserted
    (huntroubled peerVec hlook)
  unfold scanIdc at hmore ⊢
  rw [hlook] at hmore ⊢
  simp only [hcircle, List.length_append, List.length_map, List.length_take] at hmore ⊢
  rw [List.take_of_length_le (by omega)]
  refine List.mem_append_right _ (List.mem_map_of_mem (List.mem_filter.mpr ⟨?_, helig⟩))
  rw [← List.take_append_drop (scanStart (start idc) peerVec) peerVec] at href
  exact List.mem_append.mpr (List.mem_append.mp href).symm

/-- The answer of a visit begins with what the requester's own room gives and goes on with
peers of other rooms; if the own room's scan does no harm, that is, passes over no entry,
there are such peers only when every eligible peer of the own room is in the answer. The
visit is the one with the ints of the code under the same bounds. -/
theorem own_room_first (draws : VisitDraws) (idcMap : IdcToSingleVector) (numWant : BitVec 32)
    (seed : Bool) :
    let own := scanIdc selfId lock draws.start ownIdc numWant.toInt ⟨idcMap, [], seed⟩
    let answer := visitIdcToPeers selfId ownIdc lock numWant.toInt draws idcMap seed
    let Clean := RoomUntroubled selfId lock draws.start idcMap ownIdc numWant.toInt
    (∃ others, answer.output = own.output ++ others ∧
      (∀ p ∈ others, FromOtherRoom selfId ownIdc lock idcMap p) ∧
      (Clean → others ≠ [] → ∀ ref, (ownIdc, ref) ∈ filed idcMap →
        eligible selfId lock ref = true → pick lock ref ∈ answer.output)) ∧
    (Clean ↔ ∀ peerVec, idcMap.lookup ownIdc = some peerVec →
      ¬ PassesOverSome selfId lock (draws.start ownIdc) peerVec numWant.toInt) ∧
    (idcMap.entries.length < 2147483648 → VisitIndexes.ListsSized idcMap →
      VisitIndexes.visitIdcToPeers selfId ownIdc lock numWant.toInt draws idcMap seed =
        some answer) := by
  intro own answer Clean
  refine ⟨?_, ?_,
    VisitIndexes.visitIdcToPeers_eq selfId ownIdc lock numWant.toInt draws idcMap seed⟩
  · have hothers : ∀ idc ∈ otherRooms ownIdc
        (getRandomNumber (idcMap.entries.length - 1) draws.cut) 0
        (draws.order.arrange idcMap.keys), idc ≠ ownIdc := by
      intro idc hidc
      simpa using (List.mem_filter.mp hidc).2
    obtain ⟨others, houtput, hfrom, hmore⟩ := visitRooms_adds selfId ownIdc lock numWant.toInt
      draws.start _ hothers own
    have hanswer : answer.output = own.output ++ others := by
      rw [← houtput]
      exact congrArg VisitState.output (visitIdcToPeers_eq ..)
    refine ⟨others, hanswer, ?_, ?_⟩
    · intro p hp
      exact (hfrom p hp).mono selfId ownIdc lock (scanIdc_subset selfId lock draws.start ownIdc _ _)
    · intro hclean hsome ref hmem helig
      have hleft := hmore hsome
      rw [hanswer]
      apply List.mem_append_left
      apply scanIdc_complete selfId lock draws.start ownIdc numWant.toInt ⟨idcMap, [], seed⟩ hclean
        _ ref hmem helig
      obtain ⟨hlow, hhigh⟩ := bitVec_toInt_range numWant
      obtain ⟨refs, hown, hmost, _⟩ := scanIdc_adds selfId lock draws.start ownIdc numWant.toInt
        ⟨idcMap, [], seed⟩
      have hlength : own.output.length = 0 + refs.length := by
        rw [hown, List.length_append, List.length_map]
        rfl
      have hnarrow : numLeft numWant.toInt own = numWant.toInt - own.output.length := by
        apply narrowInt_eq <;> omega
      show (own.output.length : ℤ) < (0 : ℕ) + numWant.toInt
      omega
  · exact forall₂_congr fun peerVec _ => untroubled_iff selfId lock _ peerVec _

/-- A dead entry comes first in the list of room [9], and room [5] has a peer. -/
def twoRooms : IdcToSingleVector := (AList.insert [9] [0, 1, 2, 3] ∅).insert [5] [4]

def twoGone : PeerRef → Option PeerInfo
  | 4 => some (registered [8])
  | ref => oneGone ref

/-- The scan of room [9] passes over reference 1, and the visit goes on to room [5]. -/
theorem own_peer_passed_over :
    ¬ ∃ others, (visitIdcToPeers (registered [6]).base64PeerId [9] twoGone (5 : BitVec 32).toInt
        ⟨keptOrder, 0, fun _ => 2⟩ twoRooms false).output =
          (scanIdc (registered [6]).base64PeerId twoGone (fun _ => 2) [9] (5 : BitVec 32).toInt
            ⟨twoRooms, [], false⟩).output ++ others ∧
      (others ≠ [] → ∀ ref, ([9], ref) ∈ filed twoRooms →
        eligible (registered [6]).base64PeerId twoGone ref = true →
        pick twoGone ref ∈ (visitIdcToPeers (registered [6]).base64PeerId [9] twoGone
          (5 : BitVec 32).toInt ⟨keptOrder, 0, fun _ => 2⟩ twoRooms false).output) := by
  rintro ⟨others, houtput, hall⟩
  have hown : (scanIdc (registered [6]).base64PeerId twoGone (fun _ => 2) [9]
      (5 : BitVec 32).toInt ⟨twoRooms, [], false⟩).output = [pick twoGone 3] := by
    decide
  have hanswer : (visitIdcToPeers (registered [6]).base64PeerId [9] twoGone (5 : BitVec 32).toInt
      ⟨keptOrder, 0, fun _ => 2⟩ twoRooms false).output = [pick twoGone 3, pick twoGone 4] := by
    decide
  rw [hanswer] at houtput hall
  have hsome : others ≠ [] := by
    rintro rfl
    rw [hown] at houtput
    simp at houtput
  have hin := hall hsome 1 (by decide) (by decide)
  revert hin
  decide

end Visits
end Gingko.RoomVisits
