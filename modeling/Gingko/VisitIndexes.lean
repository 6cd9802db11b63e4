import Gingko.ScanIndexes

/-!
The visit of the machine rooms with the integers the code has: the scans of their lists,
the size of the map, the index of a room and the number of peers that are left to find.
Where no list has more than 2^30 entries, it is the visit with exact positions.
-/
namespace Gingko.VisitIndexes

open KeyedMaps PeerRecords RandomDraws PeerUpdates PeerScans Base64Codec

section Visit

variable (self ownIdc : ByteString) (lock : PeerRef → Option PeerInfo) (numWant : ℤ)

/-- The list of a room after its scan, and what the scan has added. -/
def putBack (s : VisitState) (idc : ByteString) : ScanIndexes.Outcome → Option VisitState
  | .done scanned =>
    some
      { lists := s.lists.insert idc scanned.peerVec
        output := scanned.output
        ifSeedInserted := scanned.ifSeedInserted }
  | _ => none

def scanIdc (start : ByteString → ℕ) (idc : ByteString) (want : ℤ) (s : VisitState) :
    Option VisitState :=
  match s.lists.lookup idc with
  | none => some s
  | some peerVec =>
    putBack s idc (ScanIndexes.choosePeersByMap self lock (start idc) (peerVec.length + 1) peerVec
      want s.output s.ifSeedInserted)

/-- A visit one of whose scans goes wrong has no result. -/
def visitLoop (start : ByteString → ℕ) (randomIndex : ℤ) :
    ℤ → List ByteString → VisitState → Option VisitState
  | _, [], s => some s
  | nowIndex, idc :: rest, s =>
    let next := narrowInt (nowIndex + 1)
    if numLeft numWant s ≤ 0 then some s
    else if randomIndex < nowIndex then visitLoop start randomIndex next rest s
    else if idc = ownIdc then visitLoop start randomIndex next rest s
    else (scanIdc self lock start idc (numLeft numWant s) s).bind
      (visitLoop start randomIndex next rest)

def visitIdcToPeers (draws : VisitDraws) (idcMap : IdcToSingleVector) (ifSeedInserted : Bool) :
    Option VisitState :=
  (scanIdc self lock draws.start ownIdc numWant ⟨idcMap, [], ifSeedInserted⟩).bind
    (visitLoop self ownIdc lock numWant draws.start
      (getRandomNumber (narrowInt (idcMap.entries.length - 1)) draws.cut) 0
      (draws.order.arrange idcMap.keys))

end Visit

/-- No list is too long for the sum of a position and an offset to be an int. -/
def ListsSized (lists : IdcToSingleVector) : Prop :=
  ∀ idc peerVec, lists.lookup idc = some peerVec → peerVec.length ≤ 1073741824

section Exact

variable (self ownIdc : ByteString) (lock : PeerRef → Option PeerInfo) (numWant : ℤ)
  (start : ByteString → ℕ)

theorem listsSized_insert (lists : IdcToSingleVector) (idc : ByteString) (peerVec : SinglePeerVec)
    (h : ListsSized lists) (hle : peerVec.length ≤ 1073741824) :
    ListsSized (lists.insert idc peerVec) := by
  intro other otherVec hother
  by_cases hsame : other = idc
  · obtain rfl := hsame
    rw [AList.lookup_insert, Option.some.injEq] at hother
    rw [← hother]
    exact hle
  · rw [AList.lookup_insert_ne hsame] at hother
    exact h other otherVec hother

/-- A scan makes a list no longer. -/
theorem listsSized_scanIdc (idc : ByteString) (want : ℤ) (s : VisitState)
    (h : ListsSized s.lists) : ListsSized (PeerScans.scanIdc self lock start idc want s).lists := by
  unfold PeerScans.scanIdc
  split
  · exact h
  · next peerVec hlook =>
    have hsub := choosePeersByMap_sublist self lock (start idc) peerVec want s.output
      s.ifSeedInserted
    exact listsSized_insert s.lists idc _ h (hsub.length_le.trans (h idc peerVec hlook))

theorem scanIdc_eq (idc : ByteString) (want : ℤ) (s : VisitState) (h : ListsSized s.lists) :
    scanIdc self lock start idc want s = some (PeerScans.scanIdc self lock start idc want s) := by
  unfold scanIdc PeerScans.scanIdc
  cases hlook : s.lists.lookup idc with
  | none => rfl
  | some peerVec =>
    obtain ⟨out, hout, heq⟩ := ScanIndexes.choosePeersByMap_eq self lock (start idc) peerVec want
      s.output s.ifSeedInserted (h idc peerVec hlook)
    dsimp only
    rw [hout, ← heq]
    rfl

theorem visitLoop_eq (randomIndex nowIndex : ℤ) (idcs : List ByteString) (s : VisitState)
    (hindex : 0 ≤ nowIndex) (hrooms : nowIndex + idcs.length < 2147483648)
    (h : ListsSized s.lists) :
    visitLoop self ownIdc lock numWant start randomIndex nowIndex idcs s =
      some (PeerScans.visitLoop self ownIdc lock numWant start randomIndex nowIndex idcs s) := by
  induction idcs generalizing nowIndex s with
  | nil => rfl
  | cons idc rest ih =>
    rw [List.length_cons] at hrooms
    have hnext : narrowInt (nowIndex + 1) = nowIndex + 1 :=
      narrowInt_eq _ (by omega) (by omega)
    have hrest (s : VisitState) (h : ListsSized s.lists) :=
      ih (nowIndex + 1) s (by omega) (by omega) h
    rw [visitLoop, PeerScans.visitLoop]
    simp only [hnext, scanIdc_eq self lock start idc _ s h, Option.bind_some, hrest s h,
      hrest _ (listsSized_scanIdc self lock start idc _ s h)]
    split
    · rfl
    · split
      · rfl
      · split <;> rfl

/-- The draw and the index of the rooms are exact too, there being less than 2^31 of them. -/
theorem visitIdcToPeers_eq (draws : VisitDraws) (idcMap : IdcToSingleVector)
    (ifSeedInserted : Bool) (hrooms : idcMap.entries.length < 2147483648)
    (h : ListsSized idcMap) :
    visitIdcToPeers self ownIdc lock numWant draws idcMap ifSeedInserted =
      some (PeerScans.visitIdcToPeers self ownIdc lock numWant draws idcMap ifSeedInserted) := by
  have hcut : narrowInt (idcMap.entries.length - 1) = idcMap.entries.length - 1 :=
    narrowInt_eq _ (by omega) (by omega)
  have hkeys : (draws.order.arrange idcMap.keys).length = idcMap.entries.length := by
    rw [(draws.order.perm idcMap.keys).length_eq, AList.keys, List.keys, List.length_map]
  unfold visitIdcToPeers PeerScans.visitIdcToPeers
  rw [scanIdc_eq self lock draws.start ownIdc numWant _ h, Option.bind_some, hcut]
  exact visitLoop_eq self ownIdc lock numWant draws.start _ 0 _ _ (le_refl 0) (by omega)
    (listsSized_scanIdc self lock draws.start ownIdc numWant _ h)

end Exact
end Gingko.VisitIndexes
