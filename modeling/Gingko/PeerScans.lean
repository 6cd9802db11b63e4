import Gingko.PeerUpdates
import Mathlib.Data.Int.ModEq

/-!
The scans that choose peers for an announce. A scan walks one list of weak
references circularly from a random offset, skips the requester and records
without identifiers, and erases the references it cannot lock; a visit scans
the list of the requester's machine room first and then those up to a random
position of the other rooms. Lengths and positions are exact
here, as those of the code are for lists of up to 2^30 entries; the number of peers
still wanted is narrowed to 32 bits as the code narrows it.
-/
namespace Gingko.PeerScans

open KeyedMaps Base64Codec PeerRecords RandomDraws PeerUpdates

structure ScanState where
  peerVec : SinglePeerVec
  i : ℕ
  numWant : ℤ
  output : PeerList
  ifSeedInserted : Bool

section Scan

variable (self : ByteString) (lock : PeerRef → Option PeerInfo) (randomIndex : ℤ)

def peerIndex (s : ScanState) : ℕ := (((s.i : ℤ) + randomIndex) % s.peerVec.length).toNat

def current (s : ScanState) : PeerRef := s.peerVec.getD (peerIndex randomIndex s) 0

/-- One pass through the loop body. The position does not advance when a dead
reference is erased. -/
def scanStep (s : ScanState) : ScanState :=
  match lock (current randomIndex s) with
  | some p =>
    if p.initialized = false then { s with i := s.i + 1 }
    else if self = p.base64PeerId then { s with i := s.i + 1 }
    else
      { s with
        i := s.i + 1
        numWant := s.numWant - 1
        output := s.output ++ [p.copy]
        ifSeedInserted := s.ifSeedInserted || p.isASeed }
  | none => { s with peerVec := s.peerVec.eraseIdx (peerIndex randomIndex s) }

/-- Every pass shortens the rest of the list by one, so the length of the
list is enough fuel. -/
def scanLoop : ℕ → ScanState → ScanState
  | 0, s => s
  | fuel + 1, s =>
    if s.i < s.peerVec.length ∧ 0 < s.numWant then scanLoop fuel (scanStep self lock randomIndex s)
    else s

end Scan

def choosePeersByMap (self : ByteString) (lock : PeerRef → Option PeerInfo) (raw : ℕ)
    (peerVec : SinglePeerVec) (numWant : ℤ) (output : PeerList) (ifSeedInserted : Bool) :
    ScanState :=
  scanLoop self lock (getRandomNumber (peerVec.length - 1) raw) peerVec.length
    ⟨peerVec, 0, numWant, output, ifSeedInserted⟩

/-- An unordered map lists its keys in an order of its own. -/
structure IterationOrder where
  arrange : List ByteString → List ByteString
  perm : ∀ keys, (arrange keys).Perm keys

/-- Raw draws of one visit: the cut over the machine rooms and, for each room,
the offset of the scan of its list. -/
structure VisitDraws where
  order : IterationOrder
  cut : ℕ
  start : ByteString → ℕ

structure VisitState where
  lists : IdcToSingleVector
  output : PeerList
  ifSeedInserted : Bool

def narrowInt (n : ℤ) : ℤ := n.bmod (2 ^ 32)

section Visit

variable (self ownIdc : ByteString) (lock : PeerRef → Option PeerInfo) (numWant : ℤ)

def numLeft (s : VisitState) : ℤ := narrowInt (numWant - s.output.length)

def scanIdc (start : ByteString → ℕ) (idc : ByteString) (want : ℤ) (s : VisitState) : VisitState :=
  match s.lists.lookup idc with
  | none => s
  | some peerVec =>
    let scanned := choosePeersByMap self lock (start idc) peerVec want s.output s.ifSeedInserted
    { lists := s.lists.insert idc scanned.peerVec
      output := scanned.output
      ifSeedInserted := scanned.ifSeedInserted }

/-- The loop over the other machine rooms. Rooms past the drawn index are
skipped, and so is the requester's own. -/
def visitLoop (start : ByteString → ℕ) (randomIndex : ℤ) :
    ℤ → List ByteString → VisitState → VisitState
  | _, [], s => s
  | nowIndex, idc :: rest, s =>
    if numLeft numWant s ≤ 0 then s
    else if randomIndex < nowIndex then visitLoop start randomIndex (nowIndex + 1) rest s
    else if idc = ownIdc then visitLoop start randomIndex (nowIndex + 1) rest s
    else visitLoop start randomIndex (nowIndex + 1) rest
      (scanIdc self lock start idc (numLeft numWant s) s)

def visitIdcToPeers (draws : VisitDraws) (idcMap : IdcToSingleVector) (ifSeedInserted : Bool) :
    VisitState :=
  let own := scanIdc self lock draws.start ownIdc numWant ⟨idcMap, [], ifSeedInserted⟩
  visitLoop self ownIdc lock numWant draws.start
    (getRandomNumber (idcMap.entries.length - 1) draws.cut) 0
    (draws.order.arrange idcMap.keys) own

end Visit

theorem narrowInt_eq (n : ℤ) (hlow : -2 ^ 31 ≤ n) (hhigh : n < 2 ^ 31) : narrowInt n = n := by
  unfold narrowInt
  apply Int.bmod_eq_of_le_mul_two <;> omega

section ScanFacts

variable (self : ByteString) (lock : PeerRef → Option PeerInfo) (randomIndex : ℤ)

theorem peerIndex_lt (s : ScanState) (h : s.i < s.peerVec.length) :
    peerIndex randomIndex s < s.peerVec.length := by
  unfold peerIndex
  have hnonneg := Int.emod_nonneg ((s.i : ℤ) + randomIndex)
    (show (s.peerVec.length : ℤ) ≠ 0 by omega)
  have hlt := Int.emod_lt_of_pos ((s.i : ℤ) + randomIndex)
    (show (0 : ℤ) < s.peerVec.length by omega)
  omega

theorem current_mem (s : ScanState) (h : s.i < s.peerVec.length) :
    current randomIndex s ∈ s.peerVec := by
  have hlt := peerIndex_lt randomIndex s h
  unfold current
  rw [List.getD_eq_getElem?_getD, List.getElem?_eq_getElem hlt]
  exact List.getElem_mem hlt

/-- A property of scan states that every executed pass keeps holds after the loop. -/
theorem scanLoop_invariant (I : ScanState → Prop)
    (hstep : ∀ s, I s → s.i < s.peerVec.length → 0 < s.numWant →
      I (scanStep self lock randomIndex s))
    (fuel : ℕ) (s : ScanState) (hs : I s) : I (scanLoop self lock randomIndex fuel s) := by
  induction fuel generalizing s with
  | zero => exact hs
  | succ fuel ih =>
    unfold scanLoop
    split
    · rename_i hcond
      exact ih _ (hstep s hs hcond.1 hcond.2)
    · exact hs

/-- What one executed pass can do. -/
inductive ScanCase (s : ScanState) : ScanState → Prop
  | skipped (p : PeerInfo) (hlock : lock (current randomIndex s) = some p)
      (hskip : p.initialized = false ∨ self = p.base64PeerId) :
      ScanCase s { s with i := s.i + 1 }
  | chosen (p : PeerInfo) (hlock : lock (current randomIndex s) = some p)
      (hinit : p.initialized = true) (hself : self ≠ p.base64PeerId) :
      ScanCase s
        { s with
          i := s.i + 1
          numWant := s.numWant - 1
          output := s.output ++ [p.copy]
          ifSeedInserted := s.ifSeedInserted || p.isASeed }
  | erased (hdead : lock (current randomIndex s) = none) :
      ScanCase s { s with peerVec := s.peerVec.eraseIdx (peerIndex randomIndex s) }

theorem scanStep_cases (s : ScanState) :
    ScanCase self lock randomIndex s (scanStep self lock randomIndex s) := by
  unfold scanStep
  cases hlock : lock (current randomIndex s) with
  | none => exact .erased hlock
  | some p =>
    by_cases hinit : p.initialized = false
    · simp only [hinit, if_true]
      exact .skipped p hlock (Or.inl hinit)
    · by_cases hself : self = p.base64PeerId
      · simp only [hinit, if_pos hself]
        exact .skipped p hlock (Or.inr hself)
      · simp only [hinit, if_neg hself]
        exact .chosen p hlock (by simpa using hinit) hself

/-- A pass uses up one unit of the remaining length, so the loop ends by its
own condition and not for lack of fuel. -/
theorem scanLoop_done (fuel : ℕ) (s : ScanState) (hfuel : s.peerVec.length ≤ fuel + s.i) :
    ¬ ((scanLoop self lock randomIndex fuel s).i <
        (scanLoop self lock randomIndex fuel s).peerVec.length ∧
      0 < (scanLoop self lock randomIndex fuel s).numWant) := by
  induction fuel generalizing s with
  | zero =>
    simp only [scanLoop]
    omega
  | succ fuel ih =>
    unfold scanLoop
    split
    · rename_i hcond
      apply ih
      have hindex := peerIndex_lt randomIndex s hcond.1
      have hcase := scanStep_cases self lock randomIndex s
      generalize scanStep self lock randomIndex s = t at hcase ⊢
      cases hcase with
      | skipped p hlock hskip =>
        show s.peerVec.length ≤ fuel + (s.i + 1)
        omega
      | chosen p hlock hinit hself =>
        show s.peerVec.length ≤ fuel + (s.i + 1)
        omega
      | erased hdead =>
        show (s.peerVec.eraseIdx (peerIndex randomIndex s)).length ≤ fuel + s.i
        rw [List.length_eraseIdx_of_lt hindex]
        omega
    · rename_i hcond
      exact hcond

theorem filter_eraseIdx_of_neg (p : PeerRef → Bool) (l : List PeerRef) (i : ℕ) (hi : i < l.length)
    (hp : p l[i] = false) : (l.eraseIdx i).filter p = l.filter p := by
  have hsplit : l = l.take i ++ l[i] :: l.drop (i + 1) := by
    rw [List.getElem_cons_drop]
    exact (List.take_append_drop i l).symm
  conv_rhs => rw [hsplit]
  rw [List.eraseIdx_eq_take_drop_succ, List.filter_append, List.filter_append,
    List.filter_cons_of_neg (by simp [hp])]

/-- The erasure of a reference that cannot be locked keeps the others. -/
theorem filter_erased (s : ScanState) (hi : s.i < s.peerVec.length)
    (hdead : lock (current randomIndex s) = none) :
    (s.peerVec.eraseIdx (peerIndex randomIndex s)).filter (fun ref => (lock ref).isSome) =
      s.peerVec.filter (fun ref => (lock ref).isSome) := by
  have hindex := peerIndex_lt randomIndex s hi
  apply filter_eraseIdx_of_neg _ s.peerVec _ hindex
  unfold current at hdead
  rw [List.getD_eq_getElem?_getD, List.getElem?_eq_getElem hindex, Option.getD_some] at hdead
  rw [hdead]
  rfl

/-- A scan changes its list by erasing references that cannot be locked. -/
theorem choosePeersByMap_erasures (P : SinglePeerVec → Prop) (raw : ℕ) (peerVec : SinglePeerVec)
    (numWant : ℤ) (output : PeerList) (ifSeedInserted : Bool)
    (herase : ∀ (index : ℤ) (s : ScanState), P s.peerVec → s.i < s.peerVec.length →
      lock (current index s) = none → P (s.peerVec.eraseIdx (peerIndex index s)))
    (h : P peerVec) :
    P (choosePeersByMap self lock raw peerVec numWant output ifSeedInserted).peerVec := by
  unfold choosePeersByMap
  apply scanLoop_invariant self lock _ (fun s : ScanState => P s.peerVec)
  · intro s hs hi _
    have hcase := scanStep_cases self lock (getRandomNumber (peerVec.length - 1) raw) s
    generalize scanStep self lock _ s = t at hcase ⊢
    cases hcase with
    | skipped p hlock hskip => exact hs
    | chosen p hlock hinit hself => exact hs
    | erased hdead => exact herase _ s hs hi hdead
  · exact h

theorem choosePeersByMap_live (raw : ℕ) (peerVec : SinglePeerVec) (numWant : ℤ) (output : PeerList)
    (ifSeedInserted : Bool) :
    (choosePeersByMap self lock raw peerVec numWant output ifSeedInserted).peerVec.filter
        (fun ref => (lock ref).isSome) = peerVec.filter (fun ref => (lock ref).isSome) := by
  apply choosePeersByMap_erasures self lock (fun vec =>
    vec.filter (fun ref => (lock ref).isSome) = peerVec.filter (fun ref => (lock ref).isSome))
  · intro index s hs hi hdead
    exact (filter_erased lock index s hi hdead).trans hs
  · rfl

theorem choosePeersByMap_sublist (raw : ℕ) (peerVec : SinglePeerVec) (numWant : ℤ)
    (output : PeerList) (ifSeedInserted : Bool) :
    (choosePeersByMap self lock raw peerVec numWant output ifSeedInserted).peerVec.Sublist
      peerVec := by
  apply choosePeersByMap_erasures self lock (fun vec => vec.Sublist peerVec)
  · intro index s hs _ _
    exact (List.eraseIdx_sublist s.peerVec _).trans hs
  · exact List.Sublist.refl peerVec

/-- A property of visits that the scan of a room keeps holds after the loop. -/
theorem visitLoop_invariant (I : VisitState → Prop) (ownIdc : ByteString) (numWant : ℤ)
    (start : ByteString → ℕ)
    (hscan : ∀ idc want s, I s → I (scanIdc self lock start idc want s))
    (bound nowIndex : ℤ) (idcs : List ByteString) (s : VisitState) (hs : I s) :
    I (visitLoop self ownIdc lock numWant start bound nowIndex idcs s) := by
  induction idcs generalizing nowIndex s with
  | nil => exact hs
  | cons idc rest ih =>
    unfold visitLoop
    split
    · exact hs
    · split
      · exact ih _ s hs
      · split
        · exact ih _ s hs
        · exact ih _ _ (hscan idc _ s hs)

theorem visitIdcToPeers_invariant (I : VisitState → Prop) (ownIdc : ByteString) (numWant : ℤ)
    (draws : VisitDraws) (idcMap : IdcToSingleVector) (ifSeedInserted : Bool)
    (hscan : ∀ idc want s, I s → I (scanIdc self lock draws.start idc want s))
    (h : I ⟨idcMap, [], ifSeedInserted⟩) :
    I (visitIdcToPeers self ownIdc lock numWant draws idcMap ifSeedInserted) :=
  visitLoop_invariant self lock I ownIdc numWant draws.start hscan _ _ _ _ (hscan ownIdc _ _ h)

/-- The references of the lists that can be locked, with their machine rooms. -/
def liveFiled (lists : IdcToSingleVector) : List (ByteString × PeerRef) :=
  (filed lists).filter (fun e => (lock e.2).isSome)

theorem scanIdc_live (start : ByteString → ℕ) (idc : ByteString) (want : ℤ) (s : VisitState) :
    (liveFiled lock (scanIdc self lock start idc want s).lists).Perm (liveFiled lock s.lists) := by
  unfold scanIdc
  split
  · exact List.Perm.refl _
  · rename_i peerVec hlook
    have hkept := choosePeersByMap_live self lock (start idc) peerVec want s.output s.ifSeedInserted
    have hold := (filed_perm_of_lookup s.lists idc peerVec hlook).filter
      (fun e => (lock e.2).isSome)
    unfold liveFiled
    refine List.Perm.trans ?_ hold.symm
    rw [filed_insert, List.filter_append, List.filter_append]
    apply List.Perm.append_right
    simp only [List.filter_map, Function.comp_def, hkept]
    exact List.Perm.refl _

/-- A visit changes the lists by dropping dead references only. -/
theorem visitIdcToPeers_live (ownIdc : ByteString) (numWant : ℤ) (draws : VisitDraws)
    (idcMap : IdcToSingleVector) (ifSeedInserted : Bool) :
    (liveFiled lock
      (visitIdcToPeers self ownIdc lock numWant draws idcMap ifSeedInserted).lists).Perm
        (liveFiled lock idcMap) := by
  apply visitIdcToPeers_invariant self lock (fun s : VisitState =>
    (liveFiled lock s.lists).Perm (liveFiled lock idcMap))
  · intro idc want s hs
    exact (scanIdc_live self lock draws.start idc want s).trans hs
  · exact List.Perm.refl _

theorem scanIdc_subset (start : ByteString → ℕ) (idc : ByteString) (want : ℤ) (s : VisitState) :
    filed (scanIdc self lock start idc want s).lists ⊆ filed s.lists := by
  unfold scanIdc
  split
  · exact List.Subset.refl _
  · rename_i peerVec hlook
    have hsub := choosePeersByMap_sublist self lock (start idc) peerVec want s.output
      s.ifSeedInserted
    intro e he
    rw [filed_insert, List.mem_append] at he
    apply (filed_perm_of_lookup s.lists idc peerVec hlook).mem_iff.mpr
    rw [List.mem_append]
    rcases he with hscanned | hrest
    · exact Or.inl ((hsub.map _).subset hscanned)
    · exact Or.inr hrest

theorem visitIdcToPeers_subset (ownIdc : ByteString) (numWant : ℤ) (draws : VisitDraws)
    (idcMap : IdcToSingleVector) (ifSeedInserted : Bool) :
    filed (visitIdcToPeers self ownIdc lock numWant draws idcMap ifSeedInserted).lists ⊆
      filed idcMap := by
  apply visitIdcToPeers_invariant self lock (fun s : VisitState => filed s.lists ⊆ filed idcMap)
  · intro idc want s hs
    exact List.Subset.trans (scanIdc_subset self lock draws.start idc want s) hs
  · exact List.Subset.refl _

end ScanFacts
end Gingko.PeerScans
