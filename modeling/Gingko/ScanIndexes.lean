import Gingko.PeerScans
import Mathlib.Data.List.Perm.Basic

/-!
The scan of a list of peers with the integers the code has. The size of the list, the
position and the offset are ints, and their sum is taken before the remainder; the
remainder may be below zero, and so may be no place of the list. A reference that is dead
is erased, and the size read again.
-/
namespace Gingko.ScanIndexes

open Base64Codec PeerRecords RandomDraws PeerUpdates PeerScans

/-- `erased` are the references that were taken out of the list, the last one at the
end. -/
structure IndexState where
  peerVec : SinglePeerVec
  peerVecSize : ℤ
  i : ℤ
  numWant : ℤ
  output : PeerList
  ifSeedInserted : Bool
  erased : List PeerRef

/-- A fault is a remainder by zero, or an index outside the list. -/
inductive Outcome
  | done (s : IndexState)
  | fault
  | running

section Scan

variable (self : ByteString) (lock : PeerRef → Option PeerInfo) (randomIndex : ℤ)

/-- The place in the list, if the index is one. -/
def place (s : IndexState) : Option (ℕ × PeerRef) :=
  if s.peerVecSize = 0 then none
  else
    let peerIndex := (narrowInt (s.i + randomIndex)).tmod s.peerVecSize
    if peerIndex < 0 then none
    else s.peerVec[peerIndex.toNat]?.map fun ref => (peerIndex.toNat, ref)

/-- The reference at the index goes, and the size is read again. -/
def eraseAt (s : IndexState) (peerIndex : ℕ) (ref : PeerRef) : IndexState :=
  { s with
    peerVec := s.peerVec.eraseIdx peerIndex
    peerVecSize := narrowInt (s.peerVec.eraseIdx peerIndex).length
    erased := s.erased ++ [ref] }

def step (s : IndexState) : Option IndexState :=
  (place randomIndex s).map fun (peerIndex, ref) =>
    match lock ref with
    | some p =>
      if p.initialized = false then { s with i := s.i + 1 }
      else if self = p.base64PeerId then { s with i := s.i + 1 }
      else
        { s with
          i := s.i + 1
          numWant := s.numWant - 1
          output := s.output ++ [p.copy]
          ifSeedInserted := s.ifSeedInserted || p.isASeed }
    | none => eraseAt s peerIndex ref

/-- The loop, with the number of passes it may take. -/
def loop : ℕ → IndexState → Outcome
  | 0, _ => .running
  | passes + 1, s =>
    if s.i < s.peerVecSize ∧ 0 < s.numWant then
      match step self lock randomIndex s with
      | none => .fault
      | some s' => loop passes s'
    else .done s

end Scan

section Erasures

variable (s : IndexState) (peerIndex : ℕ) (ref : PeerRef)

@[simp] theorem eraseAt_peerVec :
    (eraseAt s peerIndex ref).peerVec = s.peerVec.eraseIdx peerIndex := rfl

@[simp] theorem eraseAt_peerVecSize : (eraseAt s peerIndex ref).peerVecSize =
    narrowInt (s.peerVec.eraseIdx peerIndex).length := by
  simp only [eraseAt]

@[simp] theorem eraseAt_i : (eraseAt s peerIndex ref).i = s.i := rfl

@[simp] theorem eraseAt_erased : (eraseAt s peerIndex ref).erased = s.erased ++ [ref] := rfl

end Erasures

/-- Where the scan of a list starts. -/
def start (peerVec : SinglePeerVec) (numWant : ℤ) (output : PeerList) (ifSeedInserted : Bool) :
    IndexState :=
  ⟨peerVec, narrowInt peerVec.length, 0, numWant, output, ifSeedInserted, []⟩

@[simp] theorem start_peerVecSize (peerVec : SinglePeerVec) (numWant : ℤ) (output : PeerList)
    (ifSeedInserted : Bool) : (start peerVec numWant output ifSeedInserted).peerVecSize =
      narrowInt peerVec.length := by
  simp only [start]

def offset (peerVec : SinglePeerVec) (raw : ℕ) : ℤ :=
  getRandomNumber (narrowInt (narrowInt peerVec.length - 1)) raw

def choosePeersByMap (self : ByteString) (lock : PeerRef → Option PeerInfo) (raw passes : ℕ)
    (peerVec : SinglePeerVec) (numWant : ℤ) (output : PeerList) (ifSeedInserted : Bool) :
    Outcome :=
  loop self lock (offset peerVec raw) passes (start peerVec numWant output ifSeedInserted)

/-- The largest size with which no sum of a position and an offset is too large. -/
def maxSize : ℤ := 1073741825

section Passes

variable (self : ByteString) (lock : PeerRef → Option PeerInfo) {randomIndex : ℤ}

theorem narrowInt_pos_le (n : ℕ) (h : 0 < narrowInt n) : narrowInt n ≤ n := by
  unfold narrowInt at *
  rw [Int.bmod_def] at *
  split at h <;> split <;> omega

/-- One element less, where the size is above zero, is a size one less. -/
theorem narrowInt_pred (n : ℕ) (h : 0 < narrowInt (n + 1 : ℕ)) :
    narrowInt n = narrowInt (n + 1 : ℕ) - 1 := by
  unfold narrowInt at *
  rw [Int.bmod_def] at *
  rw [Int.bmod_def]
  split at h <;> split <;> omega

/-- The size is that of the list, and the erased references were dead ones of the first
list. -/
structure Good (peerVec : SinglePeerVec) (s : IndexState) : Prop where
  size_eq : s.peerVecSize = narrowInt s.peerVec.length
  size_le : s.peerVecSize ≤ maxSize
  i_nonneg : 0 ≤ s.i
  dead : ∀ ref ∈ s.erased, lock ref = none
  perm : (s.peerVec ++ s.erased).Perm peerVec

/-- In the loop the index is a place of the list. -/
theorem Good.place {peerVec : SinglePeerVec} {s : IndexState} (h : Good lock peerVec s)
    (hlt : s.i < s.peerVecSize) (hoffset : 0 ≤ randomIndex) (hsmall : randomIndex + 1 < maxSize) :
    ∃ peerIndex ref, place randomIndex s = some (peerIndex, ref) ∧
      s.peerVec[peerIndex]? = some ref ∧
      peerIndex = ((s.i + randomIndex) % s.peerVecSize).toNat := by
  have hnonneg := h.i_nonneg
  have hsize := h.size_le
  have hpos : 0 < s.peerVecSize := by omega
  have hle : s.peerVecSize ≤ s.peerVec.length := by
    have hle := narrowInt_pos_le s.peerVec.length (h.size_eq ▸ hpos)
    rwa [← h.size_eq] at hle
  have hsum : narrowInt (s.i + randomIndex) = s.i + randomIndex := by
    unfold maxSize at *
    exact narrowInt_eq _ (by omega) (by omega)
  have hindex : (s.i + randomIndex).tmod s.peerVecSize = (s.i + randomIndex) % s.peerVecSize :=
    Int.tmod_eq_emod_of_nonneg (by omega)
  have hlow := Int.emod_nonneg (s.i + randomIndex) (show s.peerVecSize ≠ 0 by omega)
  have hhigh := Int.emod_lt_of_pos (s.i + randomIndex) hpos
  have hin : ((s.i + randomIndex) % s.peerVecSize).toNat < s.peerVec.length := by omega
  refine ⟨_, _, ?_, List.getElem?_eq_getElem hin, rfl⟩
  simp only [ScanIndexes.place, hsum, hindex, if_neg (show s.peerVecSize ≠ 0 by omega),
    if_neg (show ¬(s.i + randomIndex) % s.peerVecSize < 0 by omega),
    List.getElem?_eq_getElem hin, Option.map_some]

/-- A pass over a live reference. -/
theorem Good.advance {peerVec : SinglePeerVec} {s s' : IndexState} (h : Good lock peerVec s)
    (hvec : s'.peerVec = s.peerVec) (hsize : s'.peerVecSize = s.peerVecSize)
    (hi : s'.i = s.i + 1) (herased : s'.erased = s.erased) : Good lock peerVec s' where
  size_eq := by rw [hsize, hvec, h.size_eq]
  size_le := by
    rw [hsize]
    exact h.size_le
  i_nonneg := by
    have hnonneg := h.i_nonneg
    omega
  dead := by
    rw [herased]
    exact h.dead
  perm := by
    rw [hvec, herased]
    exact h.perm

/-- A dead reference is erased, and the size is one less. -/
theorem Good.erase {peerVec : SinglePeerVec} {s : IndexState} (h : Good lock peerVec s)
    (hpos : 0 < s.peerVecSize) {peerIndex : ℕ} (hin : peerIndex < s.peerVec.length)
    (hdead : lock s.peerVec[peerIndex] = none) :
    Good lock peerVec (eraseAt s peerIndex s.peerVec[peerIndex]) ∧
      (eraseAt s peerIndex s.peerVec[peerIndex]).peerVecSize = s.peerVecSize - 1 := by
  have hlength : s.peerVec.length = (s.peerVec.eraseIdx peerIndex).length + 1 := by
    rw [List.length_eraseIdx_of_lt hin]
    omega
  have hless : narrowInt (s.peerVec.eraseIdx peerIndex).length = s.peerVecSize - 1 := by
    rw [h.size_eq, hlength]
    refine narrowInt_pred _ ?_
    rwa [← hlength, ← h.size_eq]
  have hle := h.size_le
  refine ⟨⟨?_, ?_, h.i_nonneg, ?_, ?_⟩, ?_⟩
  · rw [eraseAt_peerVecSize, eraseAt_peerVec]
  · rw [eraseAt_peerVecSize, hless]
    omega
  · intro ref href
    rw [eraseAt_erased] at href
    obtain hold | hnew := List.mem_append.mp href
    · exact h.dead ref hold
    · rw [List.mem_singleton.mp hnew]
      exact hdead
  · rw [eraseAt_peerVec, eraseAt_erased]
    calc
      s.peerVec.eraseIdx peerIndex ++ (s.erased ++ [s.peerVec[peerIndex]])
      _ |>.Perm (s.peerVec[peerIndex] :: (s.peerVec.eraseIdx peerIndex ++ s.erased)) := by
        rw [← List.append_assoc]
        exact List.perm_append_singleton _ _
      _ |>.Perm (s.peerVec ++ s.erased) :=
        (List.getElem_cons_eraseIdx_perm hin).append_right s.erased
      _ |>.Perm peerVec := h.perm
  · rw [eraseAt_peerVecSize, hless]

/-- One pass goes through, and takes one of the positions that are left. -/
theorem Good.step {peerVec : SinglePeerVec} {s : IndexState} (h : Good lock peerVec s)
    (hlt : s.i < s.peerVecSize) (hoffset : 0 ≤ randomIndex) (hsmall : randomIndex + 1 < maxSize) :
    ∃ s', step self lock randomIndex s = some s' ∧ Good lock peerVec s' ∧
      s'.peerVecSize - s'.i = s.peerVecSize - s.i - 1 := by
  obtain ⟨peerIndex, ref, hplace, href, -⟩ := h.place lock hlt hoffset hsmall
  obtain ⟨hin, rfl⟩ := List.getElem?_eq_some_iff.mp href
  have hnonneg := h.i_nonneg
  rw [ScanIndexes.step, hplace, Option.map_some]
  refine ⟨_, rfl, ?_⟩
  dsimp only
  split
  · have hposition : s.peerVecSize - (s.i + 1) = s.peerVecSize - s.i - 1 := by omega
    split
    · exact ⟨h.advance lock rfl rfl rfl rfl, hposition⟩
    · split
      · exact ⟨h.advance lock rfl rfl rfl rfl, hposition⟩
      · exact ⟨h.advance lock rfl rfl rfl rfl, hposition⟩
  · next hdead =>
    obtain ⟨hgood, hsize⟩ := h.erase lock (by omega) hin hdead
    refine ⟨hgood, ?_⟩
    rw [hsize, eraseAt_i]
    omega

/-- The passes that are left are as many as the positions. -/
theorem Good.loop {peerVec : SinglePeerVec} {s : IndexState} (h : Good lock peerVec s)
    (hoffset : 0 ≤ randomIndex) (hsmall : randomIndex + 1 < maxSize) (passes : ℕ)
    (hpasses : s.peerVecSize - s.i < passes + 1) :
    ∃ out, loop self lock randomIndex (passes + 1) s = .done out ∧ Good lock peerVec out := by
  induction passes generalizing s with
  | zero =>
    rw [ScanIndexes.loop, if_neg (by omega)]
    exact ⟨s, rfl, h⟩
  | succ passes ih =>
    rw [ScanIndexes.loop]
    split
    · next hcond =>
      obtain ⟨s', hstep, hgood, hless⟩ := h.step self lock hcond.1 hoffset hsmall
      rw [hstep]
      exact ih hgood (by omega)
    · exact ⟨s, rfl, h⟩

theorem offset_bounds (peerVec : SinglePeerVec) (raw : ℕ) (hpos : 0 < narrowInt peerVec.length)
    (hle : narrowInt peerVec.length ≤ maxSize) :
    0 ≤ offset peerVec raw ∧ offset peerVec raw + 1 < maxSize := by
  have hmax : narrowInt (narrowInt peerVec.length - 1) = narrowInt peerVec.length - 1 := by
    unfold maxSize at hle
    exact narrowInt_eq _ (by omega) (by omega)
  rw [offset, hmax]
  refine ⟨getRandomNumber_nonneg _ raw (by omega), ?_⟩
  unfold getRandomNumber maxSize at *
  split
  · omega
  · rw [if_neg (by omega)]
    have hlt := Int.emod_lt_of_pos (raw : ℤ)
      (show 0 < narrowInt peerVec.length - 1 by omega)
    omega

theorem good_start (peerVec : SinglePeerVec) (numWant : ℤ) (output : PeerList)
    (ifSeedInserted : Bool) (hle : narrowInt peerVec.length ≤ maxSize) :
    Good lock peerVec (start peerVec numWant output ifSeedInserted) := by
  refine ⟨start_peerVecSize _ _ _ _, ?_, le_refl _, fun ref h => absurd h List.not_mem_nil, ?_⟩
  · rwa [start_peerVecSize]
  · rw [start, List.append_nil]

/-- A list of up to 2^30 + 1 peers is scanned without a fault and in no more passes than
it has peers, and what is erased from it is dead. -/
theorem choosePeersByMap_done (raw : ℕ) (peerVec : SinglePeerVec) (numWant : ℤ)
    (output : PeerList) (ifSeedInserted : Bool) (hle : narrowInt peerVec.length ≤ maxSize) :
    ∃ out, choosePeersByMap self lock raw (peerVec.length + 1) peerVec numWant output
        ifSeedInserted = .done out ∧
      (∀ ref ∈ out.erased, lock ref = none) ∧ (out.peerVec ++ out.erased).Perm peerVec := by
  have hstart := good_start lock peerVec numWant output ifSeedInserted hle
  by_cases hpos : 0 < narrowInt peerVec.length
  · obtain ⟨hoffset, hsmall⟩ := offset_bounds peerVec raw hpos hle
    have hpasses : (start peerVec numWant output ifSeedInserted).peerVecSize -
        (start peerVec numWant output ifSeedInserted).i < (peerVec.length : ℤ) + 1 := by
      have hsize := narrowInt_pos_le peerVec.length hpos
      have hi : (start peerVec numWant output ifSeedInserted).i = 0 := rfl
      rw [start_peerVecSize, hi]
      omega
    obtain ⟨out, hout, hgood⟩ := hstart.loop self lock hoffset hsmall peerVec.length hpasses
    exact ⟨out, hout, hgood.dead, hgood.perm⟩
  · refine ⟨start peerVec numWant output ifSeedInserted, ?_, hstart.dead, hstart.perm⟩
    rw [choosePeersByMap, loop, if_neg]
    rintro ⟨hlt, -⟩
    rw [start_peerVecSize] at hlt
    exact hpos hlt

/-- The state as the other model of the scan has it, whose positions are exact. -/
def IndexState.toScanState (s : IndexState) : ScanState :=
  ⟨s.peerVec, s.i.toNat, s.numWant, s.output, s.ifSeedInserted⟩

/-- Where the size is the length of the list, a pass is one of the other model. -/
theorem Good.step_eq {peerVec : SinglePeerVec} {s s' : IndexState} (h : Good lock peerVec s)
    (hlt : s.i < s.peerVecSize) (hoffset : 0 ≤ randomIndex) (hsmall : randomIndex + 1 < maxSize)
    (hlength : s.peerVecSize = s.peerVec.length)
    (hstep : ScanIndexes.step self lock randomIndex s = some s') :
    s'.toScanState = scanStep self lock randomIndex s.toScanState := by
  obtain ⟨k, ref, hplace, href, hk⟩ := h.place lock hlt hoffset hsmall
  have hi : ((s.i.toNat : ℕ) : ℤ) = s.i := Int.toNat_of_nonneg h.i_nonneg
  have hnext : (s.i + 1).toNat = s.i.toNat + 1 := Int.toNat_add_nat h.i_nonneg 1
  have hindex : peerIndex randomIndex s.toScanState = k := by
    rw [hk, hlength]
    simp only [peerIndex, IndexState.toScanState, hi]
  have hcurrent : current randomIndex s.toScanState = ref := by
    rw [current, hindex, IndexState.toScanState, List.getD_eq_getElem?_getD, href,
      Option.getD_some]
  rw [ScanIndexes.step, hplace, Option.map_some, Option.some.injEq] at hstep
  rw [← hstep, scanStep, hcurrent]
  dsimp only
  cases hlock : lock ref with
  | none =>
    simp only [hindex]
    rfl
  | some p =>
    simp only [IndexState.toScanState]
    split
    · rw [hnext]
    · split <;> rw [hnext]

theorem Good.loop_eq {peerVec : SinglePeerVec} {s : IndexState} (h : Good lock peerVec s)
    (hoffset : 0 ≤ randomIndex) (hsmall : randomIndex + 1 < maxSize)
    (hlength : peerVec.length < 2147483648) (passes : ℕ)
    (hpasses : s.peerVecSize - s.i < passes + 1) :
    ∃ out, ScanIndexes.loop self lock randomIndex (passes + 1) s = .done out ∧
      out.toScanState = scanLoop self lock randomIndex passes s.toScanState := by
  have hsize {s : IndexState} (h : Good lock peerVec s) : s.peerVecSize = s.peerVec.length := by
    have hperm := h.perm.length_eq
    rw [List.length_append] at hperm
    rw [h.size_eq]
    exact narrowInt_eq _ (by omega) (by omega)
  induction passes generalizing s with
  | zero =>
    rw [ScanIndexes.loop, if_neg (by omega)]
    exact ⟨s, rfl, rfl⟩
  | succ passes ih =>
    have hi : ((s.i.toNat : ℕ) : ℤ) = s.i := Int.toNat_of_nonneg h.i_nonneg
    have hcond : s.i < s.peerVecSize ∧ 0 < s.numWant ↔
        s.toScanState.i < s.toScanState.peerVec.length ∧ 0 < s.toScanState.numWant := by
      rw [hsize h, IndexState.toScanState]
      refine and_congr_left fun _ => ?_
      dsimp only
      omega
    rw [ScanIndexes.loop, scanLoop]
    split
    · next hgoes =>
      obtain ⟨s', hstep, hgood, hless⟩ := h.step self lock hgoes.1 hoffset hsmall
      rw [hstep, if_pos (hcond.mp hgoes),
        ← h.step_eq self lock hgoes.1 hoffset hsmall (hsize h) hstep]
      exact ih hgood (by omega)
    · next hends =>
      rw [if_neg (hcond.not.mp hends)]
      exact ⟨s, rfl, rfl⟩

/-- On lists whose positions are exact the two models of the scan agree. -/
theorem choosePeersByMap_eq (raw : ℕ) (peerVec : SinglePeerVec) (numWant : ℤ)
    (output : PeerList) (ifSeedInserted : Bool) (hle : peerVec.length ≤ 1073741824) :
    ∃ out, choosePeersByMap self lock raw (peerVec.length + 1) peerVec numWant output
        ifSeedInserted = .done out ∧
      out.toScanState =
        PeerScans.choosePeersByMap self lock raw peerVec numWant output ifSeedInserted := by
  have hsize : narrowInt peerVec.length = peerVec.length :=
    narrowInt_eq _ (by omega) (by omega)
  obtain hnone | hpos := Nat.eq_zero_or_pos peerVec.length
  · obtain rfl := List.length_eq_zero_iff.mp hnone
    exact ⟨start [] numWant output ifSeedInserted, rfl, rfl⟩
  have hoffset : offset peerVec raw = getRandomNumber (peerVec.length - 1) raw := by
    rw [offset, hsize]
    exact congrArg (getRandomNumber · raw) (narrowInt_eq _ (by omega) (by omega))
  have hmax : narrowInt peerVec.length ≤ maxSize := by
    unfold maxSize
    omega
  obtain ⟨hnonneg, hsmall⟩ := offset_bounds peerVec raw (by omega) hmax
  have hstart := good_start lock peerVec numWant output ifSeedInserted hmax
  have hi : (start peerVec numWant output ifSeedInserted).i = 0 := rfl
  obtain ⟨out, hout, heq⟩ := hstart.loop_eq self lock hnonneg hsmall (by omega) peerVec.length
    (by rw [start_peerVecSize, hi]; omega)
  refine ⟨out, hout, ?_⟩
  rw [heq, hoffset]
  rfl

end Passes

/-- Of three peers the middle one is dead. -/
theorem choosePeersByMap_done_three :
    ∃ out, choosePeersByMap [] (fun ref => if ref = 1 then none else some {}) 1 4 [0, 1, 2] 5 []
        false = .done out ∧
      (∀ ref ∈ out.erased, (if ref = 1 then none else some ({} : PeerInfo)) = none) ∧
      (out.peerVec ++ out.erased).Perm [0, 1, 2] :=
  choosePeersByMap_done [] (fun ref => if ref = 1 then none else some {}) 1 [0, 1, 2] 5 [] false
    (by decide)

section Overflow

/-- With the largest offset the position 2^30 gives a sum that is out of range. -/
theorem loop_fault (peerVec : SinglePeerVec) (hlength : peerVec.length = 1073741826) (k : ℕ)
    (hk : k ≤ 1073741824) (s : IndexState) (hvec : s.peerVec = peerVec)
    (hsize : s.peerVecSize = 1073741826) (hi : s.i = 1073741824 - k) (hwant : 0 < s.numWant) :
    loop [] (fun _ => some {}) 1073741824 (k + 1) s = .fault := by
  induction k generalizing s with
  | zero =>
    have hsum : narrowInt (s.i + 1073741824) = -2147483648 := by
      rw [hi]
      decide
    have hplace : place 1073741824 s = none := by
      rw [place, hsum, hsize, if_neg (by decide)]
      exact if_pos (by decide)
    rw [loop, if_pos (by omega), step, hplace]
    rfl
  | succ k ih =>
    have hsum : narrowInt (s.i + 1073741824) = s.i + 1073741824 :=
      narrowInt_eq _ (by omega) (by omega)
    have hindex : (s.i + 1073741824).tmod 1073741826 = (s.i + 1073741824) % 1073741826 :=
      Int.tmod_eq_emod_of_nonneg (by omega)
    have hin : ((s.i + 1073741824) % 1073741826).toNat < s.peerVec.length := by
      rw [hvec, hlength]
      omega
    have hstep : step [] (fun _ => some {}) 1073741824 s = some { s with i := s.i + 1 } := by
      simp only [step, place, hsum, hsize, hindex, List.getElem?_eq_getElem hin,
        if_neg (show ¬(s.i + 1073741824) % 1073741826 < 0 by omega), Option.map_some]
      rfl
    have hnext : s.i + 1 = 1073741824 - (k : ℤ) := by omega
    rw [loop, if_pos (by omega), hstep]
    exact ih (by omega) _ hvec hsize hnext hwant

/-- In a list of 2^30 + 2 live peers that are passed over, some draw leads to an index
below zero. -/
theorem choosePeersByMap_fault :
    choosePeersByMap [] (fun _ => some {}) 1073741824 1073741825 (List.replicate 1073741826 0) 1 []
      false = .fault := by
  have hlength : (List.replicate 1073741826 (0 : PeerRef)).length = 1073741826 :=
    List.length_replicate
  generalize List.replicate 1073741826 (0 : PeerRef) = peerVec at hlength ⊢
  have hsize : narrowInt peerVec.length = 1073741826 := by
    rw [hlength]
    decide
  have hoffset : offset peerVec 1073741824 = 1073741824 := by
    rw [offset, hsize]
    decide
  rw [choosePeersByMap, hoffset]
  have hstart : (start peerVec 1 [] false).peerVecSize = 1073741826 := by
    rw [start_peerVecSize, hsize]
  exact loop_fault peerVec hlength 1073741824 (Nat.le_refl _) _ rfl hstart rfl Int.one_pos

end Overflow
end Gingko.ScanIndexes
