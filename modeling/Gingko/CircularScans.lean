import Gingko.ScanIndexes
import Gingko.ScanPicks

/-!
What a scan of one list picks. The walk visits the part of the list from its start,
then the part in front of it. It erases dead references, which is harmless behind the
start and at the end of the walk; after an erasure in front of the start the walk
skips the next reference and comes back to one that it has passed.
-/
namespace Gingko.CircularScans

open KeyedMaps Base64Codec PeerRecords RandomDraws PeerUpdates PeerScans ScanPicks

variable (selfId : ByteString) (lock : PeerRef → Option PeerInfo)

def live (ref : PeerRef) : Bool := (lock ref).isSome

/-- A live, initialised entry of another peer. -/
def eligible (ref : PeerRef) : Bool :=
  match lock ref with
  | some p => p.initialized && !decide (selfId = p.base64PeerId)
  | none => false

theorem eligible_iff (ref : PeerRef) :
    eligible selfId lock ref = true ↔ Pickable selfId lock ref := by
  unfold eligible Pickable
  cases lock ref with
  | none => simp
  | some p => simp

theorem live_of_eligible (ref : PeerRef) (h : eligible selfId lock ref = true) :
    live lock ref = true := by
  obtain ⟨p, hp, _⟩ := (eligible_iff selfId lock ref).mp h
  unfold live
  rw [hp]
  rfl

theorem filter_live_eligible (l : List PeerRef) :
    (l.filter (live lock)).filter (eligible selfId lock) = l.filter (eligible selfId lock) := by
  rw [List.filter_filter]
  apply List.filter_congr
  intro ref _
  cases helig : eligible selfId lock ref with
  | false => rfl
  | true => rw [live_of_eligible selfId lock ref helig, Bool.and_self]

section Walks

variable (front back : List PeerRef)

/-- Where the walk is: what it has visited, what lies ahead, and the list and the
position it has got to. -/
inductive Walk : List PeerRef → List PeerRef → SinglePeerVec → ℕ → Prop
  | behind (done todo : List PeerRef)
      (hback : back.filter (live lock) = done ++ todo.filter (live lock)) :
      Walk done (todo ++ front) (front ++ done ++ todo) done.length
  | before (done todo : List PeerRef) (hfront : front = done ++ todo)
      (hdone : ∀ ref ∈ done, live lock ref = true) :
      Walk (back.filter (live lock) ++ done) todo (front ++ back.filter (live lock))
        ((back.filter (live lock)).length + done.length)
  | ended (done : List PeerRef) (ref : PeerRef) (hfront : front = done ++ [ref])
      (hdone : ∀ ref ∈ done, live lock ref = true) (hdead : live lock ref = false)
      (vec : SinglePeerVec) (i : ℕ) (hpast : vec.length ≤ i) :
      Walk (back.filter (live lock) ++ done) [] vec i

variable {front back}

theorem Walk.circle {visited ahead : List PeerRef} {vec : SinglePeerVec} {i : ℕ}
    (h : Walk lock front back visited ahead vec i) :
    (visited ++ ahead).filter (eligible selfId lock) =
      (back ++ front).filter (eligible selfId lock) := by
  have hback := filter_live_eligible selfId lock back
  cases h with
  | behind done todo hsplit =>
    rw [hsplit, List.filter_append, filter_live_eligible] at hback
    simp only [List.filter_append, ← hback, List.append_assoc]
  | before done todo hfront hdone =>
    rw [List.append_assoc, List.filter_append, hback, ← hfront, List.filter_append]
  | ended done ref hfront hdone hdead hpast =>
    have hskip : eligible selfId lock ref = false := by
      cases helig : eligible selfId lock ref with
      | false => rfl
      | true => rw [live_of_eligible selfId lock ref helig] at hdead; contradiction
    rw [hfront]
    simp only [List.append_nil, List.filter_append, hback, List.filter_cons, hskip,
      Bool.false_eq_true, if_false, List.filter_nil]

theorem peerIndex_behind (start : ℕ) (s : ScanState) (h : start + s.i < s.peerVec.length) :
    peerIndex (start : ℤ) s = start + s.i := by
  unfold peerIndex
  rw [Int.emod_eq_of_lt (by omega) (by omega)]
  omega

theorem peerIndex_wrapped (start j : ℕ) (s : ScanState) (hj : j < s.peerVec.length)
    (h : start + s.i = s.peerVec.length + j) : peerIndex (start : ℤ) s = j := by
  unfold peerIndex
  have hsum : (s.i : ℤ) + start = j + s.peerVec.length := by omega
  rw [hsum, Int.add_emod_right, Int.emod_eq_of_lt (by omega) (by omega)]
  omega

theorem current_of_split (start : ℕ) (s : ScanState) (pre post : List PeerRef) (ref : PeerRef)
    (hvec : s.peerVec = pre ++ ref :: post) (hindex : peerIndex (start : ℤ) s = pre.length) :
    PeerScans.current (start : ℤ) s = ref ∧
      s.peerVec.eraseIdx (peerIndex (start : ℤ) s) = pre ++ post := by
  constructor
  · unfold PeerScans.current
    rw [hindex, hvec, List.getD_eq_getElem?_getD, List.getElem?_append_right (Nat.le_refl _),
      Nat.sub_self]
    rfl
  · rw [hindex, hvec, List.eraseIdx_append_of_length_le (Nat.le_refl _), Nat.sub_self]
    rfl

/-- What a pass from a walk's place comes to. When it erases a reference in front of
the start, the walk goes on as it should only if that reference is the last one. -/
def StepsOn (front back visited ahead : List PeerRef) (s : ScanState) : Prop :=
  ∃ ref rest, ahead = ref :: rest ∧ PeerScans.current (front.length : ℤ) s = ref ∧
    (live lock ref = true → Walk lock front back (visited ++ [ref]) rest s.peerVec (s.i + 1)) ∧
    (live lock ref = false →
      Walk lock front back visited rest
          (s.peerVec.eraseIdx (peerIndex (front.length : ℤ) s)) s.i ∧
        front.length ≤ peerIndex (front.length : ℤ) s + 1 ∨
      ∃ done, front = done ++ ref :: rest ∧ rest ≠ [] ∧
        visited = back.filter (live lock) ++ done ∧ (∀ ref ∈ done, live lock ref = true) ∧
        peerIndex (front.length : ℤ) s = done.length)

theorem stepsOn_before (s : ScanState) (done todo : List PeerRef) (hfront : front = done ++ todo)
    (hdone : ∀ ref ∈ done, live lock ref = true)
    (hvec : s.peerVec = front ++ back.filter (live lock))
    (hplace : s.i = (back.filter (live lock)).length + done.length)
    (hi : s.i < s.peerVec.length) :
    StepsOn lock front back (back.filter (live lock) ++ done) todo s := by
  have hsize : s.peerVec.length = front.length + (back.filter (live lock)).length := by
    rw [hvec, List.length_append]
  have hparts : front.length = done.length + todo.length := by
    rw [hfront, List.length_append]
  cases todo with
  | nil =>
    simp only [List.length_nil] at hparts
    omega
  | cons ref rest =>
    simp only [List.length_cons] at hparts
    have hindex := peerIndex_wrapped front.length done.length s (by omega) (by omega)
    have hsplit : s.peerVec = done ++ ref :: (rest ++ back.filter (live lock)) := by
      rw [hvec, hfront]
      simp only [List.append_assoc, List.cons_append]
    obtain ⟨hcurrent, herase⟩ := current_of_split front.length s done _ ref hsplit hindex
    refine ⟨ref, rest, rfl, hcurrent, ?_, ?_⟩
    · intro hlive
      have hgrown : ∀ r ∈ done ++ [ref], live lock r = true := by
        intro r hr
        rcases List.mem_append.mp hr with hold | hnew
        · exact hdone r hold
        · rw [List.mem_singleton.mp hnew]
          exact hlive
      have hsplit' : front = (done ++ [ref]) ++ rest := by
        rw [hfront, List.append_assoc]
        rfl
      have hwalk : Walk lock front back (back.filter (live lock) ++ (done ++ [ref])) rest
          (front ++ back.filter (live lock))
          ((back.filter (live lock)).length + (done ++ [ref]).length) :=
        .before (done ++ [ref]) rest hsplit' hgrown
      rw [hvec, hplace]
      simpa only [List.append_assoc, List.length_append, List.length_singleton, Nat.add_assoc]
        using hwalk
    · intro hdead
      cases rest with
      | nil =>
        simp only [List.length_nil] at hparts
        refine Or.inl ⟨.ended done ref hfront hdone hdead _ _ ?_, by omega⟩
        rw [herase]
        simp only [List.nil_append, List.length_append]
        omega
      | cons next more => exact Or.inr ⟨done, hfront, by simp, rfl, hdone, hindex⟩

/-- A walk that has not come to its end stands before the first reference ahead. -/
theorem Walk.stepsOn {visited ahead : List PeerRef} {s : ScanState}
    (h : Walk lock front back visited ahead s.peerVec s.i) (hi : s.i < s.peerVec.length) :
    StepsOn lock front back visited ahead s := by
  generalize hvec : s.peerVec = vec at h
  generalize hplace : s.i = i at h
  cases h with
  | behind done todo hback =>
    cases todo with
    | nil =>
      simp only [List.filter_nil, List.append_nil] at hback hvec
      have hbefore : StepsOn lock front back (back.filter (live lock) ++ []) front s :=
        stepsOn_before lock s [] front rfl (by simp) (by rw [hvec, hback])
          (by rw [hplace, hback]; rfl) hi
      rw [hback, List.append_nil] at hbefore
      exact hbefore
    | cons ref rest =>
      have hsplit : s.peerVec = (front ++ visited) ++ ref :: rest := hvec
      have hsize : s.peerVec.length = front.length + visited.length + (rest.length + 1) := by
        rw [hvec]
        simp only [List.length_append, List.length_cons]
      have hindex : peerIndex (front.length : ℤ) s = (front ++ visited).length := by
        rw [peerIndex_behind front.length s (by omega), List.length_append, hplace]
      obtain ⟨hcurrent, herase⟩ := current_of_split front.length s _ _ ref hsplit hindex
      refine ⟨ref, rest ++ front, rfl, hcurrent, ?_, ?_⟩
      · intro hlive
        have hwalk : Walk lock front back (visited ++ [ref]) (rest ++ front)
            (front ++ (visited ++ [ref]) ++ rest) (visited ++ [ref]).length :=
          .behind (visited ++ [ref]) rest (by
            rw [hback, List.filter_cons, hlive, if_pos rfl, List.append_assoc]
            rfl)
        rw [hvec, hplace]
        simpa only [List.append_assoc, List.length_append, List.length_singleton,
          List.singleton_append] using hwalk
      · intro hdead
        left
        constructor
        · rw [herase, hplace]
          exact .behind visited rest (by rw [hback, List.filter_cons, hdead]; rfl)
        · rw [hindex, List.length_append]
          omega
  | before done todo hfront hdone =>
    exact stepsOn_before lock s done ahead hfront hdone hvec hplace hi
  | ended done ref hfront hdone hdead hpast =>
    rw [← hvec, ← hplace] at *
    omega

/-- A walk that has come to its end has nothing ahead. -/
theorem Walk.ahead_nil {visited ahead : List PeerRef} {vec : SinglePeerVec} {i : ℕ}
    (h : Walk lock front back visited ahead vec i) (hi : vec.length ≤ i) : ahead = [] := by
  cases h with
  | behind done todo hback =>
    simp only [List.length_append] at hi
    have hfront : front = [] := List.eq_nil_of_length_eq_zero (by omega)
    have htodo : todo = [] := List.eq_nil_of_length_eq_zero (by omega)
    rw [htodo, hfront]
    rfl
  | before done todo hfront hdone =>
    have hparts : front.length = done.length + ahead.length := by
      rw [hfront, List.length_append]
    rw [List.length_append] at hi
    exact List.eq_nil_of_length_eq_zero (by omega)
  | ended done ref hfront hdone hdead hpast => rfl

/-- A walk with nothing ahead has found the front live, but for the last reference. -/
theorem Walk.front_live {visited ahead : List PeerRef} {vec : SinglePeerVec} {i : ℕ}
    (h : Walk lock front back visited ahead vec i) (hahead : ahead = []) :
    ∀ ref ∈ front.dropLast, live lock ref = true := by
  cases h with
  | behind done todo hback =>
    rw [(List.append_eq_nil_iff.mp hahead).2]
    simp
  | before done todo hfront hdone =>
    rw [hfront, hahead, List.append_nil]
    exact fun ref hmem => hdone ref (List.mem_of_mem_dropLast hmem)
  | ended done ref hfront hdone hdead hpast =>
    rw [hfront, List.dropLast_concat]
    exact hdone

/-- A walk in front of the start has met no dead reference there so far. -/
theorem Walk.visited_prefix {visited ahead : List PeerRef} {vec : SinglePeerVec} {i : ℕ}
    (h : Walk lock front back visited ahead vec i) :
    visited <+: back.filter (live lock) ++ front.takeWhile (live lock) := by
  cases h with
  | behind done todo hback =>
    rw [hback, List.append_assoc]
    exact List.prefix_append _ _
  | before done todo hfront hdone =>
    rw [hfront, List.takeWhile_append_of_pos hdone, ← List.append_assoc]
    exact List.prefix_append _ _
  | ended done ref hfront hdone hdead hpast =>
    rw [hfront, List.takeWhile_append_of_pos hdone, ← List.append_assoc]
    exact List.prefix_append _ _

end Walks

section Scans

variable (peerVec : SinglePeerVec) (numWant : ℤ)

/-- The scan does no harm: of the part in front of the start only the last reference
may be dead, or enough peers come before the first dead one. -/
def Untroubled (start : ℕ) : Prop :=
  (∀ ref ∈ (peerVec.take start).dropLast, live lock ref = true) ∨
    numWant ≤ ((peerVec.drop start ++ (peerVec.take start).takeWhile (live lock)).filter
      (eligible selfId lock)).length

/-- The picks so far are the eligible references that the walk has visited. -/
structure Scanned (start : ℕ) (output : PeerList) (visited ahead : List PeerRef) (s : ScanState) :
    Prop where
  walk : Walk lock (peerVec.take start) (peerVec.drop start) visited ahead s.peerVec s.i
  output : s.output = output ++ (visited.filter (eligible selfId lock)).map (pick lock)
  want : s.numWant + (visited.filter (eligible selfId lock)).length = numWant
  nonneg : 0 ≤ s.numWant

variable {peerVec numWant}

/-- The next pass erases a reference in front of the start that is not the last one
there, so the walk passes over the one behind it. -/
def PassesOver (start : ℕ) (s : ScanState) : Prop :=
  s.i < s.peerVec.length ∧ 0 < s.numWant ∧ live lock (PeerScans.current (start : ℤ) s) = false ∧
    peerIndex (start : ℤ) s + 1 < start

theorem scanned_step (start : ℕ) (hstart : start ≤ peerVec.length) (output : PeerList)
    (visited ahead : List PeerRef) (s : ScanState)
    (h : Scanned selfId lock peerVec numWant start output visited ahead s)
    (hi : s.i < s.peerVec.length) (hwant : 0 < s.numWant) (hpass : ¬ PassesOver lock start s) :
    ∃ visited' ahead', Scanned selfId lock peerVec numWant start output visited' ahead'
      (scanStep selfId lock start s) := by
  have hlength : (peerVec.take start).length = start := List.length_take_of_le hstart
  obtain ⟨ref, rest, hahead, hcurrent, hlive, hdead⟩ := h.walk.stepsOn lock hi
  rw [hlength] at hcurrent hdead
  have hcase := scanStep_cases selfId lock (start : ℤ) s
  generalize scanStep selfId lock (start : ℤ) s = t at hcase ⊢
  cases hcase with
  | skipped p hlock hskip =>
    rw [hcurrent] at hlock
    have hineligible : eligible selfId lock ref = false := by
      unfold eligible
      rw [hlock]
      rcases hskip with hblank | hself
      · simp [hblank]
      · simp [hself]
    have hsame : (visited ++ [ref]).filter (eligible selfId lock) =
        visited.filter (eligible selfId lock) := by
      simp [List.filter_append, hineligible]
    refine ⟨visited ++ [ref], rest, hlive (by simp [live, hlock]), ?_, ?_, h.nonneg⟩
    · rw [hsame]
      exact h.output
    · rw [hsame]
      exact h.want
  | chosen p hlock hinit hself =>
    rw [hcurrent] at hlock
    have heligible : eligible selfId lock ref = true :=
      (eligible_iff selfId lock ref).mpr ⟨p, hlock, hinit, hself⟩
    have hgrown : (visited ++ [ref]).filter (eligible selfId lock) =
        visited.filter (eligible selfId lock) ++ [ref] := by
      simp [List.filter_append, heligible]
    refine ⟨visited ++ [ref], rest, hlive (by simp [live, hlock]), ?_, ?_, ?_⟩
    · simp only [hgrown, h.output, List.map_append, List.map_cons, List.map_nil,
        pick_of_lock lock ref p hlock, List.append_assoc]
    · have hcount := h.want
      simp only [hgrown, List.length_append, List.length_singleton]
      omega
    · simp only
      omega
  | erased hnone =>
    rw [hcurrent] at hnone
    have hgone : live lock ref = false := by simp [live, hnone]
    rcases hdead hgone with ⟨hwalk, _⟩ | ⟨done, hfront, hmore, _, _, hindex⟩
    · exact ⟨visited, rest, hwalk, h.output, h.want, h.nonneg⟩
    · have hsize : start = done.length + (1 + rest.length) := by
        rw [← hlength, hfront, List.length_append, List.length_cons, Nat.add_comm rest.length]
      have hrest := List.length_pos_iff.mpr hmore
      exact absurd ⟨hi, hwant, by rw [hcurrent]; exact hgone, by omega⟩ hpass

/-- Under the condition the quota is used up before a reference is passed over. -/
theorem Scanned.not_passesOver {start : ℕ} (hstart : start ≤ peerVec.length)
    (huntroubled : Untroubled selfId lock peerVec numWant start) {output : PeerList}
    {visited ahead : List PeerRef} {s : ScanState}
    (h : Scanned selfId lock peerVec numWant start output visited ahead s) :
    ¬ PassesOver lock start s := by
  rintro ⟨hi, hwant, hgone, hbefore⟩
  have hlength : (peerVec.take start).length = start := List.length_take_of_le hstart
  obtain ⟨ref, rest, hahead, hcurrent, _, hdead⟩ := h.walk.stepsOn lock hi
  rw [hlength] at hcurrent hdead
  rw [hcurrent] at hgone
  rcases hdead hgone with ⟨_, hlast⟩ | ⟨done, hfront, hmore, hvisited, hdone, _⟩
  · omega
  · have hcount := h.want
    rcases huntroubled with hclean | henough
    · have hin : ref ∈ (peerVec.take start).dropLast := by
        rw [hfront, List.dropLast_append_of_ne_nil (by simp)]
        obtain ⟨next, more, rfl⟩ := List.exists_cons_of_ne_nil hmore
        simp
      rw [hclean ref hin] at hgone
      contradiction
    · have hlead : (peerVec.take start).takeWhile (live lock) = done := by
        rw [hfront, List.takeWhile_append_of_pos hdone, List.takeWhile_cons]
        simp [hgone]
      rw [hlead, List.filter_append, ← filter_live_eligible selfId lock (peerVec.drop start),
        ← List.filter_append, ← hvisited] at henough
      omega

/-- A scan that has come to its end passed over nothing only under the condition. -/
theorem Scanned.untroubled {start : ℕ} {output : PeerList} {visited ahead : List PeerRef}
    {s : ScanState} (h : Scanned selfId lock peerVec numWant start output visited ahead s)
    (hdone : ¬ (s.i < s.peerVec.length ∧ 0 < s.numWant)) :
    Untroubled selfId lock peerVec numWant start := by
  have hcount := h.want
  by_cases hquota : 0 < s.numWant
  · have hnil := h.walk.ahead_nil lock (Nat.le_of_not_lt fun hi => hdone ⟨hi, hquota⟩)
    exact Or.inl (h.walk.front_live lock hnil)
  · right
    have hle := ((h.walk.visited_prefix lock).filter (eligible selfId lock)).length_le
    rw [List.filter_append, filter_live_eligible, ← List.filter_append] at hle
    omega

theorem scanned_start (start : ℕ) (hwant : 0 ≤ numWant) (output : PeerList) (seed : Bool) :
    Scanned selfId lock peerVec numWant start output [] (peerVec.drop start ++ peerVec.take start)
      ⟨peerVec, 0, numWant, output, seed⟩ := by
  refine ⟨?_, by simp, by simp, hwant⟩
  have hwalk : Walk lock (peerVec.take start) (peerVec.drop start) []
      (peerVec.drop start ++ peerVec.take start)
      (peerVec.take start ++ [] ++ peerVec.drop start) 0 := .behind [] (peerVec.drop start) rfl
  rwa [List.append_nil, List.take_append_drop] at hwalk

theorem Scanned.picked {start : ℕ} {output : PeerList} {visited ahead : List PeerRef}
    {s : ScanState} (h : Scanned selfId lock peerVec numWant start output visited ahead s)
    (hdone : ¬ (s.i < s.peerVec.length ∧ 0 < s.numWant)) :
    s.output = output ++ (((peerVec.drop start ++ peerVec.take start).filter
      (eligible selfId lock)).take numWant.toNat).map (pick lock) := by
  have hcount := h.want
  rw [h.output, ← h.walk.circle selfId lock, List.filter_append]
  congr 2
  by_cases hquota : 0 < s.numWant
  · have hnil := h.walk.ahead_nil lock (Nat.le_of_not_lt fun hi => hdone ⟨hi, hquota⟩)
    rw [hnil, List.filter_nil, List.append_nil, List.take_of_length_le (by omega)]
  · have hnonneg := h.nonneg
    rw [List.take_left' (by omega)]

/-- The start of a scan, as a position of the list. -/
def scanStart (raw : ℕ) (peerVec : SinglePeerVec) : ℕ :=
  (getRandomNumber (peerVec.length - 1) raw).toNat

/-- The state of a scan after some passes, or at its end. -/
def scanAfter (raw : ℕ) (peerVec : SinglePeerVec) (numWant : ℤ) (output : PeerList) (seed : Bool)
    (passes : ℕ) : ScanState :=
  scanLoop selfId lock (scanStart raw peerVec) passes ⟨peerVec, 0, numWant, output, seed⟩

theorem scanStart_le (raw : ℕ) (peerVec : SinglePeerVec) :
    scanStart raw peerVec ≤ peerVec.length := by
  unfold scanStart
  by_cases hempty : peerVec = []
  · subst hempty
    exact Nat.le_refl 0
  · have hpos : 0 < peerVec.length := List.length_pos_iff.mpr hempty
    have hle := getRandomNumber_le (peerVec.length - 1) raw (by omega)
    omega

theorem scanStart_zero (peerVec : SinglePeerVec) : scanStart 0 peerVec = 0 := by
  unfold scanStart getRandomNumber
  split_ifs <;> simp

theorem choosePeersByMap_eq (raw : ℕ) (peerVec : SinglePeerVec) (numWant : ℤ) (output : PeerList)
    (seed : Bool) : choosePeersByMap selfId lock raw peerVec numWant output seed =
      scanAfter selfId lock raw peerVec numWant output seed peerVec.length := by
  unfold choosePeersByMap scanAfter
  by_cases hempty : peerVec = []
  · subst hempty
    rfl
  · have hpos : 0 < peerVec.length := List.length_pos_iff.mpr hempty
    have hnonneg := getRandomNumber_nonneg (peerVec.length - 1) raw (by omega)
    rw [show getRandomNumber (peerVec.length - 1) raw = (scanStart raw peerVec : ℕ) by
      unfold scanStart; omega]

/-- A scan passes over an entry at some pass. -/
def PassesOverSome (raw : ℕ) (peerVec : SinglePeerVec) (numWant : ℤ) : Prop :=
  ∃ passes, PassesOver lock (scanStart raw peerVec)
    (scanAfter selfId lock raw peerVec numWant [] false passes)

theorem scanAfter_scanned (raw : ℕ) (hwant : 0 ≤ numWant) (output : PeerList) (seed : Bool)
    (huntroubled : Untroubled selfId lock peerVec numWant (scanStart raw peerVec)) (passes : ℕ) :
    ∃ visited ahead, Scanned selfId lock peerVec numWant (scanStart raw peerVec) output visited
      ahead (scanAfter selfId lock raw peerVec numWant output seed passes) := by
  have hstart := scanStart_le raw peerVec
  apply scanLoop_invariant selfId lock _ (fun s => ∃ visited ahead,
    Scanned selfId lock peerVec numWant (scanStart raw peerVec) output visited ahead s)
  · rintro s ⟨visited, ahead, h⟩ hi hquota
    exact scanned_step selfId lock _ hstart output visited ahead s h hi hquota
      (h.not_passesOver selfId lock hstart huntroubled)
  · exact ⟨[], _, scanned_start selfId lock _ hwant output seed⟩

theorem scanAfter_done (raw : ℕ) (output : PeerList) (seed : Bool) :
    ¬ ((scanAfter selfId lock raw peerVec numWant output seed peerVec.length).i <
        (scanAfter selfId lock raw peerVec numWant output seed peerVec.length).peerVec.length ∧
      0 < (scanAfter selfId lock raw peerVec numWant output seed peerVec.length).numWant) :=
  scanLoop_done selfId lock _ peerVec.length ⟨peerVec, 0, numWant, output, seed⟩
    (Nat.le_add_right ..)

/-- A scan that does no harm picks from the front of the circle. -/
theorem choosePeersByMap_circle (raw : ℕ) (hwant : 0 ≤ numWant) (output : PeerList) (seed : Bool)
    (huntroubled : Untroubled selfId lock peerVec numWant (scanStart raw peerVec)) :
    (choosePeersByMap selfId lock raw peerVec numWant output seed).output =
      output ++ (((peerVec.drop (scanStart raw peerVec) ++
        peerVec.take (scanStart raw peerVec)).filter (eligible selfId lock)).take
          numWant.toNat).map (pick lock) := by
  obtain ⟨visited, ahead, h⟩ := scanAfter_scanned selfId lock raw hwant output seed huntroubled
    peerVec.length
  rw [choosePeersByMap_eq]
  exact h.picked selfId lock (scanAfter_done selfId lock raw output seed)

theorem scanLoop_succ (start : ℤ) (passes : ℕ) (s : ScanState) :
    scanLoop selfId lock start (passes + 1) s =
      let t := scanLoop selfId lock start passes s
      if t.i < t.peerVec.length ∧ 0 < t.numWant then scanStep selfId lock start t else t := by
  induction passes generalizing s with
  | zero => rfl
  | succ passes ih =>
    rw [scanLoop]
    split
    · rename_i hgoes
      rw [ih, scanLoop, if_pos hgoes]
    · rename_i hstops
      rw [scanLoop, if_neg hstops]
      simp only [if_neg hstops]

theorem scanAfter_numWant_le (raw : ℕ) (peerVec : SinglePeerVec) (numWant : ℤ)
    (output : PeerList) (seed : Bool) (passes : ℕ) :
    (scanAfter selfId lock raw peerVec numWant output seed passes).numWant ≤ numWant := by
  apply scanLoop_invariant selfId lock _ (fun s : ScanState => s.numWant ≤ numWant)
  · intro s hs _ _
    have hcase := scanStep_cases selfId lock (scanStart raw peerVec) s
    generalize scanStep selfId lock _ s = t at hcase ⊢
    cases hcase with
    | skipped p hlock hskip => exact hs
    | chosen p hlock hinit hself =>
      simp only
      omega
    | erased hdead => exact hs
  · exact le_refl numWant

/-- The condition leaves out exactly the scans that pass over an entry. -/
theorem untroubled_iff (raw : ℕ) (peerVec : SinglePeerVec) (numWant : ℤ) :
    Untroubled selfId lock peerVec numWant (scanStart raw peerVec) ↔
      ¬ PassesOverSome selfId lock raw peerVec numWant := by
  have hstart := scanStart_le raw peerVec
  by_cases hwant : 0 ≤ numWant
  case neg =>
    refine iff_of_true (Or.inr (by omega)) ?_
    rintro ⟨passes, _, hquota, _⟩
    have hle := scanAfter_numWant_le selfId lock raw peerVec numWant [] false passes
    omega
  constructor
  · rintro huntroubled ⟨passes, hpass⟩
    obtain ⟨visited, ahead, h⟩ := scanAfter_scanned selfId lock raw hwant [] false huntroubled
      passes
    exact h.not_passesOver selfId lock hstart huntroubled hpass
  · intro hnone
    have hscanned : ∀ passes, ∃ visited ahead, Scanned selfId lock peerVec numWant
        (scanStart raw peerVec) [] visited ahead
        (scanAfter selfId lock raw peerVec numWant [] false passes) := by
      intro passes
      induction passes with
      | zero => exact ⟨[], _, scanned_start selfId lock _ hwant [] false⟩
      | succ passes ih =>
        obtain ⟨visited, ahead, h⟩ := ih
        have hclear := not_exists.mp hnone passes
        unfold scanAfter at h hclear ⊢
        rw [scanLoop_succ]
        simp only
        split
        · rename_i hgoes
          exact scanned_step selfId lock _ hstart [] visited ahead _ h hgoes.1 hgoes.2 hclear
        · exact ⟨visited, ahead, h⟩
    obtain ⟨visited, ahead, h⟩ := hscanned peerVec.length
    exact h.untroubled selfId lock (scanAfter_done selfId lock raw [] false)

/-- A scan appends as many picks as it is asked for and the list has to offer, from
different entries, and keeps the live entries in their order. -/
structure Exact (peerVec : SinglePeerVec) (numWant : ℤ) (output : PeerList) (s : ScanState) :
    Prop where
  picks : ∃ refs : List PeerRef, s.output = output ++ refs.map (pick lock) ∧
    refs.Subperm peerVec ∧ (∀ ref ∈ refs, eligible selfId lock ref = true) ∧
      (refs.length : ℤ) = min numWant (peerVec.filter (eligible selfId lock)).length
  kept : s.peerVec.filter (live lock) = peerVec.filter (live lock)

theorem choosePeersByMap_exact (raw : ℕ) (hwant : 0 ≤ numWant) (output : PeerList) (seed : Bool)
    (huntroubled : Untroubled selfId lock peerVec numWant (scanStart raw peerVec)) :
    Exact selfId lock peerVec numWant output
      (choosePeersByMap selfId lock raw peerVec numWant output seed) := by
  refine ⟨?_, choosePeersByMap_live selfId lock raw peerVec numWant output seed⟩
  have hcircle := choosePeersByMap_circle selfId lock raw hwant output seed huntroubled
  generalize scanStart raw peerVec = start at hcircle
  have hperm : (peerVec.drop start ++ peerVec.take start).Perm peerVec := by
    have hswap : (peerVec.drop start ++ peerVec.take start).Perm
        (peerVec.take start ++ peerVec.drop start) := List.perm_append_comm
    rwa [List.take_append_drop] at hswap
  refine ⟨_, hcircle, ?_, ?_, ?_⟩
  · exact ((List.take_sublist _ _).trans List.filter_sublist).subperm.trans hperm.subperm
  · intro ref hmem
    exact (List.mem_filter.mp (List.mem_of_mem_take hmem)).2
  · rw [List.length_take, (hperm.filter _).length_eq]
    omega

/-- A scan does what it is for when it does no harm to the list, that is, when it passes
over no entry; and on lists of up to 2^30 entries it is the scan with the ints of the code. -/
theorem scan_exact_unless_passed (raw : ℕ) (peerVec : SinglePeerVec) (numWant : ℤ)
    (output : PeerList) (seed : Bool) (hwant : 0 < numWant) :
    (Untroubled selfId lock peerVec numWant (scanStart raw peerVec) →
      Exact selfId lock peerVec numWant output
        (choosePeersByMap selfId lock raw peerVec numWant output seed)) ∧
    (Untroubled selfId lock peerVec numWant (scanStart raw peerVec) ↔
      ¬ PassesOverSome selfId lock raw peerVec numWant) ∧
    (peerVec.length ≤ 1073741824 →
      ∃ out, ScanIndexes.choosePeersByMap selfId lock raw (peerVec.length + 1) peerVec numWant
          output seed = .done out ∧
        out.toScanState = choosePeersByMap selfId lock raw peerVec numWant output seed) :=
  ⟨choosePeersByMap_exact selfId lock raw (le_of_lt hwant) output seed,
    untroubled_iff selfId lock raw peerVec numWant,
    ScanIndexes.choosePeersByMap_eq selfId lock raw peerVec numWant output seed⟩

end Scans

def registered (peerId : ByteString) : PeerInfo :=
  (({} : PeerInfo).setInfoHash [1]).setPeerId peerId

/-- Reference 0 is dead and reference 2 is the requester itself. -/
def oneGone : PeerRef → Option PeerInfo
  | 1 => some (registered [5])
  | 2 => some (registered [6])
  | 3 => some (registered [7])
  | _ => none

/-- The erased reference comes right in front of the start, so no entry is passed over. -/
theorem scan_exact_erased_last :
    Exact (registered [6]).base64PeerId oneGone [1, 0, 2, 3] 2 []
      (choosePeersByMap (registered [6]).base64PeerId oneGone 2 [1, 0, 2, 3] 2 [] false) :=
  (scan_exact_unless_passed (registered [6]).base64PeerId oneGone 2 [1, 0, 2, 3] 2 [] false
    (by decide)).1 (Or.inl (by decide))

/-- The walk starts at reference 2, erases reference 0 and passes over reference 1. -/
theorem scan_passes_over_one :
    ¬ Exact (registered [6]).base64PeerId oneGone [0, 1, 2, 3] 2 []
      (choosePeersByMap (registered [6]).base64PeerId oneGone 2 [0, 1, 2, 3] 2 [] false) := by
  rintro ⟨⟨refs, houtput, _, _, hlength⟩, _⟩
  have hone : (choosePeersByMap (registered [6]).base64PeerId oneGone 2 [0, 1, 2, 3] 2 []
      false).output.length = 1 := by
    decide
  have htwo : ([0, 1, 2, 3].filter (eligible (registered [6]).base64PeerId oneGone)).length = 2 := by
    decide
  rw [houtput, List.length_append, List.length_map, List.length_nil] at hone
  rw [htwo] at hlength
  omega

end Gingko.CircularScans
