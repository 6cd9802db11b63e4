import Gingko.ClusterWorkers
import Mathlib.Data.List.Rotate

/-!
The choice of the next piece to read from a cluster. The loop goes once around the
pieces from a random one, marks those that libtorrent has, stops at the first one
that nobody is downloading, and remembers the last one that somebody is. What the
loop finds is the scan along a list of pieces that the threads are modelled with.
-/
namespace Gingko.UndownloadedPieces

open ClusterWorkers

section Loop

variable (numPieces : ℕ) (torrentHas downloading : ℕ → Bool)

/-- The variables of the loop, with `none` for a negative index. -/
structure Scan where
  piecesHave : ℕ → Bool
  pieceIndex : Option ℕ
  pieceDownloading : Option ℕ

def Scan.start (piecesHave : ℕ → Bool) : Scan := ⟨piecesHave, none, none⟩

/-- The body of the loop. -/
def Scan.visit (s : Scan) (i : ℕ) : Scan :=
  if s.piecesHave i then s
  else if torrentHas i then { s with piecesHave := Function.update s.piecesHave i true }
  else if downloading i then { s with pieceDownloading := some i }
  else { s with pieceIndex := some i }

/-- A loop that tests after its body; `none` when it needs more than `fuel` rounds. -/
def scanLoop (start : ℕ) : ℕ → ℕ → Scan → Option Scan
  | 0, _, _ => none
  | fuel + 1, i, s =>
    let s := s.visit torrentHas downloading i
    let i := (i + 1) % numPieces
    if s.pieceIndex = none ∧ i ≠ start then scanLoop start fuel i s else some s

def Scan.result (s : Scan) : (ℕ → Bool) × Option ℕ :=
  (s.piecesHave, if s.pieceIndex = none then s.pieceDownloading else s.pieceIndex)

def undownloadedPiece (random fuel : ℕ) (piecesHave : ℕ → Bool) :
    Option ((ℕ → Bool) × Option ℕ) :=
  let start := random % numPieces
  (scanLoop numPieces torrentHas downloading start fuel (start % numPieces)
    (Scan.start piecesHave)).map Scan.result

def ClusterDownloader.getUndownloadedPiece : ℕ → ℕ → (ℕ → Bool) → Option ((ℕ → Bool) × Option ℕ) :=
  undownloadedPiece numPieces torrentHas downloading

def GroupClusterTask.getUndownloadedPiece : ℕ → ℕ → (ℕ → Bool) → Option ((ℕ → Bool) × Option ℕ) :=
  undownloadedPiece numPieces torrentHas downloading

/-- The pieces that are left of the circle after `k` rounds. -/
def ahead (start k : ℕ) : List ℕ :=
  (List.range' k (numPieces - k)).map (fun j => (start + j) % numPieces)

theorem ahead_cons (start k : ℕ) (hk : k < numPieces) :
    ahead numPieces start k = (start + k) % numPieces :: ahead numPieces start (k + 1) := by
  have hcount : numPieces - k = numPieces - (k + 1) + 1 := by omega
  rw [ahead, hcount, List.range'_succ]
  rfl

theorem ahead_end (start : ℕ) : ahead numPieces start numPieces = [] := by
  rw [ahead, Nat.sub_self]
  rfl

theorem ahead_start (random : ℕ) :
    ahead numPieces (random % numPieces) 0 =
      (List.range numPieces).rotate (random % numPieces) := by
  apply List.ext_getElem
  · simp [ahead]
  · intro i hi hi'
    rw [List.getElem_rotate]
    simp [ahead, Nat.add_comm]

/-- The circle comes back to its start after as many rounds as there are pieces. -/
theorem next_ne_start_iff (start k : ℕ) (hstart : start < numPieces) (hk : k < numPieces) :
    ((start + k) % numPieces + 1) % numPieces ≠ start ↔ k + 1 < numPieces := by
  rw [Nat.mod_add_mod, Nat.add_assoc]
  by_cases hlast : k + 1 < numPieces
  · simp only [hlast, iff_true]
    by_cases hwrap : start + (k + 1) < numPieces
    · rw [Nat.mod_eq_of_lt hwrap]
      omega
    · rw [Nat.mod_eq_sub_mod (by omega), Nat.mod_eq_of_lt (by omega)]
      omega
  · have hfull : k + 1 = numPieces := by omega
    rw [hfull, Nat.add_mod_right, Nat.mod_eq_of_lt hstart]
    simp

/-- From its place on the circle the loop ends in the rounds that are left, with what
the scan along the rest of the circle gives. -/
theorem scanLoop_eq_scanPieces (start k fuel : ℕ) (hstart : start < numPieces)
    (hk : k < numPieces) (hfuel : numPieces ≤ k + fuel) (s : Scan) (hnone : s.pieceIndex = none) :
    (scanLoop numPieces torrentHas downloading start fuel ((start + k) % numPieces) s).map
        Scan.result =
      some (scanPieces torrentHas downloading (ahead numPieces start k) s.piecesHave
        s.pieceDownloading) := by
  induction fuel generalizing k s with
  | zero => omega
  | succ fuel ih =>
    have hnext := next_ne_start_iff numPieces start k hstart hk
    have hindex : ((start + k) % numPieces + 1) % numPieces = (start + (k + 1)) % numPieces := by
      rw [Nat.mod_add_mod, Nat.add_assoc]
    -- a body that finds nothing leaves the loop to the rest of the circle
    have hrest (s' : Scan) (hnone' : s'.pieceIndex = none)
        (hvisit : s.visit torrentHas downloading ((start + k) % numPieces) = s') :
        (scanLoop numPieces torrentHas downloading start (fuel + 1) ((start + k) % numPieces) s).map
            Scan.result =
          some (scanPieces torrentHas downloading (ahead numPieces start (k + 1)) s'.piecesHave
            s'.pieceDownloading) := by
      simp only [scanLoop, hvisit, hnone', true_and, hnext]
      split
      · next hmore =>
        rw [hindex]
        exact ih (k + 1) hmore (by omega) s' hnone'
      · have hfull : k + 1 = numPieces := by omega
        rw [hfull, ahead_end, scanPieces, Option.map_some, Scan.result, if_pos hnone']
    rw [ahead_cons numPieces start k hk, scanPieces]
    split
    · next hhave => exact hrest s hnone (by rw [Scan.visit, if_pos hhave])
    · next hlacks =>
      split
      · next htorrent =>
        exact hrest
          { s with piecesHave := Function.update s.piecesHave ((start + k) % numPieces) true } hnone
          (by rw [Scan.visit, if_neg hlacks, if_pos htorrent])
      · next habsent =>
        split
        · next hdownloading =>
          exact hrest { s with pieceDownloading := some ((start + k) % numPieces) } hnone
            (by rw [Scan.visit, if_neg hlacks, if_neg habsent, if_pos hdownloading])
        · next hfree =>
          have hvisit : s.visit torrentHas downloading ((start + k) % numPieces) =
              { s with pieceIndex := some ((start + k) % numPieces) } := by
            rw [Scan.visit, if_neg hlacks, if_neg habsent, if_neg hfree]
          simp [scanLoop, hvisit, Scan.result]

/-- The loop ends, and it is the scan that the threads are modelled with. -/
theorem undownloadedPiece_eq (random fuel : ℕ) (hpieces : 0 < numPieces)
    (hfuel : numPieces ≤ fuel) (piecesHave : ℕ → Bool) :
    undownloadedPiece numPieces torrentHas downloading random fuel piecesHave =
      some (ClusterWorkers.getUndownloadedPiece numPieces torrentHas random downloading
        piecesHave) := by
  have hstart := Nat.mod_lt random hpieces
  have hloop := scanLoop_eq_scanPieces numPieces torrentHas downloading (random % numPieces) 0 fuel
    hstart hpieces (by omega) (Scan.start piecesHave) rfl
  rw [ahead_start] at hloop
  exact hloop

/-- Taking a piece, with a loop that may run out of `fuel`. -/
def pieceToDownload (undownloaded : (ℕ → Bool) → (ℕ → Bool) → Option ((ℕ → Bool) × Option ℕ))
    (sh : Shared) (w : Worker) : Option (Shared × Worker) :=
  if w.getFromHashFailed then some (popHashFailed sh w)
  else
    let downloading := clearLast w.pieceIndex sh.piecesDownloading
    (undownloaded downloading sh.piecesHave).map fun found =>
      match found.2 with
      | some piece =>
        ({ sh with
            piecesHave := found.1
            piecesDownloading := Function.update downloading piece true },
          { w with pieceIndex := some piece })
      | none =>
        popHashFailed { sh with piecesHave := found.1, piecesDownloading := downloading } w

def ClusterDownloader.getPieceToDownload (random fuel : ℕ) :
    Shared → Worker → Option (Shared × Worker) :=
  pieceToDownload fun downloading =>
    ClusterDownloader.getUndownloadedPiece numPieces torrentHas downloading random fuel

def GroupClusterTask.getPieceToDownload (random fuel : ℕ) :
    Shared → Worker → Option (Shared × Worker) :=
  pieceToDownload fun downloading =>
    GroupClusterTask.getUndownloadedPiece numPieces torrentHas downloading random fuel

theorem pieceToDownload_eq (random fuel : ℕ) (hpieces : 0 < numPieces) (hfuel : numPieces ≤ fuel)
    (sh : Shared) (w : Worker) :
    pieceToDownload (fun downloading =>
        undownloadedPiece numPieces torrentHas downloading random fuel) sh w =
      some (ClusterWorkers.getPieceToDownload numPieces torrentHas random sh w) := by
  simp only [pieceToDownload, ClusterWorkers.getPieceToDownload,
    undownloadedPiece_eq numPieces torrentHas _ random fuel hpieces hfuel, Option.map_some]
  split <;> rfl

end Loop

section Choice

variable (missing : ℕ → Prop) (torrentHas downloading : ℕ → Bool)

/-- What a scan along `l` may end with when it starts with a candidate. -/
inductive Choice (l : List ℕ) (candidate : Option ℕ) : Option ℕ → Prop
  | free (p : ℕ) (hmem : p ∈ l) (hmissing : missing p) (hfree : downloading p = false) :
      Choice l candidate (some p)
  | downloading (p : ℕ) (hmem : p ∈ l) (hmissing : missing p)
      (hbusy : ∀ q ∈ l, missing q → downloading q = true) : Choice l candidate (some p)
  | allHad (hall : ∀ q ∈ l, ¬missing q) : Choice l candidate candidate

theorem Choice.cons {l : List ℕ} {candidate choice : Option ℕ} {i : ℕ} (hhad : ¬missing i)
    (hchoice : Choice missing downloading l candidate choice) :
    Choice missing downloading (i :: l) candidate choice := by
  cases hchoice with
  | free p hmem hmissing hfree => exact .free p (List.mem_cons_of_mem i hmem) hmissing hfree
  | downloading p hmem hmissing hbusy =>
    exact .downloading p (List.mem_cons_of_mem i hmem) hmissing
      (List.forall_mem_cons.mpr ⟨fun hmissing' => absurd hmissing' hhad, hbusy⟩)
  | allHad hall => exact .allHad (List.forall_mem_cons.mpr ⟨hhad, hall⟩)

/-- A missing piece that is being downloaded is the candidate for the rest. -/
theorem Choice.cons_downloading {l : List ℕ} {candidate choice : Option ℕ} {i : ℕ}
    (hmissing : missing i) (hbusy : downloading i = true)
    (hchoice : Choice missing downloading l (some i) choice) :
    Choice missing downloading (i :: l) candidate choice := by
  cases hchoice with
  | free p hmem hmissing hfree => exact .free p (List.mem_cons_of_mem i hmem) hmissing hfree
  | downloading p hmem hmissing hbusy' =>
    exact .downloading p (List.mem_cons_of_mem i hmem) hmissing
      (List.forall_mem_cons.mpr ⟨fun _ => hbusy, hbusy'⟩)
  | allHad hall =>
    exact .downloading i List.mem_cons_self hmissing
      (List.forall_mem_cons.mpr ⟨fun _ => hbusy, fun q hq hmissing' =>
        absurd hmissing' (hall q hq)⟩)

def Missing (piecesHave : ℕ → Bool) (i : ℕ) : Prop := piecesHave i = false ∧ torrentHas i = false

/-- A piece that libtorrent has may be marked without a change to what is missing. -/
theorem missing_update (piecesHave : ℕ → Bool) (i : ℕ) (htorrent : torrentHas i = true) :
    Missing torrentHas (Function.update piecesHave i true) = Missing torrentHas piecesHave := by
  funext q
  by_cases hq : q = i
  · simp [Missing, hq, htorrent]
  · simp [Missing, Function.update_of_ne hq]

theorem scanPieces_choice (l : List ℕ) (piecesHave : ℕ → Bool) (candidate : Option ℕ) :
    Choice (Missing torrentHas piecesHave) downloading l candidate
      (scanPieces torrentHas downloading l piecesHave candidate).2 := by
  induction l generalizing piecesHave candidate with
  | nil => exact .allHad (by simp)
  | cons i rest ih =>
    rw [scanPieces]
    split
    · next hhave => exact (ih piecesHave candidate).cons _ _ (by simp [Missing, hhave])
    · next hlacks =>
      split
      · next htorrent =>
        have hchoice := ih (Function.update piecesHave i true) candidate
        rw [missing_update torrentHas piecesHave i htorrent] at hchoice
        exact hchoice.cons _ _ (by simp [Missing, htorrent])
      · next habsent =>
        have hmissing : Missing torrentHas piecesHave i :=
          ⟨Bool.eq_false_iff.mpr hlacks, Bool.eq_false_iff.mpr habsent⟩
        split
        · next hbusy => exact (ih piecesHave (some i)).cons_downloading _ _ hmissing hbusy
        · next hfree =>
          exact .free i List.mem_cons_self hmissing (Bool.eq_false_iff.mpr hfree)

/-- The scan marks pieces that libtorrent has and no others. -/
theorem scanPieces_missing (l : List ℕ) (piecesHave : ℕ → Bool) (candidate : Option ℕ) :
    Missing torrentHas (scanPieces torrentHas downloading l piecesHave candidate).1 =
      Missing torrentHas piecesHave := by
  induction l generalizing piecesHave candidate with
  | nil => rfl
  | cons i rest ih =>
    rw [scanPieces]
    split
    · exact ih piecesHave candidate
    · split
      · next htorrent => rw [ih, missing_update torrentHas piecesHave i htorrent]
      · split
        · exact ih piecesHave (some i)
        · rfl

end Choice

section Pieces

variable (numPieces : ℕ) (torrentHas downloading piecesHave : ℕ → Bool)

/-- What the choice of a piece is for. -/
structure WellChosen (choice : Option ℕ) : Prop where
  notHad : ∀ p, choice = some p → p < numPieces ∧ Missing torrentHas piecesHave p
  free : (∃ p < numPieces, Missing torrentHas piecesHave p ∧ downloading p = false) →
    ∃ p, choice = some p ∧ downloading p = false
  busy : (¬∃ p < numPieces, Missing torrentHas piecesHave p ∧ downloading p = false) →
    (∃ p < numPieces, Missing torrentHas piecesHave p) → ∃ p, choice = some p ∧ downloading p = true
  allHad : choice = none ↔ ∀ p < numPieces, ¬Missing torrentHas piecesHave p

theorem Choice.wellChosen {l : List ℕ} (hmem : ∀ p, p ∈ l ↔ p < numPieces) {choice : Option ℕ}
    (hchoice : Choice (Missing torrentHas piecesHave) downloading l none choice) :
    WellChosen numPieces torrentHas downloading piecesHave choice := by
  cases hchoice with
  | free p hp hmissing hfree =>
    have hp := (hmem p).mp hp
    refine ⟨?_, fun _ => ⟨p, rfl, hfree⟩, fun hnone => ?_, ?_⟩
    · rintro q ⟨⟩
      exact ⟨hp, hmissing⟩
    · exact absurd ⟨p, hp, hmissing, hfree⟩ hnone
    · simpa using ⟨p, hp, hmissing⟩
  | downloading p hp hmissing hbusy =>
    have hp' := (hmem p).mp hp
    refine ⟨?_, ?_, fun _ _ => ⟨p, rfl, hbusy p hp hmissing⟩, ?_⟩
    · rintro q ⟨⟩
      exact ⟨hp', hmissing⟩
    · rintro ⟨q, hq, hmissing', hfree⟩
      rw [hbusy q ((hmem q).mpr hq) hmissing'] at hfree
      contradiction
    · simpa using ⟨p, hp', hmissing⟩
  | allHad hall =>
    have hall' (q : ℕ) (hq : q < numPieces) : ¬Missing torrentHas piecesHave q :=
      hall q ((hmem q).mpr hq)
    refine ⟨by simp, ?_, ?_, by simpa using hall'⟩
    · rintro ⟨q, hq, hmissing, _⟩
      exact absurd hmissing (hall' q hq)
    · rintro _ ⟨q, hq, hmissing⟩
      exact absurd hmissing (hall' q hq)

theorem getUndownloadedPiece_wellChosen (random : ℕ) :
    WellChosen numPieces torrentHas downloading piecesHave
      (ClusterWorkers.getUndownloadedPiece numPieces torrentHas random downloading piecesHave).2 :=
  (scanPieces_choice torrentHas downloading _ piecesHave none).wellChosen numPieces torrentHas
    downloading piecesHave (by simp)

/-- A thread turns to the pieces that failed their hash when the choice found none. -/
theorem getPieceToDownload_hashFailed (random : ℕ) (sh : Shared) (w : Worker)
    (hmode : w.getFromHashFailed = false) :
    (ClusterWorkers.getPieceToDownload numPieces torrentHas random sh w).2.getFromHashFailed =
        true ↔
      ∀ p < numPieces, ¬Missing torrentHas sh.piecesHave p := by
  rw [← (getUndownloadedPiece_wellChosen numPieces torrentHas
    (clearLast w.pieceIndex sh.piecesDownloading) sh.piecesHave random).allHad]
  unfold ClusterWorkers.getPieceToDownload
  rw [if_neg (by simp [hmode])]
  simp only
  split
  · next piece hfound => simp [hfound, hmode]
  · next hfound =>
    simp only [hfound, iff_true]
    unfold popHashFailed
    split <;> rfl

end Pieces

/-- The loop ends for every start, with a piece that nobody is downloading when there is
one, else with a missing one, and with none when all are there; then alone the thread
turns to the pieces that failed their hash. -/
theorem getPieceToDownload_chooses (numPieces : ℕ) (hpieces : 0 < numPieces)
    (torrentHas : ℕ → Bool) (random : ℕ) :
    (∀ downloading piecesHave : ℕ → Bool, ∃ found, (∀ fuel ≥ numPieces,
        ClusterDownloader.getUndownloadedPiece numPieces torrentHas downloading random fuel
          piecesHave = some found ∧
        GroupClusterTask.getUndownloadedPiece numPieces torrentHas downloading random fuel
          piecesHave = some found) ∧
      Missing torrentHas found.1 = Missing torrentHas piecesHave ∧
      WellChosen numPieces torrentHas downloading piecesHave found.2) ∧
    ∀ (sh : Shared) (w : Worker), w.getFromHashFailed = false → ∃ taken, (∀ fuel ≥ numPieces,
        ClusterDownloader.getPieceToDownload numPieces torrentHas random fuel sh w = some taken ∧
        GroupClusterTask.getPieceToDownload numPieces torrentHas random fuel sh w = some taken) ∧
      (taken.2.getFromHashFailed = true ↔
        ∀ p < numPieces, ¬Missing torrentHas sh.piecesHave p) := by
  constructor
  · intro downloading piecesHave
    refine ⟨_, fun fuel hfuel => ?_, ?_, getUndownloadedPiece_wellChosen numPieces torrentHas
      downloading piecesHave random⟩
    · have heq := undownloadedPiece_eq numPieces torrentHas downloading random fuel hpieces hfuel
        piecesHave
      exact ⟨heq, heq⟩
    · exact scanPieces_missing torrentHas downloading _ piecesHave none
  · intro sh w hmode
    refine ⟨_, fun fuel hfuel => ?_,
      getPieceToDownload_hashFailed numPieces torrentHas random sh w hmode⟩
    have heq := pieceToDownload_eq numPieces torrentHas random fuel hpieces hfuel sh w
    exact ⟨heq, heq⟩

/-- Of four pieces one is marked, libtorrent has the next, and the third is being
downloaded. -/
def fourPieces : Shared :=
  { Shared.start (fun i => i == 0) with piecesDownloading := fun i => i == 2 }

def hasSecond (i : ℕ) : Bool := i == 1

theorem getPieceToDownload_chooses_fourPieces :
    (∃ found, (∀ fuel ≥ 4,
        ClusterDownloader.getUndownloadedPiece 4 hasSecond fourPieces.piecesDownloading 9 fuel
          fourPieces.piecesHave = some found ∧
        GroupClusterTask.getUndownloadedPiece 4 hasSecond fourPieces.piecesDownloading 9 fuel
          fourPieces.piecesHave = some found) ∧ found.2 = some 3) ∧
    ∃ taken, (∀ fuel ≥ 4,
        ClusterDownloader.getPieceToDownload 4 hasSecond 9 fuel fourPieces .start = some taken ∧
        GroupClusterTask.getPieceToDownload 4 hasSecond 9 fuel fourPieces .start = some taken) ∧
      taken.2.getFromHashFailed = false := by
  obtain ⟨hpieces, htaken⟩ := getPieceToDownload_chooses 4 (by decide) hasSecond 9
  have hlast : 3 < 4 ∧ Missing hasSecond fourPieces.piecesHave 3 ∧
      fourPieces.piecesDownloading 3 = false := ⟨by decide, ⟨rfl, rfl⟩, rfl⟩
  constructor
  · obtain ⟨found, hfound, _, hchosen⟩ :=
      hpieces fourPieces.piecesDownloading fourPieces.piecesHave
    refine ⟨found, hfound, ?_⟩
    obtain ⟨p, hp, hfree⟩ := hchosen.free ⟨3, hlast⟩
    obtain ⟨hlt, hmarked, habsent⟩ := hchosen.notHad p hp
    rw [hp]
    simp only [fourPieces, hasSecond, Shared.start, beq_eq_false_iff_ne] at hfree hmarked habsent
    exact congrArg some (by omega)
  · obtain ⟨taken, htaken, hmode⟩ := htaken fourPieces .start rfl
    refine ⟨taken, htaken, Bool.eq_false_iff.mpr ?_⟩
    intro hfailed
    exact hmode.mp hfailed 3 hlast.1 hlast.2.1

end Gingko.UndownloadedPieces
