import Mathlib.Algebra.Order.Ring.Int
import Mathlib.Algebra.BigOperators.Group.List.Basic
import Mathlib.Data.Int.Basic
import Mathlib.Data.Nat.ModEq
import Mathlib.Tactic.Linarith

/-!
The thread that allocates the files of a download while pieces are released for
downloading. A file is allocated chunk by chunk, and the pieces behind the chunk
are released. Every change to the vector of priorities is handed to libtorrent at
once, so the vector is also what libtorrent has been given. A new file that lies
in one piece and fits one chunk never has its piece released on its own account.
-/
namespace Gingko.PreAllocations

section Layout

structure FileEntry where
  size : ℕ
  padFile : Bool
  /-- The file's entry in `pre_file_priorities_`. -/
  priority : ℤ

structure TorrentInfo where
  files : List FileEntry
  pieceLength : ℕ
  pieceLength_pos : 0 < pieceLength

namespace TorrentInfo

variable (ti : TorrentInfo)

def numPieces : ℕ := ((ti.files.map FileEntry.size).sum + ti.pieceLength - 1) / ti.pieceLength

/-- Where a file starts in the torrent. -/
def start (i : ℕ) : ℕ := ((ti.files.take i).map FileEntry.size).sum

def mapFile (i offset : ℕ) : ℕ := (ti.start i + offset) / ti.pieceLength

def firstPiece (x : FileEntry × ℕ) : ℕ := ti.mapFile x.2 0

def lastPiece (x : FileEntry × ℕ) : ℕ := ti.mapFile x.2 (x.1.size - 1)

def Covers (x : FileEntry × ℕ) (p : ℕ) : Prop := ti.firstPiece x ≤ p ∧ p ≤ ti.lastPiece x

theorem firstPiece_le (x : FileEntry × ℕ) : ti.firstPiece x ≤ ti.lastPiece x :=
  Nat.div_le_div_right (Nat.add_le_add_left (Nat.zero_le _) _)

/-- A piece reached inside a file is no later than the file's last. -/
theorem firstPiece_add_le (x : FileEntry × ℕ) (offset : ℕ) (h : offset < x.1.size) :
    ti.firstPiece x + offset / ti.pieceLength ≤ ti.lastPiece x := by
  calc ti.firstPiece x + offset / ti.pieceLength
      ≤ (ti.start x.2 + 0 + offset) / ti.pieceLength := Nat.div_add_div_le_add_div
    _ ≤ ti.lastPiece x := by
      refine Nat.div_le_div_right ?_
      omega

end TorrentInfo

structure Bitfield where
  size : ℕ
  bit : ℕ → Bool

/-- The inner loop of `SetOrgPieces`. -/
def setFilePieces (ti : TorrentInfo) (bits : ℕ → Bool) (x : FileEntry × ℕ) : ℕ → Bool :=
  fun j =>
    if ti.firstPiece x ≤ j ∧ j ≤ ti.lastPiece x then decide (0 < x.1.priority) || bits j
    else bits j

/-- The bitfield of a torrent without pieces still has one bit. -/
def setOrgPieces (ti : TorrentInfo) : Bitfield where
  size := if ti.numPieces = 0 then 1 else ti.numPieces
  bit := ti.files.zipIdx.foldl (setFilePieces ti) (fun _ => false)

theorem setFilePieces_eq_true (ti : TorrentInfo) (bits : ℕ → Bool) (x : FileEntry × ℕ) (j : ℕ) :
    setFilePieces ti bits x j = true ↔ (0 < x.1.priority ∧ ti.Covers x j) ∨ bits j = true := by
  unfold setFilePieces TorrentInfo.Covers
  split
  · next hcovers => simp [hcovers]
  · next hcovers => simp [hcovers]

theorem foldl_setFilePieces_eq_true (ti : TorrentInfo) (xs : List (FileEntry × ℕ))
    (bits : ℕ → Bool) (j : ℕ) : xs.foldl (setFilePieces ti) bits j = true ↔
      (∃ x ∈ xs, 0 < x.1.priority ∧ ti.Covers x j) ∨ bits j = true := by
  induction xs generalizing bits with
  | nil => simp
  | cons x xs ih =>
    rw [List.foldl_cons, ih, setFilePieces_eq_true, List.exists_mem_cons_iff, or_assoc,
      or_left_comm]

/-- A bit is set when a selected file reaches into the piece, a pad file too. -/
theorem setOrgPieces_eq_true (ti : TorrentInfo) (j : ℕ) : (setOrgPieces ti).bit j = true ↔
    ∃ x ∈ ti.files.zipIdx, 0 < x.1.priority ∧ ti.Covers x j := by
  simpa [setOrgPieces] using
    foldl_setFilePieces_eq_true ti ti.files.zipIdx (fun _ => false) j

end Layout

section Chunks

/-- What the system calls on a file return: the size `stat` finds, whether `open`
fails, and the error number of each `posix_fallocate`. -/
structure FileCalls where
  stat : Option ℕ
  openFails : Bool
  fallocate : ℕ → ℕ

/-- `EINVAL`. -/
def invalidArgument : ℕ := 22

/-- An offset or a length out of range is an invalid argument. -/
def posixFallocate (ret : ℕ) (offset len : ℤ) : ℕ :=
  if offset < 0 ∨ len ≤ 0 then invalidArgument else ret

def Accepted (ret : ℕ) : Prop := ret = 0 ∨ ret = invalidArgument

instance (ret : ℕ) : Decidable (Accepted ret) := inferInstanceAs (Decidable (_ ∨ _))

abbrev PiecePriority := ℤ → Bool

/-- The loops that set the priorities from `low` to `high` to 1. An index outside
the vector belongs to no piece. -/
def release (low high : ℤ) (priority : PiecePriority) : PiecePriority :=
  fun p => priority p || (decide (low ≤ p) && decide (p ≤ high))

structure FileProgress where
  fileDownloadIndex : ℤ
  piecePriority : PiecePriority

variable (ti : TorrentInfo) (chunk : ℤ) (x : FileEntry × ℕ) (calls : FileCalls)

/-- The loop over the chunks of a file, with the number of the round. -/
def allocateChunks : ℕ → ℕ → ℤ → FileProgress → Option FileProgress
  | 0, _, _, _ => none
  | fuel + 1, round, offset, s =>
    if offset < x.1.size then
      let eachLen := if x.1.size < offset + chunk then x.1.size - offset else chunk
      let ret := posixFallocate (calls.fallocate round) offset eachLen
      if Accepted ret then
        let next := offset + eachLen
        if x.1.size ≤ next then some s
        else
          let index := next.tdiv ti.pieceLength + ti.firstPiece x
          allocateChunks fuel (round + 1) next
            ⟨index, release s.fileDownloadIndex index s.piecePriority⟩
      else some s
    else some s

/-- The chunk of this round is accepted and does not complete the file. -/
def Continues (round : ℕ) (offset : ℤ) : Prop :=
  offset + chunk < x.1.size ∧ Accepted (calls.fallocate round)

instance (round : ℕ) (offset : ℤ) : Decidable (Continues chunk x calls round offset) :=
  inferInstanceAs (Decidable (_ ∧ _))

/-- The file is not completed by its first chunk, and that chunk is accepted. -/
def FirstAccepted : Prop := 0 < chunk ∧ Continues chunk x calls 0 0

theorem release_eq_true (low high p : ℤ) (priority : PiecePriority) :
    release low high priority p = true ↔ priority p = true ∨ low ≤ p ∧ p ≤ high := by
  simp [release]

/-- Two adjoining releases are one. -/
theorem release_release (low middle high : ℤ) (hlow : low ≤ middle) (hhigh : middle ≤ high)
    (priority : PiecePriority) :
    release middle high (release low middle priority) = release low high priority := by
  funext p
  rw [Bool.eq_iff_iff, release_eq_true, release_eq_true, release_eq_true, or_assoc]
  exact or_congr_right (by omega)

/-- The piece reached by an offset inside the file. -/
theorem reached_le (offset : ℤ) (hoffset : 0 ≤ offset) (hinside : offset < x.1.size) :
    offset / ti.pieceLength + ti.firstPiece x ≤ ti.lastPiece x := by
  obtain ⟨n, rfl⟩ := Int.eq_ofNat_of_zero_le hoffset
  have hle := ti.firstPiece_add_le x n (by omega)
  rw [← Int.natCast_ediv]
  omega

section Positive

variable (hchunk : 0 < chunk)
include hchunk

/-- With a positive chunk a round goes on or leaves everything as it is. -/
theorem allocateChunks_succ (fuel round : ℕ) (offset : ℤ) (hoffset : 0 ≤ offset)
    (s : FileProgress) : allocateChunks ti chunk x calls (fuel + 1) round offset s =
      if Continues chunk x calls round offset then
        allocateChunks ti chunk x calls fuel (round + 1) (offset + chunk)
          ⟨(offset + chunk).tdiv ti.pieceLength + ti.firstPiece x,
            release s.fileDownloadIndex ((offset + chunk).tdiv ti.pieceLength + ti.firstPiece x)
              s.piecePriority⟩
      else some s := by
  rw [allocateChunks]
  by_cases hmore : offset + chunk < x.1.size
  · have hinside : offset < x.1.size := by omega
    have hshort : ¬ (x.1.size : ℤ) < offset + chunk := by omega
    have hvalid : ¬ (offset < 0 ∨ chunk ≤ 0) := by omega
    have hnext : ¬ (x.1.size : ℤ) ≤ offset + chunk := by omega
    by_cases haccepted : Accepted (calls.fallocate round)
    · simp [Continues, posixFallocate, hinside, hshort, hvalid, hnext, haccepted, hmore]
    · simp [Continues, posixFallocate, hinside, hshort, hvalid, haccepted]
  · have hstop : ¬ Continues chunk x calls round offset := fun h => hmore h.1
    rw [if_neg hstop]
    split
    · have hlast : (if (x.1.size : ℤ) < offset + chunk then x.1.size - offset else chunk) =
          x.1.size - offset := by
        split
        · rfl
        · omega
      simp only [hlast]
      split
      · rw [if_pos (by omega)]
      · rfl
    · rfl

/-- Once a round goes on, the pieces from the index at its start to the index at the
end of the loop are released; else nothing changes. -/
theorem allocateChunks_spec (fuel round : ℕ) (offset : ℤ) (hoffset : 0 ≤ offset)
    (s s' : FileProgress) (hindex : s.fileDownloadIndex = offset / ti.pieceLength + ti.firstPiece x)
    (hlast : s.fileDownloadIndex ≤ ti.lastPiece x)
    (h : allocateChunks ti chunk x calls fuel round offset s = some s') :
    s.fileDownloadIndex ≤ s'.fileDownloadIndex ∧ s'.fileDownloadIndex ≤ ti.lastPiece x ∧
      (¬ Continues chunk x calls round offset → s' = s) ∧
      (Continues chunk x calls round offset → s'.piecePriority =
        release s.fileDownloadIndex s'.fileDownloadIndex s.piecePriority) := by
  induction fuel generalizing round offset s with
  | zero => contradiction
  | succ fuel ih =>
    rw [allocateChunks_succ ti chunk x calls hchunk fuel round offset hoffset s] at h
    split at h
    · next hcontinues =>
      have hnext : 0 ≤ offset + chunk := by omega
      rw [Int.tdiv_eq_ediv_of_nonneg hnext] at h
      have hmono : offset / ti.pieceLength ≤ (offset + chunk) / ti.pieceLength :=
        Int.ediv_le_ediv (by exact_mod_cast ti.pieceLength_pos) (by omega)
      have hadvance : s.fileDownloadIndex ≤
          (offset + chunk) / ti.pieceLength + ti.firstPiece x := by omega
      have hreached := reached_le ti x (offset + chunk) hnext hcontinues.1
      obtain ⟨hle, hbound, hsame, hreleased⟩ :=
        ih (round + 1) (offset + chunk) hnext _ rfl hreached h
      refine ⟨hadvance.trans hle, hbound, fun hstop => absurd hcontinues hstop, ?_⟩
      intro _
      by_cases hlater : Continues chunk x calls (round + 1) (offset + chunk)
      · rw [hreleased hlater]
        exact release_release _ _ _ hadvance hle s.piecePriority
      · rw [hsame hlater]
    · next hstop =>
      obtain rfl := Option.some.inj h
      exact ⟨le_rfl, hlast, fun _ => rfl, fun hcontinues => absurd hcontinues hstop⟩

theorem exists_allocateChunks (fuel round : ℕ) (offset : ℤ) (hoffset : 0 ≤ offset)
    (s : FileProgress) (hfuel : x.1.size - offset < fuel) :
    ∃ s', allocateChunks ti chunk x calls (fuel + 1) round offset s = some s' := by
  induction fuel generalizing round offset s with
  | zero =>
    rw [allocateChunks_succ ti chunk x calls hchunk 0 round offset hoffset s, if_neg]
    · exact ⟨s, rfl⟩
    · intro hcontinues
      have := hcontinues.1
      omega
  | succ fuel ih =>
    rw [allocateChunks_succ ti chunk x calls hchunk (fuel + 1) round offset hoffset s]
    split
    · exact ih (round + 1) (offset + chunk) (by omega) _ (by push_cast at hfuel; omega)
    · exact ⟨s, rfl⟩

end Positive

/-- Without a positive chunk nothing is ever completed, and no call fails. -/
theorem allocateChunks_diverges (hchunk : chunk ≤ 0) (fuel round : ℕ) (offset : ℤ)
    (hoffset : offset < x.1.size) (s : FileProgress) :
    allocateChunks ti chunk x calls fuel round offset s = none := by
  induction fuel generalizing round offset s with
  | zero => rfl
  | succ fuel ih =>
    have hshort : ¬ (x.1.size : ℤ) < offset + chunk := by omega
    have hnext : ¬ (x.1.size : ℤ) ≤ offset + chunk := by omega
    have haccepted : Accepted invalidArgument := .inr rfl
    rw [allocateChunks]
    simp only [if_pos hoffset, if_neg hshort, posixFallocate,
      if_pos (Or.inr hchunk : offset < 0 ∨ _), if_pos haccepted, if_neg hnext]
    exact ih (round + 1) (offset + chunk) (by omega) _

/-- What the loop has released when it ends, from the start of the file. -/
theorem allocateChunks_result (fuel : ℕ) (priority : PiecePriority) (s' : FileProgress)
    (h : allocateChunks ti chunk x calls fuel 0 0 ⟨ti.firstPiece x, priority⟩ = some s') :
    ti.firstPiece x ≤ s'.fileDownloadIndex ∧ s'.fileDownloadIndex ≤ ti.lastPiece x ∧
      (¬ FirstAccepted chunk x calls → s' = ⟨ti.firstPiece x, priority⟩) ∧
      (FirstAccepted chunk x calls →
        s'.piecePriority = release (ti.firstPiece x) s'.fileDownloadIndex priority) := by
  have hfirst : (ti.firstPiece x : ℤ) ≤ ti.lastPiece x := by exact_mod_cast ti.firstPiece_le x
  by_cases hchunk : 0 < chunk
  · obtain ⟨hle, hbound, hsame, hreleased⟩ := allocateChunks_spec ti chunk x calls hchunk fuel 0 0
      le_rfl ⟨ti.firstPiece x, priority⟩ s' (by simp) hfirst h
    exact ⟨hle, hbound, fun hearly => hsame (fun hcontinues => hearly ⟨hchunk, hcontinues⟩),
      fun hearly => hreleased hearly.2⟩
  · have hempty : x.1.size = 0 := by
      by_contra hsize
      rw [allocateChunks_diverges ti chunk x calls (by omega) fuel 0 0 (by omega)] at h
      contradiction
    have hsame : s' = ⟨ti.firstPiece x, priority⟩ := by
      cases fuel with
      | zero => contradiction
      | succ fuel =>
        rw [allocateChunks, if_neg (by omega)] at h
        exact (Option.some.inj h).symm
    subst hsame
    exact ⟨le_rfl, hfirst, fun _ => rfl, fun hearly => absurd hearly.1 hchunk⟩

end Chunks

section Files

structure Allocation where
  piecePriority : PiecePriority
  lastDownloadIndex : ℕ

variable (ti : TorrentInfo) (chunk : ℤ) (calls : ℕ → FileCalls)

def Skipped (x : FileEntry × ℕ) : Prop := x.1.priority = 0 ∨ x.1.padFile = true

instance (x : FileEntry × ℕ) : Decidable (Skipped x) := inferInstanceAs (Decidable (_ ∨ _))

/-- The file is there already, with the right size. -/
def Present (x : FileEntry × ℕ) : Prop := (calls x.2).stat = some x.1.size

instance (x : FileEntry × ℕ) : Decidable (Present calls x) := inferInstanceAs (Decidable (_ = _))

/-- The pieces of a file after its chunks. -/
def releaseFile (x : FileEntry × ℕ) (s : FileProgress) : PiecePriority :=
  if s.fileDownloadIndex < ti.lastPiece x then
    release s.fileDownloadIndex (ti.lastPiece x) s.piecePriority
  else s.piecePriority

/-- The loop over the files, which a failing `open` leaves. -/
def allocateFiles (fuel : ℕ) : List (FileEntry × ℕ) → Allocation → Option Allocation
  | [], s => some s
  | x :: xs, s =>
    if Skipped x then allocateFiles fuel xs s
    else if Present calls x then
      allocateFiles fuel xs
        ⟨release (ti.firstPiece x) (ti.lastPiece x) s.piecePriority, ti.lastPiece x⟩
    else if (calls x.2).openFails then some s
    else
      match allocateChunks ti chunk x (calls x.2) fuel 0 0 ⟨ti.firstPiece x, s.piecePriority⟩ with
      | none => none
      | some progress =>
        allocateFiles fuel xs ⟨releaseFile ti x progress, ti.lastPiece x⟩

/-- The pieces from the last download index on are released if they are set. -/
def releaseRest (org : Bitfield) (s : Allocation) : PiecePriority :=
  if s.lastDownloadIndex < ti.numPieces then
    fun p => s.piecePriority p || (decide ((s.lastDownloadIndex : ℤ) ≤ p) &&
      decide (p < ti.numPieces) && org.bit p.toNat)
  else s.piecePriority

def defaultMultiple : ℤ := 50

/-- The product is an `int`. -/
def eachLength (dynamicAllocate : ℤ) : ℤ :=
  ((if 0 < dynamicAllocate then dynamicAllocate else defaultMultiple) *
    ti.pieceLength).bmod (2 ^ 32)

/-- `none` when a loop needs more than `fuel` rounds. -/
def preAllocateThread (org : Bitfield) (dynamicAllocate : ℤ) (fuel : ℕ) : Option PiecePriority :=
  match allocateFiles ti (eachLength ti dynamicAllocate) calls fuel ti.files.zipIdx
    ⟨fun _ => false, 0⟩ with
  | none => none
  | some s => some (releaseRest ti org s)

def Downloader.setOrgPieces : Bitfield := PreAllocations.setOrgPieces ti

def Downloader.preAllocateThread : ℤ → ℕ → Option PiecePriority :=
  PreAllocations.preAllocateThread ti calls (Downloader.setOrgPieces ti)

def GroupTask.setOrgPieces : Bitfield := PreAllocations.setOrgPieces ti

def GroupTask.preAllocateThread : ℤ → ℕ → Option PiecePriority :=
  PreAllocations.preAllocateThread ti calls (GroupTask.setOrgPieces ti)

end Files

section Released

variable (ti : TorrentInfo) (chunk : ℤ) (calls : ℕ → FileCalls)

/-- The file is neither there nor can it be opened. -/
def Stops (x : FileEntry × ℕ) : Prop := ¬ Present calls x ∧ (calls x.2).openFails = true

instance (x : FileEntry × ℕ) : Decidable (Stops calls x) := inferInstanceAs (Decidable (_ ∧ _))

/-- The files among `xs` that the thread gets through. -/
def processed (xs : List (FileEntry × ℕ)) : List (FileEntry × ℕ) :=
  (xs.filter (fun x => decide (¬ Skipped x))).takeWhile (fun x => decide (¬ Stops calls x))

/-- The pieces of the file are all released as it is gone through. -/
def ReleasesAll (x : FileEntry × ℕ) : Prop :=
  Present calls x ∨ ti.firstPiece x < ti.lastPiece x ∨ FirstAccepted chunk x (calls x.2)

/-- A file of several pieces, or with an accepted first chunk, is released whole. -/
theorem releaseFile_of_spread (fuel : ℕ) (x : FileEntry × ℕ) (priority : PiecePriority)
    (s : FileProgress) (hspread : ti.firstPiece x < ti.lastPiece x ∨
      FirstAccepted chunk x (calls x.2))
    (h : allocateChunks ti chunk x (calls x.2) fuel 0 0 ⟨ti.firstPiece x, priority⟩ = some s) :
    releaseFile ti x s = release (ti.firstPiece x) (ti.lastPiece x) priority := by
  obtain ⟨hle, hbound, hsame, hreleased⟩ :=
    allocateChunks_result ti chunk x (calls x.2) fuel priority s h
  unfold releaseFile
  by_cases hearly : FirstAccepted chunk x (calls x.2)
  · rw [hreleased hearly]
    split
    · exact release_release _ _ _ hle hbound priority
    · next hend => rw [le_antisymm hbound (not_lt.mp hend)]
  · obtain rfl := hsame hearly
    have hseveral : (ti.firstPiece x : ℤ) < ti.lastPiece x :=
      Nat.cast_lt.mpr (hspread.resolve_right hearly)
    exact if_pos hseveral

theorem releaseFile_of_single (fuel : ℕ) (x : FileEntry × ℕ) (priority : PiecePriority)
    (s : FileProgress) (hsingle : ¬ ti.firstPiece x < ti.lastPiece x)
    (hearly : ¬ FirstAccepted chunk x (calls x.2))
    (h : allocateChunks ti chunk x (calls x.2) fuel 0 0 ⟨ti.firstPiece x, priority⟩ = some s) :
    releaseFile ti x s = priority := by
  obtain rfl := (allocateChunks_result ti chunk x (calls x.2) fuel priority s h).2.2.1 hearly
  have hsingle' : ¬ (ti.firstPiece x : ℤ) < ti.lastPiece x := by
    rw [Nat.cast_lt]
    exact hsingle
  exact if_neg hsingle'

theorem releaseFile_eq_true (fuel : ℕ) (x : FileEntry × ℕ) (priority : PiecePriority)
    (s : FileProgress) (habsent : ¬ Present calls x)
    (h : allocateChunks ti chunk x (calls x.2) fuel 0 0 ⟨ti.firstPiece x, priority⟩ = some s)
    (p : ℕ) : releaseFile ti x s p = true ↔
      priority p = true ∨ ReleasesAll ti chunk calls x ∧ ti.Covers x p := by
  by_cases hspread : ti.firstPiece x < ti.lastPiece x ∨ FirstAccepted chunk x (calls x.2)
  · have hall : ReleasesAll ti chunk calls x := .inr hspread
    rw [releaseFile_of_spread ti chunk calls fuel x priority s hspread h, release_eq_true,
      Nat.cast_le, Nat.cast_le]
    simp only [hall, true_and, TorrentInfo.Covers]
  · have hnone : ¬ ReleasesAll ti chunk calls x := not_or.mpr ⟨habsent, hspread⟩
    obtain ⟨hsingle, hearly⟩ := not_or.mp hspread
    rw [releaseFile_of_single ti chunk calls fuel x priority s hsingle hearly h]
    simp only [hnone, false_and, or_false]

theorem processed_skip (x : FileEntry × ℕ) (xs : List (FileEntry × ℕ)) (h : Skipped x) :
    processed calls (x :: xs) = processed calls xs := by
  simp [processed, h]

theorem processed_stop (x : FileEntry × ℕ) (xs : List (FileEntry × ℕ)) (h : ¬ Skipped x)
    (hstop : Stops calls x) : processed calls (x :: xs) = [] := by
  simp [processed, h, hstop]

theorem processed_cons (x : FileEntry × ℕ) (xs : List (FileEntry × ℕ)) (h : ¬ Skipped x)
    (hstop : ¬ Stops calls x) : processed calls (x :: xs) = x :: processed calls xs := by
  simp [processed, h, hstop]

/-- The last piece of the last file gone through. -/
def lastProcessed (i : ℕ) (xs : List (FileEntry × ℕ)) : ℕ :=
  (xs.getLast?.map ti.lastPiece).getD i

theorem lastProcessed_cons (i : ℕ) (x : FileEntry × ℕ) (xs : List (FileEntry × ℕ)) :
    lastProcessed ti i (x :: xs) = lastProcessed ti (ti.lastPiece x) xs := by
  cases xs with
  | nil => rfl
  | cons y ys => simp [lastProcessed, List.getLast?_cons]

/-- The files gone through release their own pieces and nothing else. -/
theorem allocateFiles_spec (fuel : ℕ) (xs : List (FileEntry × ℕ)) (s s' : Allocation)
    (h : allocateFiles ti chunk calls fuel xs s = some s') :
    (∀ p : ℕ, s'.piecePriority p = true ↔ s.piecePriority p = true ∨
      ∃ x ∈ processed calls xs, ReleasesAll ti chunk calls x ∧ ti.Covers x p) ∧
    s'.lastDownloadIndex = lastProcessed ti s.lastDownloadIndex (processed calls xs) := by
  induction xs generalizing s with
  | nil =>
    obtain rfl := Option.some.inj h
    simp [processed, lastProcessed]
  | cons x xs ih =>
    rw [allocateFiles] at h
    split at h
    · next hskipped =>
      rw [processed_skip calls x xs hskipped]
      exact ih s h
    · next hhandled =>
      split at h
      · next hpresent =>
        obtain ⟨hpieces, hlast⟩ := ih _ h
        have hall : ReleasesAll ti chunk calls x := .inl hpresent
        rw [processed_cons calls x xs hhandled (fun hstop => hstop.1 hpresent)]
        refine ⟨?_, by rw [hlast, lastProcessed_cons]⟩
        intro p
        rw [hpieces p, release_eq_true, List.exists_mem_cons_iff, or_assoc]
        simp [hall, TorrentInfo.Covers]
      · next habsent =>
        split at h
        · next hfails =>
          obtain rfl := Option.some.inj h
          rw [processed_stop calls x xs hhandled ⟨habsent, hfails⟩]
          simp [lastProcessed]
        · next hopened =>
          split at h
          · contradiction
          · next progress hchunks =>
            obtain ⟨hpieces, hlast⟩ := ih _ h
            rw [processed_cons calls x xs hhandled (fun hstop => hopened hstop.2)]
            refine ⟨?_, by rw [hlast, lastProcessed_cons]⟩
            intro p
            rw [hpieces p, releaseFile_eq_true ti chunk calls fuel x s.piecePriority progress
              habsent hchunks p, List.exists_mem_cons_iff, or_assoc]

/-- Every set piece before the end of the last file gone through lies in a file
whose pieces are all released as it is gone through. -/
def Covered (org : Bitfield) : Prop :=
  ∀ p < ti.numPieces, p < lastProcessed ti 0 (processed calls ti.files.zipIdx) →
    org.bit p = true →
    ∃ x ∈ processed calls ti.files.zipIdx, ReleasesAll ti chunk calls x ∧ ti.Covers x p

/-- Every piece whose bit is set has priority 1. -/
def AllReleased (org : Bitfield) (priority : PiecePriority) : Prop :=
  ∀ p < ti.numPieces, org.bit p = true → priority p = true

theorem releaseRest_eq_true (org : Bitfield) (s : Allocation) (p : ℕ) (hp : p < ti.numPieces) :
    releaseRest ti org s p = true ↔
      s.piecePriority p = true ∨ s.lastDownloadIndex ≤ p ∧ org.bit p = true := by
  unfold releaseRest
  split
  · simp [hp]
  · next hall =>
    have hlate : ¬ s.lastDownloadIndex ≤ p := by omega
    simp [hlate]

theorem preAllocateThread_releases (org : Bitfield) (dynamicAllocate : ℤ) (fuel : ℕ)
    (priority : PiecePriority)
    (h : preAllocateThread ti calls org dynamicAllocate fuel = some priority) :
    AllReleased ti org priority ↔ Covered ti (eachLength ti dynamicAllocate) calls org := by
  unfold preAllocateThread at h
  split at h
  · contradiction
  · next s hfiles =>
    obtain rfl := Option.some.inj h
    obtain ⟨hpieces, hlast⟩ := allocateFiles_spec ti _ calls fuel ti.files.zipIdx _ s hfiles
    constructor
    · intro hall p hp hbefore hset
      obtain hearly | hrest := (releaseRest_eq_true ti org s p hp).mp (hall p hp hset)
      · have hcovered := (hpieces p).mp hearly
        simpa using hcovered
      · have hlate := hrest.1
        rw [hlast] at hlate
        exact absurd hbefore (not_lt.mpr hlate)
    · intro hcovered p hp hset
      rw [releaseRest_eq_true ti org s p hp]
      by_cases hbefore : p < s.lastDownloadIndex
      · rw [hlast] at hbefore
        exact .inl ((hpieces p).mpr (.inr (hcovered p hp hbefore hset)))
      · exact .inr ⟨not_lt.mp hbefore, hset⟩

/-- When the thread finishes, in either class, exactly the covered layouts have
every set piece released. -/
theorem all_released_iff (dynamicAllocate : ℤ) (fuel : ℕ) (priority : PiecePriority) :
    (Downloader.preAllocateThread ti calls dynamicAllocate fuel = some priority →
      (AllReleased ti (Downloader.setOrgPieces ti) priority ↔
        Covered ti (eachLength ti dynamicAllocate) calls (Downloader.setOrgPieces ti))) ∧
    (GroupTask.preAllocateThread ti calls dynamicAllocate fuel = some priority →
      (AllReleased ti (GroupTask.setOrgPieces ti) priority ↔
        Covered ti (eachLength ti dynamicAllocate) calls (GroupTask.setOrgPieces ti))) := by
  constructor
  · exact preAllocateThread_releases ti calls _ dynamicAllocate fuel priority
  · exact preAllocateThread_releases ti calls _ dynamicAllocate fuel priority

section Samples

/-- No file is there yet, and every call succeeds. -/
def freshCalls (_ : ℕ) : FileCalls := ⟨none, false, fun _ => 0⟩

def twoPieceFile : TorrentInfo where
  files := [⟨20, false, 1⟩]
  pieceLength := 10
  pieceLength_pos := by decide

theorem all_released_twoPieceFile : ∃ priority,
    Downloader.preAllocateThread twoPieceFile freshCalls 0 2 = some priority ∧
      AllReleased twoPieceFile (Downloader.setOrgPieces twoPieceFile) priority := by
  refine ⟨_, rfl, ((all_released_iff twoPieceFile freshCalls 0 2 _).1 rfl).mpr ?_⟩
  intro p _ hbefore _
  have hspread : twoPieceFile.firstPiece (⟨20, false, 1⟩, 0) <
      twoPieceFile.lastPiece (⟨20, false, 1⟩, 0) := by decide
  exact ⟨(⟨20, false, 1⟩, 0), .head _, .inr (.inl hspread), Nat.zero_le p, hbefore.le⟩

/-- A file of one piece, and one of two after it. -/
def onePieceFile : TorrentInfo where
  files := [⟨10, false, 1⟩, ⟨20, false, 1⟩]
  pieceLength := 10
  pieceLength_pos := by decide

theorem onePieceFile_not_released : ∃ priority,
    Downloader.preAllocateThread onePieceFile freshCalls 0 2 = some priority ∧
      ¬ AllReleased onePieceFile (Downloader.setOrgPieces onePieceFile) priority := by
  have hrun : ∃ priority,
      Downloader.preAllocateThread onePieceFile freshCalls 0 2 = some priority ∧
        priority 0 = false := ⟨_, rfl, rfl⟩
  obtain ⟨priority, hpriority, hfirst⟩ := hrun
  refine ⟨priority, hpriority, ?_⟩
  intro hall
  have hset := hall 0 (by decide) rfl
  rw [Nat.cast_zero, hfirst] at hset
  contradiction

end Samples

end Released

section Finishes

variable (ti : TorrentInfo) (calls : ℕ → FileCalls)

/-- With a positive chunk the thread finishes, whatever the calls return. -/
theorem exists_preAllocateThread (org : Bitfield) (dynamicAllocate : ℤ) (fuel : ℕ)
    (hchunk : 0 < eachLength ti dynamicAllocate) (hfuel : ∀ fe ∈ ti.files, fe.size < fuel) :
    ∃ priority, preAllocateThread ti calls org dynamicAllocate (fuel + 1) = some priority := by
  have hfiles : ∀ (xs : List (FileEntry × ℕ)) (s : Allocation), (∀ x ∈ xs, x.1.size < fuel) →
      ∃ s', allocateFiles ti (eachLength ti dynamicAllocate) calls (fuel + 1) xs s = some s' := by
    intro xs
    induction xs with
    | nil => exact fun s _ => ⟨s, rfl⟩
    | cons x xs ih =>
      intro s hsizes
      have htail := fun y hy => hsizes y (List.mem_cons_of_mem x hy)
      rw [allocateFiles]
      split
      · exact ih s htail
      · split
        · exact ih _ htail
        · split
          · exact ⟨s, rfl⟩
          · have hsize := hsizes x (List.mem_cons_self ..)
            obtain ⟨progress, hchunks⟩ := exists_allocateChunks ti _ x (calls x.2) hchunk fuel 0 0
              le_rfl ⟨ti.firstPiece x, s.piecePriority⟩ (by omega)
            rw [hchunks]
            exact ih _ htail
  have hzip : ∀ x ∈ ti.files.zipIdx, x.1.size < fuel := by
    intro x hx
    exact hfuel x.1 (List.fst_mem_of_mem_zipIdx hx)
  obtain ⟨s, hs⟩ := hfiles ti.files.zipIdx ⟨fun _ => false, 0⟩ hzip
  exact ⟨releaseRest ti org s, by simp [preAllocateThread, hs]⟩

end Finishes
end Gingko.PreAllocations
