import Gingko.PreAllocations
import Mathlib.Data.List.Zip

/-!
The bitfield of the pieces that the selected files need, which tells a finished
torrent from one that only looks finished. The loop over the pieces of a file is
run once for an empty file too, on the piece in which it starts.
-/
namespace Gingko.NeededPieces

open PreAllocations

section Bytes

variable (ti : TorrentInfo)

def totalSize : ℕ := (ti.files.map FileEntry.size).sum

/-- Some byte of the file lies in the piece. -/
def HasByte (x : FileEntry × ℕ) (j : ℕ) : Prop := ∃ o < x.1.size, ti.mapFile x.2 o = j

instance (x : FileEntry × ℕ) (j : ℕ) : Decidable (HasByte ti x j) :=
  inferInstanceAs (Decidable (∃ o < x.1.size, ti.mapFile x.2 o = j))

/-- Some byte of a selected file lies in the piece. -/
def Needed (j : ℕ) : Prop := ∃ x ∈ ti.files.zipIdx, 0 < x.1.priority ∧ HasByte ti x j

instance (j : ℕ) : Decidable (Needed ti j) :=
  inferInstanceAs (Decidable (∃ x ∈ ti.files.zipIdx, 0 < x.1.priority ∧ HasByte ti x j))

def neededCount : ℕ := (List.range ti.numPieces).countP (fun j => decide (Needed ti j))

theorem covers_of_hasByte (x : FileEntry × ℕ) (j : ℕ) (h : HasByte ti x j) : ti.Covers x j := by
  obtain ⟨o, ho, rfl⟩ := h
  constructor
  · exact Nat.div_le_div_right (by omega)
  · exact Nat.div_le_div_right (by omega)

/-- A file that is not empty has a byte in each piece from its first to its last. -/
theorem hasByte_of_covers (x : FileEntry × ℕ) (j : ℕ) (hsize : 0 < x.1.size)
    (h : ti.Covers x j) : HasByte ti x j := by
  obtain ⟨hfirst, hlast⟩ := h
  have hpos := ti.pieceLength_pos
  have hend : j * ti.pieceLength ≤ ti.start x.2 + (x.1.size - 1) :=
    (Nat.le_div_iff_mul_le hpos).mp hlast
  -- the first byte of the piece, or of the file where that comes later
  refine ⟨j * ti.pieceLength - ti.start x.2, by omega, ?_⟩
  by_cases hbefore : j * ti.pieceLength ≤ ti.start x.2
  · rw [Nat.sub_eq_zero_of_le hbefore]
    exact le_antisymm hfirst ((Nat.le_div_iff_mul_le hpos).mpr hbefore)
  · rw [TorrentInfo.mapFile, Nat.add_sub_of_le (not_le.mp hbefore).le]
    exact Nat.mul_div_cancel j hpos

theorem covers_iff_of_empty (x : FileEntry × ℕ) (j : ℕ) (hsize : x.1.size = 0) :
    ti.Covers x j ↔ j = ti.firstPiece x := by
  have hlast : ti.lastPiece x = ti.firstPiece x := by
    simp only [TorrentInfo.lastPiece, TorrentInfo.firstPiece, hsize, Nat.zero_sub]
  unfold TorrentInfo.Covers
  rw [hlast]
  omega

/-- A file and those before it are no longer than the torrent. -/
theorem start_add_size_le (x : FileEntry × ℕ) (hx : x ∈ ti.files.zipIdx) :
    ti.start x.2 + x.1.size ≤ totalSize ti := by
  obtain ⟨hindex, hget⟩ := List.mem_zipIdx' hx
  have hsplit : ti.files = ti.files.take x.2 ++ x.1 :: ti.files.drop (x.2 + 1) := by
    rw [hget, List.cons_getElem_drop_succ, List.take_append_drop]
  have htotal := congrArg (fun fs => (fs.map FileEntry.size).sum) hsplit
  simp only [List.map_append, List.map_cons, List.sum_append, List.sum_cons] at htotal
  unfold totalSize TorrentInfo.start
  omega

theorem div_lt_numPieces_iff (offset : ℕ) : offset / ti.pieceLength < ti.numPieces ↔
    offset / ti.pieceLength * ti.pieceLength < totalSize ti := by
  have hpos := ti.pieceLength_pos
  rw [← Nat.succ_le_iff, TorrentInfo.numPieces, Nat.le_div_iff_mul_le hpos, Nat.succ_mul]
  unfold totalSize
  omega

theorem div_lt_numPieces (offset : ℕ) (h : offset < totalSize ti) :
    offset / ti.pieceLength < ti.numPieces :=
  (div_lt_numPieces_iff ti offset).mpr ((Nat.div_mul_le_self offset ti.pieceLength).trans_lt h)

theorem size_eq : (setOrgPieces ti).size = max 1 ti.numPieces := by
  have hsize : (setOrgPieces ti).size = if ti.numPieces = 0 then 1 else ti.numPieces := rfl
  rw [hsize]
  split <;> omega

/-- Only where the pieces end with the torrent is its end in no piece. -/
theorem end_lt_size_iff : totalSize ti / ti.pieceLength < (setOrgPieces ti).size ↔
    ¬ (0 < totalSize ti ∧ ti.pieceLength ∣ totalSize ti) := by
  have hend := div_lt_numPieces_iff ti (totalSize ti)
  have hle := Nat.div_mul_le_self (totalSize ti) ti.pieceLength
  rw [Nat.dvd_iff_div_mul_eq]
  rw [size_eq]
  by_cases htotal : totalSize ti = 0
  · simp only [htotal, Nat.zero_div, lt_irrefl, false_and, not_false_eq_true, iff_true]
    omega
  · have hpieces := Nat.zero_lt_of_lt (div_lt_numPieces ti 0 (by omega))
    omega

end Bytes

section Loops

variable (ti : TorrentInfo)

/-- One round of the inner loop of `SetOrgPieces`. -/
def setPiece (x : FileEntry × ℕ) (bits : ℕ → Bool) (j : ℕ) : ℕ → Bool :=
  if 0 < x.1.priority ∨ bits j = true then Function.update bits j true
  else Function.update bits j false

def filePieces (x : FileEntry × ℕ) : List ℕ :=
  List.range' (ti.firstPiece x) (ti.lastPiece x + 1 - ti.firstPiece x)

/-- The indexes whose bits `SetOrgPieces` sets or clears, in this order. -/
def touched : List ℕ := ti.files.zipIdx.flatMap (filePieces ti)

theorem mem_filePieces (x : FileEntry × ℕ) (j : ℕ) : j ∈ filePieces ti x ↔ ti.Covers x j := by
  have hle := ti.firstPiece_le x
  rw [filePieces, List.mem_range'_1, TorrentInfo.Covers]
  omega

theorem mem_touched (j : ℕ) : j ∈ touched ti ↔ ∃ x ∈ ti.files.zipIdx, ti.Covers x j := by
  simp only [touched, List.mem_flatMap, mem_filePieces]

theorem setPiece_eq_true (x : FileEntry × ℕ) (bits : ℕ → Bool) (j k : ℕ) :
    setPiece x bits j k = true ↔ (0 < x.1.priority ∧ k = j) ∨ bits k = true := by
  unfold setPiece
  by_cases hindex : k = j
  · subst hindex
    split
    · next hset => simpa using hset
    · next hclear => simpa using hclear
  · split <;> simp [hindex]

theorem foldl_setPiece_eq_true (x : FileEntry × ℕ) (js : List ℕ) (bits : ℕ → Bool) (k : ℕ) :
    js.foldl (setPiece x) bits k = true ↔ (0 < x.1.priority ∧ k ∈ js) ∨ bits k = true := by
  induction js generalizing bits with
  | nil => simp
  | cons j js ih =>
    rw [List.foldl_cons, ih, setPiece_eq_true, List.mem_cons, and_or_left]
    tauto

/-- Index by index the loop over the pieces of a file is the one over its range. -/
theorem setFilePieces_eq_foldl (x : FileEntry × ℕ) (bits : ℕ → Bool) :
    setFilePieces ti bits x = (filePieces ti x).foldl (setPiece x) bits := by
  funext j
  rw [Bool.eq_iff_iff, setFilePieces_eq_true, foldl_setPiece_eq_true, mem_filePieces]

/-- The order of the files does not matter. -/
theorem setOrgPieces_perm (xs : List (FileEntry × ℕ)) (h : xs.Perm ti.files.zipIdx) :
    xs.foldl (fun bits x => (filePieces ti x).foldl (setPiece x) bits) (fun _ => false) =
      (setOrgPieces ti).bit := by
  funext j
  simp only [← setFilePieces_eq_foldl]
  rw [Bool.eq_iff_iff, foldl_setFilePieces_eq_true, setOrgPieces_eq_true]
  simp only [h.mem_iff, Bool.false_eq_true, or_false]

end Loops

section Conditions

variable (ti : TorrentInfo)

/-- Each selected file that is empty starts in a piece that the selected files need. -/
def EmptyFilesShare : Prop :=
  ∀ x ∈ ti.files.zipIdx, 0 < x.1.priority → x.1.size = 0 → Needed ti (ti.firstPiece x)

def LastEmpty : Prop := ∃ fe ∈ ti.files.getLast?, fe.size = 0

/-- The pieces end with the torrent, and an empty file comes after them. -/
def EmptyBehind : Prop := LastEmpty ti ∧ 0 < totalSize ti ∧ ti.pieceLength ∣ totalSize ti

theorem bit_iff (j : ℕ) : (setOrgPieces ti).bit j = true ↔
    Needed ti j ∨ ∃ x ∈ ti.files.zipIdx, 0 < x.1.priority ∧ x.1.size = 0 ∧ j = ti.firstPiece x := by
  rw [setOrgPieces_eq_true]
  constructor
  · rintro ⟨x, hx, hselected, hcovers⟩
    by_cases hsize : x.1.size = 0
    · exact .inr ⟨x, hx, hselected, hsize, (covers_iff_of_empty ti x j hsize).mp hcovers⟩
    · have hbyte := hasByte_of_covers ti x j (Nat.pos_of_ne_zero hsize) hcovers
      exact .inl ⟨x, hx, hselected, hbyte⟩
  · rintro (⟨x, hx, hselected, hbyte⟩ | ⟨x, hx, hselected, hsize, hfirst⟩)
    · exact ⟨x, hx, hselected, covers_of_hasByte ti x j hbyte⟩
    · exact ⟨x, hx, hselected, (covers_iff_of_empty ti x j hsize).mpr hfirst⟩

theorem bits_needed_iff :
    (∀ j, (setOrgPieces ti).bit j = true ↔ Needed ti j) ↔ EmptyFilesShare ti := by
  constructor
  · intro h x hx hselected hsize
    exact (h _).mp ((bit_iff ti _).mpr (.inr ⟨x, hx, hselected, hsize, rfl⟩))
  · intro h j
    rw [bit_iff, or_iff_left_iff_imp]
    rintro ⟨x, hx, hselected, hsize, rfl⟩
    exact h x hx hselected hsize

/-- Some empty file starts at the end of the torrent when the last file is empty. -/
theorem exists_at_end_iff : (∃ x ∈ ti.files.zipIdx, x.1.size = 0 ∧ ti.start x.2 = totalSize ti) ↔
    LastEmpty ti := by
  constructor
  · rintro ⟨x, hx, hsize, hend⟩
    obtain ⟨hindex, -⟩ := List.mem_zipIdx' hx
    obtain ⟨front, last, hfiles⟩ := List.eq_nil_or_concat ti.files |>.resolve_left
      (List.ne_nil_of_length_pos (Nat.zero_lt_of_lt hindex))
    rw [List.concat_eq_append] at hfiles
    have hlast : ti.files.getLast? = some last := by rw [hfiles, List.getLast?_concat]
    refine ⟨last, hlast, ?_⟩
    rw [hfiles, List.length_append, List.length_singleton] at hindex
    have htake : ti.files.take x.2 = front.take x.2 := by
      rw [hfiles, List.take_append_of_le_length (by omega)]
    have hparts := congrArg (fun fs => (fs.map FileEntry.size).sum)
      (List.take_append_drop x.2 front)
    rw [TorrentInfo.start, htake, totalSize, hfiles] at hend
    simp only [List.map_append, List.map_cons, List.map_nil, List.sum_append, List.sum_cons,
      List.sum_nil] at hparts hend
    omega
  · rintro ⟨last, hlast, hsize⟩
    obtain ⟨front, hfiles⟩ := List.getLast?_eq_some_iff.mp hlast
    refine ⟨(last, front.length), ?_, hsize, ?_⟩
    · rw [hfiles, List.zipIdx_append]
      simp
    · simp [TorrentInfo.start, totalSize, hfiles, hsize]

theorem touched_in_range_iff :
    (∀ j ∈ touched ti, j < (setOrgPieces ti).size) ↔ ¬ EmptyBehind ti := by
  have hend := end_lt_size_iff ti
  rw [EmptyBehind, ← exists_at_end_iff]
  constructor
  · rintro h ⟨⟨x, hx, hsize, hstart⟩, haligned⟩
    have hcovers := (covers_iff_of_empty ti x _ hsize).mpr rfl
    have hlt := h _ ((mem_touched ti _).mpr ⟨x, hx, hcovers⟩)
    rw [TorrentInfo.firstPiece, TorrentInfo.mapFile, Nat.add_zero, hstart, hend] at hlt
    exact hlt haligned
  · intro h j hj
    obtain ⟨x, hx, hcovers⟩ := (mem_touched ti j).mp hj
    have hle := start_add_size_le ti x hx
    have hsmall : ∀ offset, offset < totalSize ti →
        offset / ti.pieceLength < (setOrgPieces ti).size := by
      intro offset hoffset
      rw [size_eq]
      exact lt_max_of_lt_right (div_lt_numPieces ti offset hoffset)
    by_cases hsize : x.1.size = 0
    · rw [(covers_iff_of_empty ti x j hsize).mp hcovers]
      by_cases hstart : ti.start x.2 = totalSize ti
      · rw [TorrentInfo.firstPiece, TorrentInfo.mapFile, Nat.add_zero, hstart, hend]
        exact fun haligned => h ⟨⟨x, hx, hsize, hstart⟩, haligned⟩
      · exact hsmall _ (by omega)
    · exact hcovers.2.trans_lt (hsmall _ (by omega))

end Conditions

section Finished

variable (ti : TorrentInfo)

def count (b : Bitfield) : ℕ := (List.range b.size).countP b.bit

/-- Whether `OnTorrentFinished` goes on, for the pieces that the torrent has. -/
def onTorrentFinished (org : Bitfield) (dynamicAllocate : ℤ) (pieces : Bitfield) : Bool :=
  if 0 ≤ dynamicAllocate then
    !(decide (count pieces < count org) && decide (0 < ti.numPieces))
  else true

def Downloader.onTorrentFinished : ℤ → Bitfield → Bool :=
  NeededPieces.onTorrentFinished ti (Downloader.setOrgPieces ti)

def GroupTask.onTorrentFinished : ℤ → Bitfield → Bool :=
  NeededPieces.onTorrentFinished ti (GroupTask.setOrgPieces ti)

/-- The bits are those of the pieces in which a selected file has a byte, all indexes
are in range, and a torrent is finished once it has as many pieces as are needed. -/
structure NeededExactly (org : Bitfield) (touched : List ℕ)
    (finished : ℤ → Bitfield → Bool) : Prop where
  bits : ∀ j, org.bit j = true ↔ Needed ti j
  in_range : ∀ j ∈ touched, j < org.size
  counted : ∀ dynamicAllocate pieces, finished dynamicAllocate pieces = true ↔
    dynamicAllocate < 0 ∨ ti.numPieces = 0 ∨ neededCount ti ≤ count pieces

theorem count_setOrgPieces (hbits : ∀ j, (setOrgPieces ti).bit j = true ↔ Needed ti j)
    (hpieces : 0 < ti.numPieces) : count (setOrgPieces ti) = neededCount ti := by
  have hsize : (setOrgPieces ti).size = ti.numPieces := by
    rw [size_eq]
    omega
  rw [count, neededCount, hsize]
  refine List.countP_congr (fun j _ => ?_)
  rw [hbits j, decide_eq_true_eq]

theorem onTorrentFinished_eq_true (org : Bitfield) (dynamicAllocate : ℤ) (pieces : Bitfield) :
    onTorrentFinished ti org dynamicAllocate pieces = true ↔
      dynamicAllocate < 0 ∨ ti.numPieces = 0 ∨ count org ≤ count pieces := by
  unfold onTorrentFinished
  split
  · next hset =>
    simp only [Bool.not_eq_true', Bool.and_eq_false_iff, decide_eq_false_iff_not, not_lt]
    omega
  · next hunset => simp [not_le.mp hunset]

theorem setOrgPieces_exact_iff :
    NeededExactly ti (setOrgPieces ti) (touched ti) (onTorrentFinished ti (setOrgPieces ti)) ↔
      EmptyFilesShare ti ∧ ¬ EmptyBehind ti := by
  constructor
  · intro h
    exact ⟨(bits_needed_iff ti).mp h.bits, (touched_in_range_iff ti).mp h.in_range⟩
  · rintro ⟨hshare, hbehind⟩
    have hbits := (bits_needed_iff ti).mpr hshare
    refine ⟨hbits, (touched_in_range_iff ti).mpr hbehind, ?_⟩
    intro dynamicAllocate pieces
    rw [onTorrentFinished_eq_true]
    by_cases hpieces : ti.numPieces = 0
    · simp only [hpieces, true_or, or_true]
    · rw [count_setOrgPieces ti hbits (Nat.pos_of_ne_zero hpieces)]

/-- In either class the bitfield says what the selected files need exactly when each
empty one of them starts in a piece that is needed anyway, and none lies behind the
last piece. -/
theorem needed_exactly_iff :
    (NeededExactly ti (Downloader.setOrgPieces ti) (touched ti) (Downloader.onTorrentFinished ti) ↔
      EmptyFilesShare ti ∧ ¬ EmptyBehind ti) ∧
    (NeededExactly ti (GroupTask.setOrgPieces ti) (touched ti) (GroupTask.onTorrentFinished ti) ↔
      EmptyFilesShare ti ∧ ¬ EmptyBehind ti) :=
  ⟨setOrgPieces_exact_iff ti, setOrgPieces_exact_iff ti⟩

section Samples

/-- A selected file of one piece, a selected empty one and one that is not selected. -/
def emptyBetween : TorrentInfo :=
  { twoPieceFile with files := [⟨10, false, 1⟩, ⟨0, false, 1⟩, ⟨10, false, 0⟩] }

/-- One piece and an empty file behind it. -/
def emptyLast : TorrentInfo :=
  { twoPieceFile with files := [⟨10, false, 1⟩, ⟨0, false, 0⟩] }

theorem empty_files_touch_more :
    ¬ NeededExactly emptyBetween (Downloader.setOrgPieces emptyBetween) (touched emptyBetween)
      (Downloader.onTorrentFinished emptyBetween) ∧
    ¬ NeededExactly emptyLast (Downloader.setOrgPieces emptyLast) (touched emptyLast)
      (Downloader.onTorrentFinished emptyLast) := by
  constructor
  · intro h
    have hset : (Downloader.setOrgPieces emptyBetween).bit 1 = true := by decide
    have hneeded := (h.bits 1).mp hset
    revert hneeded
    decide
  · intro h
    have htouched : 1 ∈ touched emptyLast := by decide
    have hrange := h.in_range 1 htouched
    revert hrange
    decide

end Samples

end Finished
end Gingko.NeededPieces
