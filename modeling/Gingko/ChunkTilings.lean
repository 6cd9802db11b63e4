import Gingko.PreAllocations

/-!
The chunks that the allocating thread asks `posix_fallocate` for and the pieces it
writes beside them. The length of a chunk is a product of two `int`s, so that a
multiple the command line lets through can leave it zero or negative. The loop
then never comes to the end of the file.
-/
namespace Gingko.ChunkTilings

open PreAllocations

section Tilings

structure Chunk where
  offset : ℤ
  len : ℤ

def Chunk.stop (c : Chunk) : ℤ := c.offset + c.len

/-- No two chunks overlap, and together they are the interval. -/
structure Tiles (low high : ℤ) (cs : List Chunk) : Prop where
  apart : cs.Pairwise (fun c d => c.stop ≤ d.offset)
  covers : ∀ p, (∃ c ∈ cs, c.offset ≤ p ∧ p < c.stop) ↔ low ≤ p ∧ p < high

/-- Each chunk begins where the one before it stops. -/
def Adjoin : ℤ → List Chunk → ℤ → Prop
  | low, [], high => low = high
  | low, c :: cs, high => c.offset = low ∧ 0 < c.len ∧ Adjoin c.stop cs high

theorem Adjoin.low_le {low high : ℤ} {cs : List Chunk} (h : Adjoin low cs high) : low ≤ high := by
  induction cs generalizing low with
  | nil => exact le_of_eq h
  | cons c cs ih =>
    obtain ⟨rfl, hpos, hrest⟩ := h
    have hle := ih hrest
    simp only [Chunk.stop] at hle
    omega

theorem Adjoin.positive {low high : ℤ} {cs : List Chunk} (h : Adjoin low cs high) (c : Chunk)
    (hc : c ∈ cs) : 0 < c.len := by
  induction cs generalizing low with
  | nil => contradiction
  | cons d ds ih =>
    obtain ⟨-, hpos, hrest⟩ := h
    obtain rfl | hc := List.mem_cons.mp hc
    · exact hpos
    · exact ih hrest hc

/-- Chunks that adjoin tile the interval between their two ends. -/
theorem Adjoin.tiles {low high : ℤ} {cs : List Chunk} (h : Adjoin low cs high) :
    Tiles low high cs := by
  induction cs generalizing low with
  | nil =>
    obtain rfl : low = high := h
    refine ⟨List.Pairwise.nil, fun p => ?_⟩
    simp only [List.not_mem_nil, false_and, exists_false, false_iff]
    omega
  | cons c cs ih =>
    obtain ⟨rfl, hpos, hrest⟩ := h
    have hle := hrest.low_le
    obtain ⟨hapart, hcovers⟩ := ih hrest
    have hstop : c.offset < c.stop := by
      simp only [Chunk.stop]
      omega
    refine ⟨List.pairwise_cons.mpr ⟨?_, hapart⟩, ?_⟩
    · intro d hd
      -- the first position of a later chunk lies behind this one
      have hlen : d.offset < d.stop := by
        have := hrest.positive d hd
        simp only [Chunk.stop]
        omega
      exact ((hcovers d.offset).mp ⟨d, hd, le_rfl, hlen⟩).1
    · intro p
      rw [List.exists_mem_cons_iff, hcovers p]
      omega

end Tilings

section Traces

/-- What is asked of `posix_fallocate`, and the ends of each range of pieces that is
set to 1. -/
structure Trace where
  chunks : List Chunk
  written : List (ℤ × ℤ)
  fileDownloadIndex : ℤ

def Trace.release (t : Trace) (priority : PiecePriority) : PiecePriority :=
  t.written.foldl (fun priority w => PreAllocations.release w.1 w.2 priority) priority

variable (ti : TorrentInfo) (chunk : ℤ) (x : FileEntry × ℕ)

/-- `each_len`, cut at the end of the file. -/
def chunkLength (offset : ℤ) : ℤ :=
  if x.1.size < offset + chunk then x.1.size - offset else chunk

/-- The loop over the chunks of a file with what it asks for and writes. -/
def traceChunks (calls : FileCalls) : ℕ → ℕ → ℤ → ℤ → Option Trace
  | 0, _, _, _ => none
  | fuel + 1, round, offset, index =>
    if offset < x.1.size then
      let eachLen := chunkLength chunk x offset
      let ret := posixFallocate (calls.fallocate round) offset eachLen
      if Accepted ret then
        let next := offset + eachLen
        if x.1.size ≤ next then some ⟨[⟨offset, eachLen⟩], [], index⟩
        else
          let reached := next.tdiv ti.pieceLength + ti.firstPiece x
          (traceChunks calls fuel (round + 1) next reached).map (fun t =>
            ⟨⟨offset, eachLen⟩ :: t.chunks, (index, reached) :: t.written, t.fileDownloadIndex⟩)
      else some ⟨[⟨offset, eachLen⟩], [], index⟩
    else some ⟨[], [], index⟩

/-- The pieces of a file after its chunks. -/
def writeRest (t : Trace) : Trace :=
  if t.fileDownloadIndex < ti.lastPiece x then
    { t with written := t.written ++ [(t.fileDownloadIndex, (ti.lastPiece x : ℤ))] }
  else t

variable (calls : ℕ → FileCalls)

/-- The file is not there yet and can be opened. -/
def Entered : Prop := ¬ Present calls x ∧ (calls x.2).openFails = false

instance : Decidable (Entered x calls) := inferInstanceAs (Decidable (_ ∧ _))

/-- The loop over the files at a file that is not skipped. -/
def traceFile (fuel : ℕ) : Option Trace :=
  if Present calls x then some ⟨[], [(ti.firstPiece x, ti.lastPiece x)], ti.firstPiece x⟩
  else if (calls x.2).openFails then some ⟨[], [], ti.firstPiece x⟩
  else (traceChunks ti chunk x (calls x.2) fuel 0 0 (ti.firstPiece x)).map (writeRest ti x)

theorem allocateChunks_chunkLength (calls : FileCalls) (fuel round : ℕ) (offset : ℤ)
    (s : FileProgress) : allocateChunks ti chunk x calls (fuel + 1) round offset s =
      if offset < x.1.size then
        if Accepted
            (posixFallocate (calls.fallocate round) offset (chunkLength chunk x offset)) then
          if x.1.size ≤ offset + chunkLength chunk x offset then some s
          else
            allocateChunks ti chunk x calls fuel (round + 1) (offset + chunkLength chunk x offset)
              ⟨(offset + chunkLength chunk x offset).tdiv ti.pieceLength + ti.firstPiece x,
                release s.fileDownloadIndex
                  ((offset + chunkLength chunk x offset).tdiv ti.pieceLength + ti.firstPiece x)
                  s.piecePriority⟩
        else some s
      else some s := rfl

/-- Without what it asks for, the loop is the one that releases the pieces. -/
theorem allocateChunks_eq_trace (calls : FileCalls) (fuel round : ℕ) (offset index : ℤ)
    (priority : PiecePriority) :
    allocateChunks ti chunk x calls fuel round offset ⟨index, priority⟩ =
      (traceChunks ti chunk x calls fuel round offset index).map
        (fun t => ⟨t.fileDownloadIndex, t.release priority⟩) := by
  induction fuel generalizing round offset index priority with
  | zero => rfl
  | succ fuel ih =>
    simp only [allocateChunks_chunkLength, traceChunks]
    split
    · split
      · split
        · rfl
        · rw [ih, Option.map_map]
          rfl
      · rfl
    · rfl

theorem writeRest_release (t : Trace) (priority : PiecePriority) :
    (writeRest ti x t).release priority =
      releaseFile ti x ⟨t.fileDownloadIndex, t.release priority⟩ := by
  unfold writeRest releaseFile
  split
  · simp [Trace.release]
  · rfl

/-- A step of the loop over the files writes what the trace of the file says. -/
theorem allocateFiles_cons_trace (fuel : ℕ) (xs : List (FileEntry × ℕ)) (s : Allocation)
    (hhandled : ¬ Skipped x) (hstop : ¬ Stops calls x) :
    allocateFiles ti chunk calls fuel (x :: xs) s =
      (traceFile ti chunk x calls fuel).bind (fun t =>
        allocateFiles ti chunk calls fuel xs ⟨t.release s.piecePriority, ti.lastPiece x⟩) := by
  rw [allocateFiles, if_neg hhandled, traceFile]
  split
  · rfl
  · next habsent =>
    have hopened : ¬ (calls x.2).openFails = true := fun hfails => hstop ⟨habsent, hfails⟩
    rw [if_neg hopened, if_neg hopened, allocateChunks_eq_trace]
    cases traceChunks ti chunk x (calls x.2) fuel 0 0 (ti.firstPiece x) with
    | none => rfl
    | some t => simp [writeRest_release]

end Traces

section Positive

variable (ti : TorrentInfo) (chunk : ℤ) (x : FileEntry × ℕ)

/-- Every written index from `low` on lies in the range of pieces up to `high`. -/
def Within (low high : ℤ) (written : List (ℤ × ℤ)) : Prop :=
  ∀ w ∈ written, ∀ p, w.1 ≤ p → p ≤ w.2 → low ≤ p ∧ p ≤ high

theorem within_nil (low high : ℤ) : Within low high [] := by
  intro w hw
  contradiction

theorem within_cons (low high : ℤ) (w : ℤ × ℤ) (ws : List (ℤ × ℤ)) (hlow : low ≤ w.1)
    (hhigh : w.2 ≤ high) (h : Within low high ws) : Within low high (w :: ws) := by
  intro v hv p hp hp'
  obtain rfl | hv := List.mem_cons.mp hv
  · omega
  · exact h v hv p hp hp'

theorem within_append (low high : ℤ) (ws ws' : List (ℤ × ℤ)) (h : Within low high ws)
    (h' : Within low high ws') : Within low high (ws ++ ws') := by
  intro w hw
  obtain hw | hw := List.mem_append.mp hw
  · exact h w hw
  · exact h' w hw

theorem Within.mono {low low' high : ℤ} {ws : List (ℤ × ℤ)} (h : Within low' high ws)
    (hle : low ≤ low') : Within low high ws := by
  intro w hw p hp hp'
  obtain ⟨hlow, hhigh⟩ := h w hw p hp hp'
  exact ⟨hle.trans hlow, hhigh⟩

theorem chunkLength_pos (hchunk : 0 < chunk) (offset : ℤ) (h : offset < x.1.size) :
    0 < chunkLength chunk x offset := by
  unfold chunkLength
  split <;> omega

theorem add_chunkLength_le (offset : ℤ) :
    offset + chunkLength chunk x offset ≤ x.1.size := by
  unfold chunkLength
  split <;> omega

/-- What a run of the loop from `offset` on asks for and writes. -/
structure LoopSpec (calls : FileCalls) (round : ℕ) (offset index : ℤ) (t : Trace) : Prop where
  adjoin : ∃ high, Adjoin offset t.chunks high ∧ high ≤ x.1.size ∧
    ((∀ n < t.chunks.length, Accepted (calls.fallocate (round + n))) → high = x.1.size)
  index_le : index ≤ t.fileDownloadIndex
  le_lastPiece : t.fileDownloadIndex ≤ ti.lastPiece x
  within : Within index (ti.lastPiece x) t.written

variable {ti chunk x}

/-- A run that asks for nothing is at the end of the file. -/
theorem LoopSpec.stopped {calls : FileCalls} {round : ℕ} {offset index : ℤ}
    (hoffset : offset = x.1.size) (hlast : index ≤ ti.lastPiece x) :
    LoopSpec ti x calls round offset index ⟨[], [], index⟩ :=
  ⟨⟨offset, rfl, hoffset.le, fun _ => hoffset⟩, le_rfl, hlast, within_nil _ _⟩

/-- A chunk that is refused, or that completes the file, is the last one. -/
theorem LoopSpec.single {calls : FileCalls} {round : ℕ} {offset index len : ℤ} (hlen : 0 < len)
    (hle : offset + len ≤ x.1.size) (hlast : index ≤ ti.lastPiece x)
    (hend : Accepted (calls.fallocate round) → x.1.size ≤ offset + len) :
    LoopSpec ti x calls round offset index ⟨[⟨offset, len⟩], [], index⟩ := by
  refine ⟨⟨offset + len, ⟨rfl, hlen, rfl⟩, hle, ?_⟩, le_rfl, hlast, within_nil _ _⟩
  intro haccepted
  exact le_antisymm hle (hend (haccepted 0 Nat.one_pos))

/-- One more chunk, and the pieces up to the one that its end reaches. -/
theorem LoopSpec.cons {calls : FileCalls} {round : ℕ} {offset index reached len : ℤ} {t : Trace}
    (hlen : 0 < len) (hreached : index ≤ reached)
    (h : LoopSpec ti x calls (round + 1) (offset + len) reached t) :
    LoopSpec ti x calls round offset index
      ⟨⟨offset, len⟩ :: t.chunks, (index, reached) :: t.written, t.fileDownloadIndex⟩ := by
  obtain ⟨⟨high, hadjoin, hhigh, hend⟩, hle, hlast, hwithin⟩ := h
  refine ⟨⟨high, ⟨rfl, hlen, hadjoin⟩, hhigh, ?_⟩, hreached.trans hle, hlast, ?_⟩
  · intro haccepted
    refine hend (fun n hn => ?_)
    have hnext := haccepted (n + 1) (Nat.succ_lt_succ hn)
    rwa [← Nat.add_assoc, Nat.add_right_comm] at hnext
  · exact within_cons index (ti.lastPiece x) (index, reached) t.written le_rfl (hle.trans hlast)
      (hwithin.mono hreached)

/-- With a positive chunk the loop keeps to the file and to its pieces. -/
theorem traceChunks_spec (hchunk : 0 < chunk) (calls : FileCalls) (fuel round : ℕ)
    (offset index : ℤ) (hoffset : 0 ≤ offset) (hinside : offset ≤ x.1.size)
    (hindex : index = offset / ti.pieceLength + ti.firstPiece x)
    (hlast : index ≤ ti.lastPiece x) (t : Trace)
    (h : traceChunks ti chunk x calls fuel round offset index = some t) :
    LoopSpec ti x calls round offset index t := by
  induction fuel generalizing round offset index t with
  | zero => contradiction
  | succ fuel ih =>
    simp only [traceChunks] at h
    split at h
    · next hmore =>
      have hlen := chunkLength_pos chunk x hchunk offset hmore
      have hle := add_chunkLength_le chunk x offset
      -- a chunk inside the file is a valid request, so that the return is the one given
      have hvalid : posixFallocate (calls.fallocate round) offset (chunkLength chunk x offset) =
          calls.fallocate round := if_neg (by omega)
      rw [hvalid] at h
      split at h
      · next haccepted =>
        split at h
        · next hend =>
          obtain rfl := Option.some.inj h
          exact .single hlen hle hlast (fun _ => hend)
        · next hnext =>
          have hnonneg : 0 ≤ offset + chunkLength chunk x offset := by omega
          rw [Int.tdiv_eq_ediv_of_nonneg hnonneg, Option.map_eq_some_iff] at h
          obtain ⟨t', ht', rfl⟩ := h
          have hmono : offset / ti.pieceLength ≤
              (offset + chunkLength chunk x offset) / ti.pieceLength :=
            Int.ediv_le_ediv (by exact_mod_cast ti.pieceLength_pos) (by omega)
          have hreached := reached_le ti x (offset + chunkLength chunk x offset) hnonneg
            (not_le.mp hnext)
          exact .cons hlen (by omega) (ih (round + 1) _ _ hnonneg hle rfl hreached t' ht')
      · next hrefused =>
        obtain rfl := Option.some.inj h
        exact .single hlen hle hlast (fun haccepted => absurd haccepted hrefused)
    · next hend =>
      obtain rfl := Option.some.inj h
      exact .stopped (le_antisymm hinside (not_lt.mp hend)) hlast

end Positive

section Files

variable (ti : TorrentInfo) (chunk : ℤ) (x : FileEntry × ℕ) (calls : ℕ → FileCalls)

/-- What `process_download` prints about a `dynamic_allocate`, and the value it takes. -/
def dynamicAllocateOption (dynamicAllocate : ℤ) : Option String × ℤ :=
  (if dynamicAllocate < 0 ∨ 300 < dynamicAllocate then
      some "dynamic allocate must between 0 and 300"
    else none,
    dynamicAllocate)

def Downloader.preAllocateFile (dynamicAllocate : ℤ) : ℕ → Option Trace :=
  traceFile ti (eachLength ti dynamicAllocate) x calls

def GroupTask.preAllocateFile (dynamicAllocate : ℤ) : ℕ → Option Trace :=
  traceFile ti (eachLength ti dynamicAllocate) x calls

/-- The file is gone through in finitely many rounds. Each chunk asked for has a
positive length, the chunks tile the file up to the first one that is refused, and the
pieces written are the file's. -/
structure Allocates (file : ℕ → Option Trace) : Prop where
  ends : ∃ fuel t, file fuel = some t
  positive : ∀ fuel t, file fuel = some t → ∀ c ∈ t.chunks, 0 < c.len
  tiles : Entered x calls → ∀ fuel t, file fuel = some t →
    ∃ high : ℤ, high ≤ x.1.size ∧ Tiles 0 high t.chunks ∧
      ((∀ n < t.chunks.length, Accepted ((calls x.2).fallocate n)) → high = x.1.size)
  within : ∀ fuel t, file fuel = some t → Within (ti.firstPiece x) (ti.lastPiece x) t.written

/-- The multiple of the piece length, as the `int` it is computed in, is positive. -/
def Fits (dynamicAllocate : ℤ) : Prop :=
  0 < (if 0 < dynamicAllocate then dynamicAllocate else defaultMultiple) * ti.pieceLength % 2 ^ 32 ∧
    (if 0 < dynamicAllocate then dynamicAllocate else defaultMultiple) * ti.pieceLength % 2 ^ 32 <
      2 ^ 31

theorem bmod_pos_iff (n : ℤ) : 0 < n.bmod (2 ^ 32) ↔ 0 < n % 2 ^ 32 ∧ n % 2 ^ 32 < 2 ^ 31 := by
  rw [Int.bmod_def]
  split <;> omega

theorem eachLength_pos_iff (dynamicAllocate : ℤ) :
    0 < eachLength ti dynamicAllocate ↔ Fits ti dynamicAllocate :=
  bmod_pos_iff _

theorem traceFile_of_entered (hentered : Entered x calls) (fuel : ℕ) :
    traceFile ti chunk x calls fuel =
      (traceChunks ti chunk x (calls x.2) fuel 0 0 (ti.firstPiece x)).map (writeRest ti x) := by
  have hopened : ¬ (calls x.2).openFails = true := by simp [hentered.2]
  rw [traceFile, if_neg hentered.1, if_neg hopened]

theorem traceFile_diverges (hentered : Entered x calls) (hchunk : chunk ≤ 0)
    (hsize : 0 < x.1.size) (fuel : ℕ) : traceFile ti chunk x calls fuel = none := by
  have hloop := allocateChunks_diverges ti chunk x (calls x.2) hchunk fuel 0 0 (by omega)
    ⟨ti.firstPiece x, fun _ => false⟩
  rw [allocateChunks_eq_trace, Option.map_eq_none_iff] at hloop
  rw [traceFile_of_entered ti chunk x calls hentered, hloop]
  rfl

/-- A loop that ends on a file keeps to it, with a positive chunk or on an empty file. -/
theorem traceChunks_file (hchunk : 0 < chunk ∨ x.1.size = 0) (fuel : ℕ) (t : Trace)
    (h : traceChunks ti chunk x (calls x.2) fuel 0 0 (ti.firstPiece x) = some t) :
    LoopSpec ti x (calls x.2) 0 0 (ti.firstPiece x) t := by
  have hlast : (ti.firstPiece x : ℤ) ≤ ti.lastPiece x := by exact_mod_cast ti.firstPiece_le x
  obtain hchunk | hempty := hchunk
  · exact traceChunks_spec hchunk (calls x.2) fuel 0 0 (ti.firstPiece x) le_rfl (by omega)
      (by simp) hlast t h
  · cases fuel with
    | zero => contradiction
    | succ fuel =>
      rw [traceChunks, if_neg (by omega)] at h
      obtain rfl := Option.some.inj h
      exact .stopped (by omega) hlast

theorem exists_traceFile (h : ¬ Entered x calls ∨ x.1.size = 0 ∨ 0 < chunk) :
    ∃ fuel t, traceFile ti chunk x calls fuel = some t := by
  by_cases hentered : Entered x calls
  · simp only [traceFile_of_entered ti chunk x calls hentered, Option.map_eq_some_iff]
    obtain hempty | hchunk := h.resolve_left (not_not_intro hentered)
    · refine ⟨1, _, ⟨[], [], ti.firstPiece x⟩, ?_, rfl⟩
      rw [traceChunks, if_neg (by omega)]
    · obtain ⟨s, hs⟩ := exists_allocateChunks ti chunk x (calls x.2) hchunk (x.1.size + 1) 0 0
        le_rfl ⟨ti.firstPiece x, fun _ => false⟩ (by omega)
      rw [allocateChunks_eq_trace, Option.map_eq_some_iff] at hs
      obtain ⟨t, ht, -⟩ := hs
      exact ⟨x.1.size + 1 + 1, _, t, ht, rfl⟩
  · by_cases hpresent : Present calls x
    · exact ⟨0, _, if_pos hpresent⟩
    · have hfails : (calls x.2).openFails = true := by
        by_contra hopened
        exact hentered ⟨hpresent, eq_false_of_ne_true hopened⟩
      exact ⟨0, _, by rw [traceFile, if_neg hpresent, if_pos hfails]⟩

theorem writeRest_chunks (t : Trace) : (writeRest ti x t).chunks = t.chunks := by
  unfold writeRest
  split <;> rfl

theorem writeRest_within (t : Trace) (hindex : (ti.firstPiece x : ℤ) ≤ t.fileDownloadIndex)
    (h : Within (ti.firstPiece x) (ti.lastPiece x) t.written) :
    Within (ti.firstPiece x) (ti.lastPiece x) (writeRest ti x t).written := by
  unfold writeRest
  split
  · exact within_append _ _ _ _ h (within_cons _ _ _ [] hindex le_rfl (within_nil _ _))
  · exact h

/-- A file whose loop is not entered asks for nothing and writes at most its pieces. -/
theorem traceFile_of_not_entered (hentered : ¬ Entered x calls) (fuel : ℕ) (t : Trace)
    (h : traceFile ti chunk x calls fuel = some t) :
    t.chunks = [] ∧ Within (ti.firstPiece x) (ti.lastPiece x) t.written := by
  unfold traceFile at h
  split at h
  · obtain rfl := Option.some.inj h
    exact ⟨rfl, within_cons _ _ _ [] le_rfl le_rfl (within_nil _ _)⟩
  · next habsent =>
    split at h
    · obtain rfl := Option.some.inj h
      exact ⟨rfl, within_nil _ _⟩
    · next hopened => exact absurd ⟨habsent, eq_false_of_ne_true hopened⟩ hentered

theorem allocates_traceFile_iff : Allocates ti x calls (traceFile ti chunk x calls) ↔
    ¬ Entered x calls ∨ x.1.size = 0 ∨ 0 < chunk := by
  constructor
  · intro h
    by_contra hfails
    obtain ⟨hentered, hsize, hchunk⟩ : Entered x calls ∧ ¬ x.1.size = 0 ∧ ¬ 0 < chunk := by
      simpa only [not_or, not_not] using hfails
    obtain ⟨fuel, t, ht⟩ := h.ends
    rw [traceFile_diverges ti chunk x calls hentered (by omega) (by omega) fuel] at ht
    contradiction
  · intro h
    by_cases hentered : Entered x calls
    · have hrun : ∀ fuel t, traceFile ti chunk x calls fuel = some t →
          ∃ loop, LoopSpec ti x (calls x.2) 0 0 (ti.firstPiece x) loop ∧
            writeRest ti x loop = t := by
        intro fuel t ht
        rw [traceFile_of_entered ti chunk x calls hentered, Option.map_eq_some_iff] at ht
        obtain ⟨loop, hloop, hrest⟩ := ht
        have hchunk := (h.resolve_left (not_not_intro hentered)).symm
        exact ⟨loop, traceChunks_file ti chunk x calls hchunk fuel loop hloop, hrest⟩
      refine ⟨exists_traceFile ti chunk x calls h, ?_, ?_, ?_⟩
      · intro fuel t ht c hc
        obtain ⟨loop, hspec, rfl⟩ := hrun fuel t ht
        obtain ⟨high, hadjoin, -⟩ := hspec.adjoin
        rw [writeRest_chunks] at hc
        exact hadjoin.positive c hc
      · intro _ fuel t ht
        obtain ⟨loop, hspec, rfl⟩ := hrun fuel t ht
        obtain ⟨high, hadjoin, hhigh, hend⟩ := hspec.adjoin
        rw [writeRest_chunks]
        simp only [Nat.zero_add] at hend
        exact ⟨high, hhigh, hadjoin.tiles, hend⟩
      · intro fuel t ht
        obtain ⟨loop, hspec, rfl⟩ := hrun fuel t ht
        exact writeRest_within ti x loop hspec.index_le hspec.within
    · have hrun := traceFile_of_not_entered ti chunk x calls hentered
      refine ⟨exists_traceFile ti chunk x calls h, ?_, fun h' => absurd h' hentered, ?_⟩
      · intro fuel t ht c hc
        rw [(hrun fuel t ht).1] at hc
        contradiction
      · exact fun fuel t ht => (hrun fuel t ht).2

/-- With any `dynamic_allocate` that the command line takes, in either class, a file is
gone through as it should be exactly when its loop has nothing to do or the length of
a chunk fits. -/
theorem allocates_iff (dynamicAllocate : ℤ) :
    (Allocates ti x calls
        (Downloader.preAllocateFile ti x calls (dynamicAllocateOption dynamicAllocate).2) ↔
      ¬ Entered x calls ∨ x.1.size = 0 ∨ Fits ti (dynamicAllocateOption dynamicAllocate).2) ∧
    (Allocates ti x calls
        (GroupTask.preAllocateFile ti x calls (dynamicAllocateOption dynamicAllocate).2) ↔
      ¬ Entered x calls ∨ x.1.size = 0 ∨ Fits ti (dynamicAllocateOption dynamicAllocate).2) := by
  rw [← eachLength_pos_iff]
  constructor
  · exact allocates_traceFile_iff ti _ x calls
  · exact allocates_traceFile_iff ti _ x calls

section Samples

/-- Pieces of 16 MiB and one byte. -/
def largePieces : TorrentInfo where
  files := [⟨1, false, 1⟩]
  pieceLength := 2 ^ 24
  pieceLength_pos := by decide

theorem large_pieces_not_allocated : ¬ ∀ dynamicAllocate : ℤ,
    (dynamicAllocateOption dynamicAllocate).1 = none →
      Allocates largePieces (⟨1, false, 1⟩, 0) freshCalls
        (Downloader.preAllocateFile largePieces (⟨1, false, 1⟩, 0) freshCalls
          (dynamicAllocateOption dynamicAllocate).2) := by
  intro h
  -- 128 pieces of 16 MiB are 2 ^ 31 bytes, an `int` below zero
  obtain ⟨fuel, t, ht⟩ := (h 128 (by decide)).ends
  have hentered : Entered (⟨1, false, 1⟩, 0) freshCalls := ⟨by simp [Present, freshCalls], rfl⟩
  have hchunk : eachLength largePieces 128 ≤ 0 := by decide
  have hnone := traceFile_diverges largePieces (eachLength largePieces 128) (⟨1, false, 1⟩, 0)
    freshCalls hentered hchunk (Nat.one_pos) fuel
  exact Option.some_ne_none t (ht.symm.trans hnone)

end Samples

end Files
end Gingko.ChunkTilings
