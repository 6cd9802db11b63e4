import Mathlib.Algebra.GroupWithZero.Nat
import Mathlib.Data.Int.Basic
import Mathlib.Data.List.Basic

/-!
A piece read from the files of a cluster. The slices of the piece are read one after
another into a buffer, a file by reads that may each give less than is asked, and a
pad file by zeros. What the cluster answers is free but for one thing: a read that
gives bytes gives those of the file, and stores no more than it was asked for.
-/
namespace Gingko.PieceReads

structure FileSlice where
  fileIndex : ℕ
  offset : ℕ
  size : ℕ

structure FileEntry where
  path : String
  padFile : Bool

section Cluster

def bytesFrom (content : ℕ → UInt8) (readpos size : ℕ) : List UInt8 :=
  (List.range size).map fun j => content (readpos + j)

@[simp]
theorem length_bytesFrom (content : ℕ → UInt8) (readpos size : ℕ) :
    (bytesFrom content readpos size).length = size := by
  rw [bytesFrom, List.length_map, List.length_range]

theorem bytesFrom_append (content : ℕ → UInt8) (readpos n size : ℕ) :
    bytesFrom content readpos n ++ bytesFrom content (readpos + n) size =
      bytesFrom content readpos (n + size) := by
  simp [bytesFrom, List.range_add, Nat.add_assoc, Function.comp_def]

/-- An answer to a read; what it stores may go beyond the bytes that it counts. -/
structure Pread (content : ℕ → UInt8) (readpos asked : ℕ) where
  numReadBytes : ℤ
  stored : List UInt8
  stored_le : stored.length ≤ asked
  reads : bytesFrom content readpos numReadBytes.toNat <+: stored

/-- The answers of a cluster, by the number of calls before. -/
structure Hdfs where
  bytes : String → ℕ → UInt8
  opens : ℕ → Bool
  pread : ℕ → ∀ (filename : String) (readpos asked : ℕ), Pread (bytes filename) readpos asked

theorem Pread.numReadBytes_le {content : ℕ → UInt8} {readpos asked : ℕ}
    (answer : Pread content readpos asked) : answer.numReadBytes ≤ asked := by
  have hreads := answer.reads.length_le
  have hstored := answer.stored_le
  rw [length_bytesFrom] at hreads
  omega

end Cluster

section Buffer

/-- The buffer with the place to write at, and all that was written so far, as places
and lengths. `openFiles` are the calls that opened what is not closed yet. -/
structure Machine where
  buffer : ℕ → UInt8
  ptr : ℕ
  writes : List (ℕ × ℕ)
  calls : ℕ
  openFiles : List ℕ
  errstr : String

def Machine.start (data : ℕ → UInt8) (errstr : String) : Machine := ⟨data, 0, [], 0, [], errstr⟩

def store (buffer : ℕ → UInt8) (p : ℕ) (bytes : List UInt8) (i : ℕ) : UInt8 :=
  if p ≤ i then (bytes[i - p]?).getD (buffer i) else buffer i

def Machine.put (m : Machine) (bytes : List UInt8) : Machine :=
  { m with
    buffer := store m.buffer m.ptr bytes
    writes := m.writes ++ [(m.ptr, bytes.length)] }

def Machine.advance (m : Machine) (n : ℕ) : Machine := { m with ptr := m.ptr + n }

def Machine.call (m : Machine) : Machine := { m with calls := m.calls + 1 }

def Machine.openFile (m : Machine) : Machine := { m.call with openFiles := m.calls :: m.openFiles }

def Machine.closeFile (m : Machine) (readFile : ℕ) : Machine :=
  { m with openFiles := m.openFiles.erase readFile }

def Machine.fail (m : Machine) (errstr : String) : Machine := { m with errstr := errstr }

theorem store_before (buffer : ℕ → UInt8) (p : ℕ) (bytes : List UInt8) (i : ℕ) (hi : i < p) :
    store buffer p bytes i = buffer i := if_neg (Nat.not_le.mpr hi)

theorem store_at (buffer : ℕ → UInt8) (p : ℕ) (bytes : List UInt8) (j : ℕ) (b : UInt8)
    (hj : bytes[j]? = some b) : store buffer p bytes (p + j) = b := by
  rw [store, if_pos (Nat.le_add_right p j), Nat.add_sub_cancel_left, hj, Option.getD_some]

end Buffer

section Loops

variable (fs : Hdfs) (fileAt : ℕ → FileEntry) (prefixPath : String)

/-- The loop over one file; `some` is a return out of it. -/
def readLoop (filename : String) (readFile readpos noReadSize : ℕ) (m : Machine) :
    Option ℤ × Machine :=
  if hmore : 0 < noReadSize then
    let answer := fs.pread m.calls filename readpos noReadSize
    let m := m.call.put answer.stored
    if herror : answer.numReadBytes < 0 then
      (some (-2), (m.closeFile readFile).fail ("read hdfs file failed: " ++ filename))
    else if hend : answer.numReadBytes = 0 then
      (some (-3), (m.closeFile readFile).fail ("file size too small: " ++ filename))
    else
      have : noReadSize - answer.numReadBytes.toNat < noReadSize :=
        Nat.sub_lt hmore (Int.pos_iff_toNat_pos.mp
          (Int.lt_iff_le_and_ne.mpr ⟨Int.not_lt.mp herror, Ne.symm hend⟩))
      readLoop filename readFile (readpos + answer.numReadBytes.toNat)
        (noReadSize - answer.numReadBytes.toNat) (m.advance answer.numReadBytes.toNat)
  else (none, m)
termination_by noReadSize
decreasing_by exact this

def FileSlice.filename (f : FileSlice) : String := prefixPath ++ "/" ++ (fileAt f.fileIndex).path

def getFileConetnsFromHdfs : List FileSlice → Machine → ℤ × Machine
  | [], m => (0, m)
  | f :: rest, m =>
    if (fileAt f.fileIndex).padFile then
      getFileConetnsFromHdfs rest ((m.put (List.replicate f.size 0)).advance f.size)
    else
      let filename := f.filename fileAt prefixPath
      if fs.opens m.calls then
        match readLoop fs filename m.calls f.offset f.size m.openFile with
        | (some retval, m) => (retval, m)
        | (none, m') => getFileConetnsFromHdfs rest (m'.closeFile m.calls)
      else (-1, m.call.fail ("Open hdfs file failed: " ++ filename))

/-- What the buffer ought to hold for a slice. -/
def FileSlice.content (f : FileSlice) : List UInt8 :=
  if (fileAt f.fileIndex).padFile then List.replicate f.size 0
  else bytesFrom (fs.bytes (f.filename fileAt prefixPath)) f.offset f.size

theorem FileSlice.length_content (f : FileSlice) :
    (f.content fs fileAt prefixPath).length = f.size := by
  unfold FileSlice.content
  split <;> simp

def Machine.WritesFrom (m m' : Machine) (size : ℕ) : Prop :=
  ∀ w ∈ m'.writes, w ∈ m.writes ∨ (m.ptr ≤ w.1 ∧ w.1 + w.2 ≤ m.ptr + size)

/-- A run has written `content` where the buffer stood, and moved behind it. -/
structure Machine.Holds (m m' : Machine) (content : List UInt8) : Prop where
  ptr : m'.ptr = m.ptr + content.length
  before : ∀ i < m.ptr, m'.buffer i = m.buffer i
  holds : ∀ (j : ℕ) (b : UInt8), content[j]? = some b → m'.buffer (m.ptr + j) = b

theorem Machine.Holds.append {m m' m'' : Machine} {front back : List UInt8}
    (hfront : m.Holds m' front) (hback : m'.Holds m'' back) : m.Holds m'' (front ++ back) where
  ptr := by
    rw [hback.ptr, hfront.ptr, List.length_append]
    omega
  before i hi := by
    rw [hback.before i (by have := hfront.ptr; omega), hfront.before i hi]
  holds j b hj := by
    have hptr := hfront.ptr
    by_cases hlt : j < front.length
    · rw [List.getElem?_append_left hlt] at hj
      rw [hback.before (m.ptr + j) (by omega)]
      exact hfront.holds j b hj
    · rw [List.getElem?_append_right (by omega)] at hj
      rw [← hback.holds (j - front.length) b hj]
      congr 1
      omega

theorem Machine.holds_put (m : Machine) (content stored : List UInt8)
    (hstored : content <+: stored) : m.Holds ((m.put stored).advance content.length) content where
  ptr := rfl
  before i hi := store_before m.buffer m.ptr stored i hi
  holds j b hj := by
    obtain ⟨tail, rfl⟩ := hstored
    have hlt := (List.getElem?_eq_some_iff.mp hj).1
    exact store_at m.buffer m.ptr _ j b (by rw [List.getElem?_append_left hlt, hj])

theorem Machine.writesFrom_put (m : Machine) (bytes : List UInt8) (size : ℕ)
    (hbytes : bytes.length ≤ size) : m.WritesFrom (m.put bytes) size := by
  intro w hw
  obtain hw | rfl := (List.mem_append.mp hw).imp_right List.mem_singleton.mp
  · exact .inl hw
  · exact .inr ⟨Nat.le_refl _, Nat.add_le_add_left hbytes _⟩

theorem Machine.WritesFrom.trans {m m' m'' : Machine} {size n rest : ℕ}
    (hfirst : m.WritesFrom m' size) (hptr : m'.ptr = m.ptr + n) (hsize : n + rest ≤ size)
    (hrest : m'.WritesFrom m'' rest) : m.WritesFrom m'' size := by
  intro w hw
  obtain hw | ⟨hlow, hhigh⟩ := hrest w hw
  · exact hfirst w hw
  · exact .inr ⟨by omega, by omega⟩

/-- What the loop over one file does to the buffer and the open files. -/
structure FileRead (content : ℕ → UInt8) (readFile readpos size : ℕ) (m : Machine)
    (out : Option ℤ × Machine) : Prop where
  inside : m.WritesFrom out.2 size
  returned : ∀ retval, out.1 = some retval →
    retval < 0 ∧ out.2.openFiles = m.openFiles.erase readFile
  finished : out.1 = none →
    out.2.openFiles = m.openFiles ∧ m.Holds out.2 (bytesFrom content readpos size)

theorem readLoop_spec (filename : String) (readFile readpos size : ℕ) (m : Machine) :
    FileRead (fs.bytes filename) readFile readpos size m
      (readLoop fs filename readFile readpos size m) := by
  induction size using Nat.strong_induction_on generalizing readpos m with
  | _ size ih =>
    rw [readLoop]
    split
    · next hmore =>
      simp only
      generalize fs.pread m.calls filename readpos size = answer
      have hput : m.WritesFrom (m.call.put answer.stored) size :=
        m.call.writesFrom_put answer.stored size answer.stored_le
      split
      · exact ⟨hput, by rintro _ ⟨⟩; exact ⟨by decide, rfl⟩, by rintro ⟨⟩⟩
      · next herror =>
        split
        · exact ⟨hput, by rintro _ ⟨⟩; exact ⟨by decide, rfl⟩, by rintro ⟨⟩⟩
        · next hend =>
          have hle := answer.numReadBytes_le
          have hrest := ih (size - answer.numReadBytes.toNat) (by omega)
            (readpos + answer.numReadBytes.toNat)
            ((m.call.put answer.stored).advance answer.numReadBytes.toNat)
          have hsum : answer.numReadBytes.toNat + (size - answer.numReadBytes.toNat) = size := by
            omega
          have hmoved : m.WritesFrom
              ((m.call.put answer.stored).advance answer.numReadBytes.toNat) size := hput
          refine ⟨hmoved.trans rfl (Nat.le_of_eq hsum) hrest.inside, hrest.returned,
            fun hnone => ?_⟩
          obtain ⟨hopen, hholds⟩ := hrest.finished hnone
          have hread := m.call.holds_put _ answer.stored answer.reads
          rw [length_bytesFrom] at hread
          have hboth := hread.append hholds
          rw [bytesFrom_append, hsum] at hboth
          exact ⟨hopen, hboth.ptr, hboth.before, hboth.holds⟩
    · next hdone =>
      obtain rfl : size = 0 := by omega
      refine ⟨fun w hw => .inl hw, by rintro _ ⟨⟩, fun _ => ⟨rfl, rfl, fun _ _ => rfl, ?_⟩⟩
      simp [bytesFrom]

/-- What the read of a piece does to the buffer and the open files. -/
structure PieceRead (slices : List FileSlice) (m : Machine) (out : ℤ × Machine) : Prop where
  inside : m.WritesFrom out.2 (slices.map FileSlice.size).sum
  closed : out.2.openFiles = m.openFiles
  filled : out.1 = 0 → m.Holds out.2 (slices.flatMap (FileSlice.content fs fileAt prefixPath))

/-- After a slice is in the buffer the rest of the piece follows it. -/
theorem PieceRead.cons {f : FileSlice} {rest : List FileSlice} {m m' : Machine}
    {out : ℤ × Machine} (hinside : m.WritesFrom m' f.size) (hopen : m'.openFiles = m.openFiles)
    (hholds : m.Holds m' (f.content fs fileAt prefixPath))
    (hrest : PieceRead fs fileAt prefixPath rest m' out) :
    PieceRead fs fileAt prefixPath (f :: rest) m out where
  inside := by
    have hptr := hholds.ptr
    rw [f.length_content] at hptr
    rw [List.map_cons, List.sum_cons]
    have hmore : m.WritesFrom m' (f.size + (rest.map FileSlice.size).sum) := fun w hw =>
      (hinside w hw).imp_right fun ⟨hlow, hhigh⟩ => ⟨hlow, by omega⟩
    exact hmore.trans hptr (Nat.le_refl _) hrest.inside
  closed := hrest.closed.trans hopen
  filled hzero := by
    rw [List.flatMap_cons]
    exact hholds.append (hrest.filled hzero)

theorem getFileConetnsFromHdfs_spec (slices : List FileSlice) (m : Machine) :
    PieceRead fs fileAt prefixPath slices m
      (getFileConetnsFromHdfs fs fileAt prefixPath slices m) := by
  induction slices generalizing m with
  | nil => exact ⟨fun w hw => .inl hw, rfl, fun _ => ⟨rfl, fun _ _ => rfl, by simp⟩⟩
  | cons f rest ih =>
    rw [getFileConetnsFromHdfs]
    split
    · next hpad =>
      have hcontent : f.content fs fileAt prefixPath = List.replicate f.size 0 := if_pos hpad
      have hzeros := m.holds_put (List.replicate f.size 0) _ List.prefix_rfl
      rw [List.length_replicate] at hzeros
      have hinside : m.WritesFrom ((m.put (List.replicate f.size 0)).advance f.size) f.size :=
        m.writesFrom_put _ f.size (Nat.le_of_eq List.length_replicate)
      exact .cons fs fileAt prefixPath hinside rfl (hcontent ▸ hzeros) (ih _)
    · next hfile =>
      have hcontent : f.content fs fileAt prefixPath =
        bytesFrom (fs.bytes (f.filename fileAt prefixPath)) f.offset f.size := if_neg hfile
      simp only
      split
      · have hread := readLoop_spec fs (f.filename fileAt prefixPath) m.calls f.offset f.size
          m.openFile
        have hmore (w : ℕ × ℕ) (hw : m.ptr ≤ w.1 ∧ w.1 + w.2 ≤ m.ptr + f.size) : m.ptr ≤ w.1 ∧
            w.1 + w.2 ≤ m.ptr + ((f :: rest).map FileSlice.size).sum := by
          rw [List.map_cons, List.sum_cons]
          omega
        split
        · next retval m' heq =>
          rw [heq] at hread
          obtain ⟨hneg, hclosed⟩ := hread.returned retval rfl
          refine ⟨fun w hw => (hread.inside w hw).imp_right (hmore w), ?_, ?_⟩
          · rw [hclosed]
            exact List.erase_cons_head m.calls m.openFiles
          · rintro rfl
            exact absurd hneg (by decide)
        · next m' heq =>
          rw [heq] at hread
          obtain ⟨hopen, hholds⟩ := hread.finished rfl
          have hinside : m.WritesFrom (m'.closeFile m.calls) f.size := hread.inside
          have hopen' : m'.openFiles = m.calls :: m.openFiles := hopen
          have hclosed : (m'.closeFile m.calls).openFiles = m.openFiles := by
            simp only [Machine.closeFile, hopen']
            exact List.erase_cons_head m.calls m.openFiles
          have hfilled : m.Holds (m'.closeFile m.calls) (f.content fs fileAt prefixPath) :=
            hcontent ▸ ⟨hholds.ptr, hholds.before, hholds.holds⟩
          exact .cons fs fileAt prefixPath hinside hclosed hfilled (ih _)
      · exact ⟨fun w hw => .inl hw, rfl, by rintro ⟨⟩⟩

/-- Whatever the cluster answers, the read of a piece ends, stays inside the piece, leaves
no file open, and reports success only with the bytes of all slices in the buffer. -/
theorem getFileConetnsFromHdfs_reads (slices : List FileSlice) (pieceSize : ℕ)
    (hsizes : (slices.map FileSlice.size).sum = pieceSize) (data : ℕ → UInt8) (errstr : String) :
    let out := getFileConetnsFromHdfs fs fileAt prefixPath slices (Machine.start data errstr)
    (∀ w ∈ out.2.writes, w.1 + w.2 ≤ pieceSize) ∧ out.2.openFiles = [] ∧
      (out.1 = 0 →
        bytesFrom out.2.buffer 0 pieceSize =
          slices.flatMap (FileSlice.content fs fileAt prefixPath)) := by
  have hspec := getFileConetnsFromHdfs_spec fs fileAt prefixPath slices (Machine.start data errstr)
  refine ⟨fun w hw => ?_, hspec.closed, fun hzero => ?_⟩
  · obtain hstart | ⟨-, hhigh⟩ := hspec.inside w hw
    · cases hstart
    · rw [hsizes] at hhigh
      exact Nat.le_trans hhigh (Nat.le_of_eq (Nat.zero_add pieceSize))
  · have hholds := hspec.filled hzero
    have hlength :
        (slices.flatMap (FileSlice.content fs fileAt prefixPath)).length = pieceSize := by
      rw [List.length_flatMap, ← hsizes]
      simp [FileSlice.length_content]
    apply List.ext_getElem
    · rw [length_bytesFrom, hlength]
    · intro j hj hj'
      have hbyte := hholds.holds j _ (List.getElem?_eq_getElem hj')
      simpa [bytesFrom, Machine.start] using hbyte

/-- A cluster whose files are zeros and whose reads give one byte. -/
def oneByteReads : Hdfs where
  bytes _ _ := 0
  opens _ := true
  pread _ _ _ asked := ⟨(min 1 asked : ℕ), List.replicate (min 1 asked) 0,
    by rw [List.length_replicate]; exact Nat.min_le_right 1 asked, by
      refine ⟨[], ?_⟩
      rw [List.append_nil]
      refine List.ext_getElem ?_ (by simp [bytesFrom])
      rw [length_bytesFrom, List.length_replicate, Int.toNat_natCast]⟩

theorem getFileConetnsFromHdfs_reads_oneByte :
    let out := getFileConetnsFromHdfs oneByteReads (fun _ => ⟨"part-0", false⟩) "/data"
      [⟨0, 3, 2⟩] (Machine.start (fun _ => 1) "")
    (∀ w ∈ out.2.writes, w.1 + w.2 ≤ 2) ∧ out.2.openFiles = [] ∧
      (out.1 = 0 →
        bytesFrom out.2.buffer 0 2 =
          [⟨0, 3, 2⟩].flatMap
            (FileSlice.content oneByteReads (fun _ => ⟨"part-0", false⟩) "/data")) :=
  getFileConetnsFromHdfs_reads oneByteReads (fun _ => ⟨"part-0", false⟩) "/data" [⟨0, 3, 2⟩] 2
    (by decide) (fun _ => 1) ""

end Loops
end Gingko.PieceReads
