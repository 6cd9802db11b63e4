import Gingko.Base64Codec
import Gingko.GuardedRuns
import Gingko.Interleavings

/-!
Hashing the pieces of a torrent with several threads. Each thread goes over all
pieces and claims those whose bit is not set. The lock around test and set locks no
mutex, so the test, the load and the store of the byte that holds the bit are steps
of their own, and a store puts back what was loaded for the other bits of its byte.
-/
namespace Gingko.PieceHashes

open Base64Codec GuardedRuns Interleavings

structure FileSlice where
  fileIndex : ℕ
  offset : ℕ
  size : ℕ
  deriving DecidableEq

/-- The files of a torrent in order. `mapBlock` lists the slices of a piece. -/
structure FileStorage where
  files : List ByteString
  pieceLength : ℕ
  mapBlock : ℕ → List FileSlice

namespace FileStorage

def numPieces (fs : FileStorage) : ℕ :=
  (fs.files.flatten.length + fs.pieceLength - 1) / fs.pieceLength

def pieceBytes (fs : FileStorage) (i : ℕ) : ByteString :=
  (fs.files.flatten.drop (i * fs.pieceLength)).take fs.pieceLength

def pieceSize (fs : FileStorage) (i : ℕ) : ℕ := (fs.pieceBytes i).length

/-- What a slice reads of its file, which is less than its size past the end. -/
def sliceBytes (fs : FileStorage) (slice : FileSlice) : ByteString :=
  ((fs.files.getD slice.fileIndex []).drop slice.offset).take slice.size

end FileStorage

/-- Where a thread is, with the piece it is at. `load` and `store` are the two halves
of setting the bit. -/
inductive Place where
  | loop (i : ℕ)
  | test (i : ℕ)
  | load (i : ℕ)
  | store (i : ℕ) (loaded : ℕ → Bool)
  | read (i : ℕ) (slices : List FileSlice) (ptr : ℕ)
  | hash (i : ℕ)
  | fail (i : ℕ)
  | ended

structure Worker where
  place : Place
  buffer : ByteString

/-- `claims` counts the threads that have found the bit of a piece not set. -/
structure Shared (H : Type) where
  piecesCompleted : ℕ → Bool
  haveError : Bool
  hashes : ℕ → Option H
  claims : ℕ → ℕ

def Shared.start {H : Type} : Shared H := ⟨fun _ => false, false, fun _ => none, fun _ => 0⟩

def sameByte (i j : ℕ) : Bool := i / 8 = j / 8

def storeBit (i : ℕ) (loaded bits : ℕ → Bool) (j : ℕ) : Bool :=
  if sameByte i j then (if j = i then true else loaded j) else bits j

def overwrite (buffer : ByteString) (ptr : ℕ) (bytes : ByteString) : ByteString :=
  buffer.take ptr ++ bytes ++ buffer.drop (ptr + bytes.length)

def setHash {H : Type} (i : ℕ) (hash : H) (sh : Shared H) : Shared H :=
  { sh with hashes := Function.update sh.hashes i (some hash) }

section Steps

variable {H : Type} (fs : FileStorage) (sha1 : ByteString → H)

/-- One round of the loop over the slices; `ok` says that the file could be read. -/
def readSlice (ok : Bool) (i : ℕ) (slices : List FileSlice) (ptr : ℕ) (sh : Shared H)
    (w : Worker) : Worker :=
  match slices with
  | [] => { w with place := .hash i }
  | slice :: rest =>
    if sh.haveError then { w with place := .hash i }
    else
      let bytes := fs.sliceBytes slice
      if ok && bytes.length == slice.size then
        ⟨.read i rest (ptr + slice.size), overwrite w.buffer ptr bytes⟩
      else { w with place := .fail i }

def workerStep (ok : Bool) (sh : Shared H) (w : Worker) : Option (Shared H × Worker) :=
  match w.place with
  | .loop i =>
    if i < fs.numPieces ∧ sh.haveError = false then some (sh, { w with place := .test i })
    else some (sh, { w with place := .ended })
  | .test i =>
    if sh.piecesCompleted i then some (sh, { w with place := .loop (i + 1) })
    else some ({ sh with claims := Function.update sh.claims i (sh.claims i + 1) },
      { w with place := .load i })
  | .load i => some (sh, { w with place := .store i sh.piecesCompleted })
  | .store i loaded =>
    some ({ sh with piecesCompleted := storeBit i loaded sh.piecesCompleted },
      { w with place := .read i (fs.mapBlock i) 0 })
  | .read i slices ptr => some (sh, readSlice fs ok i slices ptr sh w)
  | .hash i =>
    some (setHash i (sha1 (w.buffer.take (fs.pieceSize i))) sh, { w with place := .loop (i + 1) })
  | .fail _ => some ({ sh with haveError := true }, { w with place := .ended })
  | .ended => none

variable {T : Type} [DecidableEq T]

abbrev State (T H : Type) := System T (Shared H) Worker

def State.start (buffer : ByteString) : State T H := ⟨Shared.start, fun _ => ⟨.loop 0, buffer⟩⟩

def step (s : State T H) (e : T × Bool) : Option (State T H) :=
  (workerStep fs sha1 e.2 s.shared (s.threads e.1)).map (s.act e.1)

end Steps

section Results

variable {T H : Type} (fs : FileStorage) (sha1 : ByteString → H)

/-- `SetPieceHashes` returns true: without pieces at once, else when all threads
have been joined and none has failed. -/
def ReturnsTrue (s : State T H) : Prop :=
  fs.numPieces = 0 ∨ ((∀ t, ∃ buffer, s.threads t = ⟨.ended, buffer⟩) ∧ s.shared.haveError = false)

/-- The hashes that hashing the pieces one after the other stores. -/
def HashedSerially (s : State T H) : Prop :=
  ∀ i, i < fs.numPieces → s.shared.hashes i = some (sha1 (fs.pieceBytes i))

def ClaimedOnce (s : State T H) : Prop := ∀ i, i < fs.numPieces → s.shared.claims i = 1

/-- The slices of each piece are there and make up its bytes. -/
def ListsSlices : Prop :=
  ∀ i, i < fs.numPieces → (fs.mapBlock i).flatMap fs.sliceBytes = fs.pieceBytes i

end Results
end Gingko.PieceHashes
