import Gingko.PieceHashes
import Mathlib.Data.Fintype.Defs

/-!
What a run of the hashing threads amounts to. While there is no error, every piece
that some thread has passed is claimed, and a claimed piece has its hash or a thread
that works on it, whatever is lost in the bit field. That no piece is claimed twice
needs the threads to stay apart between test and store.
-/
namespace Gingko.PieceClaims

open Base64Codec GuardedRuns Interleavings PieceHashes

/-- The pieces below are claimed, as far as this thread has seen. -/
def reached (fs : FileStorage) : Place → ℕ
  | .loop i | .test i => i
  | .load i | .store i _ | .read i _ _ | .hash i | .fail i => i + 1
  | .ended => fs.numPieces

def claimed : Place → Option ℕ
  | .load i | .store i _ | .read i _ _ | .hash i | .fail i => some i
  | _ => none

/-- The piece whose bit a thread has found not set and has not stored yet. -/
def setting : Place → Option ℕ
  | .load i | .store i _ => some i
  | _ => none

def testing : Place → Option ℕ
  | .test i => some i
  | _ => none

theorem testing_eq_some_iff (place : Place) (i : ℕ) :
    testing place = some i ↔ place = .test i := by
  cases place <;> simp [testing]

section Workers

variable {H : Type} (fs : FileStorage) (sha1 : ByteString → H)

inductive WorkerCase (ok : Bool) (sh : Shared H) (w : Worker) : Shared H × Worker → Prop
  | enter (i : ℕ) (hplace : w.place = .loop i) (hi : i < fs.numPieces) :
      WorkerCase ok sh w (sh, { w with place := .test i })
  | leave (i : ℕ) (hplace : w.place = .loop i)
      (hstop : ¬ (i < fs.numPieces ∧ sh.haveError = false)) :
      WorkerCase ok sh w (sh, { w with place := .ended })
  | skip (i : ℕ) (hplace : w.place = .test i) (hbit : sh.piecesCompleted i = true) :
      WorkerCase ok sh w (sh, { w with place := .loop (i + 1) })
  | claim (i : ℕ) (hplace : w.place = .test i) (hbit : sh.piecesCompleted i = false) :
      WorkerCase ok sh w ({ sh with claims := Function.update sh.claims i (sh.claims i + 1) },
        { w with place := .load i })
  | load (i : ℕ) (hplace : w.place = .load i) :
      WorkerCase ok sh w (sh, { w with place := .store i sh.piecesCompleted })
  | store (i : ℕ) (loaded : ℕ → Bool) (hplace : w.place = .store i loaded) :
      WorkerCase ok sh w ({ sh with piecesCompleted := storeBit i loaded sh.piecesCompleted },
        { w with place := .read i (fs.mapBlock i) 0 })
  | slice (i : ℕ) (slices : List FileSlice) (ptr : ℕ) (hplace : w.place = .read i slices ptr) :
      WorkerCase ok sh w (sh, readSlice fs ok i slices ptr sh w)
  | hash (i : ℕ) (hplace : w.place = .hash i) :
      WorkerCase ok sh w (setHash i (sha1 (w.buffer.take (fs.pieceSize i))) sh,
        { w with place := .loop (i + 1) })
  | fail (i : ℕ) (hplace : w.place = .fail i) :
      WorkerCase ok sh w ({ sh with haveError := true }, { w with place := .ended })

theorem workerStep_cases (ok : Bool) (sh : Shared H) (w : Worker) (moved : Shared H × Worker)
    (h : workerStep fs sha1 ok sh w = some moved) : WorkerCase fs sha1 ok sh w moved := by
  unfold workerStep at h
  cases hplace : w.place with
  | loop i =>
    simp only [hplace] at h
    by_cases hgo : i < fs.numPieces ∧ sh.haveError = false
    · rw [if_pos hgo] at h
      exact Option.some.inj h ▸ .enter i hplace hgo.1
    · rw [if_neg hgo] at h
      exact Option.some.inj h ▸ .leave i hplace hgo
  | test i =>
    simp only [hplace] at h
    cases hbit : sh.piecesCompleted i with
    | true =>
      rw [if_pos hbit] at h
      exact Option.some.inj h ▸ .skip i hplace hbit
    | false =>
      simp only [hbit, Bool.false_eq_true, if_false] at h
      exact Option.some.inj h ▸ .claim i hplace hbit
  | load i =>
    simp only [hplace] at h
    exact Option.some.inj h ▸ .load i hplace
  | store i loaded =>
    simp only [hplace] at h
    exact Option.some.inj h ▸ .store i loaded hplace
  | read i slices ptr =>
    simp only [hplace] at h
    exact Option.some.inj h ▸ .slice i slices ptr hplace
  | hash i =>
    simp only [hplace] at h
    exact Option.some.inj h ▸ .hash i hplace
  | fail i =>
    simp only [hplace] at h
    exact Option.some.inj h ▸ .fail i hplace
  | ended => simp [hplace] at h

/-- What the buffer of a thread holds of the piece it reads. -/
def BufferOk (w : Worker) : Prop :=
  match w.place with
  | .read i slices ptr => ∃ done : ByteString, done.length = ptr ∧ w.buffer.take ptr = done ∧
      done ++ slices.flatMap fs.sliceBytes = fs.pieceBytes i
  | .hash i => w.buffer.take (fs.pieceSize i) = fs.pieceBytes i
  | _ => True

/-- Every bit a thread has loaded belongs to a claimed piece. -/
def LoadedOk (claims : ℕ → ℕ) : Place → Prop
  | .store _ loaded => ∀ j, loaded j = true → 1 ≤ claims j
  | _ => True

structure WorkerOk (claims : ℕ → ℕ) (w : Worker) : Prop where
  begun : ∀ j, j < reached fs w.place → 1 ≤ claims j
  inside : ∀ i, w.place = .test i ∨ claimed w.place = some i → i < fs.numPieces
  buffer : BufferOk fs w
  loaded : LoadedOk claims w.place

theorem LoadedOk.mono {claims claims' : ℕ → ℕ} {place : Place} (h : LoadedOk claims place)
    (hle : ∀ j, claims j ≤ claims' j) : LoadedOk claims' place := by
  cases place with
  | store i loaded => exact fun j hj => le_trans (h j hj) (hle j)
  | _ => trivial

theorem WorkerOk.mono {claims claims' : ℕ → ℕ} {w : Worker} (h : WorkerOk fs claims w)
    (hle : ∀ j, claims j ≤ claims' j) : WorkerOk fs claims' w :=
  ⟨fun j hj => le_trans (h.begun j hj) (hle j), h.inside, h.buffer, h.loaded.mono hle⟩

/-- Reading one more slice into the buffer. -/
theorem overwrite_take (buffer done bytes : ByteString) (ptr : ℕ) (hlength : done.length = ptr)
    (hdone : buffer.take ptr = done) :
    (overwrite buffer ptr bytes).take (ptr + bytes.length) = done ++ bytes := by
  unfold overwrite
  rw [hdone, List.take_append_of_le_length (by rw [List.length_append]; omega)]
  rw [List.take_of_length_le (by rw [List.length_append]; omega)]

theorem bufferOk_readSlice (ok : Bool) (i : ℕ) (slices : List FileSlice) (ptr : ℕ) (sh : Shared H)
    (w : Worker) (hplace : w.place = .read i slices ptr) (hgoing : sh.haveError = false)
    (h : BufferOk fs w) : BufferOk fs (readSlice fs ok i slices ptr sh w) := by
  unfold BufferOk at h
  rw [hplace] at h
  obtain ⟨done, hlength, hdone, hpiece⟩ := h
  cases slices with
  | nil =>
    show w.buffer.take (fs.pieceSize i) = fs.pieceBytes i
    rw [List.flatMap_nil, List.append_nil] at hpiece
    rw [FileStorage.pieceSize, ← hpiece, hlength]
    exact hdone
  | cons slice rest =>
    simp only [readSlice, hgoing, Bool.false_eq_true, if_false]
    split
    · rename_i hread
      simp only [Bool.and_eq_true, beq_iff_eq] at hread
      have hsize := hread.2
      refine ⟨done ++ fs.sliceBytes slice, ?_, ?_, ?_⟩
      · rw [List.length_append, hlength, hsize]
      · rw [← hsize]
        exact overwrite_take w.buffer done (fs.sliceBytes slice) ptr hlength hdone
      · rw [List.append_assoc, ← List.flatMap_cons]
        exact hpiece
    · trivial

theorem readSlice_place (ok : Bool) (i : ℕ) (slices : List FileSlice) (ptr : ℕ) (sh : Shared H)
    (w : Worker) :
    claimed (readSlice fs ok i slices ptr sh w).place = some i ∧
      setting (readSlice fs ok i slices ptr sh w).place = none ∧
      reached fs (readSlice fs ok i slices ptr sh w).place = i + 1 ∧
      ∀ claims, LoadedOk claims (readSlice fs ok i slices ptr sh w).place := by
  cases slices with
  | nil => exact ⟨rfl, rfl, rfl, fun _ => trivial⟩
  | cons slice rest =>
    simp only [readSlice]
    split
    · exact ⟨rfl, rfl, rfl, fun _ => trivial⟩
    · split
      · exact ⟨rfl, rfl, rfl, fun _ => trivial⟩
      · exact ⟨rfl, rfl, rfl, fun _ => trivial⟩

/-- What a step of one thread does to the claims and the hashes, when no error is
there afterwards. -/
structure Advances (sh : Shared H) (w : Worker) (moved : Shared H × Worker) : Prop where
  claims : ∀ j, sh.claims j ≤ moved.1.claims j
  worker : WorkerOk fs moved.1.claims moved.2
  bits : ∀ j, moved.1.piecesCompleted j = true → 1 ≤ moved.1.claims j
  hashes : ∀ i, moved.1.hashes i = sh.hashes i ∨
    moved.1.hashes i = some (sha1 (fs.pieceBytes i))
  fresh : ∀ i, 1 ≤ moved.1.claims i → 1 ≤ sh.claims i ∨ claimed moved.2.place = some i
  finished : ∀ i, claimed w.place = some i →
    claimed moved.2.place = some i ∨ moved.1.hashes i = some (sha1 (fs.pieceBytes i))

/-- A step to another place that leaves the shared part alone. -/
theorem advances_place (sh : Shared H) (w moved : Worker) (hworker : WorkerOk fs sh.claims moved)
    (hbits : ∀ j, sh.piecesCompleted j = true → 1 ≤ sh.claims j)
    (hclaimed : claimed w.place = none ∨ claimed moved.place = claimed w.place) :
    Advances fs sha1 sh w (sh, moved) where
  claims _ := le_refl _
  worker := hworker
  bits := hbits
  hashes _ := Or.inl rfl
  fresh _ hi := Or.inl hi
  finished i hi := by
    rcases hclaimed with hnone | hsame
    · rw [hnone] at hi
      simp at hi
    · exact Or.inl (hsame.trans hi)

theorem claims_le_claim (claims : ℕ → ℕ) (i j : ℕ) :
    claims j ≤ Function.update claims i (claims i + 1) j := by
  by_cases hj : j = i
  · rw [hj, Function.update_self]
    omega
  · rw [Function.update_of_ne hj]

theorem advances_claim (sh : Shared H) (w : Worker) (i : ℕ) (hplace : w.place = .test i)
    (hworker : WorkerOk fs sh.claims w)
    (hbits : ∀ j, sh.piecesCompleted j = true → 1 ≤ sh.claims j) :
    Advances fs sha1 sh w ({ sh with claims := Function.update sh.claims i (sh.claims i + 1) },
      { w with place := .load i }) where
  claims := claims_le_claim sh.claims i
  worker := by
    have hbegun := hworker.begun
    rw [hplace] at hbegun
    refine ⟨?_, ?_, trivial, trivial⟩
    · intro j hj
      by_cases hlast : j = i
      · rw [hlast]
        simp
      · have hbefore : j < reached fs (.test i) := by
          simp only [reached] at hj ⊢
          omega
        exact le_trans (hbegun j hbefore) (claims_le_claim sh.claims i j)
    · intro j hj
      simp only [claimed, reduceCtorEq, Option.some.injEq, false_or] at hj
      exact hj ▸ hworker.inside i (Or.inl hplace)
  bits j hj := le_trans (hbits j hj) (claims_le_claim sh.claims i j)
  hashes _ := Or.inl rfl
  fresh j hj := by
    by_cases hlast : j = i
    · exact Or.inr (hlast ▸ rfl)
    · simp only [Function.update_of_ne hlast] at hj
      exact Or.inl hj
  finished j hj := by
    rw [hplace] at hj
    simp [claimed] at hj

/-- The bits that are put back belong to claimed pieces, too. -/
theorem advances_store (hslices : ListsSlices fs) (sh : Shared H) (w : Worker) (i : ℕ)
    (loaded : ℕ → Bool) (hplace : w.place = .store i loaded) (hworker : WorkerOk fs sh.claims w)
    (hbits : ∀ j, sh.piecesCompleted j = true → 1 ≤ sh.claims j) :
    Advances fs sha1 sh w ({ sh with piecesCompleted := storeBit i loaded sh.piecesCompleted },
      { w with place := .read i (fs.mapBlock i) 0 }) := by
  obtain ⟨hbegun, hinside, -, hloaded⟩ := hworker
  rw [hplace] at hbegun hinside hloaded
  have hi : i < fs.numPieces := hinside i (Or.inr rfl)
  refine ⟨fun _ => le_refl _, ⟨hbegun, ?_, ?_, trivial⟩, ?_, fun _ => Or.inl rfl,
    fun _ hj => Or.inl hj, ?_⟩
  · intro j hj
    exact hinside j (by simpa [claimed] using hj)
  · exact ⟨[], rfl, rfl, hslices i hi⟩
  · intro j hj
    simp only [storeBit] at hj
    split at hj
    · split at hj
      · rename_i heq
        exact heq ▸ hbegun i (by simp only [reached]; omega)
      · exact hloaded j hj
    · exact hbits j hj
  · intro j hj
    rw [hplace] at hj
    exact Or.inl hj

theorem advances_slice (ok : Bool) (sh : Shared H) (w : Worker) (i : ℕ) (slices : List FileSlice)
    (ptr : ℕ) (hplace : w.place = .read i slices ptr) (hworker : WorkerOk fs sh.claims w)
    (hbits : ∀ j, sh.piecesCompleted j = true → 1 ≤ sh.claims j)
    (hgoing : sh.haveError = false) :
    Advances fs sha1 sh w (sh, readSlice fs ok i slices ptr sh w) := by
  obtain ⟨hclaimed, -, hreached, hload⟩ := readSlice_place fs ok i slices ptr sh w
  obtain ⟨hbegun, hinside, hbuffer, -⟩ := hworker
  rw [hplace] at hbegun hinside
  apply advances_place fs sha1 sh w _ _ hbits (Or.inr (by rw [hclaimed, hplace]; rfl))
  refine ⟨?_, ?_, bufferOk_readSlice fs ok i slices ptr sh w hplace hgoing hbuffer, hload _⟩
  · intro j hj
    rw [hreached] at hj
    exact hbegun j hj
  · intro j hj
    rcases hj with htest | hj
    · rw [htest] at hclaimed
      simp [claimed] at hclaimed
    · rw [hclaimed] at hj
      exact hinside j (Or.inr hj)

/-- The buffer holds the whole piece when its hash is taken. -/
theorem advances_hash (sh : Shared H) (w : Worker) (i : ℕ) (hplace : w.place = .hash i)
    (hworker : WorkerOk fs sh.claims w)
    (hbits : ∀ j, sh.piecesCompleted j = true → 1 ≤ sh.claims j) :
    Advances fs sha1 sh w (setHash i (sha1 (w.buffer.take (fs.pieceSize i))) sh,
      { w with place := .loop (i + 1) }) := by
  obtain ⟨hbegun, -, hbuffer, -⟩ := hworker
  have hpiece : w.buffer.take (fs.pieceSize i) = fs.pieceBytes i := by
    unfold BufferOk at hbuffer
    rw [hplace] at hbuffer
    exact hbuffer
  rw [hplace] at hbegun
  rw [hpiece]
  refine ⟨fun _ => le_refl _, ⟨hbegun, ?_, trivial, trivial⟩, hbits, ?_,
    fun _ hj => Or.inl hj, ?_⟩
  · intro j hj
    simp [claimed] at hj
  · intro j
    by_cases hj : j = i
    · right
      rw [hj]
      simp [setHash]
    · left
      simp [setHash, hj]
  · intro j hj
    rw [hplace] at hj
    obtain rfl := Option.some.inj hj
    right
    simp [setHash]

theorem advances_step (hslices : ListsSlices fs) (ok : Bool) (sh : Shared H) (w : Worker)
    (moved : Shared H × Worker) (hworker : WorkerOk fs sh.claims w)
    (hbits : ∀ j, sh.piecesCompleted j = true → 1 ≤ sh.claims j)
    (hgoing : moved.1.haveError = false) (hstep : workerStep fs sha1 ok sh w = some moved) :
    Advances fs sha1 sh w moved := by
  have hbegun := hworker.begun
  have hinside := hworker.inside
  cases workerStep_cases fs sha1 ok sh w moved hstep with
  | enter i hplace hi =>
    rw [hplace] at hbegun
    apply advances_place fs sha1 sh w _ _ hbits (Or.inl (by rw [hplace]; rfl))
    refine ⟨hbegun, ?_, trivial, trivial⟩
    intro j hj
    simp only [claimed, Place.test.injEq, reduceCtorEq, or_false] at hj
    omega
  | leave i hplace hstop =>
    rw [hplace] at hbegun
    have hend : fs.numPieces ≤ i := by
      by_contra hlt
      exact hstop ⟨by omega, hgoing⟩
    apply advances_place fs sha1 sh w _ _ hbits (Or.inl (by rw [hplace]; rfl))
    refine ⟨fun j hj => hbegun j (lt_of_lt_of_le hj hend), ?_, trivial, trivial⟩
    intro j hj
    simp [claimed] at hj
  | skip i hplace hbit =>
    rw [hplace] at hbegun
    apply advances_place fs sha1 sh w _ _ hbits (Or.inl (by rw [hplace]; rfl))
    refine ⟨?_, ?_, trivial, trivial⟩
    · intro j hj
      by_cases hlast : j = i
      · exact hlast ▸ hbits i hbit
      · exact hbegun j (by simp only [reached] at hj ⊢; omega)
    · intro j hj
      simp [claimed] at hj
  | claim i hplace hbit => exact advances_claim fs sha1 sh w i hplace hworker hbits
  | load i hplace =>
    rw [hplace] at hbegun hinside
    apply advances_place fs sha1 sh w _ _ hbits (Or.inr (by rw [hplace]; rfl))
    refine ⟨hbegun, ?_, trivial, hbits⟩
    intro j hj
    exact hinside j (by simpa [claimed] using hj)
  | store i loaded hplace =>
    exact advances_store fs sha1 hslices sh w i loaded hplace hworker hbits
  | slice i slices ptr hplace =>
    exact advances_slice fs sha1 ok sh w i slices ptr hplace hworker hbits hgoing
  | hash i hplace => exact advances_hash fs sha1 sh w i hplace hworker hbits
  | fail i hplace => simp at hgoing

end Workers
section Runs

variable {T H : Type} (fs : FileStorage) (sha1 : ByteString → H)

structure Good (s : State T H) : Prop where
  workers : ∀ t, WorkerOk fs s.shared.claims (s.threads t)
  bits : ∀ j, s.shared.piecesCompleted j = true → 1 ≤ s.shared.claims j
  hashed : ∀ i, 1 ≤ s.shared.claims i →
    s.shared.hashes i = some (sha1 (fs.pieceBytes i)) ∨ ∃ t, claimed (s.threads t).place = some i

/-- A piece is claimed once, and then its bit is set or a thread is setting it. -/
structure Apart (s : State T H) : Prop where
  alone : ∀ t u i j, setting (s.threads t).place = some i → setting (s.threads u).place = some j →
    sameByte i j = true → t = u
  current : ∀ t i loaded, (s.threads t).place = .store i loaded →
    ∀ j, sameByte i j = true → loaded j = s.shared.piecesCompleted j
  counted : ∀ i, s.shared.claims i = 0 ∨ (s.shared.claims i = 1 ∧
    (s.shared.piecesCompleted i = true ∨ ∃ t, setting (s.threads t).place = some i))

variable {fs sha1}

theorem good_start (buffer : ByteString) : Good fs sha1 (State.start buffer : State T H) where
  workers _ := by
    refine ⟨?_, ?_, trivial, trivial⟩
    · intro j hj
      simp [State.start, reached] at hj
    · intro i hi
      simp [State.start, claimed] at hi
  bits j hj := by simp [State.start, Shared.start] at hj
  hashed i hi := by simp [State.start, Shared.start] at hi

theorem apart_start (buffer : ByteString) : Apart (State.start buffer : State T H) where
  alone t u i j ht := by simp [State.start, setting] at ht
  current t i loaded ht := by simp [State.start] at ht
  counted i := Or.inl rfl

theorem Good.claimed_of_ended {s : State T H} (h : Good fs sha1 s) (t : T) (buffer : ByteString)
    (hended : s.threads t = ⟨.ended, buffer⟩) (i : ℕ) (hi : i < fs.numPieces) :
    1 ≤ s.shared.claims i := by
  apply (h.workers t).begun
  rw [hended]
  exact hi

theorem Good.hashedSerially {s : State T H} [Nonempty T] (h : Good fs sha1 s)
    (hended : ∀ t, ∃ buffer, s.threads t = ⟨.ended, buffer⟩) : HashedSerially fs sha1 s := by
  intro i hi
  obtain ⟨buffer, hlast⟩ := hended (Classical.arbitrary T)
  rcases h.hashed i (h.claimed_of_ended _ buffer hlast i hi) with hhash | ⟨t, hclaimed⟩
  · exact hhash
  · obtain ⟨own, hown⟩ := hended t
    rw [hown] at hclaimed
    simp [claimed] at hclaimed

variable (fs sha1) [DecidableEq T]

/-- A bit is found not set only while no thread is setting a bit of the same byte. -/
def TestsAlone (s : State T H) (e : T × Bool) : Prop :=
  ∀ i, (s.threads e.1).place = .test i → s.shared.piecesCompleted i = false →
    ∀ u j, setting (s.threads u).place = some j → sameByte i j = false

instance [Fintype T] (s : State T H) (e : T × Bool) : Decidable (TestsAlone s e) :=
  decidable_of_iff (∀ i ∈ testing (s.threads e.1).place, s.shared.piecesCompleted i = false →
      ∀ u, ∀ j ∈ setting (s.threads u).place, sameByte i j = false)
    (by simp only [TestsAlone, Option.mem_def, testing_eq_some_iff])

variable {fs sha1}

theorem Good.act {s : State T H} (h : Good fs sha1 s) (t : T) (moved : Shared H × Worker)
    (hadvances : Advances fs sha1 s.shared (s.threads t) moved) : Good fs sha1 (s.act t moved) where
  workers := by
    apply System.forall_act s t moved (fun _ w => WorkerOk fs moved.1.claims w)
    · exact hadvances.worker
    · intro u _
      exact (h.workers u).mono fs hadvances.claims
  bits := hadvances.bits
  hashed := by
    intro i hi
    rcases hadvances.fresh i hi with hbefore | hclaimed
    · rcases h.hashed i hbefore with hhash | ⟨u, hu⟩
      · left
        rcases hadvances.hashes i with hsame | hright
        · exact hsame.trans hhash
        · exact hright
      · by_cases hut : u = t
        · subst hut
          rcases hadvances.finished i hu with hstill | hhash
          · refine Or.inr ⟨u, ?_⟩
            rw [System.act_self]
            exact hstill
          · exact Or.inl hhash
        · refine Or.inr ⟨u, ?_⟩
          rw [System.act_other s t u moved hut]
          exact hu
    · refine Or.inr ⟨t, ?_⟩
      rw [System.act_self]
      exact hclaimed

theorem haveError_mono (ok : Bool) (sh : Shared H) (w : Worker) (moved : Shared H × Worker)
    (hstep : workerStep fs sha1 ok sh w = some moved) (h : moved.1.haveError = false) :
    sh.haveError = false := by
  cases workerStep_cases fs sha1 ok sh w moved hstep with
  | fail i hplace => simp at h
  | _ => exact h

theorem step_good (hslices : ListsSlices fs) (s t : State T H) (e : T × Bool)
    (h : s.shared.haveError = false → Good fs sha1 s) (hstep : step fs sha1 s e = some t)
    (hgoing : t.shared.haveError = false) : Good fs sha1 t := by
  obtain ⟨moved, hmoved, rfl⟩ := Option.map_eq_some_iff.mp hstep
  have hgood := h (haveError_mono e.2 s.shared (s.threads e.1) moved hmoved hgoing)
  apply hgood.act e.1 moved
  exact advances_step fs sha1 hslices e.2 s.shared (s.threads e.1) moved (hgood.workers e.1)
    hgood.bits hgoing hmoved

theorem sameByte_self (i : ℕ) : sameByte i i = true := by simp [sameByte]

theorem sameByte_symm (i j : ℕ) (h : sameByte i j = true) : sameByte j i = true := by
  simp only [sameByte, decide_eq_true_eq] at h ⊢
  exact h.symm

/-- A step that neither claims a piece nor sets a bit, and starts no setting. -/
theorem Apart.act_same {s : State T H} (h : Apart s) (t : T) (moved : Shared H × Worker)
    (hclaims : moved.1.claims = s.shared.claims)
    (hbits : moved.1.piecesCompleted = s.shared.piecesCompleted)
    (hsetting : setting moved.2.place = setting (s.threads t).place)
    (hcurrent : ∀ i loaded, moved.2.place = .store i loaded →
      ∀ j, sameByte i j = true → loaded j = s.shared.piecesCompleted j) :
    Apart (s.act t moved) := by
  have hplaces (u : T) :
      setting ((s.act t moved).threads u).place = setting (s.threads u).place := by
    by_cases hu : u = t
    · rw [hu, System.act_self]
      exact hsetting
    · rw [System.act_other s t u moved hu]
  refine ⟨?_, ?_, ?_⟩
  · intro a b i j ha hb hsame
    rw [hplaces] at ha hb
    exact h.alone a b i j ha hb hsame
  · intro u i loaded hu j hsame
    rw [System.act_shared, hbits]
    by_cases hut : u = t
    · rw [hut, System.act_self] at hu
      exact hcurrent i loaded hu j hsame
    · rw [System.act_other s t u moved hut] at hu
      exact h.current u i loaded hu j hsame
  · intro i
    rw [System.act_shared, hclaims, hbits]
    rcases h.counted i with hzero | ⟨hone, hbit | ⟨u, hu⟩⟩
    · exact Or.inl hzero
    · exact Or.inr ⟨hone, Or.inl hbit⟩
    · exact Or.inr ⟨hone, Or.inr ⟨u, (hplaces u).trans hu⟩⟩

theorem Apart.act_claim {s : State T H} (h : Apart s) (t : T) (i : ℕ)
    (hplace : (s.threads t).place = .test i) (hbit : s.shared.piecesCompleted i = false)
    (hguard : ∀ u j, setting (s.threads u).place = some j → sameByte i j = false) :
    Apart (s.act t ({ s.shared with
        claims := Function.update s.shared.claims i (s.shared.claims i + 1) },
      { s.threads t with place := .load i })) := by
  have hnot (u : T) (j : ℕ) (hu : setting (s.threads u).place = some j) : u ≠ t := by
    intro hut
    rw [hut, hplace] at hu
    simp [setting] at hu
  have hclash (u : T) (j : ℕ) (hu : setting (s.threads u).place = some j)
      (hsame : sameByte i j = true) : False := by
    rw [hguard u j hu] at hsame
    simp at hsame
  refine ⟨?_, ?_, ?_⟩
  · intro a b j k ha hb hsame
    by_cases hat : a = t
    · by_cases hbt : b = t
      · rw [hat, hbt]
      · rw [hat, System.act_self] at ha
        rw [System.act_other s t b _ hbt] at hb
        obtain rfl := Option.some.inj ha
        exact (hclash b k hb hsame).elim
    · rw [System.act_other s t a _ hat] at ha
      by_cases hbt : b = t
      · rw [hbt, System.act_self] at hb
        obtain rfl := Option.some.inj hb
        exact (hclash a j ha (sameByte_symm j i hsame)).elim
      · rw [System.act_other s t b _ hbt] at hb
        exact h.alone a b j k ha hb hsame
  · intro u j loaded hu
    by_cases hut : u = t
    · rw [hut, System.act_self] at hu
      simp at hu
    · rw [System.act_other s t u _ hut] at hu
      exact h.current u j loaded hu
  · intro j
    by_cases hj : j = i
    · subst hj
      refine Or.inr ⟨?_, Or.inr ⟨t, by rw [System.act_self]; rfl⟩⟩
      rcases h.counted j with hzero | ⟨-, hset | ⟨u, hu⟩⟩
      · simp [hzero]
      · rw [hbit] at hset
        simp at hset
      · exact (hclash u j hu (sameByte_self j)).elim
    · simp only [System.act_shared, Function.update_of_ne hj]
      rcases h.counted j with hzero | ⟨hone, hset | ⟨u, hu⟩⟩
      · exact Or.inl hzero
      · exact Or.inr ⟨hone, Or.inl hset⟩
      · refine Or.inr ⟨hone, Or.inr ⟨u, ?_⟩⟩
        rw [System.act_other s t u _ (hnot u j hu)]
        exact hu

/-- With no other thread at the byte, a store changes one bit. -/
theorem Apart.act_store {s : State T H} (h : Apart s) (t : T) (i : ℕ) (loaded : ℕ → Bool)
    (slices : List FileSlice) (hplace : (s.threads t).place = .store i loaded) :
    Apart (s.act t ({ s.shared with
        piecesCompleted := storeBit i loaded s.shared.piecesCompleted },
      { s.threads t with place := .read i slices 0 })) := by
  have hsetting : setting (s.threads t).place = some i := by rw [hplace]; rfl
  have hbits (j : ℕ) : storeBit i loaded s.shared.piecesCompleted j =
      if j = i then true else s.shared.piecesCompleted j := by
    unfold storeBit
    cases hsame : sameByte i j with
    | true => simp [h.current t i loaded hplace j hsame]
    | false =>
      have hne : j ≠ i := by
        intro heq
        rw [heq, sameByte_self] at hsame
        simp at hsame
      simp [hne]
  refine ⟨?_, ?_, ?_⟩
  · intro a b j k ha hb hsame
    have hother (u : T) (l : ℕ) (hu : setting ((s.act t ({ s.shared with
        piecesCompleted := storeBit i loaded s.shared.piecesCompleted },
        { s.threads t with place := .read i slices 0 })).threads u).place = some l) :
        setting (s.threads u).place = some l := by
      by_cases hut : u = t
      · rw [hut, System.act_self] at hu
        simp [setting] at hu
      · rw [System.act_other s t u _ hut] at hu
        exact hu
    exact h.alone a b j k (hother a j ha) (hother b k hb) hsame
  · intro u j loaded' hu k hsame
    by_cases hut : u = t
    · rw [hut, System.act_self] at hu
      simp at hu
    · rw [System.act_other s t u _ hut] at hu
      have hk : k ≠ i := by
        intro hki
        have hself : setting (s.threads u).place = some j := by rw [hu]; rfl
        exact hut (h.alone u t j i hself hsetting (hki ▸ hsame))
      show loaded' k = storeBit i loaded s.shared.piecesCompleted k
      rw [hbits, if_neg hk]
      exact h.current u j loaded' hu k hsame
  · intro j
    simp only [System.act_shared, hbits]
    rcases h.counted j with hzero | ⟨hone, hset | ⟨u, hu⟩⟩
    · exact Or.inl hzero
    · exact Or.inr ⟨hone, Or.inl (by simp [hset])⟩
    · by_cases hut : u = t
      · rw [hut, hsetting] at hu
        exact Or.inr ⟨hone, Or.inl (by simp [Option.some.inj hu])⟩
      · refine Or.inr ⟨hone, Or.inr ⟨u, ?_⟩⟩
        rw [System.act_other s t u _ hut]
        exact hu

theorem step_apart (s t : State T H) (e : T × Bool) (h : Apart s) (hguard : TestsAlone s e)
    (hstep : step fs sha1 s e = some t) : Apart t := by
  obtain ⟨moved, hmoved, rfl⟩ := Option.map_eq_some_iff.mp hstep
  have hidle (sh : Shared H) (w : Worker) (hclaims : sh.claims = s.shared.claims)
      (hbits : sh.piecesCompleted = s.shared.piecesCompleted)
      (hbefore : setting (s.threads e.1).place = none) (hafter : setting w.place = none) :
      Apart (s.act e.1 (sh, w)) := by
    apply h.act_same e.1 (sh, w) hclaims hbits (hafter.trans hbefore.symm)
    intro i loaded hstore
    rw [hstore] at hafter
    simp [setting] at hafter
  cases workerStep_cases fs sha1 e.2 s.shared (s.threads e.1) moved hmoved with
  | enter i hplace hi => exact hidle _ _ rfl rfl (by rw [hplace]; rfl) rfl
  | leave i hplace hstop => exact hidle _ _ rfl rfl (by rw [hplace]; rfl) rfl
  | skip i hplace hbit => exact hidle _ _ rfl rfl (by rw [hplace]; rfl) rfl
  | claim i hplace hbit => exact h.act_claim e.1 i hplace hbit (hguard i hplace hbit)
  | load i hplace =>
    apply h.act_same e.1 _ rfl rfl
    · rw [hplace]
      rfl
    · intro j loaded hstore k hsame
      obtain ⟨-, rfl⟩ := Place.store.inj hstore
      rfl
  | store i loaded hplace => exact h.act_store e.1 i loaded (fs.mapBlock i) hplace
  | slice i slices ptr hplace =>
    obtain ⟨-, hsetting, -⟩ := readSlice_place fs e.2 i slices ptr s.shared (s.threads e.1)
    exact hidle _ _ rfl rfl (by rw [hplace]; rfl) hsetting
  | hash i hplace => exact hidle _ _ rfl rfl (by rw [hplace]; rfl) rfl
  | fail i hplace => exact hidle _ _ rfl rfl (by rw [hplace]; rfl) rfl

variable (fs sha1)

/-- The hashes are right in every run, however the threads meet at the bits. -/
theorem run_hashedSerially [Nonempty T] (guard : State T H → T × Bool → Prop)
    (hslices : ListsSlices fs) (buffer : ByteString) (es : List (T × Bool)) (s : State T H)
    (hrun : Path (step fs sha1) guard (State.start buffer) es s) (htrue : ReturnsTrue fs s) :
    HashedSerially fs sha1 s := by
  have hgood : s.shared.haveError = false → Good fs sha1 s := by
    apply hrun.invariant (fun s => s.shared.haveError = false → Good fs sha1 s)
    · intro s e t h _ hstep
      exact step_good hslices s t e h hstep
    · intro _
      exact good_start buffer
  rcases htrue with hnone | ⟨hended, hgoing⟩
  · intro i hi
    omega
  · exact (hgood hgoing).hashedSerially hended

/-- With no two threads between test and store at one byte, every piece is also
claimed by one thread only. -/
theorem run_claimedOnce [Nonempty T] (hslices : ListsSlices fs) (buffer : ByteString)
    (es : List (T × Bool)) (s : State T H)
    (hrun : Path (step fs sha1) TestsAlone (State.start buffer) es s)
    (htrue : ReturnsTrue fs s) : ClaimedOnce fs s ∧ HashedSerially fs sha1 s := by
  refine ⟨?_, run_hashedSerially fs sha1 _ hslices buffer es s hrun htrue⟩
  have hboth : Apart s ∧ (s.shared.haveError = false → Good fs sha1 s) := by
    apply hrun.invariant (fun s => Apart s ∧ (s.shared.haveError = false → Good fs sha1 s))
    · intro s e t h hguard hstep
      exact ⟨step_apart s t e h.1 hguard hstep, step_good hslices s t e h.2 hstep⟩
    · exact ⟨apart_start buffer, fun _ => good_start buffer⟩
  obtain ⟨hapart, hgood⟩ := hboth
  intro i hi
  rcases htrue with hnone | ⟨hended, hgoing⟩
  · omega
  · obtain ⟨own, hlast⟩ := hended (Classical.arbitrary T)
    have hsome := (hgood hgoing).claimed_of_ended _ own hlast i hi
    rcases hapart.counted i with hzero | ⟨hone, -⟩
    · omega
    · exact hone

end Runs

section Samples

/-- A file of one byte, in one piece. -/
def oneByte : FileStorage := ⟨[[7]], 1, fun i => [⟨0, i, 1⟩]⟩

/-- A file of two bytes, in two pieces whose bits share a byte. -/
def twoBytes : FileStorage := ⟨[[7, 8]], 1, fun i => [⟨0, i, 1⟩]⟩

theorem twoBytes_listsSlices : ListsSlices twoBytes := by
  intro i hi
  obtain rfl | rfl : i = 0 ∨ i = 1 := by
    simp only [twoBytes, FileStorage.numPieces] at hi
    change i < 2 at hi
    omega
  · rfl
  · rfl

/-- One thread stores the bit of the first piece, then the other one, which finds it set,
stores that of the second; they read and hash in turns. -/
def inTurns : List (Bool × Bool) :=
  List.replicate 4 (false, true) ++ List.replicate 6 (true, true) ++
    List.replicate 2 (false, true) ++ List.replicate 3 (true, true) ++
    List.replicate 4 (false, true) ++ [(true, true)]

theorem run_claimedOnce_inTurns : ∃ s, Path (step twoBytes id) TestsAlone (State.start [0])
    inTurns s ∧ s.shared.hashes 0 = some [7] ∧ s.shared.hashes 1 = some [8] ∧
      ClaimedOnce twoBytes s ∧ HashedSerially twoBytes id s := by
  have hsteps : ∃ s : State Bool ByteString, inTurns.foldlM
        (fun s e => if TestsAlone s e then step twoBytes id s e else none) (State.start [0]) =
          some s ∧ s.shared.hashes 0 = some [7] ∧ s.shared.hashes 1 = some [8] ∧
      s.threads false = ⟨.ended, [7]⟩ ∧ s.threads true = ⟨.ended, [8]⟩ ∧
      s.shared.haveError = false := ⟨_, rfl, rfl, rfl, rfl, rfl, rfl⟩
  obtain ⟨s, hfold, hfirst, hsecond, hfalse, htrue, hgoing⟩ := hsteps
  have hrun := path_of_checked_steps _ s _ hfold
  have hreturns : ReturnsTrue twoBytes s := by
    refine Or.inr ⟨?_, hgoing⟩
    intro t
    cases t
    · exact ⟨[7], hfalse⟩
    · exact ⟨[8], htrue⟩
  exact ⟨s, hrun, hfirst, hsecond,
    run_claimedOnce twoBytes id twoBytes_listsSlices [0] _ s hrun hreturns⟩

/-- Both threads test the bit of the only piece before either stores it. -/
def bothTest : List (Bool × Bool) :=
  List.replicate 2 (false, true) ++ List.replicate 2 (true, true) ++
    List.replicate 6 (false, true) ++ List.replicate 6 (true, true)

theorem piece_claimed_twice : ∃ s : State Bool ByteString,
    Path (step oneByte id) (fun _ _ => True) (State.start [0]) bothTest s ∧
      ReturnsTrue oneByte s ∧ s.shared.claims 0 = 2 ∧ ¬ ClaimedOnce oneByte s := by
  have hsteps : ∃ s : State Bool ByteString,
      bothTest.foldlM (step oneByte id) (State.start [0]) = some s ∧ s.shared.claims 0 = 2 ∧
        s.threads true = ⟨.ended, [7]⟩ ∧ s.threads false = ⟨.ended, [7]⟩ ∧
        s.shared.haveError = false := ⟨_, rfl, rfl, rfl, rfl, rfl⟩
  obtain ⟨s, hfold, htwice, htrue, hfalse, hgoing⟩ := hsteps
  refine ⟨s, path_of_steps _ s _ (fun _ _ _ => trivial) hfold, ?_, htwice, ?_⟩
  · refine Or.inr ⟨?_, hgoing⟩
    intro t
    cases t
    · exact ⟨[7], hfalse⟩
    · exact ⟨[7], htrue⟩
  · intro honce
    have hone := honce 0 (by simp [oneByte, FileStorage.numPieces])
    omega

end Samples
end Gingko.PieceClaims
