import Mathlib.Data.Int.Order.Basic
import Gingko.AgentLimits

/-!
The store of metadata under calls of AddMetadata and GetMetaByInfohash. New
metadata pushes out the oldest as long as the size or the number is too large,
and every total is an int. The totals are the real ones as long as no sum that
the size test forms goes past the largest int; then no more is evicted than has
to be. A configured total near the largest int lets such a sum turn negative.
-/
namespace Gingko.MetaEvictions

open GuardedRuns Base64Codec AgentMessages AgentTasks AgentAdds AgentRequests AgentLimits

section Oldest

variable {α : Type*} (fits : List α → Prop) [DecidablePred fits]

/-- The oldest elements go until the rest fits. -/
def evict : List α → List α
  | [] => []
  | front :: rest => if fits (front :: rest) then front :: rest else evict rest

theorem evict_suffix (l : List α) : evict fits l <:+ l := by
  induction l with
  | nil => exact List.suffix_rfl
  | cons front rest ih =>
    rw [evict]
    split
    · exact List.suffix_rfl
    · exact ih.trans (List.suffix_cons front rest)

theorem evict_fits (l : List α) : evict fits l = [] ∨ fits (evict fits l) := by
  induction l with
  | nil => exact .inl rfl
  | cons front rest ih =>
    rw [evict]
    split
    · rename_i hfits
      exact .inr hfits
    · exact ih

/-- No more than needed: whatever fits is still there. -/
theorem suffix_evict (l kept : List α) (hkept : kept <:+ l) (hfits : fits kept) :
    kept <:+ evict fits l := by
  induction l with
  | nil => exact hkept
  | cons front rest ih =>
    rw [evict]
    split
    · exact hkept
    · rename_i hnot
      rcases List.suffix_cons_iff.mp hkept with rfl | hrest
      · exact absurd hfits hnot
      · exact ih hrest

end Oldest

/-- A length as the code reads it into an int. -/
def lengthOf (metadata : ByteString) : ℤ := (Int32.ofNat metadata.length).toInt

def totalOf : List MetadataEntry → ℤ
  | [] => 0
  | entry :: rest => lengthOf entry.metadata + totalOf rest

@[simp] theorem totalOf_append (l r : List MetadataEntry) :
    totalOf (l ++ r) = totalOf l + totalOf r := by
  induction l with
  | nil => simp [totalOf]
  | cons entry rest ih =>
    simp only [List.cons_append, totalOf, ih]
    omega

def Positive (metas : List MetadataEntry) : Prop := ∀ entry ∈ metas, 1 ≤ lengthOf entry.metadata

theorem Positive.suffix {l r : List MetadataEntry} (h : Positive l) (hr : r <:+ l) :
    Positive r := fun entry hmem => h entry (hr.subset hmem)

/-- Stored metadata is never empty, so the total bounds the number. -/
theorem Positive.length_le {metas : List MetadataEntry} (h : Positive metas) :
    metas.length ≤ totalOf metas := by
  induction metas with
  | nil => simp [totalOf]
  | cons entry rest ih =>
    have hentry := h entry (List.mem_cons_self ..)
    have hrest := ih (h.suffix (List.suffix_cons entry rest))
    simp only [List.length_cons, totalOf]
    omega

theorem Positive.totalOf_suffix_le {l r : List MetadataEntry} (h : Positive l) (hr : r <:+ l) :
    totalOf r ≤ totalOf l := by
  obtain ⟨gone, rfl⟩ := hr
  have hgone : Positive gone := fun entry hmem => h entry (List.mem_append_left r hmem)
  have hlength := hgone.length_le
  rw [totalOf_append]
  omega

section Cache

variable (conf : AgentConfigure)

/-- The configurations in question. -/
structure Configured : Prop where
  num : 1 ≤ conf.maxTotalMetaNum.toInt
  size_nonneg : 0 ≤ conf.maxTotalMetaSize.toInt
  size_lt : conf.maxTotalMetaSize.toInt * 1048576 < 2147483648

def limit : ℤ := conf.maxTotalMetaSize.toInt * 1048576

theorem Configured.toInt_limit (hconf : Configured conf) :
    (conf.maxTotalMetaSize * 1024 * 1024).toInt = limit conf := by
  obtain ⟨_, hnonneg, hlt⟩ := hconf
  exact toInt_bytes conf.maxTotalMetaSize (by omega) (by omega)

/-- The total is the real one and is within the limit. -/
structure Counted (metas : List MetadataEntry) (total : Int32) : Prop where
  total_eq : total.toInt = totalOf metas
  total_le : totalOf metas ≤ limit conf
  positive : Positive metas

theorem Counted.nonneg {conf : AgentConfigure} {metas : List MetadataEntry} {total : Int32}
    (h : Counted conf metas total) : 0 ≤ total.toInt := by
  have hlength := h.positive.length_le
  have htotal := h.total_eq
  omega

structure Kept (s : Agent) : Prop extends Counted conf s.metas s.currentMetasTotalSize where
  num_le : s.metas.length ≤ conf.maxTotalMetaNum.toInt

/-- The older metadata leaves room for so many more bytes and one more entry. -/
def LeavesRoom (length : ℤ) (metas : List MetadataEntry) : Prop :=
  length + totalOf metas ≤ limit conf ∧ metas.length + 1 ≤ conf.maxTotalMetaNum.toInt

instance (length : ℤ) : DecidablePred (LeavesRoom conf length) :=
  fun _ => inferInstanceAs (Decidable (_ ∧ _))

/-- Whatever the number of entries lets stay adds up to an int with the new metadata. -/
def NoOverflow (length : ℤ) (metas : List MetadataEntry) : Prop :=
  ∀ kept, kept <:+ metas → kept.length + 1 ≤ conf.maxTotalMetaNum.toInt →
    length + totalOf kept < 2147483648

/-- The number test of AddMetadata, where one more entry does not overflow. -/
theorem number_test (conf : AgentConfigure) (n : ℕ) (hn : n + 2 < 2147483648) :
    Int32.ofNat (n + 1) + 1 > conf.maxTotalMetaNum ↔ conf.maxTotalMetaNum.toInt < n + 2 := by
  have hone : (1 : Int32).toInt = 1 := rfl
  have hnumber : (Int32.ofNat (n + 1)).toInt = (n + 1 : ℕ) := Int32.toInt_ofNat_of_lt (by omega)
  rw [gt_iff_lt, Int32.lt_iff_toInt_lt, Int32.toInt_add, hone, hnumber,
    Int.bmod_eq_of_le (by omega) (by omega)]
  omega

section Tests

variable {conf : AgentConfigure} (hconf : Configured conf)
include hconf

theorem limit_lt : limit conf < 2147483647 := by
  obtain ⟨_, _, hlt⟩ := hconf
  unfold limit
  omega

/-- The size test of AddMetadata. -/
theorem size_test (length total : Int32) (hlength : 0 ≤ length.toInt) (htotal : 0 ≤ total.toInt) :
    length + total > conf.maxTotalMetaSize * 1024 * 1024 ↔
      limit conf < length.toInt + total.toInt ∧ length.toInt + total.toInt < 2147483648 := by
  have hlengthLt := length.toInt_lt
  have htotalLt := total.toInt_lt
  have hlow : 0 ≤ limit conf := by
    have hnonneg := hconf.size_nonneg
    unfold limit
    omega
  rw [gt_iff_lt, Int32.lt_iff_toInt_lt, hconf.toInt_limit, Int32.toInt_add]
  by_cases hsum : length.toInt + total.toInt < 2147483648
  · rw [Int.bmod_eq_of_le (by omega) (by omega)]
    exact ⟨fun h => ⟨h, hsum⟩, And.left⟩
  · have hwrapped : (length.toInt + total.toInt).bmod (2 ^ 32) =
        length.toInt + total.toInt - 4294967296 := by
      rw [← Int.sub_bmod_right, Int.bmod_eq_of_le (by omega) (by omega)]
      simp
    rw [hwrapped]
    omega

/-- The oldest entry goes, and its length comes off the total. -/
theorem Counted.tail {front : MetadataEntry} {rest : List MetadataEntry} {total : Int32}
    (h : Counted conf (front :: rest) total) :
    Counted conf rest (total - Int32.ofNat front.metadata.length) := by
  have hbound := limit_lt hconf
  have hfront := h.positive front (List.mem_cons_self ..)
  have hrest := h.positive.suffix (List.suffix_cons front rest)
  have hlength := hrest.length_le
  have htotal := h.total_eq
  have hle := h.total_le
  simp only [totalOf] at htotal hle
  refine ⟨?_, by omega, hrest⟩
  have hlengthOf : (Int32.ofNat front.metadata.length).toInt = lengthOf front.metadata := rfl
  rw [Int32.toInt_sub, hlengthOf, Int.bmod_eq_of_le (by omega) (by omega)]
  omega

/-- One turn of the loop, with both tests in integers. -/
theorem makeRoom_cons (length : Int32) (hlength : 0 ≤ length.toInt) (front : MetadataEntry)
    (rest : List MetadataEntry) (total : Int32) (h : Counted conf (front :: rest) total) :
    makeRoom conf length (front :: rest) total =
      if (limit conf < length.toInt + totalOf (front :: rest) ∧
          length.toInt + totalOf (front :: rest) < 2147483648) ∨
        conf.maxTotalMetaNum.toInt < rest.length + 2 then
        makeRoom conf length rest (total - Int32.ofNat front.metadata.length)
      else (front :: rest, total) := by
  have hnumber := h.positive.length_le
  have hle := h.total_le
  have hbound := limit_lt hconf
  have hsize := size_test hconf length total hlength h.nonneg
  have hnum := number_test conf rest.length (by simp only [List.length_cons] at hnumber; omega)
  rw [h.total_eq] at hsize
  simp only [makeRoom, hsize, hnum]

/-- The loop keeps the total right, whatever it evicts. -/
theorem makeRoom_counted (length : Int32) (hlength : 0 ≤ length.toInt)
    (metas : List MetadataEntry) (total : Int32) (h : Counted conf metas total) :
    Counted conf (makeRoom conf length metas total).1 (makeRoom conf length metas total).2 := by
  induction metas generalizing total with
  | nil => exact h
  | cons front rest ih =>
    rw [makeRoom_cons hconf length hlength front rest total h]
    split
    · exact ih _ (h.tail hconf)
    · exact h

/-- Without overflow the loop evicts what has to go and nothing else. -/
theorem makeRoom_evict (length : Int32) (hlength : 0 ≤ length.toInt)
    (metas : List MetadataEntry) (total : Int32) (h : Counted conf metas total)
    (hfree : NoOverflow conf length.toInt metas) :
    (makeRoom conf length metas total).1 = evict (LeavesRoom conf length.toInt) metas := by
  induction metas generalizing total with
  | nil => rfl
  | cons front rest ih =>
    have hrest : NoOverflow conf length.toInt rest :=
      fun kept hkept => hfree kept (hkept.trans (List.suffix_cons front rest))
    have hwhole := hfree (front :: rest) List.suffix_rfl
    rw [makeRoom_cons hconf length hlength front rest total h, evict]
    simp only [List.length_cons] at hwhole
    by_cases hroom : LeavesRoom conf length.toInt (front :: rest)
    · have hnot : ¬ ((limit conf < length.toInt + totalOf (front :: rest) ∧
          length.toInt + totalOf (front :: rest) < 2147483648) ∨
          conf.maxTotalMetaNum.toInt < rest.length + 2) := by
        obtain ⟨hsize, hnum⟩ := hroom
        simp only [List.length_cons] at hnum
        omega
      rw [if_neg hnot, if_pos hroom]
    · have hgo : (limit conf < length.toInt + totalOf (front :: rest) ∧
          length.toInt + totalOf (front :: rest) < 2147483648) ∨
          conf.maxTotalMetaNum.toInt < rest.length + 2 := by
        unfold LeavesRoom at hroom
        simp only [List.length_cons] at hroom
        omega
      rw [if_pos hgo, if_neg hroom]
      exact ih _ (h.tail hconf) hrest

/-- A sum that has turned negative makes the loop stop early. -/
theorem makeRoom_overflow (length : Int32) (hlength : 0 ≤ length.toInt)
    (metas : List MetadataEntry) (total : Int32) (h : Counted conf metas total)
    (kept : List MetadataEntry) (hkept : kept <:+ metas)
    (hnum : kept.length + 1 ≤ conf.maxTotalMetaNum.toInt)
    (hlarge : 2147483648 ≤ length.toInt + totalOf kept) :
    kept <:+ (makeRoom conf length metas total).1 := by
  induction metas generalizing total with
  | nil => exact hkept
  | cons front rest ih =>
    rw [makeRoom_cons hconf length hlength front rest total h]
    split
    · rename_i hgo
      rcases List.suffix_cons_iff.mp hkept with rfl | hrest
      · simp only [List.length_cons] at hnum
        omega
      · exact ih _ (h.tail hconf) hrest
    · exact hkept

end Tests

inductive Call where
  | addMetadata (message : Metadata)
  | getMetaByInfohash (infohash : ByteString)

def call (s : Agent) : Call → Agent
  | .addMetadata message => addMetadata conf message s
  | .getMetaByInfohash infohash => (getMetaByInfohash infohash s).2

def dataOf (message : Metadata) : ByteString := message.data.getD []

def entryOf (message : Metadata) : MetadataEntry := ⟨message.infohash.getD [], dataOf message⟩

/-- Neither empty nor larger than the whole store may be. -/
def Acceptable (message : Metadata) : Prop :=
  1 ≤ lengthOf (dataOf message) ∧ lengthOf (dataOf message) ≤ limit conf

/-- What a call does to the entries. Those evicted are older than all that stay, and
everything that leaves room for the new entry stays. -/
def Answered (s : Agent) : Call → Prop
  | .addMetadata message =>
    (¬ Acceptable conf message → addMetadata conf message s = s) ∧
      (Acceptable conf message → ∃ room, room <:+ s.metas ∧
        (addMetadata conf message s).metas = room ++ [entryOf message] ∧
        ∀ kept, kept <:+ s.metas → LeavesRoom conf (lengthOf (dataOf message)) kept →
          kept <:+ room)
  | .getMetaByInfohash infohash =>
    (getMetaByInfohash infohash s).2.metas =
      s.metas.eraseP (fun entry => decide (entry.infohash = infohash))

/-- No sum that the size test of the call forms goes past the largest int. -/
def SumsFit (s : Agent) : Call → Prop
  | .addMetadata message => Acceptable conf message →
    NoOverflow conf (lengthOf (dataOf message)) s.metas
  | .getMetaByInfohash _ => True

/-- The entry found is the first of its infohash, and only it goes. -/
theorem takeMeta_eq (infohash : ByteString) (metas : List MetadataEntry) :
    (takeMeta infohash metas = none ∧
      metas.eraseP (fun entry => decide (entry.infohash = infohash)) = metas) ∨
    ∃ entry ∈ metas, takeMeta infohash metas =
        some (entry, metas.eraseP (fun entry => decide (entry.infohash = infohash))) ∧
      totalOf metas = lengthOf entry.metadata +
        totalOf (metas.eraseP (fun entry => decide (entry.infohash = infohash))) := by
  induction metas with
  | nil => exact .inl ⟨rfl, rfl⟩
  | cons front rest ih =>
    by_cases hfound : front.infohash = infohash
    · exact .inr ⟨front, List.mem_cons_self .., by simp [takeMeta, hfound],
        by simp [hfound, totalOf]⟩
    · rcases ih with ⟨htake, hsame⟩ | ⟨entry, hmem, htake, htotal⟩
      · exact .inl ⟨by simp [takeMeta, hfound, htake], by simp [hfound, hsame]⟩
      · refine .inr ⟨entry, List.mem_cons_of_mem front hmem,
          by simp [takeMeta, hfound, htake], ?_⟩
        simp only [hfound, decide_false, List.eraseP_cons, cond_false, totalOf, htotal]
        omega

/-- A lookup keeps everything in order, also when it finds nothing. -/
theorem kept_getMetaByInfohash (hconf : Configured conf) (infohash : ByteString) (s : Agent)
    (h : Kept conf s) :
    Kept conf (getMetaByInfohash infohash s).2 ∧
      Answered conf s (.getMetaByInfohash infohash) := by
  simp only [getMetaByInfohash, Answered]
  rcases takeMeta_eq infohash s.metas with ⟨htake, hsame⟩ | ⟨entry, hmem, htake, htotal⟩
  · simp only [htake, hsame]
    exact ⟨h, trivial⟩
  · simp only [htake, and_true]
    have hsub := List.eraseP_sublist (p := fun entry => decide (entry.infohash = infohash))
      (l := s.metas)
    generalize s.metas.eraseP (fun entry => decide (entry.infohash = infohash)) = rest
      at htotal hsub
    have hpositive : Positive rest := fun e he => h.positive e (hsub.subset he)
    have hentry := h.positive entry hmem
    have hlength := hpositive.length_le
    have hbound := limit_lt hconf
    have hreal := h.total_eq
    have hsize := h.total_le
    have hnum := h.num_le
    have hfewer := hsub.length_le
    have hlengthOf : (Int32.ofNat entry.metadata.length).toInt = lengthOf entry.metadata := rfl
    refine ⟨⟨?_, ?_, hpositive⟩, ?_⟩
    · simp only [Int32.toInt_sub, hlengthOf]
      rw [Int.bmod_eq_of_le (by omega) (by omega)]
      omega
    · dsimp only
      omega
    · dsimp only
      omega

theorem refused_iff (hconf : Configured conf) (message : Metadata) :
    (Int32.ofNat (dataOf message).length < 1 ∨
      Int32.ofNat (dataOf message).length > conf.maxTotalMetaSize * 1024 * 1024) ↔
      ¬ Acceptable conf message := by
  have hone : (1 : Int32).toInt = 1 := rfl
  rw [gt_iff_lt, Int32.lt_iff_toInt_lt, Int32.lt_iff_toInt_lt, hconf.toInt_limit, hone]
  unfold Acceptable lengthOf
  omega

theorem addMetadata_refused (hconf : Configured conf) (message : Metadata) (s : Agent)
    (h : ¬ Acceptable conf message) : addMetadata conf message s = s :=
  if_pos ((refused_iff conf hconf message).mpr h)

/-- The new entry goes behind the room that the loop has made. -/
theorem addMetadata_accepted (hconf : Configured conf) (message : Metadata) (s : Agent)
    (h : Acceptable conf message) :
    addMetadata conf message s =
      let room := makeRoom conf (Int32.ofNat (dataOf message).length) s.metas
        s.currentMetasTotalSize
      { s with
        metas := room.1 ++ [entryOf message]
        currentMetasTotalSize := room.2 + Int32.ofNat (dataOf message).length } :=
  if_neg (fun hrefused => (refused_iff conf hconf message).mp hrefused h)

theorem totalOf_room (room : List MetadataEntry) (message : Metadata) :
    totalOf (room ++ [entryOf message]) = totalOf room + lengthOf (dataOf message) := by
  simp [totalOf, entryOf]

/-- Adding to a room that fits, or to an empty one. -/
theorem kept_append (hconf : Configured conf) (message : Metadata) (s : Agent)
    (haccept : Acceptable conf message) (room : List MetadataEntry × Int32)
    (hcounted : Counted conf room.1 room.2)
    (hroom : room.1 = [] ∨ LeavesRoom conf (lengthOf (dataOf message)) room.1) :
    Kept conf { s with
      metas := room.1 ++ [entryOf message]
      currentMetasTotalSize := room.2 + Int32.ofNat (dataOf message).length } := by
  have hbound := limit_lt hconf
  have hnum := hconf.num
  have htotal := hcounted.total_eq
  have hnonneg := hcounted.nonneg
  have hlengthOf : (Int32.ofNat (dataOf message).length).toInt = lengthOf (dataOf message) := rfl
  obtain ⟨hlow, hhigh⟩ := haccept
  have hsum : totalOf room.1 + lengthOf (dataOf message) ≤ limit conf ∧
      room.1.length + 1 ≤ conf.maxTotalMetaNum.toInt := by
    rcases hroom with hempty | ⟨hsize, hfewer⟩
    · rw [hempty]
      simp only [totalOf, List.length_nil]
      omega
    · omega
  refine ⟨⟨?_, ?_, ?_⟩, ?_⟩
  · simp only [Int32.toInt_add, hlengthOf, totalOf_room]
    rw [Int.bmod_eq_of_le (by omega) (by omega)]
    omega
  · rw [totalOf_room]
    exact hsum.1
  · intro entry hmem
    rcases List.mem_append.mp hmem with hold | hnew
    · exact hcounted.positive entry hold
    · rw [List.mem_singleton.mp hnew]
      exact hlow
  · rw [List.length_append]
    exact hsum.2

/-- A call whose sums fit keeps the store in order and evicts what has to go. -/
theorem kept_addMetadata (hconf : Configured conf) (message : Metadata) (s : Agent)
    (h : Kept conf s) (hfit : SumsFit conf s (.addMetadata message)) :
    Kept conf (addMetadata conf message s) ∧ Answered conf s (.addMetadata message) := by
  by_cases haccept : Acceptable conf message
  · have hnonneg : 0 ≤ (Int32.ofNat (dataOf message).length).toInt :=
      Int.le_trans (by decide) haccept.1
    have hroom := makeRoom_evict hconf _ hnonneg s.metas _ h.toCounted (hfit haccept)
    have hcounted := makeRoom_counted hconf _ hnonneg s.metas _ h.toCounted
    have hadded := addMetadata_accepted conf hconf message s haccept
    constructor
    · rw [hadded]
      apply kept_append conf hconf message s haccept _ hcounted
      rw [hroom]
      exact evict_fits _ s.metas
    · refine ⟨fun hnot => absurd haccept hnot, fun _ => ⟨_, ?_, by rw [hadded], ?_⟩⟩
      · rw [hroom]
        exact evict_suffix _ s.metas
      · intro kept hkept hfits
        rw [hroom]
        exact suffix_evict _ s.metas kept hkept hfits
  · have hsame := addMetadata_refused conf hconf message s haccept
    exact ⟨hsame.symm ▸ h, fun _ => hsame, fun hacc => absurd hacc haccept⟩

/-- A call whose sums do not fit leaves more than the limit in the store. -/
theorem sumsFit_of_kept (hconf : Configured conf) (message : Metadata) (s : Agent)
    (h : Kept conf s) (hnext : Kept conf (addMetadata conf message s)) :
    SumsFit conf s (.addMetadata message) := by
  intro haccept kept hkept hnum
  by_contra hlarge
  have hbound := limit_lt hconf
  have hnonneg : 0 ≤ (Int32.ofNat (dataOf message).length).toInt :=
    Int.le_trans (by decide) haccept.1
  have hstays := makeRoom_overflow hconf _ hnonneg s.metas _ h.toCounted kept hkept hnum
    (Int.not_lt.mp hlarge)
  have hcounted := makeRoom_counted hconf _ hnonneg s.metas _ h.toCounted
  have hmore := hcounted.positive.totalOf_suffix_le hstays
  have hsize := hnext.total_le
  rw [addMetadata_accepted conf hconf message s haccept] at hsize
  simp only [totalOf_room] at hsize
  omega

theorem kept_call (hconf : Configured conf) (s : Agent) (c : Call) (h : Kept conf s) :
    Kept conf (call conf s c) ↔ SumsFit conf s c := by
  cases c with
  | addMetadata message =>
    exact ⟨sumsFit_of_kept conf hconf message s h,
      fun hfit => (kept_addMetadata conf hconf message s h hfit).1⟩
  | getMetaByInfohash infohash =>
    exact iff_of_true (kept_getMetaByInfohash conf hconf infohash s h).1 trivial

theorem answered_of_sumsFit (hconf : Configured conf) (s : Agent) (c : Call) (h : Kept conf s)
    (hfit : SumsFit conf s c) : Answered conf s c := by
  cases c with
  | addMetadata message => exact (kept_addMetadata conf hconf message s h hfit).2
  | getMetaByInfohash infohash => exact (kept_getMetaByInfohash conf hconf infohash s h).2

theorem kept_empty (hconf : Configured conf) (s : Agent) (hmetas : s.metas = [])
    (htotal : s.currentMetasTotalSize = 0) : Kept conf s := by
  have hnum := hconf.num
  have hnonneg := hconf.size_nonneg
  have hzero : (0 : Int32).toInt = 0 := rfl
  refine ⟨⟨?_, ?_, ?_⟩, ?_⟩
  · rw [hmetas, htotal, hzero]
    rfl
  · rw [hmetas]
    simp only [totalOf, limit]
    omega
  · simp [hmetas, Positive]
  · rw [hmetas]
    simp only [List.length_nil]
    omega

theorem run_kept_iff (hconf : Configured conf) (s : Agent) (hmetas : s.metas = [])
    (htotal : s.currentMetasTotalSize = 0) (calls : List Call) :
    (Throughout (call conf) (Kept conf) s calls ∧ Guarded (call conf) (Answered conf) s calls) ↔
      Guarded (call conf) (SumsFit conf) s calls := by
  have hempty := kept_empty conf hconf s hmetas htotal
  have hthroughout := throughout_iff_guarded (call conf) (SumsFit conf) (fun _ => True)
    (Kept conf) (fun _ _ h => h) (fun s c _ => kept_call conf hconf s c) s calls trivial hempty
  constructor
  · intro hboth
    exact hthroughout.mp hboth.1
  · intro hfit
    refine ⟨hthroughout.mpr hfit, ?_⟩
    apply guarded_change (call conf) (SumsFit conf) (Answered conf) (Kept conf) _ s calls hempty
      hfit
    intro s c hkept hc
    exact ⟨answered_of_sumsFit conf hconf s c hkept hc, (kept_call conf hconf s c hkept).mpr hc⟩

/-- Every store has a total of at least nothing. -/
theorem nonneg_of_kept (s : Agent) (h : Kept conf s) : 0 ≤ conf.maxTotalMetaSize.toInt := by
  have hlength := h.positive.length_le
  have hsize := h.total_le
  unfold limit at hsize
  omega

/-- The store is in order after every call, and every call is answered as it should be,
exactly when the sums of all calls fit. -/
theorem metas_kept_iff (hnum : 1 ≤ conf.maxTotalMetaNum.toInt)
    (hsize : conf.maxTotalMetaSize.toInt * 1048576 < 2147483648) (s : Agent)
    (hmetas : s.metas = []) (htotal : s.currentMetasTotalSize = 0) (calls : List Call) :
    (Throughout (call conf) (Kept conf) s calls ∧ Guarded (call conf) (Answered conf) s calls) ↔
      0 ≤ conf.maxTotalMetaSize.toInt ∧ Guarded (call conf) (SumsFit conf) s calls := by
  constructor
  · intro hboth
    have hstart : Kept conf s := (throughout_iff _ _ s calls).mp hboth.1 [] List.nil_prefix
    have hnonneg := nonneg_of_kept conf s hstart
    exact ⟨hnonneg, (run_kept_iff conf ⟨hnum, hnonneg, hsize⟩ s hmetas htotal calls).mp hboth⟩
  · rintro ⟨hnonneg, hfit⟩
    exact (run_kept_iff conf ⟨hnum, hnonneg, hsize⟩ s hmetas htotal calls).mpr hfit

/-- Below one gigabyte two sizes within the limit never overflow. -/
theorem sumsFit_of_small (hsmall : conf.maxTotalMetaSize.toInt < 1024)
    (s : Agent) (c : Call) (h : Kept conf s) : SumsFit conf s c := by
  cases c with
  | getMetaByInfohash infohash => trivial
  | addMetadata message =>
    intro haccept kept hkept _
    have hlength := haccept.2
    have hkeeps := h.positive.totalOf_suffix_le hkept
    have hsize := h.total_le
    unfold limit at hlength hsize
    omega

theorem guarded_of_small (hconf : Configured conf)
    (hsmall : conf.maxTotalMetaSize.toInt < 1024) (s : Agent) (hmetas : s.metas = [])
    (htotal : s.currentMetasTotalSize = 0) (calls : List Call) :
    Guarded (call conf) (SumsFit conf) s calls := by
  apply guarded_change (call conf) (fun _ _ => True) (SumsFit conf) (Kept conf) _ s calls
    (kept_empty conf hconf s hmetas htotal)
    (guarded_of_forall (call conf) (fun _ => True) s calls (fun _ _ => trivial))
  intro s c hkept _
  have hfit := sumsFit_of_small conf hsmall s c hkept
  exact ⟨hfit, (kept_call conf hconf s c hkept).mpr hfit⟩

end Cache

section Overflow

def largeConfigure : AgentConfigure := { plainConfigure with maxTotalMetaSize := 2047 }

def metadataOf (infohash : UInt8) (size : ℕ) : Metadata where
  infohash := some [infohash]
  data := some (List.replicate size 0)

def twoConfigure : AgentConfigure := { plainConfigure with maxTotalMetaNum := 2 }

/-- The third of three pushes out the first, then the fourth the second. -/
def fourAdded : List Call :=
  [.addMetadata (metadataOf 1 5), .addMetadata (metadataOf 2 7), .addMetadata (metadataOf 3 9),
    .getMetaByInfohash [1], .addMetadata (metadataOf 4 5)]

theorem metas_kept_iff_evicted :
    (final (call twoConfigure) startedAgent fourAdded).metas.map (fun entry => entry.infohash) =
        [[3], [4]] ∧
      Throughout (call twoConfigure) (Kept twoConfigure) startedAgent fourAdded ∧
      Guarded (call twoConfigure) (Answered twoConfigure) startedAgent fourAdded := by
  have hconf : Configured twoConfigure := ⟨by decide, by decide, by decide⟩
  refine ⟨rfl, ?_⟩
  apply (metas_kept_iff twoConfigure hconf.num hconf.size_lt startedAgent rfl rfl fourAdded).mpr
  exact ⟨hconf.size_nonneg,
    guarded_of_small twoConfigure hconf (by decide) startedAgent rfl rfl fourAdded⟩

/-- The second sum turns negative, so nothing is evicted; a lookup makes the total positive
again. -/
theorem overflow_total (s : Agent) (hmetas : s.metas = []) (htotal : s.currentMetasTotalSize = 0)
    (a b c : ByteString) (ha : a.length = 1100000000) (hb : b.length = 1100000000)
    (hc : c.length = 1047483643) :
    (final (call largeConfigure) s
      [.addMetadata ⟨some [1], some a⟩, .addMetadata ⟨some [2], some b⟩,
        .addMetadata ⟨some [3], some c⟩, .getMetaByInfohash [1]]).currentMetasTotalSize =
      2147483643 := by
  simp [final, call, addMetadata, makeRoom, getMetaByInfohash, takeMeta, hmetas, htotal, ha, hb,
    hc, largeConfigure, plainConfigure]

theorem metas_limit_fails :
    ¬ ∀ (conf : AgentConfigure) (s : Agent) (calls : List Call), Configured conf →
      s.metas = [] → s.currentMetasTotalSize = 0 →
      (final (call conf) s calls).currentMetasTotalSize ≤ conf.maxTotalMetaSize * 1024 * 1024 := by
  intro hall
  have hle := hall largeConfigure startedAgent
    [.addMetadata (metadataOf 1 1100000000), .addMetadata (metadataOf 2 1100000000),
      .addMetadata (metadataOf 3 1047483643), .getMetaByInfohash [1]]
    ⟨by decide, by decide, by decide⟩ rfl rfl
  have htotal := overflow_total startedAgent rfl rfl (List.replicate 1100000000 0)
    (List.replicate 1100000000 0) (List.replicate 1047483643 0)
    List.length_replicate List.length_replicate List.length_replicate
  simp only [metadataOf, htotal] at hle
  exact absurd hle (by decide)

end Overflow

end Gingko.MetaEvictions
