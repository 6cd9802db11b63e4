import Mathlib.Algebra.BigOperators.Group.List.Basic
import Mathlib.Algebra.Ring.Int.Defs
import Mathlib.Data.Int.ConditionallyCompleteOrder
import Mathlib.Order.ConditionallyCompleteLattice.Basic
import Mathlib.Logic.Function.Basic
import Mathlib.Order.Basic
import Gingko.Base64Codec
import Gingko.GuardedRuns

/-!
The items of the status page. An update shows what was inserted since the one
before, next to a running total. A latency item skips the update when nothing
was inserted, so it goes on showing the count of an earlier cycle.
Counts are signed 64-bit integers, whose overflow is undefined; here they are
unbounded. Latencies are compared by a strict order, as floating-point numbers
are, and their sums and quotients are parameters.
-/
namespace Gingko.StatusItems

open Base64Codec GuardedRuns

/-- What the average of a cycle is computed with. -/
structure LatencyOps (L : Type) where
  zero : L
  add : L → L → L
  divide : L → ℤ → L

structure CountingItem where
  currentCountPerSecond : ℤ := 0
  currentCountPerCycle : ℤ := 0
  currentAccumulatedCount : ℤ := 0
  accumulatedCount : ℤ := 0

structure LatencyItem (L : Type) where
  currentCountPerSecond : ℤ := 0
  currentCountPerCycle : ℤ := 0
  currentAccumulatedCount : ℤ := 0
  currentMaxLatency : L
  currentAverageLatency : L
  currentMinLatency : L
  accumulatedCount : ℤ := 0
  accumulatedLatency : L
  maxLatency : L
  minLatency : L

inductive ItemType where
  | string
  | num
  | counting
  | latency
  deriving DecidableEq

/-- Items of the first two kinds are not touched by an update of all items. -/
inductive Item (L : Type) where
  | string
  | num
  | counting (item : CountingItem)
  | latency (item : LatencyItem L)

namespace CountingItem

def increaseCounting (item : CountingItem) (increasement : ℤ) : CountingItem :=
  { item with
    accumulatedCount := item.accumulatedCount + increasement
    currentAccumulatedCount := item.currentAccumulatedCount + increasement }

def update (item : CountingItem) (duration : ℤ) : CountingItem :=
  { item with
    currentCountPerCycle := item.accumulatedCount
    currentCountPerSecond := item.accumulatedCount.tdiv duration
    accumulatedCount := 0 }

end CountingItem

variable {L : Type} (ops : LatencyOps L)

namespace LatencyItem

def new : LatencyItem L where
  currentMaxLatency := ops.zero
  currentAverageLatency := ops.zero
  currentMinLatency := ops.zero
  accumulatedLatency := ops.zero
  maxLatency := ops.zero
  minLatency := ops.zero

def update (item : LatencyItem L) (duration : ℤ) : LatencyItem L :=
  if item.accumulatedCount = 0 then item
  else
    { item with
      currentCountPerCycle := item.accumulatedCount
      currentCountPerSecond := item.accumulatedCount.tdiv duration
      currentMaxLatency := item.maxLatency
      currentMinLatency := item.minLatency
      currentAverageLatency := ops.divide item.accumulatedLatency item.accumulatedCount
      accumulatedCount := 0
      accumulatedLatency := ops.zero }

end LatencyItem

abbrev ItemMap (L : Type) := ByteString → Option (Item L)

def newItem : ItemType → Item L
  | .string => .string
  | .num => .num
  | .counting => .counting {}
  | .latency => .latency (LatencyItem.new ops)

/-- Every operation reports whether it was carried out. -/
def registerItem (name : ByteString) (type : ItemType) (items : ItemMap L) : Bool × ItemMap L :=
  match items name with
  | some _ => (false, items)
  | none => (true, Function.update items name (some (newItem ops type)))

def increaseItemCounting (key : ByteString) (increasement : ℤ) (items : ItemMap L) :
    Bool × ItemMap L :=
  if increasement < 1 then (false, items)
  else
    match items key with
    | some (.counting item) =>
      (true, Function.update items key (some (.counting (item.increaseCounting increasement))))
    | _ => (false, items)

theorem registerItem_cases (name : ByteString) (type : ItemType) (items : ItemMap L) :
    registerItem ops name type items = (false, items) ∨
      registerItem ops name type items =
        (true, Function.update items name (some (newItem ops type))) := by
  unfold registerItem
  cases items name with
  | some old => exact Or.inl rfl
  | none => exact Or.inr rfl

theorem increaseItemCounting_cases (key : ByteString) (n : ℤ) (items : ItemMap L) :
    increaseItemCounting key n items = (false, items) ∨
      ∃ item, items key = some (.counting item) ∧ increaseItemCounting key n items =
        (true, Function.update items key (some (.counting (item.increaseCounting n)))) := by
  unfold increaseItemCounting
  split
  · exact Or.inl rfl
  · split
    · rename_i item hitem
      exact Or.inr ⟨item, hitem, rfl⟩
    · exact Or.inl rfl

variable [Preorder L] [DecidableLT L]

def LatencyItem.insertLatency (item : LatencyItem L) (latency : L) : LatencyItem L :=
  { item with
    maxLatency :=
      if item.accumulatedCount = 0 then latency
      else if item.maxLatency < latency then latency else item.maxLatency
    minLatency :=
      if item.accumulatedCount = 0 then latency
      else if latency < item.minLatency then latency else item.minLatency
    accumulatedLatency := ops.add item.accumulatedLatency latency
    accumulatedCount := item.accumulatedCount + 1
    currentAccumulatedCount := item.currentAccumulatedCount + 1 }

def insertLatency (key : ByteString) (latency : L) (items : ItemMap L) : Bool × ItemMap L :=
  match items key with
  | some (.latency item) =>
    (true, Function.update items key (some (.latency (item.insertLatency ops latency))))
  | _ => (false, items)

theorem insertLatency_cases (key : ByteString) (latency : L) (items : ItemMap L) :
    insertLatency ops key latency items = (false, items) ∨
      ∃ item, items key = some (.latency item) ∧ insertLatency ops key latency items =
        (true, Function.update items key (some (.latency (item.insertLatency ops latency)))) := by
  unfold insertLatency
  split
  · rename_i item hitem
    exact Or.inr ⟨item, hitem, rfl⟩
  · exact Or.inl rfl

def Item.update (duration : ℤ) : Item L → Item L
  | .counting item => .counting (item.update duration)
  | .latency item => .latency (item.update ops duration)
  | .string => .string
  | .num => .num

def updateItems (duration : ℤ) (items : ItemMap L) : ItemMap L :=
  fun key => (items key).map (Item.update ops duration)

/-- What was inserted under a name between two updates. -/
structure Cycle (L : Type) where
  counts : List ℤ := []
  latencies : List L := []

/-- The insertions since the last update, those of the cycle before it, and the
sum of the counts that the updates so far have shown. -/
structure Ledger (L : Type) where
  pending : Cycle L := {}
  last : Cycle L := {}
  reported : ℤ := 0

structure Watched (L : Type) where
  items : ItemMap L
  books : ByteString → Ledger L

def Watched.empty : Watched L := ⟨fun _ => none, fun _ => {}⟩

inductive StatusCall (L : Type) where
  | registerItem (name : ByteString) (type : ItemType)
  | increaseItemCounting (key : ByteString) (increasement : ℤ)
  | insertLatency (key : ByteString) (latency : L)
  | updateItems (duration : ℤ)

/-- The count per cycle that an item shows. -/
def Item.countPerCycle : Item L → ℤ
  | .counting item => item.currentCountPerCycle
  | .latency item => item.currentCountPerCycle
  | .string => 0
  | .num => 0

def Ledger.count (book : Ledger L) (n : ℤ) : Ledger L :=
  { book with pending := { book.pending with counts := book.pending.counts ++ [n] } }

def Ledger.insert (book : Ledger L) (latency : L) : Ledger L :=
  { book with pending := { book.pending with latencies := book.pending.latencies ++ [latency] } }

def Ledger.close (book : Ledger L) (shown : ℤ) : Ledger L :=
  { pending := {}, last := book.pending, reported := book.reported + shown }

/-- The books follow the calls that were carried out. -/
def Watched.follow (w : Watched L) (done : Bool × ItemMap L) (name : ByteString)
    (book : Ledger L) : Watched L :=
  ⟨done.2, if done.1 then Function.update w.books name book else w.books⟩

def next (w : Watched L) : StatusCall L → Watched L
  | .registerItem name type => w.follow (registerItem ops name type w.items) name {}
  | .increaseItemCounting key n =>
    w.follow (increaseItemCounting key n w.items) key ((w.books key).count n)
  | .insertLatency key latency =>
    w.follow (insertLatency ops key latency w.items) key ((w.books key).insert latency)
  | .updateItems duration =>
    let items := updateItems ops duration w.items
    ⟨items, fun key => (w.books key).close (((items key).map Item.countPerCycle).getD 0)⟩

/-- One of the values and none is above it; one of the values and none is below it. -/
structure Extremes (max min : L) (latencies : List L) : Prop where
  maxMem : max ∈ latencies
  maxLeast : ∀ latency ∈ latencies, ¬ max < latency
  minMem : min ∈ latencies
  minGreatest : ∀ latency ∈ latencies, ¬ latency < min

/-- What an item has gathered is what was inserted since the last update. -/
def Gathered (book : Ledger L) : Item L → Prop
  | .counting item => item.accumulatedCount = book.pending.counts.sum
  | .latency item => item.accumulatedCount = book.pending.latencies.length ∧
      (book.pending.latencies ≠ [] →
        Extremes item.maxLatency item.minLatency book.pending.latencies)
  | .string => True
  | .num => True

/-- What an item shows is what was inserted in the last cycle, and its total is
the sum of the counts shown so far and of the pending insertions. -/
def ShowsCycle (book : Ledger L) : Item L → Prop
  | .counting item => item.currentCountPerCycle = book.last.counts.sum ∧
      item.currentAccumulatedCount = book.reported + book.pending.counts.sum
  | .latency item => item.currentCountPerCycle = book.last.latencies.length ∧
      item.currentAccumulatedCount = book.reported + book.pending.latencies.length ∧
      (book.last.latencies ≠ [] →
        Extremes item.currentMaxLatency item.currentMinLatency book.last.latencies)
  | .string => True
  | .num => True

def AllGathered (w : Watched L) : Prop :=
  ∀ key item, w.items key = some item → Gathered (w.books key) item

def AllShown (w : Watched L) : Prop :=
  ∀ key item, w.items key = some item → ShowsCycle (w.books key) item

/-- An update finds no latency item that shows a count and has had no insertion
since its last update. -/
def NoneIdle (w : Watched L) : StatusCall L → Prop
  | .updateItems _ => ∀ key item, w.items key = some (.latency item) →
      item.accumulatedCount ≠ 0 ∨ item.currentCountPerCycle = 0
  | _ => True

/-- The item and the book that a call leaves under a name. -/
inductive EntryCase (w : Watched L) (key : ByteString) : StatusCall L → Item L → Ledger L → Prop
  | kept (call : StatusCall L) (item : Item L) (hitem : w.items key = some item)
      (hcall : ∀ duration, call ≠ .updateItems duration) :
      EntryCase w key call item (w.books key)
  | registered (type : ItemType) :
      EntryCase w key (.registerItem key type) (newItem ops type) {}
  | counted (n : ℤ) (item : CountingItem) (hitem : w.items key = some (.counting item)) :
      EntryCase w key (.increaseItemCounting key n) (.counting (item.increaseCounting n))
        ((w.books key).count n)
  | inserted (latency : L) (item : LatencyItem L) (hitem : w.items key = some (.latency item)) :
      EntryCase w key (.insertLatency key latency) (.latency (item.insertLatency ops latency))
        ((w.books key).insert latency)
  | updated (duration : ℤ) (item : Item L) (hitem : w.items key = some item) :
      EntryCase w key (.updateItems duration) (item.update ops duration)
        ((w.books key).close (item.update ops duration).countPerCycle)

/-- A call about one name leaves the other entries alone. -/
theorem entry_of_follow (w : Watched L) (call : StatusCall L) (done : Bool × ItemMap L)
    (name : ByteString) (book : Ledger L) (hcall : ∀ duration, call ≠ .updateItems duration)
    (hdone : done = (false, w.items) ∨
      ∃ new, done = (true, Function.update w.items name (some new)) ∧
        EntryCase ops w name call new book)
    (key : ByteString) (item : Item L) (h : (w.follow done name book).items key = some item) :
    EntryCase ops w key call item ((w.follow done name book).books key) := by
  rcases hdone with rfl | ⟨new, rfl, hname⟩
  · exact .kept call item h hcall
  · simp only [Watched.follow, if_true] at h ⊢
    by_cases hkey : key = name
    · subst hkey
      rw [Function.update_self] at h ⊢
      obtain rfl := Option.some.inj h
      exact hname
    · rw [Function.update_of_ne hkey] at h ⊢
      exact .kept call item h hcall

theorem next_entry (w : Watched L) (call : StatusCall L) (key : ByteString) (item : Item L)
    (h : (next ops w call).items key = some item) :
    EntryCase ops w key call item ((next ops w call).books key) := by
  cases call with
  | registerItem name type =>
    refine entry_of_follow ops w _ _ name {} (by simp) ?_ key item h
    exact (registerItem_cases ops name type w.items).imp_right
      (fun hdone => ⟨_, hdone, .registered type⟩)
  | increaseItemCounting name n =>
    refine entry_of_follow ops w _ _ name _ (by simp) ?_ key item h
    refine (increaseItemCounting_cases name n w.items).imp_right ?_
    rintro ⟨old, hold, hdone⟩
    exact ⟨_, hdone, .counted n old hold⟩
  | insertLatency name latency =>
    refine entry_of_follow ops w _ _ name _ (by simp) ?_ key item h
    refine (insertLatency_cases ops name latency w.items).imp_right ?_
    rintro ⟨old, hold, hdone⟩
    exact ⟨_, hdone, .inserted latency old hold⟩
  | updateItems duration =>
    simp only [next, updateItems] at h ⊢
    obtain ⟨old, hold, rfl⟩ := Option.map_eq_some_iff.mp h
    rw [hold]
    exact .updated duration old hold

omit [Preorder L] [DecidableLT L] in
/-- The value that none exceeds in a strict order, after one more value. -/
theorem furthest_append (exceeds : L → L → Prop) [DecidableRel exceeds]
    (hirrefl : ∀ a, ¬ exceeds a a) (htrans : ∀ a b c, exceeds a b → exceeds b c → exceeds a c)
    {best : L} {latencies : List L} (hmem : best ∈ latencies)
    (hbest : ∀ x ∈ latencies, ¬ exceeds best x) (latency : L) :
    (if exceeds best latency then latency else best) ∈ latencies ++ [latency] ∧
      ∀ x ∈ latencies ++ [latency], ¬ exceeds (if exceeds best latency then latency else best) x := by
  by_cases hnew : exceeds best latency
  · rw [if_pos hnew]
    refine ⟨by simp, ?_⟩
    intro x hx
    rcases List.mem_append.mp hx with hold | hlast
    · exact fun hafter => hbest x hold (htrans _ _ _ hnew hafter)
    · rw [List.mem_singleton.mp hlast]
      exact hirrefl latency
  · rw [if_neg hnew]
    refine ⟨List.mem_append_left _ hmem, ?_⟩
    intro x hx
    rcases List.mem_append.mp hx with hold | hlast
    · exact hbest x hold
    · rwa [List.mem_singleton.mp hlast]

/-- The running maximum and minimum after one more value. -/
theorem Extremes.insert {max min : L} {latencies : List L} (h : Extremes max min latencies)
    (latency : L) :
    Extremes (if max < latency then latency else max) (if latency < min then latency else min)
      (latencies ++ [latency]) := by
  obtain ⟨hmax, hleast⟩ := furthest_append (fun a b => a < b) lt_irrefl
    (fun _ _ _ hab hbc => lt_trans hab hbc) h.maxMem h.maxLeast latency
  obtain ⟨hmin, hgreatest⟩ := furthest_append (fun a b => b < a) lt_irrefl
    (fun _ _ _ hba hcb => lt_trans hcb hba) h.minMem h.minGreatest latency
  exact ⟨hmax, hleast, hmin, hgreatest⟩

/-- Every call keeps what the items have gathered in step with the books. -/
theorem allGathered_next (w : Watched L) (call : StatusCall L) (h : AllGathered w) :
    AllGathered (next ops w call) := by
  intro key item hitem
  have hcase := next_entry ops w call key item hitem
  generalize (next ops w call).books key = book at hcase ⊢
  cases hcase with
  | kept call item hold hcall => exact h key item hold
  | registered type =>
    cases type with
    | string => trivial
    | num => trivial
    | counting => rfl
    | latency => exact ⟨rfl, fun hne => absurd rfl hne⟩
  | counted n item hold =>
    have hcount : item.accumulatedCount = _ := h key _ hold
    simp only [Gathered, Ledger.count, CountingItem.increaseCounting, hcount, List.sum_append,
      List.sum_singleton]
  | inserted latency item hold =>
    obtain ⟨hcount, hextremes⟩ := h key _ hold
    refine ⟨?_, ?_⟩
    · simp [LatencyItem.insertLatency, Ledger.insert, hcount]
    · intro _
      simp only [LatencyItem.insertLatency, Ledger.insert]
      by_cases hempty : (w.books key).pending.latencies = []
      · have hzero : item.accumulatedCount = 0 := by simp [hcount, hempty]
        rw [if_pos hzero, if_pos hzero, hempty]
        exact ⟨by simp, by simp, by simp, by simp⟩
      · have hpos : item.accumulatedCount ≠ 0 := by simpa [hcount] using hempty
        rw [if_neg hpos, if_neg hpos]
        exact (hextremes hempty).insert latency
  | updated duration item hold =>
    cases item with
    | string => trivial
    | num => trivial
    | counting item => rfl
    | latency item =>
      have hgathered := h key _ hold
      refine ⟨?_, fun hne => absurd rfl hne⟩
      simp only [LatencyItem.update]
      split
      · assumption
      · rfl

omit [DecidableLT L] in
/-- What a latency item shows after an update. -/
theorem showsCycle_update (item : LatencyItem L) (book : Ledger L) (duration : ℤ)
    (hgathered : Gathered book (.latency item)) (hshown : ShowsCycle book (.latency item)) :
    ShowsCycle (book.close (item.update ops duration).currentCountPerCycle)
        (.latency (item.update ops duration)) ↔
      item.accumulatedCount ≠ 0 ∨ item.currentCountPerCycle = 0 := by
  obtain ⟨hcount, hextremes⟩ := hgathered
  obtain ⟨_, htotal, _⟩ := hshown
  by_cases hidle : item.accumulatedCount = 0
  · have hempty : book.pending.latencies = [] := by
      rw [hidle] at hcount
      simpa using hcount.symm
    have hkept : item.update ops duration = item := if_pos hidle
    rw [hkept]
    simp only [ShowsCycle, Ledger.close, hempty, htotal, hidle, List.length_nil, ne_eq,
      not_true_eq_false, false_or]
    constructor
    · intro h
      simpa using h.1
    · intro h
      simp [h]
  · have hupdated : (item.update ops duration).currentCountPerCycle = item.accumulatedCount := by
      rw [LatencyItem.update, if_neg hidle]
    have hnonempty : book.pending.latencies ≠ [] := by
      intro hempty
      rw [hempty] at hcount
      exact hidle hcount
    rw [hupdated]
    refine iff_of_true ?_ (Or.inl hidle)
    rw [LatencyItem.update, if_neg hidle]
    refine ⟨hcount, ?_, fun _ => hextremes hnonempty⟩
    simp only [Ledger.close, htotal, hcount, List.length_nil]
    omega

/-- An update that shows every item rightly has met no idle one. -/
theorem noneIdle_of_shown (w : Watched L) (call : StatusCall L) (hgathered : AllGathered w)
    (h : AllShown w) (hnext : AllShown (next ops w call)) : NoneIdle w call := by
  cases call with
  | registerItem name type => trivial
  | increaseItemCounting key n => trivial
  | insertLatency key latency => trivial
  | updateItems duration =>
    intro key item hitem
    have hupdated : (next ops w (.updateItems duration)).items key =
        some (.latency (item.update ops duration)) := by
      simp [next, updateItems, hitem, Item.update]
    have hshown := hnext key _ hupdated
    simp only [next, updateItems, hitem, Option.map_some, Item.update, Item.countPerCycle,
      Option.getD_some] at hshown
    exact (showsCycle_update ops item (w.books key) duration (hgathered key _ hitem)
      (h key _ hitem)).mp hshown

/-- Without an idle item every call keeps what is shown right. -/
theorem shown_of_noneIdle (w : Watched L) (call : StatusCall L) (hgathered : AllGathered w)
    (h : AllShown w) (hguard : NoneIdle w call) : AllShown (next ops w call) := by
  intro key item hitem
  have hcase := next_entry ops w call key item hitem
  generalize (next ops w call).books key = book at hcase ⊢
  cases hcase with
  | kept call item hold hcall => exact h key item hold
  | registered type =>
    cases type with
    | string => trivial
    | num => trivial
    | counting => exact ⟨rfl, rfl⟩
    | latency => exact ⟨rfl, rfl, fun hne => absurd rfl hne⟩
  | counted n item hold =>
    obtain ⟨hcycle, htotal⟩ := h key _ hold
    refine ⟨hcycle, ?_⟩
    simp only [CountingItem.increaseCounting, Ledger.count, htotal, List.sum_append,
      List.sum_singleton]
    omega
  | inserted latency item hold =>
    obtain ⟨hcycle, htotal, hextremes⟩ := h key _ hold
    refine ⟨hcycle, ?_, hextremes⟩
    simp only [LatencyItem.insertLatency, Ledger.insert, htotal, List.length_append,
      List.length_singleton]
    omega
  | updated duration item hold =>
    cases item with
    | string => trivial
    | num => trivial
    | counting item =>
      have hcount : item.accumulatedCount = _ := hgathered key _ hold
      obtain ⟨_, htotal⟩ := h key _ hold
      refine ⟨hcount, ?_⟩
      simp only [Item.update, Item.countPerCycle, CountingItem.update, Ledger.close, htotal,
        hcount, List.sum_nil, add_zero]
    | latency item =>
      exact (showsCycle_update ops item (w.books key) duration (hgathered key _ hold)
        (h key _ hold)).mpr (hguard key item hold)

theorem allShown_next_iff (w : Watched L) (call : StatusCall L) (hgathered : AllGathered w)
    (h : AllShown w) : AllShown (next ops w call) ↔ NoneIdle w call :=
  ⟨noneIdle_of_shown ops w call hgathered h, shown_of_noneIdle ops w call hgathered h⟩

/-- From a manager without items, everything is shown as it was inserted
throughout a run of calls precisely when no update finds an idle latency item
that still shows a count. -/
theorem shown_throughout_iff (calls : List (StatusCall L)) :
    Throughout (next ops) AllShown Watched.empty calls ↔
      Guarded (next ops) NoneIdle Watched.empty calls := by
  apply throughout_iff_guarded (next ops) NoneIdle AllGathered AllShown (allGathered_next ops)
    (fun w call hgathered h => allShown_next_iff ops w call hgathered h)
  · intro key item hitem
    simp [Watched.empty] at hitem
  · intro key item hitem
    simp [Watched.empty] at hitem

/-- The count of one insertion is shown for the cycle after it as well. -/
theorem idle_cycle_shown :
    ¬ ∀ calls : List (StatusCall ℤ),
      Throughout (next ⟨0, fun a b => a + b, fun sum count => sum / count⟩) AllShown
        Watched.empty calls := by
  intro h
  have hall := h [.registerItem [1] .latency, .insertLatency [1] 7, .updateItems 10,
    .updateItems 10]
  rw [throughout_iff] at hall
  have hshown := hall _ (List.prefix_refl _)
  have hitem := hshown [1] _ rfl
  have hcount : (1 : ℤ) = 0 := hitem.1
  contradiction

end Gingko.StatusItems
