import Mathlib.Data.List.ProdSigma
import Mathlib.Data.PNat.Notation
import Mathlib.Data.PNat.Defs
import Gingko.GuardedRuns
import Gingko.KeyedMaps

/-!
A pool of objects. Objects come from arrays of one size, the free ones are kept
in a list, and an object that is handed out is owned by a shared pointer whose
deleter puts it back into the list. An object is given by the number of its
array and its place in it.
-/
namespace Gingko.ObjectPools

open KeyedMaps GuardedRuns

abbrev Object := ℕ × ℕ

structure ObjectPool where
  nodes : List Object
  nodesPool : List ℕ

/-- The owners of an object share one count. -/
structure SharedPtr where
  object : Object
  useCount : ℕ

abbrev PtrId := ℕ

structure PoolWorld where
  pool : ObjectPool
  shared : Dict PtrId SharedPtr

inductive PoolEvent where
  | getOneObject (id : PtrId)
  | copy (id : PtrId)
  | drop (id : PtrId)

/-- The objects of one array, in the order in which they enter the free list. -/
def arrayObjects (array n : ℕ) : List Object := (List.range n).map (fun i => (array, i))

namespace ObjectPool

/-- The array that `new` returns is none of those that are in use. -/
def allocObjects (n : ℕ) (pool : ObjectPool) : ObjectPool where
  nodes := pool.nodes ++ arrayObjects pool.nodesPool.length n
  nodesPool := pool.nodesPool ++ [pool.nodesPool.length]

def new (allocSize : ℕ+) : ObjectPool := allocObjects allocSize ⟨[], []⟩

/-- The last node of an empty list is undefined. -/
def getOneObject (allocSize : ℕ+) (pool : ObjectPool) : Option (Object × ObjectPool) :=
  let filled := if pool.nodes.isEmpty then pool.allocObjects allocSize else pool
  filled.nodes.getLast?.map (fun obj => (obj, { filled with nodes := filled.nodes.dropLast }))

def putOneObject (object : Object) (pool : ObjectPool) : ObjectPool :=
  { pool with nodes := pool.nodes ++ [object] }

end ObjectPool

def PoolWorld.start (allocSize : ℕ+) : PoolWorld := ⟨.new allocSize, ∅⟩

/-- A pointer is copied or dropped while it has an owner; the last drop runs the deleter. -/
def step (allocSize : ℕ+) (w : PoolWorld) : PoolEvent → Option PoolWorld
  | .getOneObject id =>
    match w.shared.lookup id with
    | some _ => none
    | none => (w.pool.getOneObject allocSize).map
        (fun got => ⟨got.2, w.shared.insert id ⟨got.1, 1⟩⟩)
  | .copy id => (w.shared.lookup id).map
      (fun ptr => { w with shared := w.shared.insert id { ptr with useCount := ptr.useCount + 1 } })
  | .drop id => (w.shared.lookup id).map (fun ptr =>
      if ptr.useCount ≤ 1 then ⟨w.pool.putOneObject ptr.object, w.shared.erase id⟩
      else { w with shared := w.shared.insert id { ptr with useCount := ptr.useCount - 1 } })

/-- The objects that are handed out and not yet released. -/
def outstanding (shared : Dict PtrId SharedPtr) : List Object :=
  (Dict.values shared).map SharedPtr.object

/-- All objects of all arrays. -/
def allocated (allocSize : ℕ+) (pool : ObjectPool) : List Object :=
  pool.nodesPool.flatMap (fun array => arrayObjects array allocSize)

/-- Arrays are numbered in the order of allocation, and every object is in one
place: in the free list or with one shared pointer. -/
structure Accounted (allocSize : ℕ+) (w : PoolWorld) : Prop where
  numbered : w.pool.nodesPool = List.range w.pool.nodesPool.length
  partition : (w.pool.nodes ++ outstanding w.shared).Perm (allocated allocSize w.pool)

theorem arrayObjects_nodup (array n : ℕ) : (arrayObjects array n).Nodup := by
  apply List.Nodup.map
  · intro i j h
    exact (Prod.mk.inj h).2
  · exact List.nodup_range

theorem allocated_nodup (allocSize : ℕ+) (pool : ObjectPool)
    (h : pool.nodesPool = List.range pool.nodesPool.length) : (allocated allocSize pool).Nodup := by
  unfold allocated
  rw [h, List.nodup_flatMap]
  refine ⟨fun array _ => arrayObjects_nodup array allocSize, ?_⟩
  apply List.nodup_range.imp
  intro a b hne object ha hb
  obtain ⟨i, _, rfl⟩ := List.mem_map.mp ha
  obtain ⟨j, _, heq⟩ := List.mem_map.mp hb
  exact hne (Prod.mk.inj heq).1.symm

theorem arrayObjects_ne_nil (array : ℕ) (allocSize : ℕ+) : arrayObjects array allocSize ≠ [] := by
  intro h
  have hlength := congrArg List.length h
  have hpos := allocSize.pos
  simp only [arrayObjects, List.length_map, List.length_range, List.length_nil] at hlength
  omega

section Shared

variable (shared : Dict PtrId SharedPtr) (id : PtrId) (ptr : SharedPtr)

theorem outstanding_insert_new (h : shared.lookup id = none) :
    outstanding (shared.insert id ptr) = ptr.object :: outstanding shared := by
  simp only [outstanding, Dict.values, AList.entries_insert_of_notMem (AList.lookup_eq_none.mp h),
    List.map_cons]

/-- An owned object and the others. -/
theorem outstanding_perm (h : shared.lookup id = some ptr) :
    (outstanding shared).Perm (ptr.object :: outstanding (shared.erase id)) := by
  have hentries := Dict.entries_perm_of_lookup shared id ptr h
  exact (hentries.map (fun e => e.2)).map SharedPtr.object

/-- A change of the count leaves the objects where they are. -/
theorem outstanding_recount (useCount : ℕ) (h : shared.lookup id = some ptr) :
    (outstanding (shared.insert id { ptr with useCount := useCount })).Perm
      (outstanding shared) := by
  have hnew := outstanding_perm (shared.insert id { ptr with useCount := useCount }) id _
    (AList.lookup_insert _)
  have herase : (shared.insert id { ptr with useCount := useCount }).erase id =
      shared.erase id := by
    apply AList.ext
    change List.kerase id (List.kinsert id _ shared.entries) = List.kerase id shared.entries
    simp [List.kinsert_def]
  rw [herase] at hnew
  exact hnew.trans (outstanding_perm shared id ptr h).symm

end Shared

section Steps

variable (allocSize : ℕ+)

theorem accounted_alloc (pool : ObjectPool) (shared : Dict PtrId SharedPtr)
    (h : Accounted allocSize ⟨pool, shared⟩) :
    Accounted allocSize ⟨pool.allocObjects allocSize, shared⟩ where
  numbered := by
    simp only [ObjectPool.allocObjects, List.length_append, List.length_singleton]
    rw [List.range_succ, ← h.numbered]
  partition := by
    have hold := h.partition.append_right
      (arrayObjects pool.nodesPool.length allocSize)
    simp only [ObjectPool.allocObjects, allocated, List.flatMap_append, List.flatMap_singleton]
    refine List.Perm.trans ?_ hold
    simp only [List.append_assoc]
    exact List.perm_append_comm.append_left pool.nodes

/-- A node is taken from the list, which is never empty then. -/
theorem getOneObject_some (pool : ObjectPool) :
    ∃ obj rest, pool.getOneObject allocSize = some (obj, rest) ∧
      ∀ shared id, Accounted allocSize ⟨pool, shared⟩ → shared.lookup id = none →
        Accounted allocSize ⟨rest, shared.insert id ⟨obj, 1⟩⟩ := by
  unfold ObjectPool.getOneObject
  -- what the list is after it has grown if it was empty
  obtain ⟨filled, hfilled, hne, hkept⟩ : ∃ filled,
      (if pool.nodes.isEmpty then pool.allocObjects allocSize else pool) = filled ∧
        filled.nodes ≠ [] ∧ ∀ shared, Accounted allocSize ⟨pool, shared⟩ →
          Accounted allocSize ⟨filled, shared⟩ := by
    by_cases hempty : pool.nodes = []
    · refine ⟨_, if_pos (by simp [hempty]), ?_, accounted_alloc allocSize pool⟩
      simp only [ObjectPool.allocObjects, hempty, List.nil_append]
      exact arrayObjects_ne_nil _ allocSize
    · exact ⟨pool, if_neg (by simpa using hempty), hempty, fun _ h => h⟩
  rw [hfilled]
  refine ⟨filled.nodes.getLast hne, { filled with nodes := filled.nodes.dropLast }, ?_, ?_⟩
  · simp only [List.getLast?_eq_some_getLast hne, Option.map_some]
  · intro shared id h hid
    obtain ⟨hnumbered, hpartition⟩ := hkept shared h
    refine ⟨hnumbered, ?_⟩
    have hsplit := List.dropLast_append_getLast hne
    rw [outstanding_insert_new shared id _ hid]
    simp only at hpartition ⊢
    rw [← hsplit, List.append_assoc] at hpartition
    exact hpartition

theorem accounted_step (w w' : PoolWorld) (e : PoolEvent) (h : Accounted allocSize w)
    (hstep : step allocSize w e = some w') : Accounted allocSize w' := by
  obtain ⟨pool, shared⟩ := w
  cases e with
  | getOneObject id =>
    simp only [step] at hstep
    split at hstep
    · contradiction
    · rename_i hid
      obtain ⟨obj, rest, hgot, hkept⟩ := getOneObject_some allocSize pool
      rw [hgot] at hstep
      obtain rfl := Option.some.inj hstep
      exact hkept shared id h hid
  | copy id =>
    obtain ⟨ptr, hptr, rfl⟩ := Option.map_eq_some_iff.mp hstep
    have hsame := outstanding_recount shared id ptr (ptr.useCount + 1) hptr
    exact ⟨h.numbered, (hsame.append_left pool.nodes).trans h.partition⟩
  | drop id =>
    obtain ⟨ptr, hptr, hdropped⟩ := Option.map_eq_some_iff.mp hstep
    split at hdropped
    · subst hdropped
      refine ⟨h.numbered, List.Perm.trans ?_ h.partition⟩
      have hrest := (outstanding_perm shared id ptr hptr).symm.append_left pool.nodes
      simpa [ObjectPool.putOneObject] using hrest
    · subst hdropped
      have hsame := outstanding_recount shared id ptr (ptr.useCount - 1) hptr
      exact ⟨h.numbered, (hsame.append_left pool.nodes).trans h.partition⟩

theorem accounted_start : Accounted allocSize (PoolWorld.start allocSize) :=
  accounted_alloc allocSize ⟨[], []⟩ ∅ ⟨rfl, List.Perm.refl _⟩

/-- In every state that calls and releases lead to: the objects handed out are
distinct and none of them is free, no object is twice in the free list, the free
and the outstanding ones are all that were allocated, and the next call returns
an object. -/
theorem objects_accounted (events : List PoolEvent) (w : PoolWorld)
    (hrun : Path (step allocSize) (fun _ _ => True) (PoolWorld.start allocSize) events w) :
    (outstanding w.shared).Nodup ∧ (∀ object ∈ outstanding w.shared, object ∉ w.pool.nodes) ∧
      w.pool.nodes.Nodup ∧
      (∀ object, (object ∈ w.pool.nodes ∨ object ∈ outstanding w.shared) ↔
        object ∈ allocated allocSize w.pool) ∧
      ∀ id, w.shared.lookup id = none → ∃ w', step allocSize w (.getOneObject id) = some w' := by
  have h : Accounted allocSize w := hrun.invariant (Accounted allocSize)
    (fun s e t hs _ hstep => accounted_step allocSize s t e hs hstep) (accounted_start allocSize)
  have hnodup := h.partition.nodup_iff.mpr (allocated_nodup allocSize w.pool h.numbered)
  obtain ⟨hfree, hout, hapart⟩ := List.nodup_append.mp hnodup
  refine ⟨hout, ?_, hfree, ?_, ?_⟩
  · intro object hobject hnode
    exact hapart object hnode object hobject rfl
  · intro object
    rw [← h.partition.mem_iff, List.mem_append]
  · intro id hid
    obtain ⟨obj, rest, hgot, _⟩ := getOneObject_some allocSize w.pool
    refine ⟨⟨rest, w.shared.insert id ⟨obj, 1⟩⟩, ?_⟩
    simp only [step, hid, hgot, Option.map_some]

end Steps

theorem objects_accounted_after_growth :
    ∃ w, (List.foldlM (step 2) (PoolWorld.start 2) [.getOneObject 0, .getOneObject 1,
        .getOneObject 2, .copy 0, .drop 1, .drop 0, .getOneObject 3]) = some w ∧
      outstanding w.shared = [(0, 0), (0, 1), (1, 1)] ∧ w.pool.nodes = [(1, 0)] ∧
      ((outstanding w.shared).Nodup ∧ (∀ object ∈ outstanding w.shared, object ∉ w.pool.nodes) ∧
        w.pool.nodes.Nodup ∧
        (∀ object, (object ∈ w.pool.nodes ∨ object ∈ outstanding w.shared) ↔
          object ∈ allocated 2 w.pool) ∧
        ∀ id, w.shared.lookup id = none → ∃ w', step 2 w (.getOneObject id) = some w') := by
  obtain ⟨w, hsteps, hout, hfree⟩ : ∃ w, (List.foldlM (step 2) (PoolWorld.start 2)
      [.getOneObject 0, .getOneObject 1, .getOneObject 2, .copy 0, .drop 1, .drop 0,
        .getOneObject 3]) = some w ∧
      outstanding w.shared = [(0, 0), (0, 1), (1, 1)] ∧ w.pool.nodes = [(1, 0)] :=
    ⟨_, rfl, rfl, rfl⟩
  exact ⟨w, hsteps, hout, hfree, objects_accounted 2 _ w
    (path_of_steps _ w _ (fun _ _ _ => trivial) hsteps)⟩

end Gingko.ObjectPools
