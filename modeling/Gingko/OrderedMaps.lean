import Mathlib.Data.List.Nodup
import Mathlib.Order.Lattice

/-!
Maps kept in increasing order of their keys, as a search tree presents them to
an iterator. The order is part of the type, so two maps with the same lookups
are equal, the first entry has the least key, and the lower bound of a key is
the least entry from that key on.
-/
namespace Gingko.OrderedMaps

structure OrderedMap (K V : Type*) [LinearOrder K] where
  entries : List (K × V)
  sorted : entries.Pairwise (fun a b => a.1 < b.1)

variable {K V : Type*} [LinearOrder K]

/-- Ordered insertion overwrites the value at an existing key. -/
def insertEntry (k : K) (v : V) : List (K × V) → List (K × V)
  | [] => [(k, v)]
  | e :: rest =>
      if e.1 < k then e :: insertEntry k v rest
      else if e.1 = k then (k, v) :: rest
      else (k, v) :: e :: rest

theorem mem_insertEntry (k : K) (v : V) (l : List (K × V))
    (hl : l.Pairwise (fun a b => a.1 < b.1)) (e : K × V) :
    e ∈ insertEntry k v l ↔ e = (k, v) ∨ e.1 ≠ k ∧ e ∈ l := by
  induction l with
  | nil => simp [insertEntry]
  | cons a rest ih =>
    have hrest := List.pairwise_cons.mp hl
    unfold insertEntry
    split
    · next hlt =>
      simp only [List.mem_cons, ih hrest.2]
      constructor
      · intro hcase
        obtain rfl | rfl | ⟨hne, hmem⟩ := hcase
        · exact Or.inr ⟨ne_of_lt hlt, Or.inl rfl⟩
        · exact Or.inl rfl
        · exact Or.inr ⟨hne, Or.inr hmem⟩
      · intro hcase
        obtain rfl | ⟨hne, rfl | hmem⟩ := hcase
        · exact Or.inr (Or.inl rfl)
        · exact Or.inl rfl
        · exact Or.inr (Or.inr ⟨hne, hmem⟩)
    · next hlt =>
      have hlater : ∀ b ∈ rest, k < b.1 := by
        intro b hb
        exact lt_of_le_of_lt (not_lt.mp hlt) (hrest.1 b hb)
      split
      · next heq =>
        simp only [List.mem_cons]
        constructor
        · intro hcase
          obtain rfl | hmem := hcase
          · exact Or.inl rfl
          · exact Or.inr ⟨ne_of_gt (hlater e hmem), Or.inr hmem⟩
        · intro hcase
          obtain rfl | ⟨hne, rfl | hmem⟩ := hcase
          · exact Or.inl rfl
          · exact absurd heq hne
          · exact Or.inr hmem
      · next hne =>
        simp only [List.mem_cons]
        constructor
        · intro hcase
          obtain rfl | rfl | hmem := hcase
          · exact Or.inl rfl
          · exact Or.inr ⟨hne, Or.inl rfl⟩
          · exact Or.inr ⟨ne_of_gt (hlater e hmem), Or.inr hmem⟩
        · intro hcase
          obtain rfl | ⟨_, hmem⟩ := hcase
          · exact Or.inl rfl
          · exact Or.inr hmem

theorem sorted_insertEntry (k : K) (v : V) (l : List (K × V))
    (hl : l.Pairwise (fun a b => a.1 < b.1)) :
    (insertEntry k v l).Pairwise (fun a b => a.1 < b.1) := by
  induction l with
  | nil => simp [insertEntry]
  | cons a rest ih =>
    have hrest := List.pairwise_cons.mp hl
    unfold insertEntry
    split
    · next hlt =>
      refine List.pairwise_cons.mpr ⟨?_, ih hrest.2⟩
      intro b hb
      rcases (mem_insertEntry k v rest hrest.2 b).mp hb with rfl | ⟨_, hmem⟩
      · exact hlt
      · exact hrest.1 b hmem
    · next hlt =>
      have hle := not_lt.mp hlt
      split
      · refine List.pairwise_cons.mpr ⟨?_, hrest.2⟩
        intro b hb
        exact lt_of_le_of_lt hle (hrest.1 b hb)
      · next hne =>
        have hka : k < a.1 := lt_of_le_of_ne hle (Ne.symm hne)
        refine List.pairwise_cons.mpr ⟨?_, hl⟩
        intro b hb
        rcases List.mem_cons.mp hb with rfl | hmem
        · exact hka
        · exact lt_trans hka (hrest.1 b hmem)

namespace OrderedMap

def empty : OrderedMap K V := ⟨[], List.Pairwise.nil⟩

def isEmpty (m : OrderedMap K V) : Bool := m.entries.isEmpty

def insert (k : K) (v : V) (m : OrderedMap K V) : OrderedMap K V :=
  ⟨insertEntry k v m.entries, sorted_insertEntry k v m.entries m.sorted⟩

def erase (k : K) (m : OrderedMap K V) : OrderedMap K V :=
  ⟨m.entries.filter (fun e => e.1 ≠ k), m.sorted.sublist List.filter_sublist⟩

def lookup (k : K) (m : OrderedMap K V) : Option V :=
  (m.entries.find? (fun e => e.1 = k)).map Prod.snd

/-- The first entry whose key is not below `k`. -/
def lowerBound (k : K) (m : OrderedMap K V) : Option (K × V) :=
  m.entries.find? (fun e => k ≤ e.1)

def front (m : OrderedMap K V) : Option (K × V) := m.entries.head?

variable (m : OrderedMap K V)

theorem eq_of_mem_of_key {a b : K × V} (ha : a ∈ m.entries) (hb : b ∈ m.entries)
    (hkey : a.1 = b.1) : a = b := by
  have hsorted := List.pairwise_iff_getElem.mp m.sorted
  obtain ⟨i, hi, rfl⟩ := List.getElem_of_mem ha
  obtain ⟨j, hj, rfl⟩ := List.getElem_of_mem hb
  rcases lt_trichotomy i j with hlt | rfl | hgt
  · exact absurd hkey (ne_of_lt (hsorted i j hi hj hlt))
  · rfl
  · exact absurd hkey (ne_of_gt (hsorted j i hj hi hgt))

theorem mem_entries_iff (k : K) (v : V) : (k, v) ∈ m.entries ↔ m.lookup k = some v := by
  unfold lookup
  rw [Option.map_eq_some_iff]
  constructor
  · intro hmem
    cases hfind : m.entries.find? (fun e => e.1 = k) with
    | none =>
      have hnot := List.find?_eq_none.mp hfind (k, v) hmem
      simp at hnot
    | some e =>
      have hkey : e.1 = k := by simpa using List.find?_some hfind
      have he := m.eq_of_mem_of_key (List.mem_of_find?_eq_some hfind) hmem hkey
      exact ⟨e, rfl, by rw [he]⟩
  · intro hboth
    obtain ⟨e, hfind, hv⟩ := hboth
    have hkey : e.1 = k := by simpa using List.find?_some hfind
    have he : e = (k, v) := Prod.ext hkey hv
    rw [← he]
    exact List.mem_of_find?_eq_some hfind

@[simp] theorem lookup_empty (k : K) : (empty : OrderedMap K V).lookup k = none := rfl

theorem lookup_insert (k s : K) (v : V) :
    (m.insert k v).lookup s = if s = k then some v else m.lookup s := by
  apply Option.ext
  intro w
  rw [← mem_entries_iff]
  show (s, w) ∈ insertEntry k v m.entries ↔ _
  rw [mem_insertEntry k v m.entries m.sorted]
  split
  · next heq => simp [heq, eq_comm]
  · next hne => simp [hne, mem_entries_iff]

theorem lookup_erase (k s : K) :
    (m.erase k).lookup s = if s = k then none else m.lookup s := by
  apply Option.ext
  intro w
  rw [← mem_entries_iff]
  show (s, w) ∈ m.entries.filter (fun e => e.1 ≠ k) ↔ _
  rw [List.mem_filter]
  split
  · next heq => simp [heq]
  · next hne => simp [hne, mem_entries_iff]

theorem entries_nodup : m.entries.Nodup :=
  m.sorted.imp fun hlt heq => ne_of_lt hlt (congrArg Prod.fst heq)

/-- Sorted entry lists are determined by their lookups. -/
theorem ext_lookup {a b : OrderedMap K V} (h : ∀ k, a.lookup k = b.lookup k) : a = b := by
  have hmem : ∀ e, e ∈ a.entries ↔ e ∈ b.entries := by
    intro e
    obtain ⟨k, v⟩ := e
    rw [mem_entries_iff, mem_entries_iff, h]
  have hperm := (List.perm_ext_iff_of_nodup a.entries_nodup b.entries_nodup).mpr hmem
  have heq : a.entries = b.entries :=
    hperm.eq_of_pairwise (fun x y _ _ hxy hyx => absurd hxy (lt_asymm hyx)) a.sorted b.sorted
  cases a
  cases b
  congr

theorem isEmpty_iff : m.isEmpty = true ↔ ∀ k, m.lookup k = none := by
  unfold isEmpty
  rw [List.isEmpty_iff]
  constructor
  · intro h k
    simp [lookup, h]
  · intro h
    apply List.eq_nil_iff_forall_not_mem.mpr
    intro hboth hmem
    obtain ⟨k, v⟩ := hboth
    rw [mem_entries_iff, h k] at hmem
    contradiction

theorem lowerBound_spec {k : K} {e : K × V} (h : m.lowerBound k = some e) :
    e ∈ m.entries ∧ k ≤ e.1 ∧ ∀ a ∈ m.entries, k ≤ a.1 → e.1 ≤ a.1 := by
  obtain ⟨hge, before, after, hsplit, hbefore⟩ := List.find?_eq_some_iff_append.mp h
  have hsorted := m.sorted
  rw [hsplit] at hsorted
  have hafter := (List.pairwise_cons.mp (List.pairwise_append.mp hsorted).2.1).1
  refine ⟨by rw [hsplit]; simp, of_decide_eq_true hge, ?_⟩
  intro a ha hka
  rw [hsplit, List.mem_append, List.mem_cons] at ha
  rcases ha with hin | rfl | hin
  · have hlow := hbefore a hin
    simp [hka] at hlow
  · exact le_refl _
  · exact le_of_lt (hafter a hin)

theorem lowerBound_eq_none {k : K} (h : m.lowerBound k = none) :
    ∀ a ∈ m.entries, a.1 < k := by
  intro a ha
  have hnot := List.find?_eq_none.mp h a ha
  simpa using hnot

theorem front_spec {e : K × V} (h : m.front = some e) :
    e ∈ m.entries ∧ ∀ a ∈ m.entries, e.1 ≤ a.1 := by
  obtain ⟨rest, hsplit⟩ := List.head?_eq_some_iff.mp h
  have hsorted := m.sorted
  rw [hsplit] at hsorted
  refine ⟨by rw [hsplit]; simp, ?_⟩
  intro a ha
  rw [hsplit] at ha
  rcases List.mem_cons.mp ha with rfl | hin
  · exact le_refl _
  · exact le_of_lt ((List.pairwise_cons.mp hsorted).1 a hin)

theorem mem_entries_insert (k : K) (v : V) (e : K × V) :
    e ∈ (m.insert k v).entries ↔ e = (k, v) ∨ e.1 ≠ k ∧ e ∈ m.entries :=
  mem_insertEntry k v m.entries m.sorted e

theorem mem_entries_erase (k : K) (e : K × V) :
    e ∈ (m.erase k).entries ↔ e.1 ≠ k ∧ e ∈ m.entries := by
  show e ∈ m.entries.filter (fun e => e.1 ≠ k) ↔ _
  rw [List.mem_filter, decide_eq_true_iff, and_comm]

/-- A new key adds its entry to the others. -/
theorem entries_insert_perm {k : K} (v : V) (hnew : m.lookup k = none) :
    (m.insert k v).entries.Perm ((k, v) :: m.entries) := by
  have hkey (w : V) : (k, w) ∉ m.entries := by
    rw [mem_entries_iff, hnew]
    exact Option.some_ne_none w ∘ Eq.symm
  refine (List.perm_ext_iff_of_nodup (entries_nodup _)
    (List.nodup_cons.mpr ⟨hkey v, m.entries_nodup⟩)).mpr ?_
  rintro ⟨s, w⟩
  rw [mem_entries_insert, List.mem_cons]
  refine or_congr_right (and_iff_right_of_imp ?_)
  rintro hmem rfl
  exact hkey w hmem

/-- Erasing a key takes its one entry away. -/
theorem entries_perm_erase {k : K} {v : V} (h : m.lookup k = some v) :
    m.entries.Perm ((k, v) :: (m.erase k).entries) := by
  have hmem := (m.mem_entries_iff k v).mpr h
  refine (List.perm_ext_iff_of_nodup m.entries_nodup
    (List.nodup_cons.mpr ⟨?_, entries_nodup _⟩)).mpr ?_
  · rw [mem_entries_erase]
    exact fun hboth => hboth.1 rfl
  · intro e
    rw [List.mem_cons, mem_entries_erase]
    constructor
    · intro he
      by_cases hkey : e.1 = k
      · exact .inl (m.eq_of_mem_of_key he hmem hkey)
      · exact .inr ⟨hkey, he⟩
    · rintro (rfl | ⟨-, he⟩)
      · exact hmem
      · exact he

end OrderedMap
end Gingko.OrderedMaps
