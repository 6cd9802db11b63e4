import Mathlib.Data.List.AList

/-!
Finite maps with one value per key, on top of Mathlib's association lists.
The key set is duplicate free by construction, so the number of entries that
satisfy a predicate can be tracked through insertions, erasures and changes
of one entry. The order of the entries carries no meaning.
-/
namespace Gingko.KeyedMaps

abbrev Dict (K V : Type*) := AList (fun _ : K => V)

namespace Dict

variable {K V : Type*}

def values (m : Dict K V) : List V := m.entries.map (fun e => e.2)

/-- How many entries satisfy `p`. -/
def countEntries (p : K → V → Bool) (m : Dict K V) : ℕ :=
  m.entries.countP (fun e => p e.1 e.2)

def filter (p : K → V → Bool) (m : Dict K V) : Dict K V where
  entries := m.entries.filter (fun e => p e.1 e.2)
  nodupKeys := m.nodupKeys.sublist List.filter_sublist

variable [DecidableEq K]

/-- Every entry has the property. -/
def Holds (P : K → V → Prop) (m : Dict K V) : Prop := ∀ k v, m.lookup k = some v → P k v

theorem holds_empty (P : K → V → Prop) : Holds P (∅ : Dict K V) := by
  intro k v h
  rw [AList.lookup_empty] at h
  contradiction

theorem holds_insert (P : K → V → Prop) (m : Dict K V) (k : K) (v : V)
    (h : ∀ k' v', k' ≠ k → m.lookup k' = some v' → P k' v') :
    Holds P (m.insert k v) ↔ P k v := by
  constructor
  · intro hall
    exact hall k v (AList.lookup_insert m)
  · intro hv k' v' hlook
    by_cases hk : k' = k
    · subst hk
      rw [AList.lookup_insert] at hlook
      rw [← Option.some.inj hlook]
      exact hv
    · rw [AList.lookup_insert_ne hk] at hlook
      exact h k' v' hk hlook

theorem lookup_singleton (k k' : K) (v v' : V)
    (h : ((∅ : Dict K V).insert k v).lookup k' = some v') : k' = k ∧ v' = v := by
  by_cases hk : k' = k
  · subst hk
    rw [AList.lookup_insert] at h
    exact ⟨rfl, (Option.some.inj h).symm⟩
  · rw [AList.lookup_insert_ne hk, AList.lookup_empty] at h
    contradiction

theorem lookup_of_erase (m : Dict K V) (k k' : K) (v : V)
    (h : (m.erase k).lookup k' = some v) : k' ≠ k ∧ m.lookup k' = some v := by
  have hne : k' ≠ k := by
    intro heq
    rw [heq, AList.lookup_erase] at h
    contradiction
  rw [AList.lookup_erase_ne hne] at h
  exact ⟨hne, h⟩

theorem lookup_of_insert (m : Dict K V) (k k' : K) (new v : V)
    (h : (m.insert k new).lookup k' = some v) :
    k' = k ∧ v = new ∨ k' ≠ k ∧ m.lookup k' = some v := by
  by_cases hk : k' = k
  · subst hk
    rw [AList.lookup_insert] at h
    exact Or.inl ⟨rfl, (Option.some.inj h).symm⟩
  · rw [AList.lookup_insert_ne hk] at h
    exact Or.inr ⟨hk, h⟩

theorem erase_insert_new (m : Dict K V) (k : K) (v : V) (h : m.lookup k = none) :
    (m.insert k v).erase k = m := by
  have hnot : k ∉ m := AList.lookup_eq_none.mp h
  apply AList.ext
  show (m.insert k v).entries.kerase k = m.entries
  rw [AList.entries_insert_of_notMem hnot]
  exact List.kerase_cons_eq rfl

theorem mem_entries_iff (m : Dict K V) (k : K) (v : V) :
    ⟨k, v⟩ ∈ m.entries ↔ m.lookup k = some v :=
  (AList.mem_lookup_iff (s := m) (a := k) (b := v)).symm

theorem mem_values_iff (m : Dict K V) (v : V) :
    v ∈ values m ↔ ∃ k, m.lookup k = some v := by
  constructor
  · intro h
    obtain ⟨⟨k, w⟩, hmem, rfl⟩ := List.mem_map.mp h
    exact ⟨k, (mem_entries_iff m k w).mp hmem⟩
  · intro hboth
    obtain ⟨k, hk⟩ := hboth
    exact List.mem_map.mpr ⟨⟨k, v⟩, (mem_entries_iff m k v).mpr hk, rfl⟩

theorem lookup_isSome_of_mem_keys (m : Dict K V) (k : K) (h : k ∈ m.keys) :
    ∃ v, m.lookup k = some v := by
  have hsome := AList.lookup_isSome.mpr (AList.mem_keys.mpr h)
  exact Option.isSome_iff_exists.mp hsome

/-- A present entry can be moved to the front of the list of entries. -/
theorem entries_perm_of_lookup (m : Dict K V) (k : K) (v : V)
    (h : m.lookup k = some v) :
    m.entries.Perm (⟨k, v⟩ :: (m.erase k).entries) := by
  have hmem : k ∈ m.entries.keys := by
    apply List.mem_keys_of_mem (s := ⟨k, v⟩)
    exact (mem_entries_iff m k v).mpr h
  obtain ⟨w, l₁, l₂, hnot, heq, herase⟩ := List.exists_of_kerase hmem
  have hw : w = v := by
    have hlook : m.lookup k = some w := by
      apply (mem_entries_iff m k w).mp
      rw [heq]
      simp
    exact Option.some.inj (hlook.symm.trans h)
  subst hw
  show m.entries.Perm (⟨k, w⟩ :: List.kerase k m.entries)
  rw [herase, heq]
  exact List.perm_middle

/-- Where values belong to one key each, erasing the key removes its value. -/
theorem mem_values_erase (m : Dict K V) (k : K) (v w : V) (h : m.lookup k = some v)
    (hunique : ∀ k', m.lookup k' = some v → k' = k) :
    w ∈ values (m.erase k) ↔ w ∈ values m ∧ w ≠ v := by
  simp only [mem_values_iff]
  constructor
  · intro hmem
    obtain ⟨k', hk'⟩ := hmem
    have hne : k' ≠ k := by
      intro heq
      rw [heq, AList.lookup_erase] at hk'
      contradiction
    rw [AList.lookup_erase_ne hne] at hk'
    refine ⟨⟨k', hk'⟩, ?_⟩
    intro heq
    rw [heq] at hk'
    exact hne (hunique k' hk')
  · intro hmem
    obtain ⟨⟨k', hk'⟩, hne⟩ := hmem
    refine ⟨k', ?_⟩
    rw [AList.lookup_erase_ne]
    · exact hk'
    · intro heq
      rw [heq, h] at hk'
      exact hne (Option.some.inj hk').symm

theorem mem_values_insert_new (m : Dict K V) (k : K) (v w : V) (h : m.lookup k = none) :
    w ∈ values (m.insert k v) ↔ w = v ∨ w ∈ values m := by
  unfold values
  rw [AList.entries_insert_of_notMem (AList.lookup_eq_none.mp h)]
  simp

theorem countEntries_of_lookup (p : K → V → Bool) (m : Dict K V) (k : K) (v : V)
    (h : m.lookup k = some v) :
    countEntries p m = countEntries p (m.erase k) + if p k v then 1 else 0 := by
  unfold countEntries
  rw [(entries_perm_of_lookup m k v h).countP_eq, List.countP_cons]

theorem countEntries_congr (p q : K → V → Bool) (m : Dict K V)
    (h : ∀ k v, m.lookup k = some v → p k v = q k v) :
    countEntries p m = countEntries q m := by
  apply List.countP_congr
  intro hboth hmem
  obtain ⟨k, v⟩ := hboth
  rw [h k v ((mem_entries_iff m k v).mp hmem)]

/-- Replacing the predicate by one that differs at a single key changes the
count by the difference at that key. -/
theorem countEntries_change (p q : K → V → Bool) (m : Dict K V) (k : K) (v : V)
    (h : m.lookup k = some v)
    (hagree : ∀ k' v', k' ≠ k → m.lookup k' = some v' → p k' v' = q k' v') :
    countEntries p m + (if q k v then 1 else 0) =
      countEntries q m + if p k v then 1 else 0 := by
  have hrest : countEntries p (m.erase k) = countEntries q (m.erase k) := by
    apply countEntries_congr
    intro k' v' hk'
    by_cases heq : k' = k
    · subst heq
      rw [AList.lookup_erase] at hk'
      contradiction
    · rw [AList.lookup_erase_ne heq] at hk'
      exact hagree k' v' heq hk'
  rw [countEntries_of_lookup p m k v h, countEntries_of_lookup q m k v h, hrest]
  omega

theorem countEntries_insert_new (p : K → V → Bool) (m : Dict K V) (k : K) (v : V)
    (h : m.lookup k = none) :
    countEntries p (m.insert k v) = countEntries p m + if p k v then 1 else 0 := by
  unfold countEntries
  rw [AList.entries_insert_of_notMem (AList.lookup_eq_none.mp h), List.countP_cons]

theorem countEntries_pos (p : K → V → Bool) (m : Dict K V) (k : K) (v : V)
    (h : m.lookup k = some v) (hp : p k v = true) : 0 < countEntries p m := by
  rw [countEntries_of_lookup p m k v h, hp]
  simp

theorem lookup_filter (p : K → V → Bool) (m : Dict K V) (k : K) :
    (filter p m).lookup k = (m.lookup k).filter (p k) := by
  cases hk : m.lookup k with
  | none =>
    apply AList.lookup_eq_none.mpr
    intro hmem
    obtain ⟨v, hv⟩ := lookup_isSome_of_mem_keys _ k hmem
    have hin := List.mem_of_mem_filter ((mem_entries_iff (filter p m) k v).mpr hv)
    rw [(mem_entries_iff m k v).mp hin] at hk
    contradiction
  | some v =>
    have hin := (mem_entries_iff m k v).mpr hk
    by_cases hp : p k v = true
    · rw [Option.filter_some, if_pos hp]
      apply (mem_entries_iff (filter p m) k v).mp
      exact List.mem_filter.mpr ⟨hin, hp⟩
    · rw [Option.filter_some, if_neg hp]
      apply AList.lookup_eq_none.mpr
      intro hmem
      obtain ⟨w, hw⟩ := lookup_isSome_of_mem_keys _ k hmem
      have hmem' := List.mem_filter.mp ((mem_entries_iff (filter p m) k w).mpr hw)
      have hvw := (mem_entries_iff m k w).mp hmem'.1
      rw [hk] at hvw
      cases Option.some.inj hvw
      exact hp hmem'.2

end Dict
end Gingko.KeyedMaps
