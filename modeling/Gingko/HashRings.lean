import Gingko.OrderedMaps

/-!
Consistent hashing over an arbitrary ordered set of slots. Walking clockwise
from a position meets the slots in a total order of its own, and a position
belongs to the slot met first. Placing a node on further slots moves positions
to that node only; clearing slots hands each position to the slot met next.
-/
namespace Gingko.HashRings

open OrderedMaps

variable {K N : Type*} [LinearOrder K]

section Walk

/-- Walking up from `k` and wrapping around once, `a` is met no later than `b`. -/
def Clockwise (k a b : K) : Prop := k ≤ a ∧ b < k ∨ (k ≤ a ↔ k ≤ b) ∧ a ≤ b

theorem clockwise_of_ge (k a b : K) (hka : k ≤ a) (hab : k ≤ b → a ≤ b) : Clockwise k a b := by
  rcases le_or_gt k b with hkb | hkb
  · exact Or.inr ⟨iff_of_true hka hkb, hab hkb⟩
  · exact Or.inl ⟨hka, hkb⟩

theorem clockwise_of_wrapped (k a b : K) (hka : a < k) (hkb : b < k) (hab : a ≤ b) :
    Clockwise k a b :=
  Or.inr ⟨iff_of_false (not_le.mpr hka) (not_le.mpr hkb), hab⟩

theorem clockwise_self_first (k b : K) : Clockwise k k b :=
  clockwise_of_ge k k b (le_refl k) (fun h => h)

theorem clockwise_antisymm (k a b : K) (hab : Clockwise k a b) (hba : Clockwise k b a) :
    a = b := by
  rcases hab with ⟨hka, hbk⟩ | ⟨hiff, hle⟩
  · rcases hba with ⟨hkb, _⟩ | ⟨hiff, _⟩
    · exact absurd hkb (not_le.mpr hbk)
    · exact absurd (hiff.mpr hka) (not_le.mpr hbk)
  · rcases hba with ⟨hkb, hak⟩ | ⟨_, hge⟩
    · exact absurd (hiff.mpr hkb) (not_le.mpr hak)
    · exact le_antisymm hle hge

/-- Slots met after `h` come in the same order from `h` as from where the walk started. -/
theorem clockwise_from (k h a b : K) (hb : Clockwise k h b) (hab : Clockwise h a b) :
    Clockwise k a b := by
  unfold Clockwise at *
  grind

end Walk

/-- The slot that position `k` belongs to, with its node. -/
def owner (m : OrderedMap K N) (k : K) : Option (K × N) := (m.lowerBound k).or m.front

theorem owner_least (m : OrderedMap K N) (k : K) (e : K × N) (h : owner m k = some e) :
    m.lookup e.1 = some e.2 ∧ ∀ s v, m.lookup s = some v → Clockwise k e.1 s := by
  unfold owner at h
  cases hlow : m.lowerBound k with
  | some a =>
    rw [hlow, Option.some_or] at h
    obtain rfl : a = e := Option.some.inj h
    obtain ⟨hmem, hge, hleast⟩ := m.lowerBound_spec hlow
    refine ⟨(m.mem_entries_iff a.1 a.2).mp hmem, ?_⟩
    intro s v hs
    exact clockwise_of_ge k a.1 s hge (hleast (s, v) ((m.mem_entries_iff s v).mpr hs))
  | none =>
    rw [hlow, Option.none_or] at h
    have hbelow := m.lowerBound_eq_none hlow
    obtain ⟨hmem, hleast⟩ := m.front_spec h
    refine ⟨(m.mem_entries_iff e.1 e.2).mp hmem, ?_⟩
    intro s v hs
    have hmemS := (m.mem_entries_iff s v).mpr hs
    exact clockwise_of_wrapped k e.1 s (hbelow e hmem) (hbelow (s, v) hmemS) (hleast (s, v) hmemS)

theorem exists_owner (m : OrderedMap K N) (k : K) (h : m.isEmpty = false) :
    ∃ e, owner m k = some e := by
  cases hlow : m.lowerBound k with
  | some a => exact ⟨a, by simp [owner, hlow]⟩
  | none =>
    cases hentries : m.entries with
    | nil => simp [OrderedMap.isEmpty, hentries] at h
    | cons a rest => exact ⟨a, by simp [owner, hlow, OrderedMap.front, hentries]⟩

theorem owner_eq_none_iff (m : OrderedMap K N) (k : K) :
    owner m k = none ↔ m.isEmpty = true := by
  constructor
  · intro h
    by_contra hne
    obtain ⟨e, he⟩ := exists_owner m k (Bool.eq_false_iff.mpr hne)
    rw [h] at he
    contradiction
  · intro h
    cases hown : owner m k with
    | none => rfl
    | some e =>
      have hlook := (owner_least m k e hown).1
      rw [(m.isEmpty_iff.mp h) e.1] at hlook
      contradiction

/-- The first slot met is the only one with that property. -/
theorem owner_eq_some_iff (m : OrderedMap K N) (k : K) (e : K × N) :
    owner m k = some e ↔
      m.lookup e.1 = some e.2 ∧ ∀ s v, m.lookup s = some v → Clockwise k e.1 s := by
  constructor
  · exact owner_least m k e
  · intro hboth
    obtain ⟨hlook, hfirst⟩ := hboth
    cases hown : owner m k with
    | none =>
      rw [m.isEmpty_iff.mp ((owner_eq_none_iff m k).mp hown)] at hlook
      contradiction
    | some a =>
      obtain ⟨hlookA, hfirstA⟩ := owner_least m k a hown
      have hkey : a.1 = e.1 :=
        clockwise_antisymm k a.1 e.1 (hfirstA e.1 e.2 hlook) (hfirst a.1 a.2 hlookA)
      rw [hkey, hlook] at hlookA
      exact congrArg some (Prod.ext hkey (Option.some.inj hlookA).symm)

theorem owner_self (m : OrderedMap K N) (k : K) (v : N) (h : m.lookup k = some v) :
    owner m k = some (k, v) :=
  (owner_eq_some_iff m k (k, v)).mpr ⟨h, fun s _ _ => clockwise_self_first k s⟩

section Slots

/-- Put `n` on every slot of the list. -/
def place (n : N) (slots : List K) (m : OrderedMap K N) : OrderedMap K N :=
  slots.foldl (fun m s => m.insert s n) m

def clear (slots : List K) (m : OrderedMap K N) : OrderedMap K N :=
  slots.foldl (fun m s => m.erase s) m

variable (n : N) (slots : List K) (m : OrderedMap K N)

theorem lookup_place (s : K) :
    (place n slots m).lookup s = if s ∈ slots then some n else m.lookup s := by
  induction slots generalizing m with
  | nil => simp [place]
  | cons a rest ih =>
    show (place n rest (m.insert a n)).lookup s = _
    rw [ih, OrderedMap.lookup_insert]
    by_cases hrest : s ∈ rest <;> by_cases ha : s = a <;> simp [hrest, ha]

theorem lookup_clear (s : K) :
    (clear slots m).lookup s = if s ∈ slots then none else m.lookup s := by
  induction slots generalizing m with
  | nil => simp [clear]
  | cons a rest ih =>
    show (clear rest (m.erase a)).lookup s = _
    rw [ih, OrderedMap.lookup_erase]
    by_cases hrest : s ∈ rest <;> by_cases ha : s = a <;> simp [hrest, ha]

theorem lookup_of_clear (s : K) (v : N) (h : (clear slots m).lookup s = some v) :
    m.lookup s = some v := by
  rw [lookup_clear] at h
  split at h
  · contradiction
  · exact h

/-- Placing a node moves no position between two other nodes. -/
theorem owner_place (k : K) :
    owner (place n slots m) k = owner m k ∨ ∃ s, owner (place n slots m) k = some (s, n) := by
  cases hown : owner (place n slots m) k with
  | none =>
    left
    have hempty := (place n slots m).isEmpty_iff.mp ((owner_eq_none_iff _ k).mp hown)
    refine ((owner_eq_none_iff m k).mpr (m.isEmpty_iff.mpr ?_)).symm
    intro s
    have hs := hempty s
    rw [lookup_place] at hs
    split at hs
    · contradiction
    · exact hs
  | some e =>
    obtain ⟨hlook, hfirst⟩ := (owner_eq_some_iff _ k e).mp hown
    rw [lookup_place] at hlook
    split at hlook
    · right
      exact ⟨e.1, congrArg some (Prod.ext rfl (Option.some.inj hlook).symm)⟩
    · left
      refine ((owner_eq_some_iff m k e).mpr ⟨hlook, ?_⟩).symm
      intro s v hs
      -- every slot that was there still is, under one node or the other
      by_cases hmem : s ∈ slots
      · exact hfirst s n (by rw [lookup_place, if_pos hmem])
      · exact hfirst s v (by rw [lookup_place, if_neg hmem, hs])

/-- A position whose slot survives keeps it. -/
theorem owner_clear_of_notMem (k : K) (e : K × N) (hown : owner m k = some e)
    (hnot : e.1 ∉ slots) : owner (clear slots m) k = some e := by
  obtain ⟨hlook, hfirst⟩ := (owner_eq_some_iff m k e).mp hown
  refine (owner_eq_some_iff _ k e).mpr ⟨by rw [lookup_clear, if_neg hnot, hlook], ?_⟩
  exact fun s v hs => hfirst s v (lookup_of_clear slots m s v hs)

/-- A position whose slot is cleared goes where the slot itself would go. -/
theorem owner_clear_of_mem (k : K) (e : K × N) (hown : owner m k = some e) :
    owner (clear slots m) k = owner (clear slots m) e.1 := by
  have hfirst := ((owner_eq_some_iff m k e).mp hown).2
  have hkept : ∀ s v, (clear slots m).lookup s = some v → Clockwise k e.1 s :=
    fun s v hs => hfirst s v (lookup_of_clear slots m s v hs)
  cases hnext : owner (clear slots m) e.1 with
  | none =>
    exact (owner_eq_none_iff _ k).mpr ((owner_eq_none_iff _ e.1).mp hnext)
  | some f =>
    obtain ⟨hlook, hmin⟩ := (owner_eq_some_iff _ e.1 f).mp hnext
    refine (owner_eq_some_iff _ k f).mpr ⟨hlook, ?_⟩
    intro s v hs
    exact clockwise_from k e.1 f.1 s (hkept s v hs) (hmin s v hs)

theorem clear_place : clear slots (place n slots m) = clear slots m := by
  apply OrderedMap.ext_lookup
  intro s
  rw [lookup_clear, lookup_clear, lookup_place]
  split <;> rfl

end Slots
end Gingko.HashRings
