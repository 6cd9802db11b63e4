import Mathlib.Data.List.Basic

/-!
The fields of a text between separators, by their places. A field is a part without a
separator that cannot be made longer, and it has at least one letter. The fields of a
text from a place on come one after the other, with a separator between two of them.
-/
namespace Gingko.MaximalFields

variable {α : Type*} (sep : α → Bool) (text : List α)

def slice (i j : ℕ) : List α := (text.drop i).take (j - i)

def SepAt (k : ℕ) : Prop := ∃ c, text[k]? = some c ∧ sep c = true

/-- The letters from `i` on, up to `j`, are a field. -/
structure Field (i j : ℕ) : Prop where
  lt : i < j
  le : j ≤ text.length
  free : ∀ k, i ≤ k → k < j → ¬SepAt sep text k
  left : i = 0 ∨ SepAt sep text (i - 1)
  right : j = text.length ∨ SepAt sep text j

/-- All the fields that start from `start` on, in their order. -/
structure FieldsFrom (start : ℕ) (places : List (ℕ × ℕ)) : Prop where
  ordered : places.Pairwise fun a b => a.2 < b.1
  mem_iff : ∀ i j, (i, j) ∈ places ↔ start ≤ i ∧ Field sep text i j

/-- A field of the text, and the list of all of them as texts. -/
def Fields (out : List (List α)) : Prop :=
  ∃ places, FieldsFrom sep text 0 places ∧ out = places.map fun p => slice text p.1 p.2

variable {sep text}

theorem SepAt.lt {k : ℕ} (h : SepAt sep text k) : k < text.length := by
  obtain ⟨c, hc, -⟩ := h
  exact (List.getElem?_eq_some_iff.mp hc).1

/-- Where the text is free of separators up to `stop`, a field that starts before `stop`
starts at the place where one can start. -/
theorem Field.eq_start {start stop i j : ℕ} (h : Field sep text i j) (hi : start ≤ i)
    (hstop : i < stop) (hfree : ∀ k, start ≤ k → k < stop → ¬SepAt sep text k) : i = start := by
  obtain hzero | hsep := h.left
  · omega
  · by_contra hne
    exact hfree (i - 1) (by omega) (by omega) hsep

theorem Field.eq_stop {i j stop : ℕ} (h : Field sep text i j) (hi : i ≤ stop)
    (hfree : ∀ k, i ≤ k → k < stop → ¬SepAt sep text k)
    (hstop : stop = text.length ∨ SepAt sep text stop) : j = stop := by
  have hle := h.le
  have hlt := h.lt
  obtain hless | heq | hmore := Nat.lt_trichotomy j stop
  · obtain hlast | hsep := h.right
    · obtain rfl | hat := hstop
      · omega
      · have := hat.lt
        omega
    · exact absurd hsep (hfree j (by omega) hless)
  · exact heq
  · obtain rfl | hat := hstop
    · omega
    · exact absurd hat (h.free stop hi hmore)

/-- Behind the last separator there is one field, or none. -/
theorem fieldsFrom_end {start : ℕ} (hstart : start = 0 ∨ SepAt sep text (start - 1))
    (hfree : ∀ k, start ≤ k → ¬SepAt sep text k) :
    FieldsFrom sep text start
      (if start < text.length then [(start, text.length)] else []) := by
  constructor
  · split <;> simp
  · intro i j
    split
    · next hlt =>
      rw [List.mem_singleton, Prod.mk.injEq]
      constructor
      · rintro ⟨rfl, rfl⟩
        exact ⟨Nat.le_refl _, hlt, Nat.le_refl _, fun k hk _ => hfree k hk, hstart, .inl rfl⟩
      · rintro ⟨hi, hfield⟩
        have hlast : i < text.length := Nat.lt_of_lt_of_le hfield.lt hfield.le
        have hi' := hfield.eq_start hi hlast fun k hk _ => hfree k hk
        refine ⟨hi', hfield.eq_stop (by omega) (fun k hk _ => hfree k (by omega)) (.inl rfl)⟩
    · next hlt =>
      constructor
      · exact fun h => absurd h List.not_mem_nil
      · rintro ⟨hi, hfield⟩
        have hle := hfield.le
        have hlt := hfield.lt
        omega

/-- Up to the next separator there is one field, or none. -/
theorem fieldsFrom_cons {start stop : ℕ} {places : List (ℕ × ℕ)}
    (hstart : start = 0 ∨ SepAt sep text (start - 1)) (hle : start ≤ stop)
    (hsep : SepAt sep text stop) (hfree : ∀ k, start ≤ k → k < stop → ¬SepAt sep text k)
    (hrest : FieldsFrom sep text (stop + 1) places) :
    FieldsFrom sep text start (if stop ≠ start then (start, stop) :: places else places) := by
  have hlater (i j : ℕ) (h : (i, j) ∈ places) : stop < i :=
    ((hrest.mem_iff i j).mp h).1
  have hbefore (i j : ℕ) (hi : start ≤ i) (hfield : Field sep text i j) :
      i = start ∧ j = stop ∧ start ≠ stop ∨ stop + 1 ≤ i := by
    obtain hlt | hge := Nat.lt_or_ge i stop
    · have hi' := hfield.eq_start hi hlt hfree
      exact .inl ⟨hi', hfield.eq_stop (by omega) (fun k hk => hfree k (by omega)) (.inr hsep),
        by omega⟩
    · obtain rfl | hmore := Nat.eq_or_lt_of_le hge
      · exact absurd hsep (hfield.free stop (Nat.le_refl _) hfield.lt)
      · exact .inr hmore
  constructor
  · split
    · refine List.pairwise_cons.mpr ⟨?_, hrest.ordered⟩
      rintro ⟨i, j⟩ h
      exact hlater i j h
    · exact hrest.ordered
  · intro i j
    split
    · next hne =>
      rw [List.mem_cons, Prod.mk.injEq, hrest.mem_iff]
      constructor
      · rintro (⟨rfl, rfl⟩ | ⟨hi, hfield⟩)
        · exact ⟨Nat.le_refl _, by omega, Nat.le_of_lt hsep.lt, hfree, hstart, .inr hsep⟩
        · exact ⟨by omega, hfield⟩
      · rintro ⟨hi, hfield⟩
        obtain ⟨hi', hj, -⟩ | hmore := hbefore i j hi hfield
        · exact .inl ⟨hi', hj⟩
        · exact .inr ⟨hmore, hfield⟩
    · next heq =>
      rw [hrest.mem_iff]
      constructor
      · rintro ⟨hi, hfield⟩
        exact ⟨by omega, hfield⟩
      · rintro ⟨hi, hfield⟩
        obtain ⟨-, -, hne⟩ | hmore := hbefore i j hi hfield
        · exact absurd (not_not.mp heq).symm hne
        · exact ⟨hmore, hfield⟩

theorem FieldsFrom.nodup {start : ℕ} {places : List (ℕ × ℕ)}
    (h : FieldsFrom sep text start places) : places.Nodup := by
  refine h.ordered.imp_of_mem ?_
  rintro ⟨i, j⟩ - hmem - hlt rfl
  have := ((h.mem_iff i j).mp hmem).2.lt
  omega

theorem FieldsFrom.unique {start : ℕ} {places places' : List (ℕ × ℕ)}
    (h : FieldsFrom sep text start places) (h' : FieldsFrom sep text start places') :
    places = places' := by
  have hperm : places.Perm places' := by
    refine (List.perm_ext_iff_of_nodup h.nodup h'.nodup).mpr ?_
    rintro ⟨i, j⟩
    rw [h.mem_iff, h'.mem_iff]
  refine List.Perm.eq_of_pairwise ?_ h.ordered h'.ordered hperm
  rintro ⟨i, j⟩ ⟨i', j'⟩ hmem hmem' hlt hlt'
  have := ((h.mem_iff i j).mp hmem).2.lt
  have := ((h'.mem_iff i' j').mp hmem').2.lt
  omega

/-- A text has one list of fields. -/
theorem Fields.unique {out out' : List (List α)} (h : Fields sep text out)
    (h' : Fields sep text out') : out = out' := by
  obtain ⟨places, hplaces, rfl⟩ := h
  obtain ⟨places', hplaces', rfl⟩ := h'
  rw [hplaces.unique hplaces']

/-- A text without letters has no field. -/
theorem fields_nil_iff (out : List (List α)) : Fields sep ([] : List α) out ↔ out = [] := by
  constructor
  · rintro ⟨places, hplaces, rfl⟩
    rw [List.map_eq_nil_iff, List.eq_nil_iff_forall_not_mem]
    rintro ⟨i, j⟩ h
    have hfield := ((hplaces.mem_iff i j).mp h).2
    exact absurd (Nat.lt_of_lt_of_le hfield.lt hfield.le) (Nat.not_lt_zero i)
  · rintro rfl
    exact ⟨[], fieldsFrom_end (.inl rfl) fun k _ h => absurd h.lt (Nat.not_lt_zero k), rfl⟩

end Gingko.MaximalFields
