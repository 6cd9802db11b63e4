import Gingko.IpFilters
import Gingko.MaximalFields
import Mathlib.Data.Finset.Lattice.Lemmas

/-!
Strings cut at any of a set of letters. Two copies of one loop gather the parts in a
vector and in a set; the loop is written here once, for any container. The container is
cleared before the loop, but not for an empty string, which returns first.
-/
namespace Gingko.SliptStrings

open IpFilters (Text)
open MaximalFields

section Loop

variable (str delimiter : Text)

def findFirstOf (pos : ℕ) : Option ℕ :=
  ((str.drop pos).findIdx? (delimiter.contains ·)).map (pos + ·)

variable {str delimiter}

theorem sepAt_iff_drop (pos k : ℕ) :
    SepAt delimiter.contains str (pos + k) ↔ SepAt delimiter.contains (str.drop pos) k := by
  simp only [SepAt, List.getElem?_drop]

theorem findFirstOf_some {pos endPos : ℕ} (h : findFirstOf str delimiter pos = some endPos) :
    pos ≤ endPos ∧ SepAt delimiter.contains str endPos ∧
      ∀ k, pos ≤ k → k < endPos → ¬SepAt delimiter.contains str k := by
  obtain ⟨n, hn, rfl⟩ := Option.map_eq_some_iff.mp h
  obtain ⟨hlt, hat, hbefore⟩ := List.findIdx?_eq_some_iff_getElem.mp hn
  refine ⟨Nat.le_add_right pos n, ?_, ?_⟩
  · exact (sepAt_iff_drop pos n).mpr ⟨_, List.getElem?_eq_getElem hlt, hat⟩
  · intro k hk hkn hsep
    obtain ⟨j, rfl⟩ := Nat.exists_eq_add_of_le hk
    obtain ⟨c, hc, hin⟩ := (sepAt_iff_drop pos j).mp hsep
    obtain ⟨hj, rfl⟩ := List.getElem?_eq_some_iff.mp hc
    exact hbefore j (by omega) hin

theorem findFirstOf_none {pos : ℕ} (h : findFirstOf str delimiter pos = none) (k : ℕ)
    (hk : pos ≤ k) : ¬SepAt delimiter.contains str k := by
  intro hsep
  obtain ⟨j, rfl⟩ := Nat.exists_eq_add_of_le hk
  obtain ⟨c, hc, hin⟩ := (sepAt_iff_drop pos j).mp hsep
  rw [findFirstOf, Option.map_eq_none_iff, List.findIdx?_eq_none_iff] at h
  have hout := h c (List.mem_of_getElem? hc)
  rw [hin] at hout
  contradiction

variable {C : Type} (str delimiter) (insert : C → Text → C)

/-- The loop from `startPos` on, with what is left behind the last delimiter. -/
def sliptLoop (startPos : ℕ) (out : C) : C :=
  match hfound : findFirstOf str delimiter startPos with
  | some endPos =>
    have hbounds := findFirstOf_some hfound
    have hlt := hbounds.2.1.lt
    sliptLoop (endPos + 1)
      (if endPos ≠ startPos then insert out (slice str startPos endPos) else out)
  | none => if startPos < str.length then insert out (str.drop startPos) else out
termination_by str.length - startPos

/-- `empty` is the container after its clearing. -/
def sliptString (empty out : C) : C :=
  if str = [] then out else sliptLoop str delimiter insert 0 empty

def sliptStringToVector (v : List Text) : List Text :=
  sliptString str delimiter (fun v piece => v ++ [piece]) [] v

def sliptStringToSet (s : Finset Text) : Finset Text :=
  sliptString str delimiter (fun s piece => Insert.insert piece s) ∅ s

end Loop

section Fields

variable (str delimiter : Text)

/-- The loop inserts the fields from its start on, in their order. -/
theorem sliptLoop_fields {C : Type} (insert : C → Text → C) (startPos : ℕ) (out : C)
    (hstart : startPos = 0 ∨ SepAt delimiter.contains str (startPos - 1)) :
    ∃ places, FieldsFrom delimiter.contains str startPos places ∧
      sliptLoop str delimiter insert startPos out =
        (places.map fun p => slice str p.1 p.2).foldl insert out := by
  fun_induction sliptLoop str delimiter insert startPos out with
  | case1 startPos out endPos hfound _ _ ih =>
    obtain ⟨hle, hsep, hfree⟩ := findFirstOf_some hfound
    obtain ⟨places, hplaces, hloop⟩ := ih (.inr hsep)
    refine ⟨_, fieldsFrom_cons hstart hle hsep hfree hplaces, ?_⟩
    refine hloop.trans ?_
    by_cases hne : endPos ≠ startPos
    · rw [dif_pos hne, if_pos hne]
      rfl
    · rw [dif_neg hne, if_neg hne]
  | case2 startPos out hfound hlt =>
    have hplaces := fieldsFrom_end hstart (findFirstOf_none hfound)
    rw [if_pos hlt] at hplaces
    refine ⟨_, hplaces, ?_⟩
    simp [slice, ← List.length_drop]
  | case3 startPos out hfound hle =>
    have hplaces := fieldsFrom_end hstart (findFirstOf_none hfound)
    rw [if_neg hle] at hplaces
    exact ⟨_, hplaces, rfl⟩

theorem foldl_push (pieces v : List Text) :
    pieces.foldl (fun v piece => v ++ [piece]) v = v ++ pieces := by
  induction pieces generalizing v with
  | nil => rw [List.foldl_nil, List.append_nil]
  | cons piece rest ih => rw [List.foldl_cons, ih, List.append_assoc, List.singleton_append]

theorem foldl_insert (pieces : List Text) (s : Finset Text) :
    pieces.foldl (fun s piece => Insert.insert piece s) s = s ∪ pieces.toFinset := by
  induction pieces generalizing s with
  | nil => simp
  | cons piece rest ih =>
    rw [List.foldl_cons, ih, List.toFinset_cons, Finset.union_insert, Finset.insert_union]

/-- A string that is not empty leaves its fields in the vector, whatever was there. -/
theorem sliptStringToVector_fields (v : List Text) (hstr : str ≠ []) :
    Fields delimiter.contains str (sliptStringToVector str delimiter v) := by
  obtain ⟨places, hplaces, hloop⟩ := sliptLoop_fields str delimiter
    (fun v piece => v ++ [piece]) 0 [] (.inl rfl)
  refine ⟨places, hplaces, ?_⟩
  rw [sliptStringToVector, sliptString, if_neg hstr, hloop, foldl_push, List.nil_append]

theorem sliptStringToSet_fields (s : Finset Text) (hstr : str ≠ []) :
    ∃ pieces, Fields delimiter.contains str pieces ∧
      sliptStringToSet str delimiter s = pieces.toFinset := by
  obtain ⟨places, hplaces, hloop⟩ := sliptLoop_fields str delimiter
    (fun s piece => Insert.insert piece s) 0 (∅ : Finset Text) (.inl rfl)
  refine ⟨_, ⟨places, hplaces, rfl⟩, ?_⟩
  rw [sliptStringToSet, sliptString, if_neg hstr, hloop, foldl_insert, Finset.empty_union]

/-- What both functions are for: the fields in their order in the vector, the same in the
set, and nothing of what was there before. -/
def LeavesFields (v : List Text) (s : Finset Text) : Prop :=
  ∃ pieces, Fields delimiter.contains str pieces ∧
    sliptStringToVector str delimiter v = pieces ∧
    sliptStringToSet str delimiter s = pieces.toFinset

/-- For the empty string both functions return before they clear. -/
theorem leavesFields_nil_iff (v : List Text) (s : Finset Text) :
    LeavesFields [] delimiter v s ↔ v = [] ∧ s = ∅ := by
  simp only [LeavesFields, fields_nil_iff, sliptStringToVector, sliptStringToSet, sliptString,
    if_true, exists_eq_left, List.toFinset_nil]

/-- The fields are left unless the string is empty and a container is not; but for the
empty string nothing of the previous content counts. -/
theorem leavesFields_iff (v : List Text) (s : Finset Text) :
    (LeavesFields str delimiter v s ↔ (str = [] → v = [] ∧ s = ∅)) ∧
      (str ≠ [] → ∀ v' s',
        sliptStringToVector str delimiter v = sliptStringToVector str delimiter v' ∧
          sliptStringToSet str delimiter s = sliptStringToSet str delimiter s') := by
  by_cases hstr : str = []
  · subst hstr
    refine ⟨?_, fun hne => absurd rfl hne⟩
    rw [leavesFields_nil_iff]
    exact ⟨fun h _ => h, fun h => h rfl⟩
  · have hvector := sliptStringToVector_fields str delimiter v hstr
    obtain ⟨pieces, hpieces, hset⟩ := sliptStringToSet_fields str delimiter s hstr
    refine ⟨iff_of_true ?_ fun h => absurd h hstr, ?_⟩
    · exact ⟨pieces, hpieces, hvector.unique hpieces, hset⟩
    · intro _ v' s'
      simp only [sliptStringToVector, sliptStringToSet, sliptString, if_neg hstr, and_self]

/-- An empty string leaves the last content where it is. -/
theorem leavesFields_fails : ¬LeavesFields [] [','] [['a']] ∅ := by
  rw [leavesFields_nil_iff]
  rintro ⟨hkept, -⟩
  contradiction

end Fields

section Filters

variable {str delimiter : Text}

theorem drop_eq_slice {i j : ℕ} (hle : i ≤ j) (hsep : SepAt delimiter.contains str j) :
    ∃ c, delimiter.contains c = true ∧
      str.drop i = slice str i j ++ c :: str.drop (j + 1) := by
  obtain ⟨c, hc, hin⟩ := hsep
  obtain ⟨hlt, rfl⟩ := List.getElem?_eq_some_iff.mp hc
  refine ⟨_, hin, ?_⟩
  have hrest : (str.drop i).drop (j - i) = str.drop j := by
    rw [List.drop_drop, Nat.add_sub_cancel' hle]
  rw [List.getElem_cons_drop, ← hrest, slice, List.take_append_drop]

theorem not_contains_of_mem_slice {i j : ℕ}
    (hfree : ∀ k, i ≤ k → k < j → ¬SepAt delimiter.contains str k) :
    ∀ c ∈ slice str i j, delimiter.contains c = false := by
  intro c hc
  obtain ⟨k, hk, rfl⟩ := List.mem_iff_getElem.mp hc
  rw [slice, List.length_take] at hk
  rw [← Bool.not_eq_true]
  refine fun hin => hfree (i + k) (Nat.le_add_right i k) (by omega) ⟨_, ?_, hin⟩
  rw [← List.getElem?_eq_getElem, slice, List.getElem?_take_of_lt (by omega),
    List.getElem?_drop]

theorem slice_isEmpty {i j : ℕ} (hj : j ≤ str.length) (hle : i ≤ j) :
    (slice str i j).isEmpty = decide (j = i) := by
  rw [Bool.eq_iff_iff, List.isEmpty_iff, decide_eq_true_iff, slice, ← List.length_eq_zero_iff,
    List.length_take, List.length_drop]
  omega

/-- The pieces between the delimiters that are not empty are what the loop gathers. -/
theorem sliptLoop_splitOnP (startPos : ℕ) (out : List Text) :
    sliptLoop str delimiter (fun v piece => v ++ [piece]) startPos out =
      out ++ IpFilters.sliptStringToVector (str.drop startPos) delimiter := by
  fun_induction sliptLoop str delimiter (fun v piece => v ++ [piece]) startPos out with
  | case1 startPos out endPos hfound _ _ ih =>
    obtain ⟨hle, hsep, hfree⟩ := findFirstOf_some hfound
    obtain ⟨c, hc, hdrop⟩ := drop_eq_slice hle hsep
    have hsplit := List.splitOnP_append_cons_of_forall_mem
      (not_contains_of_mem_slice hfree) c hc (str.drop (endPos + 1))
    have hpiece := slice_isEmpty (Nat.le_of_lt hsep.lt) hle
    refine ih.trans ?_
    rw [hdrop, IpFilters.sliptStringToVector, IpFilters.sliptStringToVector, hsplit,
      List.filter_cons, hpiece]
    by_cases hne : endPos = startPos
    · simp [hne, -List.contains_eq_mem]
    · simp [hne, -List.contains_eq_mem]
  | case2 startPos out hfound hlt =>
    have hfree : ∀ c ∈ str.drop startPos, delimiter.contains c = false := by
      intro c hc
      obtain ⟨k, hk⟩ := List.mem_iff_getElem?.mp hc
      rw [← Bool.not_eq_true]
      rw [List.getElem?_drop] at hk
      exact fun hin => findFirstOf_none hfound (startPos + k) (by omega) ⟨c, hk, hin⟩
    have hsome : (str.drop startPos).isEmpty = false := by
      rw [List.isEmpty_eq_false_iff, List.ne_nil_iff_length_pos, List.length_drop]
      omega
    rw [IpFilters.sliptStringToVector, List.splitOnP_eq_singleton hfree, List.filter_singleton,
      hsome]
    rfl
  | case3 startPos out hfound hle =>
    rw [List.drop_eq_nil_of_le (by omega), IpFilters.sliptStringToVector]
    simp

/-- The vector of a rule string is what the filters read, when it starts empty. -/
theorem sliptStringToVector_eq :
    sliptStringToVector str delimiter [] = IpFilters.sliptStringToVector str delimiter := by
  have hloop : sliptLoop str delimiter (fun v piece => v ++ [piece]) 0 [] = _ :=
    sliptLoop_splitOnP 0 []
  rw [List.drop_zero, List.nil_append] at hloop
  by_cases hstr : str = []
  · subst hstr
    rfl
  · rw [sliptStringToVector, sliptString, if_neg hstr, hloop]

end Filters
end Gingko.SliptStrings
