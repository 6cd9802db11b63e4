import Mathlib.Data.List.Basic

/-!
Texts that are cut at separators by positions: the first occurrence of a letter from a
position on, the part from a position of a given length, and what both give on a text
whose rest is known.
-/
namespace Gingko.TextFields

section Parts

variable {α : Type*}

/-- The part from `pos` on, at most `len` letters; `none` is an exception. -/
def substr (text : List α) (pos len : ℕ) : Option (List α) :=
  if pos ≤ text.length then some ((text.drop pos).take len) else none

theorem pos_le_of_drop {text rest : List α} {pos : ℕ} (hdrop : text.drop pos = rest)
    (hrest : rest ≠ []) : pos ≤ text.length := by
  by_contra hlt
  exact hrest (hdrop ▸ List.drop_eq_nil_of_le (by omega))

theorem substr_field {text mid post : List α} {pos : ℕ} (hdrop : text.drop pos = mid ++ post)
    (hpos : pos ≤ text.length) : substr text pos mid.length = some mid := by
  rw [substr, if_pos hpos, hdrop, List.take_left]

theorem drop_field {text mid post : List α} {c : α} {pos : ℕ}
    (hdrop : text.drop pos = mid ++ c :: post) : text.drop (pos + mid.length + 1) = post := by
  rw [Nat.add_assoc, ← List.drop_drop, hdrop, List.drop_append]
  simp

theorem drop_separator {text mid post : List α} {c : α} {pos : ℕ}
    (hdrop : text.drop pos = mid ++ c :: post) : text.drop (pos + mid.length) = c :: post := by
  rw [← List.drop_drop, hdrop, List.drop_left]

end Parts

section Searches

variable {α : Type*} [DecidableEq α]

/-- The first place of a letter from `pos` on. -/
def find (text : List α) (c : α) (pos : ℕ) : Option ℕ := ((text.drop pos).idxOf? c).map (pos + ·)

theorem idxOf?_field (mid post : List α) (c : α) (hc : c ∉ mid) :
    (mid ++ c :: post).idxOf? c = some mid.length := by
  induction mid with
  | nil => simp [List.idxOf?_cons]
  | cons d rest ih =>
    obtain ⟨hne, hrest⟩ := not_or.mp (fun h => hc (List.mem_cons.mpr h))
    rw [List.cons_append, List.idxOf?_cons, if_neg (by simpa using Ne.symm hne), ih hrest]
    rfl

theorem find_field {text mid post : List α} {c : α} {pos : ℕ}
    (hdrop : text.drop pos = mid ++ c :: post) (hc : c ∉ mid) :
    find text c pos = some (pos + mid.length) := by
  rw [find, hdrop, idxOf?_field mid post c hc, Option.map_some]

theorem find_eq_none_iff (text : List α) (c : α) (pos : ℕ) :
    find text c pos = none ↔ c ∉ text.drop pos := by
  rw [find, Option.map_eq_none_iff, List.idxOf?_eq_none_iff]

/-- Where a letter is found, the rest of the text is a field without it, the letter, and
what follows. -/
theorem exists_field_of_find {text : List α} {c : α} {pos p : ℕ} (h : find text c pos = some p) :
    ∃ mid post, text.drop pos = mid ++ c :: post ∧ c ∉ mid ∧ p = pos + mid.length := by
  have hmem : c ∈ text.drop pos := by
    by_contra hnot
    rw [(find_eq_none_iff text c pos).mpr hnot] at h
    cases h
  obtain ⟨mid, post, hdrop, hc⟩ := List.eq_append_cons_of_mem hmem
  refine ⟨mid, post, hdrop, hc, ?_⟩
  rw [find_field hdrop hc] at h
  exact (Option.some.inj h).symm

theorem find_bounds {text : List α} {c : α} {pos p : ℕ} (h : find text c pos = some p) :
    pos ≤ p ∧ p < text.length := by
  obtain ⟨mid, post, hdrop, -, rfl⟩ := exists_field_of_find h
  have hlength := congrArg List.length hdrop
  rw [List.length_drop, List.length_append, List.length_cons] at hlength
  omega

end Searches
end Gingko.TextFields
