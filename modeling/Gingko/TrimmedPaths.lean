import Gingko.Cancellations
import Gingko.FileFilters
import Gingko.TextFields

/-!
The normal form of a path. A loop cuts the components out between the slashes and keeps
them on a stack, with the root as its first element; empty components and `.` are passed
by, and `..` takes the last one away. For an absolute path what comes out is the path of
the components that are left when every `..` has cancelled the one before it.
-/
namespace Gingko.TrimmedPaths

open Base64Codec DataPaths TextFields Cancellations

section Trim

def dot : ByteString := [46]

def dotDot : ByteString := [46, 46]

/-- What a component does to the stack; `none` returns the empty path. -/
def visit (v : List ByteString) (tmp : ByteString) : Option (List ByteString) :=
  if tmp = [] ∨ tmp = dot then some v
  else if tmp = dotDot then if v.length ≤ 1 then none else some v.dropLast
  else some (v ++ [tmp])

/-- The outer `none` is an exception. The difference of the missing position and the
start reaches behind the end of the path. -/
def trimLoop (path : ByteString) (start : ℕ) (v : List ByteString) :
    Option (Option (List ByteString)) :=
  match hpos : find path slash start with
  | some pos =>
    have := find_bounds hpos
    match substr path start (pos - start) with
    | none => none
    | some tmp =>
      match visit v tmp with
      | none => some none
      | some v => trimLoop path (pos + 1) v
  | none => (substr path start path.length).map (visit v)
termination_by path.length - start
decreasing_by omega

/-- `none` is an exception or a failed assertion. -/
def trimPath (path : ByteString) : Option ByteString :=
  if path = [] then some path
  else
    let v := if path.head? = some slash then [[slash]] else []
    match trimLoop path 0 v with
    | none => none
    | some none => some []
    | some (some []) => none
    | some (some (first :: rest)) =>
      let tmp := if first = [slash] then [] else first
      some (tmp ++ rest.flatMap (slash :: ·))

/-- The loop goes through the components from the start on. -/
theorem trimLoop_eq (path : ByteString) (start : ℕ) (hstart : start ≤ path.length)
    (v : List ByteString) :
    trimLoop path start v = some (((path.drop start).splitOn slash).foldlM visit v) := by
  induction hleft : path.length - start using Nat.strong_induction_on generalizing start v with
  | _ n ih =>
    subst hleft
    rw [trimLoop]
    split
    · next pos hpos =>
      have hbounds := find_bounds hpos
      obtain ⟨tmp, post, hdrop, htmp, rfl⟩ := exists_field_of_find hpos
      rw [Nat.add_sub_cancel_left, substr_field hdrop hstart, hdrop,
        List.splitOn_append_cons_self_of_not_mem htmp, List.foldlM_cons]
      simp only
      cases hvisit : visit v tmp with
      | none => rfl
      | some v' =>
        simp only
        rw [ih (path.length - (start + tmp.length + 1)) (by omega) (start + tmp.length + 1)
          (by omega) v' rfl, drop_field hdrop]
        rfl
    · next hpos =>
      have hslash := (find_eq_none_iff path slash start).mp hpos
      have hrest : substr path start path.length = some (path.drop start) := by
        rw [substr, if_pos hstart, List.take_of_length_le]
        exact (List.length_drop).symm ▸ Nat.sub_le path.length start
      rw [hrest, List.splitOn_eq_singleton hslash]
      simp

end Trim

section Absolute

/-- The components that count. -/
def names (path : ByteString) : List ByteString :=
  (path.splitOn slash).filter fun c => c ≠ [] ∧ c ≠ dot

def joined (kept : List ByteString) : ByteString := kept.flatMap (slash :: ·)

/-- Behind the root the stack is that of the cancellations. -/
theorem foldlM_visit (comps stack : List ByteString) :
    comps.foldlM visit ([slash] :: stack) =
      (resolve dotDot (comps.filter fun c => c ≠ [] ∧ c ≠ dot) stack).map ([slash] :: ·) := by
  induction comps generalizing stack with
  | nil => rfl
  | cons c rest ih =>
    rw [List.foldlM_cons, visit]
    split
    · next hskipped =>
      rw [List.filter_cons_of_neg (by simpa [or_iff_not_imp_left] using hskipped)]
      exact ih stack
    · next hkept =>
      rw [List.filter_cons_of_pos (by simpa using hkept), resolve]
      split
      · by_cases hempty : stack = []
        · subst hempty
          rfl
        · have hpos := List.length_pos_iff.mpr hempty
          have hdeep : ¬([slash] :: stack).length ≤ 1 := by
            rw [List.length_cons]
            omega
          rw [if_neg hdeep, if_neg hempty, List.dropLast_cons_of_ne_nil hempty]
          exact ih stack.dropLast
      · exact ih (stack ++ [c])

theorem trimPath_absolute (path : ByteString) (habsolute : path.head? = some slash) :
    trimPath path = some (((resolve dotDot (names path) []).map joined).getD []) := by
  have hne : path ≠ [] := by
    rintro rfl
    cases habsolute
  have hloop : trimLoop path 0 [[slash]] =
      some ((resolve dotDot (names path) []).map ([slash] :: ·)) := by
    rw [trimLoop_eq path 0 (Nat.zero_le _), List.drop_zero, foldlM_visit, names]
  rw [trimPath, if_neg hne]
  simp only [if_pos habsolute, hloop]
  cases resolve dotDot (names path) [] with
  | none => rfl
  | some kept => rfl

/-- No component holds a slash. -/
theorem notMem_of_mem_splitOn (path c : ByteString) (hc : c ∈ path.splitOn slash) : slash ∉ c := by
  induction hlength : path.length using Nat.strong_induction_on generalizing path with
  | _ n ih =>
    by_cases hslash : slash ∈ path
    · obtain ⟨front, back, rfl, hfront⟩ := List.eq_append_cons_of_mem hslash
      rw [List.splitOn_append_cons_self_of_not_mem hfront] at hc
      obtain rfl | hc := List.mem_cons.mp hc
      · exact hfront
      · refine ih back.length ?_ back hc rfl
        rw [← hlength, List.length_append, List.length_cons]
        omega
    · rw [List.splitOn_eq_singleton hslash] at hc
      rwa [List.mem_singleton.mp hc]

theorem intercalate_cons (a : ByteString) (kept : List ByteString) :
    [slash].intercalate (a :: kept) = a ++ joined kept := by
  induction kept generalizing a with
  | nil => simp [joined]
  | cons b rest ih =>
    rw [List.intercalate_cons_cons, ih b]
    simp [joined]

theorem splitOn_joined (kept : List ByteString) (hkept : ∀ c ∈ kept, slash ∉ c) :
    (joined kept).splitOn slash = [] :: kept := by
  have hjoined : joined kept = [slash].intercalate ([] :: kept) := by
    rw [intercalate_cons, List.nil_append]
  rw [hjoined]
  exact List.splitOn_intercalate slash (List.forall_mem_cons.mpr ⟨List.not_mem_nil, hkept⟩)
    (List.cons_ne_nil _ _)

/-- A component of a path in normal form. -/
structure Plain (c : ByteString) : Prop where
  ne : c ≠ []
  ne_dot : c ≠ dot
  ne_dotDot : c ≠ dotDot
  slash : slash ∉ c

theorem plain_of_resolve (path : ByteString) (kept : List ByteString)
    (h : resolve dotDot (names path) [] = some kept) : ∀ c ∈ kept, Plain c := by
  intro c hc
  have hup := ((resolve_iff dotDot (names path) kept).mp h).2
  have hname := (mem_of_resolve dotDot (names path) [] kept h c hc).resolve_left List.not_mem_nil
  obtain ⟨hcomp, hkept⟩ := List.mem_filter.mp hname
  obtain ⟨hne, hdot⟩ := of_decide_eq_true hkept
  exact ⟨hne, hdot, fun heq => hup (heq ▸ hc), notMem_of_mem_splitOn path c hcomp⟩

theorem names_joined (kept : List ByteString) (hkept : ∀ c ∈ kept, Plain c) :
    names (joined kept) = kept := by
  rw [names, splitOn_joined kept fun c hc => (hkept c hc).slash, List.filter_cons_of_neg (by simp),
    List.filter_eq_self]
  exact fun c hc => decide_eq_true ⟨(hkept c hc).ne, (hkept c hc).ne_dot⟩

/-- A path in normal form is its own. -/
theorem trimPath_joined (kept : List ByteString) (hkept : ∀ c ∈ kept, Plain c) :
    trimPath (joined kept) = some (joined kept) := by
  cases kept with
  | nil => rfl
  | cons c rest =>
    have hup : dotDot ∉ c :: rest := fun hmem => (hkept dotDot hmem).ne_dotDot rfl
    rw [trimPath_absolute _ rfl, names_joined _ hkept, resolve_of_notMem dotDot _ [] hup]
    rfl

/-- The trimmed form of an absolute path: it is empty when the path climbs above the root
or comes down to it, else the path of what is left of its components, which is in normal
form and stays as it is. -/
theorem trimPath_spec (path : ByteString) (habsolute : path.head? = some slash) :
    ∃ out, trimPath path = some out ∧
      (out = [] ↔ Climbs dotDot (names path) ∨
        Relation.ReflTransGen (Cancel dotDot) (names path) []) ∧
      (out ≠ [] → ∃ kept, Relation.ReflTransGen (Cancel dotDot) (names path) kept ∧
        dotDot ∉ kept ∧ out = joined kept) ∧
      (∀ c ∈ (out.splitOn slash).tail, c ≠ [] ∧ c ≠ dot ∧ c ≠ dotDot) ∧
      trimPath out = some out := by
  refine ⟨_, trimPath_absolute path habsolute, ?_⟩
  cases hresolve : resolve dotDot (names path) [] with
  | none =>
    have hclimbs := (resolve_none_iff_climbs dotDot (names path)).mp hresolve
    exact ⟨iff_of_true rfl (.inl hclimbs), fun hne => absurd rfl hne, by simp, rfl⟩
  | some kept =>
    have hplain := plain_of_resolve path kept hresolve
    obtain ⟨hcancels, hup⟩ := (resolve_iff dotDot (names path) kept).mp hresolve
    have hclimbs : ¬Climbs dotDot (names path) := by
      rw [← resolve_none_iff_climbs, hresolve]
      simp
    have hroot : Relation.ReflTransGen (Cancel dotDot) (names path) [] ↔ kept = [] := by
      constructor
      · intro hnil
        have hother := (resolve_iff dotDot (names path) []).mpr ⟨hnil, List.not_mem_nil⟩
        exact Option.some.inj (hresolve.symm.trans hother)
      · rintro rfl
        exact hcancels
    have hempty : joined kept = [] ↔ kept = [] := by
      cases kept <;> simp [joined]
    rw [Option.map_some, Option.getD_some]
    refine ⟨?_, fun _ => ⟨kept, hcancels, hup, rfl⟩, ?_, trimPath_joined kept hplain⟩
    · rw [hempty, hroot]
      exact (or_iff_right hclimbs).symm
    · rw [splitOn_joined kept fun c hc => (hplain c hc).slash]
      exact fun c hc => ⟨(hplain c hc).ne, (hplain c hc).ne_dot, (hplain c hc).ne_dotDot⟩

/-- `/a//./b/../c/`, which is trimmed to `/a/c`. -/
def untidyPath : ByteString :=
  [slash, 97, slash, slash, 46, slash, 98, slash, 46, 46, slash, 99, slash]

theorem trimPath_spec_untidy :
    ∃ out, trimPath untidyPath = some out ∧
      (out = [] ↔ Climbs dotDot (names untidyPath) ∨
        Relation.ReflTransGen (Cancel dotDot) (names untidyPath) []) ∧
      (out ≠ [] → ∃ kept, Relation.ReflTransGen (Cancel dotDot) (names untidyPath) kept ∧
        dotDot ∉ kept ∧ out = joined kept) ∧
      (∀ c ∈ (out.splitOn slash).tail, c ≠ [] ∧ c ≠ dot ∧ c ≠ dotDot) ∧
      trimPath out = some out :=
  trimPath_spec untidyPath rfl

end Absolute

section Options

def completeFullPath (cwd path : ByteString) : ByteString :=
  if path = [] ∨ path.head? ≠ some slash then cwd ++ slash :: path else path

theorem head_completeFullPath (cwd path : ByteString) (hcwd : cwd.head? = some slash) :
    (completeFullPath cwd path).head? = some slash := by
  unfold completeFullPath
  split
  · rw [List.head?_append, hcwd]
    rfl
  · next hwhole => exact not_not.mp (not_or.mp hwhole).2

theorem joined_concat (init : List ByteString) (name : ByteString) :
    joined (init ++ [name]) = joined init ++ slash :: name := by
  simp [joined]

theorem getLast_joined (kept : List ByteString) (hkept : ∀ c ∈ kept, Plain c) :
    (joined kept).getLast? ≠ some slash := by
  obtain rfl | ⟨init, name, rfl⟩ := List.eq_nil_or_concat' kept
  · simp [joined]
  · have hname := hkept name (by simp)
    obtain ⟨front, c, hlast⟩ := (List.eq_nil_or_concat' name).resolve_left hname.ne
    have hc : c ≠ slash := fun heq => hname.slash (by rw [hlast, heq]; simp)
    have hwhole : joined (init ++ [name]) = (joined init ++ slash :: front) ++ [c] := by
      rw [joined_concat, hlast]
      simp
    rw [hwhole, List.getLast?_concat]
    simpa using hc

/-- What the command line takes for a path is empty, or a full path as the filter of
files wants it. -/
theorem trimPath_fullPath (cwd optarg out : ByteString) (hcwd : cwd.head? = some slash)
    (h : trimPath (completeFullPath cwd optarg) = some out) (hne : out ≠ [])
    (hstar : FileFilters.star ∉ out) : ∃ p : FileFilters.FullPath, p.text = out := by
  rw [trimPath_absolute _ (head_completeFullPath cwd optarg hcwd)] at h
  obtain rfl := Option.some.inj h
  cases hresolve : resolve dotDot (names (completeFullPath cwd optarg)) [] with
  | none => exact absurd (by rw [hresolve]; rfl) hne
  | some kept =>
    rw [hresolve, Option.map_some, Option.getD_some] at hne hstar
    have hplain := plain_of_resolve _ kept hresolve
    obtain rfl | ⟨init, name, rfl⟩ := List.eq_nil_or_concat' kept
    · exact absurd rfl hne
    · obtain ⟨hinit, hname⟩ := List.forall_mem_append.mp hplain
      have hname := hname name (List.mem_singleton_self name)
      rw [joined_concat] at hstar
      have hhead : (joined init ++ slash :: name).head? = some slash := by
        cases init <;> simp [joined]
      exact ⟨⟨joined init, name, getLast_joined init hinit, hname.ne, hname.slash, hhead, hstar⟩,
        (joined_concat init name).symm⟩

end Options
end Gingko.TrimmedPaths
