import Gingko.AgentTasks
import Gingko.MachineRooms

/-!
Paths and their two parts. Three functions cut the slashes off the end of a path
and look for the last slash that is left. They agree on every path that can be
split, and they take a data path apart into the save path and the new name that
it was put together from.
-/
namespace Gingko.DataPaths

open Base64Codec AgentMessages AgentTasks MachineRooms

def slash : UInt8 := 47

/-- The loop over the slashes at the end. The index of the source is one less, so
zero is the index that has wrapped around. -/
def lastKept (path : ByteString) : ℕ → ℕ
  | 0 => 0
  | pos + 1 => if path[pos]? = some slash then lastKept path pos else pos + 1

def trimBackSlash (path : ByteString) : ByteString := path.take (lastKept path path.length)

/-- A slash at the very front is a directory of its own. -/
def parentAt (tmpPath : ByteString) (pos : ℕ) : ByteString :=
  if pos = 0 then [slash] else tmpPath.take pos

/-- The parent and the short name, if there are both. -/
def pathSlipt (path : ByteString) : Option (ByteString × ByteString) :=
  let tmpPath := trimBackSlash path
  match rfind [slash] tmpPath with
  | some pos =>
    if pos ≠ tmpPath.length - 1 then some (parentAt tmpPath pos, tmpPath.drop (pos + 1)) else none
  | none => none

def parentPath (path : ByteString) : ByteString :=
  let tmpPath := trimBackSlash path
  match rfind [slash] tmpPath with
  | some pos => parentAt tmpPath pos
  | none => []

def fileName (path : ByteString) : ByteString :=
  let tmpPath := trimBackSlash path
  match rfind [slash] tmpPath with
  | some pos => tmpPath.drop (pos + 1)
  | none => tmpPath

section Trims

theorem lastKept_slashes (front : ByteString) (n k : ℕ) (hk : k ≤ n) :
    lastKept (front ++ List.replicate n slash) (front.length + k) =
      lastKept (front ++ List.replicate n slash) front.length := by
  induction k with
  | zero => rfl
  | succ k ih =>
    have hat : (front ++ List.replicate n slash)[front.length + k]? = some slash := by
      rw [List.getElem?_append_right (by omega), Nat.add_sub_cancel_left,
        List.getElem?_replicate_of_lt (by omega)]
    rw [← Nat.add_assoc, lastKept, if_pos hat]
    exact ih (by omega)

theorem lastKept_front (front after : ByteString) (hfront : front.getLast? ≠ some slash) :
    lastKept (front ++ after) front.length = front.length := by
  rcases List.eq_nil_or_concat' front with rfl | ⟨init, c, rfl⟩
  · rfl
  · have hat : (init ++ [c] ++ after)[init.length]? = some c := by simp
    rw [List.length_append, List.length_singleton, lastKept, hat, if_neg (by simpa using hfront)]

/-- All the slashes at the end go, and nothing else. -/
theorem trimBackSlash_append (front : ByteString) (n : ℕ) (hfront : front.getLast? ≠ some slash) :
    trimBackSlash (front ++ List.replicate n slash) = front := by
  have hkept : lastKept (front ++ List.replicate n slash)
      (front ++ List.replicate n slash).length = front.length := by
    rw [List.length_append, List.length_replicate, lastKept_slashes front n n (le_refl n),
      lastKept_front front _ hfront]
  rw [trimBackSlash, hkept, List.take_left]

theorem trimBackSlash_self (path : ByteString) (h : path.getLast? ≠ some slash) :
    trimBackSlash path = path := by
  have happend := trimBackSlash_append path 0 h
  rwa [List.replicate_zero, List.append_nil] at happend

end Trims

/-- Where a path can be split, the other two functions give the same parts. -/
theorem pathSlipt_parts (path parent name : ByteString) (h : pathSlipt path = some (parent, name)) :
    parentPath path = parent ∧ fileName path = name := by
  simp only [pathSlipt, parentPath, fileName] at h ⊢
  split at h
  · split at h
    · obtain ⟨hparent, hname⟩ := Prod.mk.inj (Option.some.inj h)
      exact ⟨hparent, hname⟩
    · contradiction
  · contradiction

section Joined

variable (savePath newName : ByteString) (hsave : savePath ≠ []) (hname : newName ≠ [])
  (hslash : slash ∉ newName)

/-- The name at the end keeps the trimming from doing anything. -/
theorem trimBackSlash_dataPath (hname : newName ≠ []) (hslash : slash ∉ newName) :
    trimBackSlash (dataPath savePath newName) = savePath ++ slash :: newName := by
  apply trimBackSlash_self
  obtain ⟨init, c, rfl⟩ := (List.eq_nil_or_concat' newName).resolve_left hname
  have hc : c ≠ slash := by
    rintro rfl
    exact hslash (by simp)
  have hlast : (dataPath savePath (init ++ [c])).getLast? = some c := by
    simp [dataPath, List.getLast?_cons]
  rw [hlast]
  simpa using hc

include hsave in
theorem parentAt_joined : parentAt (savePath ++ slash :: newName) savePath.length = savePath := by
  have hlength : savePath.length ≠ 0 := fun h => hsave (List.length_eq_zero_iff.mp h)
  rw [parentAt, if_neg hlength, List.take_left]

theorem drop_joined : (savePath ++ slash :: newName).drop (savePath.length + 1) = newName := by
  simp

include hsave hname hslash in
theorem pathSlipt_dataPath : pathSlipt (dataPath savePath newName) = some (savePath, newName) := by
  have hfound := rfind_letter slash savePath newName hslash
  have htrimmed := trimBackSlash_dataPath savePath newName hname hslash
  have hpositive : 0 < newName.length := List.length_pos_iff.mpr hname
  simp only [pathSlipt, htrimmed, hfound, List.length_append, List.length_cons]
  rw [if_pos (by omega), parentAt_joined savePath newName hsave, drop_joined]

end Joined

/-- A data path is taken apart into what it was put together from, and on every path
that can be split the three functions agree. -/
theorem data_paths :
    (∀ savePath newName, savePath ≠ [] → newName ≠ [] → slash ∉ newName →
      parentPath (dataPath savePath newName) = savePath ∧
      fileName (dataPath savePath newName) = newName ∧
      pathSlipt (dataPath savePath newName) = some (savePath, newName)) ∧
    ∀ path parent name, pathSlipt path = some (parent, name) →
      parentPath path = parent ∧ fileName path = name := by
  refine ⟨?_, pathSlipt_parts⟩
  intro savePath newName hsave hname hslash
  have hsplit := pathSlipt_dataPath savePath newName hsave hname hslash
  obtain ⟨hparent, hfile⟩ := pathSlipt_parts _ _ _ hsplit
  exact ⟨hparent, hfile, hsplit⟩

/-- Under the root, and in a directory below it. -/
theorem data_paths_home :
    pathSlipt (dataPath [slash] [97]) = some ([slash], [97]) ∧
      parentPath (dataPath [slash, 104] [97, 98]) = [slash, 104] ∧
      fileName (dataPath [slash, 104] [97, 98]) = [97, 98] := by
  have hroot := data_paths.1 [slash] [97] (by simp) (by simp) (by simp [slash])
  have hbelow := data_paths.1 [slash, 104] [97, 98] (by simp) (by simp) (by simp [slash])
  exact ⟨hroot.2.2, hbelow.1, hbelow.2.1⟩

end Gingko.DataPaths
