import Gingko.DirectoryTrees
import Gingko.OutsideFiles
import Gingko.TrimmedPaths

/-!
Paths in a tree of directories, as the kernel reads them. A path starts at the root or at
the working directory, empty parts and dots stay where they are, and `mkdir` leaves out
the slashes at the end. What a path leads to, its lexical parent contains.
-/
namespace Gingko.FileSystems

open Base64Codec AgentTasks DataPaths OutsideFiles DirectoryTrees
open TrimmedPaths (dot dotDot)
open MachineRooms (rfind rfind_none rfind_letter)

def sIfdir : UInt32 := 0o040000

structure DirMode where
  stMode : UInt32
  typed : stMode &&& sIfmt = sIfdir

theorem DirMode.directoryBit (mode : DirMode) : mode.stMode &&& sIfdir ≠ 0 := by
  have hbits : mode.stMode &&& sIfdir = sIfdir &&& sIfdir := by
    nth_rewrite 2 [← mode.typed]
    rw [UInt32.and_assoc]
    rfl
  rw [hbits]
  decide

/-- Sockets and block devices have the bit of directories. -/
theorem directoryBit_stat_iff (stat : Stat) :
    stat.stMode &&& sIfdir ≠ 0 ↔ stat.kind = .socket ∨ stat.kind = .blockDevice := by
  have hbits : stat.stMode &&& sIfdir = stat.kind.bits &&& sIfdir := by
    rw [← stat.typed, UInt32.and_assoc]
    rfl
  rw [hbits]
  cases stat.kind <;> decide

structure FileSystem where
  tree : Tree ByteString DirMode Stat
  cwd : ℕ

def part (c : ByteString) : RoutePart ByteString :=
  if c = [] ∨ c = dot then .here else if c = dotDot then .up else .down c

def route (path : ByteString) : List (RoutePart ByteString) := (path.splitOn slash).map part

namespace FileSystem

def start (fs : FileSystem) (path : ByteString) : ℕ :=
  if path.head? = some slash then fs.tree.root else fs.cwd

/-- The node that a path leads to, links at its end included. -/
def find (fs : FileSystem) (path : ByteString) : Option ℕ :=
  if path = [] then none else fs.tree.walk fs.tree.links (fs.start path) (route path)

def IsDirectory (fs : FileSystem) (path : ByteString) : Prop :=
  ∃ i, fs.find path = some i ∧ fs.tree.IsDirectory i

def stMode (fs : FileSystem) (path : ByteString) : Option UInt32 :=
  match (fs.find path).bind fun i => fs.tree.nodes[i]? with
  | some (.directory mode _ _) => some mode.stMode
  | some (.other stat) => some stat.stMode
  | _ => none

/-- The name is what is left of the path without the slashes at the end. -/
def mkdir (fs : FileSystem) (mode : DirMode) (path : ByteString) : Option FileSystem :=
  let pieces := (trimBackSlash path).splitOn slash
  match part (pieces.getLastD []) with
  | .down name => (fs.tree.mkdir mode (fs.start path) (pieces.dropLast.map part) name).map
      fun tree => { fs with tree := tree }
  | _ => none

end FileSystem

section Routes

theorem route_append (front rest : ByteString) :
    route (front ++ slash :: rest) = route front ++ route rest := by
  rw [route, List.splitOn_append_cons_self, List.map_append, route, route]

theorem route_slashes (n : ℕ) : route (List.replicate n slash) = List.replicate (n + 1) .here := by
  induction n with
  | zero => rfl
  | succ n ih =>
    have hcons : List.replicate (n + 1) slash = [] ++ slash :: List.replicate n slash := rfl
    rw [hcons, route_append, ih]
    rfl

theorem route_append_slashes (front : ByteString) (n : ℕ) :
    route (front ++ List.replicate n slash) = route front ++ List.replicate n .here := by
  cases n with
  | zero => simp
  | succ n => rw [List.replicate_succ, route_append, route_slashes]

/-- Every path is its trimmed form and slashes. -/
theorem trimBackSlash_spec (path : ByteString) : ∃ n,
    path = trimBackSlash path ++ List.replicate n slash ∧
      (trimBackSlash path).getLast? ≠ some slash := by
  have hsplit : ∃ front n, path = front ++ List.replicate n slash ∧
      front.getLast? ≠ some slash := by
    induction path using List.reverseRecOn with
    | nil => exact ⟨[], 0, rfl, nofun⟩
    | append_singleton init c ih =>
      by_cases hc : c = slash
      · obtain ⟨front, n, hinit, hfront⟩ := ih
        refine ⟨front, n + 1, ?_, hfront⟩
        rw [hc, List.replicate_succ', ← List.append_assoc, ← hinit]
      · exact ⟨init ++ [c], 0, (List.append_nil _).symm, by simpa using hc⟩
  obtain ⟨front, n, rfl, hfront⟩ := hsplit
  rw [trimBackSlash_append front n hfront]
  exact ⟨n, rfl, hfront⟩

/-- The pieces of the trimmed path, and the slashes at the end. -/
theorem route_path (path : ByteString) : ∃ n,
    route path = ((trimBackSlash path).splitOn slash).dropLast.map part ++
      part (((trimBackSlash path).splitOn slash).getLastD []) :: List.replicate n .here := by
  obtain ⟨n, hpath, -⟩ := trimBackSlash_spec path
  have hne : (trimBackSlash path).splitOn slash ≠ [] := List.splitOn_ne_nil slash _
  have hpieces := List.dropLast_append_getLast hne
  refine ⟨n, ?_⟩
  rw [List.getLastD_eq_getLast?, List.getLast?_eq_some_getLast hne, Option.getD_some]
  nth_rewrite 1 [hpath]
  rw [route_append_slashes, route]
  nth_rewrite 1 [← hpieces]
  rw [List.map_append, List.append_assoc, List.map_singleton, List.singleton_append]

/-- A path without a slash between its parts has no parent, the others lose their last part. -/
theorem parentPath_cases (path : ByteString) :
    parentPath path = [] ∨ ∃ front name, trimBackSlash path = front ++ slash :: name ∧
      slash ∉ name ∧ name ≠ [] ∧ parentPath path = if front = [] then [slash] else front := by
  by_cases hslash : slash ∈ trimBackSlash path
  · obtain ⟨after, before, hreverse, hafter⟩ :=
      List.eq_append_cons_of_mem (List.mem_reverse.mpr hslash)
    have htrimmed : trimBackSlash path = before.reverse ++ slash :: after.reverse := by
      rw [← List.reverse_reverse (trimBackSlash path), hreverse]
      simp
    have hname : slash ∉ after.reverse := by simpa using hafter
    refine .inr ⟨before.reverse, after.reverse, htrimmed, hname, ?_, ?_⟩
    · intro hnil
      obtain ⟨n, -, hlast⟩ := trimBackSlash_spec path
      rw [htrimmed, hnil] at hlast
      simp at hlast
    · simp only [parentPath]
      rw [htrimmed, rfind_letter slash before.reverse after.reverse hname]
      simp only [parentAt, List.length_eq_zero_iff, List.take_left]
  · have hnone : rfind [slash] (trimBackSlash path) = none :=
      rfind_none _ _ fun hsub => hslash (hsub.mem (List.mem_singleton_self _))
    refine .inl ?_
    simp only [parentPath, hnone]

/-- The recursion over the parents comes to an end. -/
theorem parentPath_length_lt (path : ByteString) (h : parentPath path ≠ []) :
    (parentPath path).length < path.length := by
  obtain hnone | ⟨front, name, htrimmed, -, hname, hparent⟩ := parentPath_cases path
  · exact absurd hnone h
  · obtain ⟨n, hpath, -⟩ := trimBackSlash_spec path
    have hlength := congrArg List.length hpath
    have hpositive := List.length_pos_iff.mpr hname
    rw [htrimmed] at hlength
    simp only [List.length_append, List.length_cons] at hlength
    rw [hparent]
    split
    · rw [List.length_singleton]
      omega
    · omega

end Routes

section Laws

variable {fs fs' : FileSystem} {mode : DirMode} {path : ByteString}

theorem start_of_prefix {front rest : ByteString} (hfront : front ≠ []) :
    fs.start (front ++ rest) = fs.start front := by
  obtain ⟨c, tail, rfl⟩ := List.exists_cons_of_ne_nil hfront
  rfl

/-- A directory at the end of the front of a path is what its parent path names. -/
theorem isDirectory_front {front name : ByteString} {m : ℕ}
    (htrimmed : trimBackSlash path = front ++ slash :: name)
    (hfront : fs.tree.walk fs.tree.links (fs.start path) (route front) = some m)
    (hm : fs.tree.IsDirectory m) :
    fs.IsDirectory (if front = [] then [slash] else front) := by
  obtain ⟨n, hpath, -⟩ := trimBackSlash_spec path
  rw [htrimmed, List.append_assoc] at hpath
  split
  · rename_i hnil
    have hstart : fs.start path = fs.tree.root := by
      rw [hpath, hnil]
      rfl
    rw [hnil, hstart] at hfront
    have hroot : fs.tree.IsDirectory fs.tree.root := isDirectory_of_walk hfront
    exact ⟨fs.tree.root, walk_here hroot 2, hroot⟩
  · rename_i hne
    refine ⟨m, ?_, hm⟩
    rw [FileSystem.find, if_neg hne]
    rwa [hpath, start_of_prefix hne] at hfront

/-- A path that leads anywhere goes through its parent. -/
theorem find_parent {i : ℕ} (h : fs.find path = some i) (hparent : parentPath path ≠ []) :
    fs.IsDirectory (parentPath path) := by
  obtain hnone | ⟨front, name, htrimmed, hname, -, heq⟩ := parentPath_cases path
  · exact absurd hnone hparent
  · obtain ⟨n, hpath, -⟩ := trimBackSlash_spec path
    have hroute : route path = route front ++ part name :: List.replicate n .here := by
      rw [hpath, htrimmed, route_append_slashes, route_append, List.append_assoc]
      congr 1
      rw [route, List.splitOn_eq_singleton hname]
      rfl
    simp only [FileSystem.find, Option.ite_none_left_eq_some] at h
    obtain ⟨-, hwalk⟩ := h
    rw [hroute] at hwalk
    obtain ⟨m, k, hfront, hrest⟩ := walk_append hwalk
    rw [heq]
    exact isDirectory_front htrimmed hfront (isDirectory_of_walk hrest)

theorem exists_of_mkdir (h : fs.mkdir mode path = some fs') : ∃ name tree,
    part (((trimBackSlash path).splitOn slash).getLastD []) = .down name ∧
      fs.tree.mkdir mode (fs.start path)
        (((trimBackSlash path).splitOn slash).dropLast.map part) name = some tree ∧
      fs' = { fs with tree := tree } := by
  simp only [FileSystem.mkdir] at h
  split at h
  · rename_i name hpart
    obtain ⟨tree, htree, rfl⟩ := Option.map_eq_some_iff.mp h
    exact ⟨name, tree, hpart, htree, rfl⟩
  · contradiction

/-- What leads anywhere before leads there after. -/
theorem find_mkdir (h : fs.mkdir mode path = some fs') {other : ByteString} {i : ℕ}
    (hfind : fs.find other = some i) : fs'.find other = some i := by
  obtain ⟨name, tree, -, htree, rfl⟩ := exists_of_mkdir h
  simp only [FileSystem.find, Option.ite_none_left_eq_some] at hfind ⊢
  obtain ⟨hne, hwalk⟩ := hfind
  refine ⟨hne, ?_⟩
  rw [mkdir_links htree, FileSystem.start, mkdir_root htree]
  exact mkdir_walk htree hwalk

theorem find_eq_none_of_mkdir (h : fs.mkdir mode path = some fs') : fs.find path = none := by
  obtain ⟨name, tree, hpart, htree, rfl⟩ := exists_of_mkdir h
  obtain ⟨n, hroute⟩ := route_path path
  rw [FileSystem.find, hroute, hpart, mkdir_missing htree, ite_self]

theorem isDirectory_mkdir (h : fs.mkdir mode path = some fs') : fs'.IsDirectory path := by
  obtain ⟨name, tree, hpart, htree, rfl⟩ := exists_of_mkdir h
  obtain ⟨n, hroute⟩ := route_path path
  obtain ⟨i, hwalk, hi⟩ := mkdir_made htree n
  have hne : path ≠ [] := by
    rintro rfl
    contradiction
  refine ⟨i, ?_, hi⟩
  rw [FileSystem.find, if_neg hne, hroute, hpart, FileSystem.start, mkdir_root htree]
  exact hwalk

theorem mkdir_parent_isDirectory (h : fs.mkdir mode path = some fs')
    (hparent : parentPath path ≠ []) : fs.IsDirectory (parentPath path) := by
  obtain ⟨name, tree, hpart, htree, rfl⟩ := exists_of_mkdir h
  obtain hnone | ⟨front, last, htrimmed, hlast, -, heq⟩ := parentPath_cases path
  · exact absurd hnone hparent
  · have hpieces : (trimBackSlash path).splitOn slash = front.splitOn slash ++ [last] := by
      rw [htrimmed, List.splitOn_append_cons_self, List.splitOn_eq_singleton hlast]
    obtain ⟨d, hfront, hd⟩ := mkdir_parent htree
    rw [hpieces, List.dropLast_concat] at hfront
    rw [heq]
    exact isDirectory_front htrimmed hfront hd

end Laws
end Gingko.FileSystems
