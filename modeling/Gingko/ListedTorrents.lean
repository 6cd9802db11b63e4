import Gingko.TorrentTrees
import Mathlib.Algebra.GroupWithZero.Nat
import Mathlib.Data.List.Nodup

/-!
What the storage of a torrent holds. A directory tree is listed as its directories, links
and files, each by its names below the root; the root itself is named apart. Every file
finds its directory in the list, since the directory is listed before it, so no directory
gets the mode of a missing one.
-/
namespace Gingko.ListedTorrents

open Base64Codec TorrentPaths TorrentTrees

structure Directory where
  below : List ByteString
  mode : UInt32

structure Link where
  below : List ByteString
  target : ByteString
  mode : UInt32

structure File where
  below : List ByteString
  size : ℕ
  executable : Bool
  mode : UInt32

structure Listing where
  dirs : List Directory
  links : List Link
  files : List File

namespace Listing

def empty : Listing := ⟨[], [], []⟩

def append (a b : Listing) : Listing :=
  ⟨a.dirs ++ b.dirs, a.links ++ b.links, a.files ++ b.files⟩

@[simp] theorem append_dirs (a b : Listing) : (a.append b).dirs = a.dirs ++ b.dirs := rfl

@[simp] theorem append_links (a b : Listing) : (a.append b).links = a.links ++ b.links := rfl

@[simp] theorem append_files (a b : Listing) : (a.append b).files = a.files ++ b.files := rfl

def places (a : Listing) : List (List ByteString) := a.dirs.map Directory.below

def belows (a : Listing) : List (List ByteString) :=
  a.places ++ (a.links.map Link.below ++ a.files.map File.below)

@[simp] theorem append_empty (a : Listing) : a.append .empty = a := by
  simp [append, empty]

theorem append_assoc (a b c : Listing) : (a.append b).append c = a.append (b.append c) := by
  simp [append]

@[simp] theorem places_append (a b : Listing) : (a.append b).places = a.places ++ b.places := by
  simp [places]

theorem mem_belows_append (a b : Listing) (d : List ByteString) :
    d ∈ (a.append b).belows ↔ d ∈ a.belows ∨ d ∈ b.belows := by
  simp only [belows, places_append, append_links, append_files, List.map_append, List.mem_append]
  tauto

theorem not_mem_belows_empty (d : List ByteString) : d ∉ empty.belows := by
  simp [belows, places, empty]

end Listing

def File.attributes (f : File) : Attributes := ⟨false, false, f.executable, false⟩

def totalOf : List File → ℕ
  | [] => 0
  | f :: rest => f.size + totalOf rest

theorem totalOf_concat (files : List File) (f : File) :
    totalOf (files ++ [f]) = totalOf files + f.size := by
  induction files with
  | nil => simp [totalOf]
  | cons g rest ih => simp only [List.cons_append, totalOf, ih, Nat.add_assoc]

/-- The entry of a file, whose directory is looked up among the places of the directories. -/
def entryOf (root : ByteString) (places : List (List ByteString)) (offset : ℕ) (f : File) :
    InternalFileEntry :=
  match f.below.getLast? with
  | none => ⟨root, .ofNat 48 offset, .ofNat 48 f.size, f.attributes, [], f.mode, -1, false⟩
  | some name =>
    ⟨name, .ofNat 48 offset, .ofNat 48 f.size, f.attributes, [], f.mode,
      places.idxOf f.below.dropLast, true⟩

def entriesOf (root : ByteString) (places : List (List ByteString)) :
    ℕ → List File → List InternalFileEntry
  | _, [] => []
  | offset, f :: rest =>
    entryOf root places offset f :: entriesOf root places (offset + f.size) rest

theorem entriesOf_append (root : ByteString) (places : List (List ByteString)) (offset : ℕ)
    (files : List File) (f : File) :
    entriesOf root places offset (files ++ [f]) =
      entriesOf root places offset files ++
        [entryOf root places (offset + totalOf files) f] := by
  induction files generalizing offset with
  | nil => rfl
  | cons g rest ih => simp [entriesOf, totalOf, ih, Nat.add_assoc]

/-- A file comes after the sizes of those before it. -/
theorem entriesOf_getElem? (root : ByteString) (places : List (List ByteString)) (offset : ℕ)
    (files : List File) (i : ℕ) :
    (entriesOf root places offset files)[i]? =
      files[i]?.map (entryOf root places (offset + totalOf (files.take i))) := by
  induction files generalizing offset i with
  | nil => simp [entriesOf]
  | cons f rest ih =>
    cases i with
    | zero => simp [entriesOf, totalOf]
    | succ i => simp [entriesOf, totalOf, ih, Nat.add_assoc]

theorem totalOf_take (files : List File) (i : ℕ) (f : File) (h : files[i]? = some f) :
    totalOf (files.take i) + f.size ≤ totalOf files := by
  induction files generalizing i with
  | nil => simp at h
  | cons g rest ih =>
    cases i with
    | zero =>
      obtain rfl : g = f := by simpa using h
      simp [totalOf]
    | succ i =>
      have hrest := ih i (by simpa using h)
      simp only [List.take_succ_cons, totalOf]
      omega

theorem entriesOf_eq_nil (root : ByteString) (places : List (List ByteString)) (offset : ℕ)
    (files : List File) : entriesOf root places offset files = [] ↔ files = [] := by
  cases files <;> simp [entriesOf]

/-- The directory of the file is in the list, if it has one. -/
def Placed (places : List (List ByteString)) (f : File) : Prop :=
  f.below = [] ∨ f.below.dropLast ∈ places

theorem Placed.append {places : List (List ByteString)} {f : File} (h : Placed places f)
    (more : List (List ByteString)) : Placed (places ++ more) f := by
  obtain hnil | hmem := h
  · exact .inl hnil
  · exact .inr (List.mem_append_left more hmem)

theorem entryOf_places (root : ByteString) (places more : List (List ByteString))
    (offset : ℕ) (f : File) (h : Placed places f) :
    entryOf root (places ++ more) offset f = entryOf root places offset f := by
  unfold entryOf
  obtain hnil | hmem := h
  · rw [hnil]
    rfl
  · cases f.below.getLast? with
    | none => rfl
    | some name => simp only [List.idxOf_append_of_mem hmem]

theorem entriesOf_places (root : ByteString) (places more : List (List ByteString))
    (offset : ℕ) (files : List File) (h : ∀ f ∈ files, Placed places f) :
    entriesOf root (places ++ more) offset files = entriesOf root places offset files := by
  induction files generalizing offset with
  | nil => rfl
  | cons f rest ih =>
    simp only [entriesOf]
    rw [entryOf_places root places more offset f (h f List.mem_cons_self),
      ih _ (fun g hg => h g (List.mem_cons_of_mem f hg))]

/-- Every name below the root is clean, the directories are different ones, and each file
has its directory among them. -/
structure Ordered (a : Listing) : Prop where
  cleanDirs : ∀ d ∈ a.places, ∀ n ∈ d, Clean n
  nodup : a.places.Nodup
  placed : ∀ f ∈ a.files, Placed a.places f

structure Holds (root : ByteString) (a : Listing) (fs : FileStorage) : Prop where
  ordered : Ordered a
  paths : fs.paths = a.places.map (directoryOf root)
  pathsMode : fs.pathsMode = a.dirs.map Directory.mode
  symlinksEx : fs.symlinksEx = a.links.map fun l => ⟨l.mode, pathOf root l.below, l.target⟩
  files : fs.files = entriesOf root a.places 0 a.files
  totalSize : fs.totalSize = Int64.ofNat (totalOf a.files)
  named : a.files ≠ [] → fs.name = root

variable {root : ByteString} {a : Listing} {fs : FileStorage}

theorem holds_empty (root : ByteString) : Holds root .empty .empty where
  ordered := ⟨by simp [Listing.places, Listing.empty], by simp [Listing.places, Listing.empty],
    by simp [Listing.empty]⟩
  paths := rfl
  pathsMode := rfl
  symlinksEx := rfl
  files := rfl
  totalSize := rfl
  named h := absurd rfl h

/-- A storage is what it holds, and its name. -/
theorem Holds.unique {fs fs' : FileStorage} (h : Holds root a fs) (h' : Holds root a fs')
    (hname : fs.name = fs'.name) : fs = fs' := by
  obtain ⟨files, paths, pathsMode, symlinksEx, name, totalSize⟩ := fs
  obtain ⟨files', paths', pathsMode', symlinksEx', name', totalSize'⟩ := fs'
  obtain rfl : name = name' := hname
  obtain ⟨-, hpaths, hmodes, hlinks, hfiles, htotal, -⟩ := h
  obtain ⟨-, hpaths', hmodes', hlinks', hfiles', htotal', -⟩ := h'
  simp only at hpaths hmodes hlinks hfiles htotal hpaths' hmodes' hlinks' hfiles' htotal'
  rw [hpaths, hmodes, hlinks, hfiles, htotal, hpaths', hmodes', hlinks', hfiles', htotal']

theorem Holds.rename (h : Holds root a fs) (name : ByteString)
    (hname : a.files ≠ [] → name = root) :
    Holds root a { fs with name } :=
  ⟨h.ordered, h.paths, h.pathsMode, h.symlinksEx, h.files, h.totalSize, hname⟩

theorem directoryOf_injective (hroot : Clean root) {b c : List ByteString}
    (hb : ∀ n ∈ b, Clean n) (hc : ∀ n ∈ c, Clean n) (h : directoryOf root b = directoryOf root c) :
    b = c := by
  have hsplit := congrArg splitPath h
  rw [splitPath_directoryOf root b hroot hb, splitPath_directoryOf root c hroot hc] at hsplit
  exact (List.cons.inj hsplit).2

theorem directoryOf_mem_iff (hroot : Clean root) (h : Holds root a fs) {b : List ByteString}
    (hb : ∀ n ∈ b, Clean n) : directoryOf root b ∈ fs.paths ↔ b ∈ a.places := by
  rw [h.paths, List.mem_map]
  constructor
  · intro hmem
    obtain ⟨c, hc, heq⟩ := hmem
    rwa [← directoryOf_injective hroot (h.ordered.cleanDirs c hc) hb heq]
  · intro hmem
    exact ⟨b, hmem, rfl⟩

theorem Holds.addPath (hroot : Clean root) (h : Holds root a fs) (d : Directory)
    (hclean : ∀ n ∈ d.below, Clean n) (hnew : d.below ∉ a.places) :
    Holds root (a.append ⟨[d], [], []⟩) (fs.addPath (directoryOf root d.below) d.mode) := by
  have hne : directoryOf root d.below ≠ [] := by simp [directoryOf]
  unfold FileStorage.addPath
  have hcontains : fs.paths.contains (directoryOf root d.below) = false := by
    rw [List.contains_eq_mem, decide_eq_false_iff_not, directoryOf_mem_iff hroot h hclean]
    exact hnew
  rw [if_pos ⟨hne, by rw [hcontains]; rfl⟩]
  constructor
  · constructor
    · intro c hc
      rw [Listing.places_append] at hc
      obtain hold | hone := List.mem_append.mp hc
      · exact h.ordered.cleanDirs c hold
      · rw [List.mem_singleton.mp hone]
        exact hclean
    · rw [Listing.places_append]
      exact List.Nodup.append h.ordered.nodup (List.nodup_singleton _)
        (fun c hold hone => hnew (List.mem_singleton.mp hone ▸ hold))
    · intro f hf
      have hold : f ∈ a.files := by simpa using hf
      rw [Listing.places_append]
      exact (h.ordered.placed f hold).append _
  · simp [h.paths, Listing.places]
  · simp [h.pathsMode]
  · simpa using h.symlinksEx
  · rw [Listing.places_append]
    simp only [Listing.append_files, List.append_nil]
    rw [entriesOf_places root a.places _ 0 a.files h.ordered.placed]
    exact h.files
  · simpa using h.totalSize
  · simpa using h.named

theorem Ordered.addLinks (h : Ordered a) (links : List Link) :
    Ordered (a.append ⟨[], links, []⟩) where
  cleanDirs := by simpa [Listing.places] using h.cleanDirs
  nodup := by simpa [Listing.places] using h.nodup
  placed := by simpa [Listing.places] using h.placed

theorem Holds.addSymlink (hroot : Clean root) (h : Holds root a fs) (l : Link)
    (hclean : ∀ n ∈ l.below, Clean n) :
    Holds root (a.append ⟨[], if l.target = [] then [] else [l], []⟩)
      (fs.addSymlink (pathOf root l.below) l.target l.mode) := by
  have hne := (pathOf_named root l.below hroot.named fun n hn => (hclean n hn).named).1.1
  unfold FileStorage.addSymlink
  by_cases htarget : l.target = []
  · rw [if_pos (Or.inr htarget), if_pos htarget]
    have hsame : a.append ⟨[], [], []⟩ = a := a.append_empty
    rwa [hsame]
  · rw [if_neg (not_or.mpr ⟨hne, htarget⟩), if_neg htarget]
    refine ⟨h.ordered.addLinks [l], ?_, ?_, ?_, ?_, ?_, ?_⟩
    · simpa [Listing.places] using h.paths
    · simpa using h.pathsMode
    · simp [h.symlinksEx]
    · simpa [Listing.places] using h.files
    · simpa using h.totalSize
    · simpa using h.named

/-- Found from the end, it is the same place as found from the front. -/
theorem findPath_of_mem (hroot : Clean root) (h : Holds root a fs) {b : List ByteString}
    (hmem : b ∈ a.places) : fs.findPath (directoryOf root b) = some (a.places.idxOf b) := by
  have hb := h.ordered.cleanDirs b hmem
  obtain ⟨front, back, hplaces⟩ := List.append_of_mem hmem
  have hnodup := h.ordered.nodup
  rw [hplaces] at hnodup
  have hfront : b ∉ front := by
    intro hin
    exact (List.disjoint_of_nodup_append hnodup) hin List.mem_cons_self
  have hback : b ∉ back := by
    intro hin
    exact (List.nodup_cons.mp (List.Nodup.of_append_right hnodup)).1 hin
  have hpath : directoryOf root b ∉ back.map (directoryOf root) := by
    intro hin
    obtain ⟨c, hc, heq⟩ := List.mem_map.mp hin
    have hclean := h.ordered.cleanDirs c (by rw [hplaces]; simp [hc])
    exact hback (directoryOf_injective hroot hclean hb heq ▸ hc)
  have hidx : a.places.idxOf b = front.length := by
    rw [hplaces, List.idxOf_append_of_notMem hfront, List.idxOf_cons_self, Nat.add_zero]
  have hreverse : fs.paths.reverse = (back.map (directoryOf root)).reverse ++
      directoryOf root b :: (front.map (directoryOf root)).reverse := by
    rw [h.paths, hplaces]
    simp
  have hfound : fs.paths.reverse.idxOf? (directoryOf root b) = some back.length := by
    rw [hreverse, List.idxOf?_eq_some_iff]
    refine ⟨by simp, by simp, ?_⟩
    intro j hj
    rw [List.getElem_append_left (by simpa using hj)]
    intro heq
    apply hpath
    rw [← List.mem_reverse, ← heq]
    exact List.getElem_mem _
  unfold FileStorage.findPath
  rw [hfound, hidx, h.paths, hplaces]
  simp

theorem Holds.updatePathIndex (hroot : Clean root) (h : Holds root a fs) (f : File)
    (hclean : ∀ n ∈ f.below, Clean n) (hplaced : Placed a.places f) (offset : ℕ) :
    fs.updatePathIndex ⟨pathOf root f.below, .ofNat 48 offset, .ofNat 48 f.size, f.attributes, [],
        f.mode, -1, false⟩ = (fs, entryOf root a.places offset f) := by
  unfold FileStorage.updatePathIndex
  simp only [isComplete_pathOf root f.below hroot, Bool.false_eq_true, if_false]
  cases hbelow : f.below using List.reverseRecOn with
  | nil =>
    have hparent : parentPath (pathOf root []) = [] := by
      rw [pathOf_nil]
      exact parentPath_name hroot
    simp only [hparent, if_true]
    unfold entryOf
    rw [hbelow, pathOf_nil]
    rfl
  | append_singleton init name =>
    have hname : Clean name := hclean name (by simp [hbelow])
    have hmem : init ∈ a.places := by
      obtain hnil | hmem := hplaced
      · simp [hbelow] at hnil
      · simpa [hbelow] using hmem
    have hne : directoryOf root init ≠ [] := by simp [directoryOf]
    simp only [parentPath_pathOf root init hname, if_neg hne, findPath_of_mem hroot h hmem,
      filename_pathOf root init hname]
    unfold entryOf
    simp [hbelow]

theorem Ordered.addFile (h : Ordered a) (f : File) (hplaced : Placed a.places f) :
    Ordered (a.append ⟨[], [], [f]⟩) where
  cleanDirs := by simpa [Listing.places] using h.cleanDirs
  nodup := by simpa [Listing.places] using h.nodup
  placed g hg := by
    obtain hold | hone := List.mem_append.mp hg
    · simpa [Listing.places] using h.placed g hold
    · rw [List.mem_singleton.mp hone]
      simpa [Listing.places] using hplaced

theorem toField_ofNat (n : ℕ) : toField (Int64.ofNat n) = BitVec.ofNat 48 n := by
  unfold toField
  rw [Int64.toBitVec_ofNat']
  exact BitVec.setWidth_ofNat_of_le (by decide) n

/-- The field keeps what fits into it. -/
theorem ofField_ofNat (n : ℕ) (h : n < 2 ^ 48) : ofField (BitVec.ofNat 48 n) = Int64.ofNat n := by
  unfold ofField
  apply Int64.toBitVec_inj.mp
  rw [Int64.toBitVec_ofBitVec, Int64.toBitVec_ofNat']
  apply BitVec.eq_of_toNat_eq
  simp only [BitVec.toNat_setWidth, BitVec.toNat_ofNat]
  omega

theorem ofNat_nonneg (n : ℕ) (h : n < 2 ^ 48) : 0 ≤ Int64.ofNat n := by
  have hvalue : (Int64.ofNat n).toInt = n := Int64.toInt_ofNat_of_lt (by omega)
  rw [Int64.le_iff_toInt_le, hvalue]
  exact Int.natCast_nonneg n

theorem Holds.pushFile (hroot : Clean root) (h : Holds root a fs) (f : File)
    (hclean : ∀ n ∈ f.below, Clean n) (hplaced : Placed a.places f) (hnamed : fs.name = root) :
    Holds root (a.append ⟨[], [], [f]⟩)
      (fs.pushFile ⟨pathOf root f.below, .ofNat f.size, f.attributes, [], f.mode⟩
        (.ofNat f.size)) := by
  unfold FileStorage.pushFile
  simp only [h.totalSize, toField_ofNat, h.updatePathIndex hroot f hclean hplaced]
  refine ⟨h.ordered.addFile f hplaced, ?_, ?_, ?_, ?_, ?_, fun _ => hnamed⟩
  · simpa [Listing.places] using h.paths
  · simpa using h.pathsMode
  · simpa using h.symlinksEx
  · have hplaces : (a.append ⟨[], [], [f]⟩).places = a.places := by simp [Listing.places]
    rw [hplaces, Listing.append_files, entriesOf_append, h.files, Nat.zero_add]
  · rw [Listing.append_files, totalOf_concat, Int64.ofNat_add]

/-- Whatever is added next, the storage is named by the root. -/
theorem Holds.nameBy (hroot : Clean root) (h : Holds root a fs) (below : List ByteString)
    (hclean : ∀ n ∈ below, Clean n) :
    Holds root a (fs.nameBy (pathOf root below)) ∧ (fs.nameBy (pathOf root below)).name = root := by
  unfold FileStorage.nameBy
  cases hbelow : below using List.reverseRecOn with
  | nil =>
    rw [pathOf_nil]
    simp only [hasParentPath_name hroot, Bool.not_false, if_true]
    exact ⟨h.rename root (fun _ => rfl), trivial⟩
  | append_singleton init name =>
    have hname : Clean name := hclean name (by simp [hbelow])
    simp only [hasParentPath_pathOf root init hname, Bool.not_true, Bool.false_eq_true, if_false]
    rw [← hbelow, pathElements_pathOf root below hroot hclean]
    by_cases hfiles : fs.files = []
    · rw [if_pos hfiles]
      exact ⟨h.rename root (fun _ => rfl), rfl⟩
    · rw [if_neg hfiles]
      refine ⟨h, h.named ?_⟩
      intro hnil
      apply hfiles
      rw [h.files, hnil]
      rfl

theorem Holds.addFileEntry (hroot : Clean root) (h : Holds root a fs) (f : File)
    (hclean : ∀ n ∈ f.below, Clean n) (hplaced : Placed a.places f) (hsize : f.size < 2 ^ 48) :
    Holds root (a.append ⟨[], [], [f]⟩)
      (fs.addFileEntry ⟨pathOf root f.below, .ofNat f.size, f.attributes, [], f.mode⟩) := by
  obtain ⟨hnext, hnamed⟩ := h.nameBy hroot f.below hclean
  unfold FileStorage.addFileEntry
  rw [toField_ofNat, ofField_ofNat f.size hsize]
  exact hnext.pushFile hroot f hclean hplaced hnamed

theorem Holds.addFile (hroot : Clean root) (h : Holds root a fs) (f : File)
    (hclean : ∀ n ∈ f.below, Clean n) (hplaced : Placed a.places f) (hsize : f.size < 2 ^ 48) :
    Holds root (a.append ⟨[], [], [f]⟩)
      (fs.addFile (pathOf root f.below) (.ofNat f.size) f.attributes [] f.mode) := by
  obtain ⟨hnext, hnamed⟩ := h.nameBy hroot f.below hclean
  have hkept : ¬ Int64.ofNat f.size < 0 := Int64.not_lt.mpr (ofNat_nonneg f.size hsize)
  unfold FileStorage.addFile
  rw [if_neg hkept]
  exact hnext.pushFile hroot f hclean hplaced hnamed

theorem Holds.addLink (hroot : Clean root) (h : Holds root a fs) (l : Link)
    (hclean : ∀ n ∈ l.below, Clean n) (size : Int64) (executable : Bool) :
    Holds root (a.append ⟨[], if l.target = [] then [] else [l], []⟩)
      (fs.addFile (pathOf root l.below) size ⟨false, false, executable, true⟩ l.target l.mode) := by
  obtain ⟨hnext, -⟩ := h.nameBy hroot l.below hclean
  exact hnext.addSymlink hroot l hclean

section Trees

variable (keep : List ByteString → Bool)

mutual

/-- What the tree at `below` adds, where the filter is asked about names below the root. -/
def listNode (below : List ByteString) : Node → Listing
  | .file size stMode =>
    if !keep below then .empty
    else ⟨[], [], [⟨below, size.toNatClampNeg, stMode &&& sIxusr ≠ 0, stMode &&& 0o777⟩]⟩
  | .link target stMode =>
    if !keep below then .empty
    else
      let l : Link := ⟨below, getSymlinkPath target, stMode &&& 0o777⟩
      ⟨[], if l.target = [] then [] else [l], []⟩
  | .directory stMode entries =>
    if !keep below then .empty
    else (⟨[⟨below, stMode &&& 0o777⟩], [], []⟩ : Listing).append (listEntries below entries)
  | .other => .empty
  | .missing => .empty

def listEntries (below : List ByteString) : Entries → Listing
  | .nil => .empty
  | .cons leaf node rest =>
    if ignoreSubdir leaf then listEntries below rest
    else (listNode (below ++ [leaf]) node).append (listEntries below rest)

end

def leaves : Entries → List ByteString
  | .nil => []
  | .cons leaf _ rest => if ignoreSubdir leaf then leaves rest else leaf :: leaves rest

mutual

/-- Names are clean and differ within a directory, targets are encoded well, and the size of a
file fits into its field. -/
def CleanNode : Node → Prop
  | .file size _ => 0 ≤ size ∧ size.toNatClampNeg < 2 ^ 48
  | .link target _ => verifyEncoding target = target
  | .directory _ entries => CleanEntries entries
  | .other => True
  | .missing => True

def CleanEntries : Entries → Prop
  | .nil => True
  | .cons leaf node rest =>
    if ignoreSubdir leaf then CleanEntries rest
    else Clean leaf ∧ CleanNode node ∧ leaf ∉ leaves rest ∧ CleanEntries rest

end

variable {keep}

mutual

/-- Everything that is listed lies below. -/
theorem listNode_below (below : List ByteString) (node : Node) :
    ∀ d ∈ (listNode keep below node).belows, below <+: d := by
  match node with
  | .file size stMode =>
    intro d hd
    simp only [listNode] at hd
    split at hd
    · exact absurd hd (Listing.not_mem_belows_empty d)
    · obtain rfl : d = below := by simpa [Listing.belows, Listing.places] using hd
      exact List.prefix_rfl
  | .link target stMode =>
    intro d hd
    simp only [listNode] at hd
    split at hd
    · exact absurd hd (Listing.not_mem_belows_empty d)
    · split at hd
      · exact absurd hd (Listing.not_mem_belows_empty d)
      · obtain rfl : d = below := by simpa [Listing.belows, Listing.places] using hd
        exact List.prefix_rfl
  | .directory stMode entries =>
    intro d hd
    simp only [listNode] at hd
    split at hd
    · exact absurd hd (Listing.not_mem_belows_empty d)
    · obtain hone | hin := (Listing.mem_belows_append _ _ d).mp hd
      · obtain rfl : d = below := by simpa [Listing.belows, Listing.places] using hone
        exact List.prefix_rfl
      · obtain ⟨leaf, -, hleaf⟩ := listEntries_below below entries d hin
        exact (List.prefix_append below [leaf]).trans hleaf
  | .other =>
    intro d hd
    exact absurd hd (Listing.not_mem_belows_empty d)
  | .missing =>
    intro d hd
    exact absurd hd (Listing.not_mem_belows_empty d)

theorem listEntries_below (below : List ByteString) (entries : Entries) :
    ∀ d ∈ (listEntries keep below entries).belows,
      ∃ leaf ∈ leaves entries, below ++ [leaf] <+: d := by
  match entries with
  | .nil =>
    intro d hd
    exact absurd hd (Listing.not_mem_belows_empty d)
  | .cons leaf node rest =>
    intro d hd
    simp only [listEntries, leaves] at hd ⊢
    split at hd
    · next hignored =>
      rw [if_pos hignored]
      exact listEntries_below below rest d hd
    · next hkept =>
      rw [if_neg hkept]
      obtain hnode | hrest := (Listing.mem_belows_append _ _ d).mp hd
      · exact ⟨leaf, List.mem_cons_self, listNode_below (below ++ [leaf]) node d hnode⟩
      · obtain ⟨other, hother, hprefix⟩ := listEntries_below below rest d hrest
        exact ⟨other, List.mem_cons_of_mem leaf hother, hprefix⟩

end

theorem listEntries_not_below (below : List ByteString) (entries : Entries) :
    below ∉ (listEntries keep below entries).belows := by
  intro hmem
  obtain ⟨leaf, -, hprefix⟩ := listEntries_below below entries below hmem
  have hlength := hprefix.length_le
  rw [List.length_append, List.length_singleton] at hlength
  omega

mutual

theorem listNode_nodup (below : List ByteString) (node : Node) (hclean : CleanNode node) :
    (listNode keep below node).places.Nodup := by
  match node with
  | .file size stMode =>
    simp only [listNode]
    split <;> exact List.nodup_nil
  | .link target stMode =>
    simp only [listNode]
    split <;> exact List.nodup_nil
  | .directory stMode entries =>
    simp only [listNode]
    split
    · exact List.nodup_nil
    · rw [Listing.places_append]
      refine List.nodup_cons.mpr ⟨?_, listEntries_nodup below entries hclean⟩
      intro hmem
      exact listEntries_not_below below entries (List.mem_append_left _ hmem)
  | .other => exact List.nodup_nil
  | .missing => exact List.nodup_nil

theorem listEntries_nodup (below : List ByteString) (entries : Entries)
    (hclean : CleanEntries entries) : (listEntries keep below entries).places.Nodup := by
  match entries with
  | .nil => exact List.nodup_nil
  | .cons leaf node rest =>
    simp only [listEntries, CleanEntries] at hclean ⊢
    split
    · next hignored =>
      rw [if_pos hignored] at hclean
      exact listEntries_nodup below rest hclean
    · next hkept =>
      rw [if_neg hkept] at hclean
      obtain ⟨-, hnode, hnew, hrest⟩ := hclean
      rw [Listing.places_append]
      refine List.Nodup.append (listNode_nodup _ node hnode) (listEntries_nodup below rest hrest) ?_
      -- two entries of one directory have no path in common
      intro d hd hother
      have hfirst := listNode_below (below ++ [leaf]) node d (List.mem_append_left _ hd)
      obtain ⟨other, hmem, hsecond⟩ :=
        listEntries_below below rest d (List.mem_append_left _ hother)
      have hsame : below ++ [leaf] = below ++ [other] :=
        (List.prefix_of_prefix_length_le hfirst hsecond (by simp)).eq_of_length (by simp)
      obtain rfl : leaf = other := by simpa using hsame
      exact hnew hmem

end

variable {pred : ByteString → Bool} {p root : ByteString} {a : Listing} {fs : FileStorage}

theorem Holds.nameOf (h : Holds root a fs) (l : ByteString) :
    Holds root a (TorrentTrees.nameOf l fs) := by
  unfold TorrentTrees.nameOf
  split
  · next hempty =>
    refine h.rename l (fun hsome => absurd ?_ hsome)
    rw [h.files] at hempty
    exact (entriesOf_eq_nil _ _ _ _).mp hempty
  · exact h

theorem clean_letterX : Clean letterX := by decide +kernel

mutual

/-- Adding the tree at `below` adds what it lists. -/
theorem addFilesImpl_holds (hroot : Clean root) (a : Listing) (fs : FileStorage)
    (below : List ByteString) (node : Node)
    (hkeep : ∀ below, keep below = pred (combinePath p (pathOf root below)))
    (hbelow : ∀ n ∈ below, Clean n) (hnode : CleanNode node) (h : Holds root a fs)
    (hplaced : below = [] ∨ below.dropLast ∈ a.places)
    (hnodup : (a.append (listNode keep below node)).places.Nodup) :
    Holds root (a.append (listNode keep below node))
      (addFilesImpl pred p (pathOf root below) fs node) := by
  match node with
  | .file size stMode =>
    simp only [listNode, addFilesImpl, ← hkeep]
    split
    · rwa [Listing.append_empty]
    · have hadded := h.addFile hroot
        ⟨below, size.toNatClampNeg, stMode &&& sIxusr ≠ 0, stMode &&& 0o777⟩ hbelow hplaced hnode.2
      rw [Int64.ofNat_toNatClampNeg size hnode.1] at hadded
      exact hadded.nameOf _
  | .link target stMode =>
    simp only [listNode, addFilesImpl, ← hkeep]
    split
    · rwa [Listing.append_empty]
    · have hadded := h.addLink hroot ⟨below, getSymlinkPath target, stMode &&& 0o777⟩ hbelow 0
        (stMode &&& sIxusr ≠ 0)
      exact hadded.nameOf _
  | .directory stMode entries =>
    simp only [listNode, addFilesImpl, ← hkeep] at hnodup ⊢
    split
    · rwa [Listing.append_empty]
    · next hkept =>
      rw [if_neg hkept, ← Listing.append_assoc] at hnodup
      have hnew : below ∉ a.places := by
        rw [Listing.append_assoc, Listing.places_append] at hnodup
        intro hmem
        exact (List.disjoint_of_nodup_append hnodup) hmem (by simp [Listing.places])
      have hadded := h.addPath hroot ⟨below, stMode &&& 0o777⟩ hbelow hnew
      rw [combinePath_pathOf root below hroot hbelow clean_letterX,
        parentPath_pathOf root below clean_letterX, ← Listing.append_assoc]
      exact ((addEntries_holds hroot _ _ below entries hkeep hbelow hnode hadded
        (by simp [Listing.places]) hnodup).nameOf _)
  | .other =>
    simp only [listNode, addFilesImpl]
    rw [Listing.append_empty]
    split
    · exact h
    · exact h.nameOf _
  | .missing =>
    simp only [listNode, addFilesImpl]
    rwa [Listing.append_empty]

theorem addEntries_holds (hroot : Clean root) (a : Listing) (fs : FileStorage)
    (below : List ByteString) (entries : Entries)
    (hkeep : ∀ below, keep below = pred (combinePath p (pathOf root below)))
    (hbelow : ∀ n ∈ below, Clean n) (hentries : CleanEntries entries) (h : Holds root a fs)
    (hplaced : below ∈ a.places)
    (hnodup : (a.append (listEntries keep below entries)).places.Nodup) :
    Holds root (a.append (listEntries keep below entries))
      (addEntries pred p (pathOf root below) fs entries) := by
  match entries with
  | .nil =>
    simp only [listEntries, addEntries]
    rwa [Listing.append_empty]
  | .cons leaf node rest =>
    simp only [listEntries, addEntries, CleanEntries] at hentries hnodup ⊢
    split
    · next hignored =>
      rw [if_pos hignored] at hentries hnodup
      exact addEntries_holds hroot _ _ below rest hkeep hbelow hentries h hplaced hnodup
    · next hkept =>
      rw [if_neg hkept] at hentries hnodup
      obtain ⟨hleaf, hnode, -, hrest⟩ := hentries
      rw [← Listing.append_assoc] at hnodup ⊢
      rw [combinePath_pathOf root below hroot hbelow hleaf]
      have hnames : ∀ n ∈ below ++ [leaf], Clean n := by
        intro n hn
        obtain hn | hn := List.mem_append.mp hn
        · exact hbelow n hn
        · rw [List.mem_singleton.mp hn]
          exact hleaf
      have hfront : (a.append (listNode keep (below ++ [leaf]) node)).places.Nodup := by
        rw [Listing.places_append] at hnodup
        exact List.Nodup.of_append_left hnodup
      have hadded := addFilesImpl_holds hroot _ _ (below ++ [leaf]) node hkeep hnames hnode h
        (Or.inr (by simpa using hplaced)) hfront
      exact addEntries_holds hroot _ _ below rest hkeep hbelow hrest hadded
        (by rw [Listing.places_append]; exact List.mem_append_left _ hplaced) hnodup

end

/-- The storage of a whole tree, with the name of the root. -/
theorem addFiles_holds (hroot : Clean root) (node : Node)
    (hkeep : ∀ below, keep below = pred (combinePath p (pathOf root below)))
    (hnode : CleanNode node) :
    Holds root (listNode keep [] node) (addFilesImpl pred p root .empty node) := by
  have hempty : Listing.empty.append (listNode keep [] node) = listNode keep [] node := rfl
  have hadded := addFilesImpl_holds hroot _ _ [] node hkeep (by simp) hnode (holds_empty root)
    (Or.inl rfl) (by rw [hempty]; exact listNode_nodup [] node hnode)
  rwa [hempty, pathOf_nil] at hadded

end Trees

end Gingko.ListedTorrents
