import Gingko.TorrentTrees
import Mathlib.Data.List.Infix

/-!
The paths of the files in a storage. A file is kept by its directory and its last name, so
the storage tells its path without its own name. Adding a tree adds the files that the filter
accepts with the root and all directories on the way, whatever the storage held before.
-/
namespace Gingko.FiledPaths

open Base64Codec TorrentTrees
open DataPaths (slash)
open TrimmedPaths (dot)
open TorrentPaths

section Storage

/-- The path under which a file is kept: its directory and its last name, put together. -/
def filedAs (path : ByteString) : ByteString :=
  if isComplete path ∨ parentPath path = [] then path
  else combinePath (parentPath path) (filename path)

def filePaths (fs : FileStorage) : List ByteString := fs.files.map fs.filePath

/-- Every file has its directory in the list, or none, and does without the name of the
storage. -/
def Sound (fs : FileStorage) : Prop :=
  ∀ e ∈ fs.files, e.pathIndex < fs.paths.length ∧ (0 ≤ e.pathIndex → e.noRootDir = true)

/-- What has been added are files with these paths. -/
structure Adds (fs fs' : FileStorage) (added : List ByteString) : Prop where
  sound : Sound fs'
  filePaths : filePaths fs' = filePaths fs ++ added

variable {fs fs' fs'' : FileStorage} {added more : List ByteString}

theorem filePath_grown (e : InternalFileEntry) (hindex : e.pathIndex < fs.paths.length)
    (hroot : 0 ≤ e.pathIndex → e.noRootDir = true) (hpaths : fs'.paths = fs.paths ++ more) :
    fs'.filePath e = fs.filePath e := by
  unfold FileStorage.filePath
  split
  · rfl
  · next hsome =>
    have hlt : e.pathIndex.toNat < fs.paths.length := by omega
    have hsame : (fs.paths ++ more).getD e.pathIndex.toNat [] =
        fs.paths.getD e.pathIndex.toNat [] := by
      rw [List.getD_eq_getElem?_getD, List.getD_eq_getElem?_getD, List.getElem?_append_left hlt]
    rw [hroot (by omega), hpaths, hsame]
    rfl

theorem Adds.same (h : Sound fs) (hfiles : fs'.files = fs.files)
    (hpaths : fs'.paths = fs.paths ++ more) : Adds fs fs' [] := by
  constructor
  · intro e he
    rw [hfiles] at he
    obtain ⟨hindex, hroot⟩ := h e he
    rw [hpaths, List.length_append]
    exact ⟨by omega, hroot⟩
  · rw [List.append_nil]
    unfold FiledPaths.filePaths
    rw [hfiles]
    apply List.map_congr_left
    intro e he
    obtain ⟨hindex, hroot⟩ := h e he
    exact filePath_grown e hindex hroot hpaths

theorem Adds.trans (h : Adds fs fs' added) (h' : Adds fs' fs'' more) :
    Adds fs fs'' (added ++ more) :=
  ⟨h'.sound, by rw [h'.filePaths, h.filePaths, List.append_assoc]⟩

theorem addPath_adds (h : Sound fs) (path : ByteString) (mode : UInt32) :
    Adds fs (fs.addPath path mode) [] := by
  unfold FileStorage.addPath
  split
  · exact Adds.same h rfl rfl
  · exact Adds.same h rfl (List.append_nil _).symm

theorem addSymlink_adds (h : Sound fs) (path target : ByteString) (mode : UInt32) :
    Adds fs (fs.addSymlink path target mode) [] := by
  unfold FileStorage.addSymlink
  split <;> exact Adds.same h rfl (List.append_nil _).symm

theorem nameBy_adds (h : Sound fs) (file : ByteString) : Adds fs (fs.nameBy file) [] := by
  unfold FileStorage.nameBy
  split
  · exact Adds.same h rfl (List.append_nil _).symm
  · split <;> exact Adds.same h rfl (List.append_nil _).symm

theorem nameOf_adds (h : Sound fs) (l : ByteString) : Adds fs (nameOf l fs) [] := by
  unfold nameOf
  split <;> exact Adds.same h rfl (List.append_nil _).symm

theorem findPath_some (path : ByteString) (index : ℕ) (h : fs.findPath path = some index) :
    fs.paths[index]? = some path := by
  unfold FileStorage.findPath at h
  obtain ⟨back, hback, rfl⟩ := Option.map_eq_some_iff.mp h
  obtain ⟨hlt, hpath, -⟩ := List.idxOf?_eq_some_iff.mp hback
  rw [List.length_reverse] at hlt
  rw [List.getElem_reverse] at hpath
  rw [List.getElem?_eq_getElem (by omega), hpath]

/-- A file finds its directory, or lists it now. -/
theorem updatePathIndex_eq (fs : FileStorage) (e : InternalFileEntry) :
    ∃ more, (fs.updatePathIndex e).1.files = fs.files ∧
      (fs.updatePathIndex e).1.paths = fs.paths ++ more ∧
      (fs.updatePathIndex e).2.pathIndex < (fs.updatePathIndex e).1.paths.length ∧
      (0 ≤ (fs.updatePathIndex e).2.pathIndex → (fs.updatePathIndex e).2.noRootDir = true) ∧
      (fs.updatePathIndex e).1.filePath (fs.updatePathIndex e).2 = filedAs e.name := by
  unfold FileStorage.updatePathIndex
  split
  · next hcomplete =>
    refine ⟨[], rfl, (List.append_nil _).symm, by simp only; omega, by simp, ?_⟩
    simp [FileStorage.filePath, filedAs, hcomplete]
  · next hcomplete =>
    simp only
    split
    · next hparent =>
      refine ⟨[], rfl, (List.append_nil _).symm, by simp only; omega, by simp, ?_⟩
      simp [FileStorage.filePath, filedAs, hparent]
    · next hparent =>
      split
      · next index hfound =>
        have hpath := findPath_some _ index hfound
        obtain ⟨hlt, -⟩ := List.getElem?_eq_some_iff.mp hpath
        refine ⟨[], rfl, (List.append_nil _).symm, by simp only; omega, fun _ => rfl, ?_⟩
        simp [FileStorage.filePath, filedAs, hcomplete, hparent, hpath]
      · refine ⟨[parentPath e.name], rfl, rfl, ?_, fun _ => rfl, ?_⟩
        · simp only [List.length_append, List.length_singleton]
          omega
        simp [FileStorage.filePath, filedAs, hcomplete, hparent]

theorem pushFile_adds (h : Sound fs) (e : FileEntry) (counted : Int64) :
    Adds fs (fs.pushFile e counted) [filedAs e.path] := by
  unfold FileStorage.pushFile
  obtain ⟨more, hfiles, hpaths, hindex, hroot, hpath⟩ := updatePathIndex_eq fs
    ⟨e.path, toField fs.totalSize, toField e.size, e.attributes, e.symlinkPath, e.mode, -1, false⟩
  generalize fs.updatePathIndex
    ⟨e.path, toField fs.totalSize, toField e.size, e.attributes, e.symlinkPath, e.mode, -1, false⟩ =
    new at hfiles hpaths hindex hroot hpath ⊢
  have hlisted : Adds fs new.1 [] := Adds.same h hfiles hpaths
  obtain ⟨hsound, hold⟩ := hlisted
  constructor
  · intro f hf
    obtain hf | hf := List.mem_append.mp hf
    · exact hsound f (by rwa [hfiles])
    · obtain rfl := List.mem_singleton.mp hf
      exact ⟨hindex, hroot⟩
  · rw [List.append_nil] at hold
    rw [← hold, ← hpath]
    unfold FiledPaths.filePaths
    rw [hfiles]
    exact List.map_append

theorem addFile_adds (h : Sound fs) (file : ByteString) (size : Int64) (flags : Attributes)
    (target : ByteString) (mode : UInt32) :
    Adds fs (fs.addFile file size flags target mode)
      (if flags.symlink then [] else [filedAs file]) := by
  have hnamed := nameBy_adds h file
  unfold FileStorage.addFile
  by_cases hlink : flags.symlink
  · simp only [if_pos hlink]
    exact hnamed.trans (addSymlink_adds hnamed.sound file target mode)
  · simp only [if_neg hlink]
    exact hnamed.trans (pushFile_adds hnamed.sound _ _)

end Storage

section Trees

mutual

/-- The files of a tree, by their names below its root. -/
def filesOf : Node → List (List ByteString)
  | .file _ _ => [[]]
  | .link _ _ => []
  | .directory _ entries => filesIn entries
  | .other => []
  | .missing => []

def filesIn : Entries → List (List ByteString)
  | .nil => []
  | .cons leaf node rest =>
    if ignoreSubdir leaf then filesIn rest
    else (filesOf node).map (leaf :: ·) ++ filesIn rest

end

mutual

def NamedNode : Node → Prop
  | .file _ _ => True
  | .link _ _ => True
  | .directory _ entries => NamedEntries entries
  | .other => True
  | .missing => True

/-- The entries of a directory have names, and `.` and `..` are not followed. -/
def NamedEntries : Entries → Prop
  | .nil => True
  | .cons leaf node rest =>
    (ignoreSubdir leaf = false → Named leaf ∧ NamedNode node) ∧ NamedEntries rest

end

/-- Every directory on the way is kept, and so is the file. -/
def keptAlong (keep : List ByteString → Bool) (below names : List ByteString) : Bool :=
  names.inits.all fun onWay => keep (below ++ onWay)

theorem keptAlong_nil (keep : List ByteString → Bool) (below : List ByteString) :
    keptAlong keep below [] = keep below := by
  simp [keptAlong]

theorem keptAlong_cons (keep : List ByteString → Bool) (below : List ByteString)
    (leaf : ByteString) (names : List ByteString) :
    keptAlong keep below (leaf :: names) =
      (keep below && keptAlong keep (below ++ [leaf]) names) := by
  simp [keptAlong, List.all_map, Function.comp_def]

/-- The paths of the files that get into the storage. -/
def filedBelow (keep : List ByteString → Bool) (root : ByteString) (below : List ByteString)
    (files : List (List ByteString)) : List ByteString :=
  (files.filter (keptAlong keep below)).map fun names => filedAs (pathOf root (below ++ names))

theorem filedBelow_append (keep : List ByteString → Bool) (root : ByteString)
    (below : List ByteString) (files more : List (List ByteString)) :
    filedBelow keep root below (files ++ more) =
      filedBelow keep root below files ++ filedBelow keep root below more := by
  simp [filedBelow]

theorem filedBelow_map (keep : List ByteString → Bool) (root : ByteString)
    (below : List ByteString) (leaf : ByteString) (files : List (List ByteString))
    (hkept : keep below = true) :
    filedBelow keep root below (files.map (leaf :: ·)) =
      filedBelow keep root (below ++ [leaf]) files := by
  simp [filedBelow, List.filter_map, Function.comp_def, keptAlong_cons, hkept]

theorem filedBelow_refused (keep : List ByteString → Bool) (root : ByteString)
    (below : List ByteString) (files : List (List ByteString)) (hrefused : keep below = false) :
    filedBelow keep root below files = [] := by
  have hnone : files.filter (keptAlong keep below) = [] := by
    apply List.filter_eq_nil_iff.mpr
    intro names _
    cases names with
    | nil => simp [keptAlong_nil, hrefused]
    | cons leaf names => simp [keptAlong_cons, hrefused]
  rw [filedBelow, hnone]
  rfl

variable {keep : List ByteString → Bool} {pred : ByteString → Bool} {p root : ByteString}

mutual

/-- Adding a tree adds its files that are kept with all directories on the way. -/
theorem addFilesImpl_adds (hroot : Named root)
    (hkeep : ∀ below, keep below = pred (combinePath p (pathOf root below)))
    (fs : FileStorage) (h : Sound fs) (below : List ByteString) (hbelow : ∀ n ∈ below, Named n)
    (node : Node) (hnode : NamedNode node) :
    Adds fs (addFilesImpl pred p (pathOf root below) fs node)
      (filedBelow keep root below (filesOf node)) := by
  have hnothing : Adds fs fs [] := Adds.same h rfl (List.append_nil _).symm
  match node with
  | .file size stMode =>
    simp only [addFilesImpl, filesOf, ← hkeep]
    cases hkept : keep below with
    | false =>
      rw [filedBelow_refused keep root below _ hkept]
      exact hnothing
    | true =>
      have hadded := addFile_adds h (pathOf root below) size (getFileAttributes stMode false) []
        (stMode &&& 0o777)
      have hone : filedBelow keep root below [[]] = [filedAs (pathOf root below)] := by
        simp [filedBelow, keptAlong_nil, hkept]
      rw [hone]
      exact hadded.trans (nameOf_adds hadded.sound _)
  | .link target stMode =>
    simp only [addFilesImpl, filesOf]
    split
    · exact hnothing
    · have hadded := addFile_adds h (pathOf root below) 0 (getFileAttributes stMode true)
        (getSymlinkPath target) (stMode &&& 0o777)
      exact hadded.trans (nameOf_adds hadded.sound _)
  | .directory stMode entries =>
    simp only [addFilesImpl, filesOf, ← hkeep]
    cases hkept : keep below with
    | false =>
      rw [filedBelow_refused keep root below _ hkept]
      exact hnothing
    | true =>
      have hlisted := addPath_adds h
        (parentPath (combinePath (pathOf root below) letterX)) (stMode &&& 0o777)
      have hadded := hlisted.trans
        (addEntries_adds hroot hkeep _ hlisted.sound below hbelow hkept entries hnode)
      have hnamed := hadded.trans (nameOf_adds hadded.sound (pathOf root below))
      rwa [List.append_nil] at hnamed
  | .other =>
    simp only [addFilesImpl, filesOf]
    split
    · exact hnothing
    · exact nameOf_adds h _
  | .missing => exact hnothing

theorem addEntries_adds (hroot : Named root)
    (hkeep : ∀ below, keep below = pred (combinePath p (pathOf root below)))
    (fs : FileStorage) (h : Sound fs) (below : List ByteString) (hbelow : ∀ n ∈ below, Named n)
    (hkept : keep below = true) (entries : Entries) (hentries : NamedEntries entries) :
    Adds fs (addEntries pred p (pathOf root below) fs entries)
      (filedBelow keep root below (filesIn entries)) := by
  match entries with
  | .nil => exact Adds.same h rfl (List.append_nil _).symm
  | .cons leaf node rest =>
    simp only [NamedEntries] at hentries
    obtain ⟨hfirst, hrest⟩ := hentries
    simp only [addEntries, filesIn]
    cases hignored : ignoreSubdir leaf with
    | true => exact addEntries_adds hroot hkeep fs h below hbelow hkept rest hrest
    | false =>
      obtain ⟨hleaf, hnode⟩ := hfirst hignored
      have hnames : ∀ n ∈ below ++ [leaf], Named n :=
        List.forall_mem_append.mpr ⟨hbelow, by simpa using hleaf⟩
      simp only [Bool.false_eq_true, if_false, combinePath_named root below hroot hbelow hleaf]
      rw [filedBelow_append, filedBelow_map keep root below leaf _ hkept]
      have hadded := addFilesImpl_adds hroot hkeep fs h (below ++ [leaf]) hnames node hnode
      exact hadded.trans (addEntries_adds hroot hkeep _ hadded.sound below hbelow hkept rest hrest)

end

end Trees

end Gingko.FiledPaths
