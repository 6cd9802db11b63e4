import Gingko.ListedTorrents

/-!
A torrent that has been written is read again. What one directory, link or file has become
in the dictionary adds the same directory, link or file below the new root, and so do all of
them one after another. The storage that is read from the torrent of a tree is the one that
the tree gives under the new name.
-/
namespace Gingko.ReadTorrents

open Base64Codec TorrentPaths TorrentTrees ListedTorrents
open TaskResumes (Entry)

section Numbers

theorem toMode_ofMode (mode : UInt32) : toMode (ofMode mode) = mode := by
  simp [toMode, ofMode]

theorem masked_and (mode : UInt32) : mode &&& 0o777 &&& 0o777 = mode &&& 0o777 := by
  rw [UInt32.and_assoc, UInt32.and_self]

end Numbers

/-- What can be read from a torrent as it was. -/
structure Tidy (a : Listing) : Prop where
  clean : ∀ d ∈ a.belows, ∀ n ∈ d, Clean n
  masked : ∀ d ∈ a.dirs, d.mode &&& 0o777 = d.mode
  targets : ∀ l ∈ a.links, l.target ≠ [] ∧ verifyEncoding l.target = l.target
  sizes : ∀ f ∈ a.files, f.size < 2 ^ 48

section Listed

variable {a b : Listing}

theorem tidy_empty : Tidy .empty where
  clean d hd := absurd hd (Listing.not_mem_belows_empty d)
  masked := by simp [Listing.empty]
  targets := by simp [Listing.empty]
  sizes := by simp [Listing.empty]

theorem Tidy.append (ha : Tidy a) (hb : Tidy b) : Tidy (a.append b) where
  clean d hd := by
    rcases (Listing.mem_belows_append a b d).mp hd with hd | hd
    · exact ha.clean d hd
    · exact hb.clean d hd
  masked d hd := by
    rcases List.mem_append.mp hd with hd | hd
    · exact ha.masked d hd
    · exact hb.masked d hd
  targets l hl := by
    rcases List.mem_append.mp hl with hl | hl
    · exact ha.targets l hl
    · exact hb.targets l hl
  sizes f hf := by
    rcases List.mem_append.mp hf with hf | hf
    · exact ha.sizes f hf
    · exact hb.sizes f hf

theorem Tidy.dir (h : Tidy a) (d : Directory) (hd : d ∈ a.dirs) : ∀ n ∈ d.below, Clean n :=
  h.clean d.below (List.mem_append_left _ (List.mem_map_of_mem hd))

theorem Tidy.link (h : Tidy a) (l : Link) (hl : l ∈ a.links) : ∀ n ∈ l.below, Clean n :=
  h.clean l.below (List.mem_append_right _ (List.mem_append_left _ (List.mem_map_of_mem hl)))

theorem Tidy.file (h : Tidy a) (f : File) (hf : f ∈ a.files) : ∀ n ∈ f.below, Clean n :=
  h.clean f.below (List.mem_append_right _ (List.mem_append_right _ (List.mem_map_of_mem hf)))

theorem getSymlinkPath_encoded (target : ByteString) (h : verifyEncoding target = target) :
    verifyEncoding (getSymlinkPath target) = getSymlinkPath target := by
  unfold getSymlinkPath
  split
  · exact h
  · exact verifyEncoding.eq_1

variable {keep : List ByteString → Bool}

mutual

theorem listNode_tidy (below : List ByteString) (node : Node) (hbelow : ∀ n ∈ below, Clean n)
    (hclean : CleanNode node) : Tidy (listNode keep below node) := by
  match node with
  | .file size stMode =>
    simp only [listNode]
    split
    · exact tidy_empty
    · refine ⟨?_, by simp, by simp, ?_⟩
      · intro d hd
        obtain rfl : d = below := by simpa [Listing.belows, Listing.places] using hd
        exact hbelow
      · intro f hf
        rw [List.mem_singleton.mp hf]
        exact hclean.2
  | .link target stMode =>
    simp only [listNode]
    split
    · exact tidy_empty
    · split
      · exact tidy_empty
      · next htarget =>
        refine ⟨?_, by simp, ?_, by simp⟩
        · intro d hd
          obtain rfl : d = below := by simpa [Listing.belows, Listing.places] using hd
          exact hbelow
        · intro l hl
          rw [List.mem_singleton.mp hl]
          exact ⟨htarget, getSymlinkPath_encoded target hclean⟩
  | .directory stMode entries =>
    simp only [listNode]
    split
    · exact tidy_empty
    · refine Tidy.append ⟨?_, ?_, by simp, by simp⟩ (listEntries_tidy below entries hbelow hclean)
      · intro d hd
        obtain rfl : d = below := by simpa [Listing.belows, Listing.places] using hd
        exact hbelow
      · intro d hd
        rw [List.mem_singleton.mp hd]
        exact masked_and stMode
  | .other => exact tidy_empty
  | .missing => exact tidy_empty

theorem listEntries_tidy (below : List ByteString) (entries : Entries)
    (hbelow : ∀ n ∈ below, Clean n) (hclean : CleanEntries entries) :
    Tidy (listEntries keep below entries) := by
  match entries with
  | .nil => exact tidy_empty
  | .cons leaf node rest =>
    simp only [listEntries, CleanEntries] at hclean ⊢
    split
    · next hignored =>
      rw [if_pos hignored] at hclean
      exact listEntries_tidy below rest hbelow hclean
    · next hkept =>
      rw [if_neg hkept] at hclean
      obtain ⟨hleaf, hnode, -, hrest⟩ := hclean
      refine Tidy.append (listNode_tidy _ node ?_ hnode) (listEntries_tidy below rest hbelow hrest)
      intro n hn
      rcases List.mem_append.mp hn with hn | hn
      · exact hbelow n hn
      · rw [List.mem_singleton.mp hn]
        exact hleaf

end

/-- A tree without files is no torrent; one file stands alone, and the files of a directory
stand below it. -/
theorem listNode_root (keep : List ByteString → Bool) (node : Node) :
    (listNode keep [] node).files = [] ∨
    (∃ f, f.below = [] ∧ listNode keep [] node = ⟨[], [], [f]⟩) ∨
    ∃ mode dirs, (listNode keep [] node).dirs = ⟨[], mode⟩ :: dirs ∧
      ∀ f ∈ (listNode keep [] node).files, f.below ≠ [] := by
  cases node with
  | file size stMode =>
    simp only [listNode]
    split
    · exact .inl rfl
    · exact .inr (.inl ⟨_, rfl, rfl⟩)
  | link target stMode =>
    refine .inl ?_
    simp only [listNode]
    split <;> rfl
  | directory stMode entries =>
    simp only [listNode]
    split
    · exact .inl rfl
    · refine .inr (.inr ⟨_, _, rfl, ?_⟩)
      intro f hf hnil
      have hroot : [] ∉ (listEntries keep [] entries).belows := listEntries_not_below [] entries
      apply hroot
      have hmem : f ∈ (listEntries keep [] entries).files := by simpa using hf
      refine List.mem_append_right _ (List.mem_append_right _ ?_)
      exact List.mem_map.mpr ⟨f, hmem, hnil⟩
  | other => exact .inl rfl
  | missing => exact .inl rfl

end Listed

section Files

variable {root : ByteString} {a : Listing} {fs : FileStorage}

/-- The path of a file is put together from its directory and its name. -/
theorem filePath_entryOf (hroot : Clean root) (h : Holds root a fs) (f : File)
    (hclean : ∀ n ∈ f.below, Clean n) (hplaced : Placed a.places f) (offset : ℕ) :
    fs.filePath (entryOf root a.places offset f) = pathOf root f.below := by
  unfold entryOf
  cases hbelow : f.below using List.reverseRecOn with
  | nil =>
    rw [pathOf_nil]
    rfl
  | append_singleton init name =>
    have hname : Clean name := hclean name (by simp [hbelow])
    have hmem : init ∈ a.places := by
      rcases hplaced with hnil | hmem
      · simp [hbelow] at hnil
      · simpa [hbelow] using hmem
    have hlt : a.places.idxOf init < a.places.length := List.idxOf_lt_length_of_mem hmem
    have hdir : fs.paths.getD (a.places.idxOf init) [] = directoryOf root init := by
      rw [h.paths, List.getD_eq_getElem?_getD, List.getElem?_map, List.getElem?_eq_getElem hlt,
        List.getElem_idxOf hlt]
      rfl
    have hindex : ¬ ((a.places.idxOf init : ℕ) : Int) < 0 := by omega
    simp only [List.getLast?_append, List.getLast?_singleton, Option.some_or,
      List.dropLast_concat, FileStorage.filePath, if_neg hindex, Int.toNat_natCast, hdir, if_true]
    exact combinePath_directoryOf root init hroot (h.ordered.cleanDirs init hmem) hname

theorem map_entriesOf {β : Type} (g : InternalFileEntry → β) (k : File → β) (root : ByteString)
    (places : List (List ByteString)) (offset : ℕ) (files : List File)
    (h : ∀ f ∈ files, ∀ offset, g (entryOf root places offset f) = k f) :
    (entriesOf root places offset files).map g = files.map k := by
  induction files generalizing offset with
  | nil => rfl
  | cons f rest ih =>
    rw [entriesOf, List.map_cons, List.map_cons, h f List.mem_cons_self,
      ih _ fun g hg => h g (List.mem_cons_of_mem f hg)]

theorem entryOf_fields (root : ByteString) (places : List (List ByteString)) (offset : ℕ)
    (f : File) :
    (entryOf root places offset f).size = .ofNat 48 f.size ∧
    (entryOf root places offset f).attributes = f.attributes ∧
    (entryOf root places offset f).symlinkPath = [] ∧
    (entryOf root places offset f).mode = f.mode := by
  unfold entryOf
  split <;> simp

theorem entryOf_offset (root : ByteString) (places : List (List ByteString)) (offset : ℕ)
    (f : File) : (entryOf root places offset f).offset = .ofNat 48 offset := by
  unfold entryOf
  split <;> rfl

theorem filePaths_eq (hroot : Clean root) (h : Holds root a fs)
    (hclean : ∀ f ∈ a.files, ∀ n ∈ f.below, Clean n) :
    fs.files.map fs.filePath = a.files.map fun f => pathOf root f.below := by
  rw [h.files]
  refine map_entriesOf _ _ root a.places 0 a.files ?_
  intro f hf offset
  exact filePath_entryOf hroot h f (hclean f hf) (h.ordered.placed f hf) offset

theorem offsets_eq (h : Holds root a fs) (hsmall : totalOf a.files < 2 ^ 48) (i : ℕ) (f : File)
    (hf : a.files[i]? = some f) :
    ∃ e, fs.files[i]? = some e ∧ e.offset.toNat = totalOf (a.files.take i) ∧
      e.size.toNat = f.size := by
  have hle := totalOf_take a.files i f hf
  refine ⟨entryOf root a.places (totalOf (a.files.take i)) f, ?_, ?_, ?_⟩
  · rw [h.files, entriesOf_getElem?, hf, Nat.zero_add, Option.map_some]
  · rw [entryOf_offset, BitVec.toNat_ofNat]
    omega
  · rw [(entryOf_fields root a.places _ f).1, BitVec.toNat_ofNat]
    omega

end Files

section Written

variable {root : ByteString} {names : List ByteString}

theorem namesBelow_pathOf (hroot : Clean root) (hnames : ∀ n ∈ names, Clean n) :
    namesBelow (pathOf root names) = names.map Entry.string := by
  unfold namesBelow
  rw [pathElements_pathOf root names hroot hnames, List.tail_cons, List.filter_eq_self.mpr]
  intro n hn
  simp [(hnames n hn).ne]

theorem namesBelow_directoryOf (hroot : Clean root) (hnames : ∀ n ∈ names, Clean n) :
    namesBelow (directoryOf root names) = names.map Entry.string := by
  unfold namesBelow
  rw [pathElements_directoryOf root names hroot hnames, List.tail_cons, List.filter_eq_self.mpr]
  intro n hn
  simp [(hnames n hn).ne]

def writtenDirectory (d : Directory) : Entry :=
  .dictionary [("mode", .integer (ofMode d.mode)), ("path", .list (d.below.map Entry.string))]

def writtenLink (l : Link) : Entry :=
  .dictionary [("mode", .integer (ofMode l.mode)), ("path", .list (l.below.map Entry.string)),
    ("symlink path", .string l.target)]

def writtenFile (includeSymlinks : Bool) (f : File) : Entry :=
  .dictionary ([("length", .integer (.ofNat f.size)), ("mode", .integer (ofMode f.mode)),
    ("path", .list (f.below.map Entry.string))] ++ attrEntry includeSymlinks f.attributes)

variable {a : Listing} {fs : FileStorage}

/-- The root of the tree is the first directory and is not among the written ones. -/
theorem genPathsEntry_eq (hroot : Clean root) (h : Holds root a fs) (mode : UInt32)
    (dirs : List Directory) (hdirs : a.dirs = ⟨[], mode⟩ :: dirs) :
    genPathsEntry fs = dirs.map writtenDirectory := by
  have hnodup := h.ordered.nodup
  have hclean := h.ordered.cleanDirs
  unfold Listing.places at hnodup hclean
  rw [hdirs, List.map_cons] at hnodup hclean
  have hnil : ∀ d ∈ dirs, d.below ≠ [] := by
    intro d hd heq
    exact (List.nodup_cons.mp hnodup).1 (List.mem_map.mpr ⟨d, hd, heq⟩)
  unfold genPathsEntry
  rw [h.paths, h.pathsMode, Listing.places, List.map_map, List.zip_map', hdirs, List.map_cons,
    List.tail_cons, List.map_map]
  refine List.map_congr_left ?_
  intro d hd
  have hbelow := namesBelow_directoryOf hroot
    (hclean d.below (List.mem_cons_of_mem [] (List.mem_map_of_mem hd)))
  simp [hbelow, hnil d hd, writtenDirectory]

theorem genSymlinksEntry_eq (hroot : Clean root) (h : Holds root a fs)
    (hclean : ∀ l ∈ a.links, ∀ n ∈ l.below, Clean n) :
    genSymlinksEntry fs = a.links.map writtenLink := by
  unfold genSymlinksEntry
  rw [h.symlinksEx, List.map_map]
  refine List.map_congr_left ?_
  intro l hl
  simp [namesBelow_pathOf hroot (hclean l hl), writtenLink]

theorem fileEntries_eq (hroot : Clean root) (h : Holds root a fs) (htidy : Tidy a)
    (includeSymlinks : Bool) :
    fs.files.map (fileEntry includeSymlinks fs) = a.files.map (writtenFile includeSymlinks) := by
  rw [h.files]
  refine map_entriesOf _ _ root a.places 0 a.files ?_
  intro f hf offset
  obtain ⟨hsize, hattributes, -, hmode⟩ := entryOf_fields root a.places offset f
  have hclean := htidy.file f hf
  have hpath := filePath_entryOf hroot h f hclean (h.ordered.placed f hf) offset
  unfold fileEntry
  rw [hpath, pathElements_pathOf root f.below hroot hclean, hsize,
    ofField_ofNat f.size (htidy.sizes f hf), hattributes, hmode]
  simp [writtenFile, symlinkEntry, File.attributes]

end Written

section Read

variable {target : ByteString} {names : List ByteString} {a : Listing} {fs : FileStorage}

theorem mapM_stringOf (names : List ByteString) :
    (names.map Entry.string).mapM stringOf = some names := by
  induction names with
  | nil => rfl
  | cons name names ih => simp [ih, stringOf]

theorem pathBelow_names (htarget : Clean target) (hnames : ∀ n ∈ names, Clean n) :
    pathBelow target (names.map Entry.string) = some (pathOf target names) := by
  have hpath := foldl_root (fun path element => combinePath path (trimPathElement element))
    (fun _ _ hname => by rw [hname.trim]) target names htarget hnames
  unfold pathBelow
  rw [mapM_stringOf, Option.map_some, hpath, sanitizePath_pathOf target names htarget hnames,
    verifyEncoding_pathOf target names htarget hnames]

theorem extractPath_written (htarget : Clean target) (d : Directory)
    (hclean : ∀ n ∈ d.below, Clean n) (hmasked : d.mode &&& 0o777 = d.mode) :
    extractPath target fs (writtenDirectory d) =
      some (fs.addPath (directoryOf target d.below) d.mode) := by
  have hdir : parentPath (combinePath (pathOf target d.below) letterX) =
      directoryOf target d.below := by
    rw [combinePath_pathOf target d.below htarget hclean clean_letterX,
      parentPath_pathOf target d.below clean_letterX]
  simp [extractPath, writtenDirectory, isDictionary, findList, findIntValue, Entry.findKey,
    List.lookup_cons, pathBelow_names htarget hclean, hdir, toMode_ofMode, hmasked]

/-- Directories that are not listed yet come behind the listed ones. -/
theorem extractPaths_holds (htarget : Clean target) (a : Listing) (fs : FileStorage)
    (dirs : List Directory) (h : Holds target a fs)
    (hclean : ∀ d ∈ dirs, ∀ n ∈ d.below, Clean n)
    (hmasked : ∀ d ∈ dirs, d.mode &&& 0o777 = d.mode)
    (hnodup : (a.places ++ dirs.map Directory.below).Nodup) :
    ∃ fs', extractPaths target (dirs.map writtenDirectory) fs = some fs' ∧
      Holds target (a.append ⟨dirs, [], []⟩) fs' := by
  induction dirs generalizing a fs with
  | nil =>
    refine ⟨fs, rfl, ?_⟩
    rwa [show (⟨[], [], []⟩ : Listing) = .empty from rfl, Listing.append_empty]
  | cons d dirs ih =>
    have hd := hclean d List.mem_cons_self
    have hnew : d.below ∉ a.places := by
      intro hmem
      exact List.disjoint_of_nodup_append hnodup hmem List.mem_cons_self
    have hadded := h.addPath htarget d hd hnew
    obtain ⟨fs', hrest, hheld⟩ := ih _ _ hadded
      (fun e he => hclean e (List.mem_cons_of_mem d he))
      (fun e he => hmasked e (List.mem_cons_of_mem d he))
      (by simpa [Listing.places] using hnodup)
    refine ⟨fs', ?_, ?_⟩
    · unfold extractPaths at hrest ⊢
      rw [List.map_cons, List.foldlM_cons,
        extractPath_written htarget d hd (hmasked d List.mem_cons_self)]
      exact hrest
    · rwa [Listing.append_assoc] at hheld

theorem extractSymlink_written (htarget : Clean target) (l : Link)
    (hclean : ∀ n ∈ l.below, Clean n) (hencoded : verifyEncoding l.target = l.target) :
    extractSymlink target fs (writtenLink l) =
      some (fs.addSymlink (pathOf target l.below) l.target l.mode) := by
  simp [extractSymlink, writtenLink, isDictionary, findList, findString, findIntValue,
    Entry.findKey, List.lookup_cons, pathBelow_names htarget hclean, toMode_ofMode, hencoded]

theorem extractSymlinks_holds (htarget : Clean target) (a : Listing) (fs : FileStorage)
    (links : List Link) (h : Holds target a fs) (hclean : ∀ l ∈ links, ∀ n ∈ l.below, Clean n)
    (htargets : ∀ l ∈ links, l.target ≠ [] ∧ verifyEncoding l.target = l.target) :
    ∃ fs', extractSymlinks target (links.map writtenLink) fs = some fs' ∧
      Holds target (a.append ⟨[], links, []⟩) fs' := by
  induction links generalizing a fs with
  | nil =>
    refine ⟨fs, rfl, ?_⟩
    rwa [show (⟨[], [], []⟩ : Listing) = .empty from rfl, Listing.append_empty]
  | cons l links ih =>
    have hl := hclean l List.mem_cons_self
    obtain ⟨hne, hencoded⟩ := htargets l List.mem_cons_self
    have hadded := h.addSymlink htarget l hl
    rw [if_neg hne] at hadded
    obtain ⟨fs', hrest, hheld⟩ := ih _ _ hadded
      (fun e he => hclean e (List.mem_cons_of_mem l he))
      (fun e he => htargets e (List.mem_cons_of_mem l he))
    refine ⟨fs', ?_, ?_⟩
    · unfold extractSymlinks at hrest ⊢
      rw [List.map_cons, List.foldlM_cons, extractSymlink_written htarget l hl hencoded]
      exact hrest
    · rwa [Listing.append_assoc] at hheld

theorem readAttributes_attrEntry (includeSymlinks : Bool) (f : File) (dict : Entry)
    (path : ByteString) (hpadding : isPadding path = false)
    (hdict : dict.findKey "attr" = (attrEntry includeSymlinks f.attributes).lookup "attr") :
    readAttributes dict path = f.attributes := by
  unfold File.attributes at hdict ⊢
  cases hexecutable : f.executable <;>
    simp [readAttributes, readLetters, findString, hdict, hexecutable, attrEntry, letters, hpadding]

theorem lookup_attrEntry (includeSymlinks : Bool) (attributes : Attributes) (key : String)
    (hkey : key ≠ "attr") : (attrEntry includeSymlinks attributes).lookup key = none := by
  unfold attrEntry
  split
  · rfl
  · simp [hkey]

theorem extractSingleFile_written (htarget : Clean target) (includeSymlinks : Bool) (f : File)
    (hclean : ∀ n ∈ f.below, Clean n) (hsize : f.size < 2 ^ 48)
    (hpadding : isPadding (pathOf target f.below) = false) :
    extractSingleFile target (writtenFile includeSymlinks f) =
      some ⟨pathOf target f.below, .ofNat f.size, f.attributes, [], f.mode⟩ := by
  have hpath := foldl_root (fun path pathElement =>
      if validPathElement (if pathElement = [] then [underscore] else pathElement) then
        combinePath path (trimPathElement (if pathElement = [] then [underscore] else pathElement))
      else path)
    (fun _ name hname => by rw [if_neg hname.ne, if_pos hname.valid, hname.trim])
    target f.below htarget hclean
  have hread : verifyEncoding (sanitizePath (pathOf target f.below)) = pathOf target f.below := by
    rw [sanitizePath_pathOf target f.below htarget hclean,
      verifyEncoding_pathOf target f.below htarget hclean]
  have hattributes := readAttributes_attrEntry includeSymlinks f (writtenFile includeSymlinks f)
    (pathOf target f.below) hpadding (by simp [writtenFile, Entry.findKey, List.lookup_cons])
  have hlength : (writtenFile includeSymlinks f).findKey "length" =
      some (.integer (.ofNat f.size)) := by
    simp [writtenFile, Entry.findKey]
  have hmode : findIntValue (writtenFile includeSymlinks f) "mode" 0o644 = ofMode f.mode := by
    simp [writtenFile, findIntValue, Entry.findKey, List.lookup_cons]
  have hnoUtf8 : findList (writtenFile includeSymlinks f) "path.utf-8" = none := by
    simp [writtenFile, findList, Entry.findKey, List.lookup_cons, lookup_attrEntry]
  have hnames : findList (writtenFile includeSymlinks f) "path" =
      some (f.below.map Entry.string) := by
    simp [writtenFile, findList, Entry.findKey, List.lookup_cons]
  unfold extractSingleFile
  simp only [hlength, hmode, hnoUtf8, hnames, mapM_stringOf, Option.bind_eq_bind, Option.bind_some,
    Option.none_or, hpath, hread, hattributes, toMode_ofMode]
  simp [writtenFile, isDictionary, ofNat_nonneg f.size hsize, File.attributes]

theorem extractFile_written (htarget : Clean target) (includeSymlinks : Bool) (f : File)
    (hclean : ∀ n ∈ f.below, Clean n) (hsize : f.size < 2 ^ 48)
    (hpadding : isPadding (pathOf target f.below) = false) (taken : List ByteString)
    (hnew : lower (pathOf target f.below) ∉ taken) :
    extractFile target (fs, taken) (writtenFile includeSymlinks f) =
      some (fs.addFileEntry ⟨pathOf target f.below, .ofNat f.size, f.attributes, [], f.mode⟩,
        lower (pathOf target f.below) :: taken) := by
  unfold extractFile
  rw [extractSingleFile_written htarget includeSymlinks f hclean hsize hpadding]
  simp [uniquePath, hnew]

/-- Files with paths of their own keep them. -/
theorem foldlM_extractFile (htarget : Clean target) (includeSymlinks : Bool) (a : Listing)
    (fs : FileStorage) (taken : List ByteString) (files : List File) (h : Holds target a fs)
    (hclean : ∀ f ∈ files, ∀ n ∈ f.below, Clean n) (hsize : ∀ f ∈ files, f.size < 2 ^ 48)
    (hplaced : ∀ f ∈ files, Placed a.places f)
    (hpadding : ∀ f ∈ files, isPadding (pathOf target f.below) = false)
    (hnew : ∀ f ∈ files, lower (pathOf target f.below) ∉ taken)
    (hnodup : (files.map fun f => lower (pathOf target f.below)).Nodup) :
    ∃ fs' taken', (files.map (writtenFile includeSymlinks)).foldlM (extractFile target)
        (fs, taken) = some (fs', taken') ∧ Holds target (a.append ⟨[], [], files⟩) fs' := by
  induction files generalizing a fs taken with
  | nil =>
    refine ⟨fs, taken, rfl, ?_⟩
    rwa [show (⟨[], [], []⟩ : Listing) = .empty from rfl, Listing.append_empty]
  | cons f files ih =>
    have hrest : ∀ g ∈ files, g ∈ f :: files := fun g hg => List.mem_cons_of_mem f hg
    obtain ⟨hother, hnodup⟩ := List.nodup_cons.mp hnodup
    have hf := hclean f List.mem_cons_self
    have hadded := h.addFileEntry htarget f hf (hplaced f List.mem_cons_self)
      (hsize f List.mem_cons_self)
    obtain ⟨fs', taken', hread, hheld⟩ := ih _ _ (lower (pathOf target f.below) :: taken) hadded
      (fun g hg => hclean g (hrest g hg)) (fun g hg => hsize g (hrest g hg))
      (fun g hg => by simpa [Listing.places] using hplaced g (hrest g hg))
      (fun g hg => hpadding g (hrest g hg))
      (fun g hg hmem => by
        rcases List.mem_cons.mp hmem with heq | hmem
        · exact hother (List.mem_map.mpr ⟨g, hg, heq⟩)
        · exact hnew g (hrest g hg) hmem)
      hnodup
    refine ⟨fs', taken', ?_, ?_⟩
    · rw [List.map_cons, List.foldlM_cons, extractFile_written htarget includeSymlinks f hf
        (hsize f List.mem_cons_self) (hpadding f List.mem_cons_self) taken
        (hnew f List.mem_cons_self)]
      exact hread
    · rwa [Listing.append_assoc] at hheld

end Read

section Whole

variable {root target : ByteString} {a : Listing} {fs : FileStorage}

def commonValues (name : ByteString) (config : ClusterConfig) : List (String × Entry) :=
  [("name", .string name), ("HADOOP_HOST", .string config.host),
    ("HADOOP_PORT", .integer config.port), ("HADOOP_USER", .string config.user),
    ("HADOOP_PASSWD", .string config.passwd), ("dest_src", .string config.prefixPath)]

def writtenTree (includeSymlinks : Bool) (name : ByteString) (config : ClusterConfig)
    (mode : UInt32) (dirs : List Directory) (links : List Link) (files : List File) : Entry :=
  .dictionary (commonValues name config ++
    [("files", .list (files.map (writtenFile includeSymlinks))), ("mode", .integer (ofMode mode)),
      ("paths", .list (dirs.map writtenDirectory))] ++
    if links = [] then [] else [("symlinks", .list (links.map writtenLink))])

def writtenSingle (includeSymlinks : Bool) (name : ByteString) (config : ClusterConfig)
    (f : File) : Entry :=
  .dictionary (commonValues name config ++ ([("length", .integer (.ofNat f.size))] ++
    attrEntry includeSymlinks f.attributes ++ [("mode", .integer (ofMode f.mode))]))

theorem isMultifile_below (hroot : Clean root) (h : Holds root a fs)
    (hclean : ∀ f ∈ a.files, ∀ n ∈ f.below, Clean n) (hsome : a.files ≠ [])
    (hbelow : ∀ f ∈ a.files, f.below ≠ []) : isMultifile fs = true := by
  have hfiles := h.files
  unfold isMultifile
  cases hcase : a.files with
  | nil => exact absurd hcase hsome
  | cons f rest =>
    rw [hcase] at hfiles
    cases rest with
    | nil =>
      have hmem : f ∈ a.files := by simp [hcase]
      have hpath := filePath_entryOf hroot h f (hclean f hmem) (h.ordered.placed f hmem) 0
      simp only [hfiles, entriesOf, hpath]
      cases hnames : f.below using List.reverseRecOn with
      | nil => exact absurd hnames (hbelow f hmem)
      | append_singleton init name =>
        exact hasParentPath_pathOf root init (hclean f hmem name (by simp [hnames]))
    | cons g rest => simp only [hfiles, entriesOf]

theorem generate_tree (hroot : Clean root) (h : Holds root a fs) (htidy : Tidy a)
    (includeSymlinks : Bool) (config : ClusterConfig) (mode : UInt32) (dirs : List Directory)
    (hdirs : a.dirs = ⟨[], mode⟩ :: dirs) (hsome : a.files ≠ [])
    (hbelow : ∀ f ∈ a.files, f.below ≠ []) :
    generate includeSymlinks fs config =
      some (writtenTree includeSymlinks root config mode dirs a.links a.files) := by
  have hname := h.named hsome
  have hmulti := isMultifile_below hroot h htidy.file hsome hbelow
  have hfiles := fileEntries_eq hroot h htidy includeSymlinks
  have hpaths := genPathsEntry_eq hroot h mode dirs hdirs
  have hlinks := genSymlinksEntry_eq hroot h htidy.link
  have hmodes : fs.pathsMode = mode :: dirs.map Directory.mode := by
    rw [h.pathsMode, hdirs, List.map_cons]
  have hlisted : fs.paths ≠ [] := by
    rw [h.paths, Listing.places, hdirs]
    simp
  have hlinked : fs.symlinksEx = [] ↔ a.links = [] := by
    rw [h.symlinksEx, List.map_eq_nil_iff]
  unfold generate
  cases hcase : fs.files with
  | nil =>
    rw [h.files, entriesOf_eq_nil] at hcase
    exact absurd hcase hsome
  | cons first rest =>
    rw [hcase] at hfiles
    simp only [hmulti, if_true, hmodes, if_neg hlisted, hpaths, hlinks, hlinked, hname, hfiles]
    simp [writtenTree, commonValues]

theorem generate_single (f : File) (hbelow : f.below = []) (hsize : f.size < 2 ^ 48)
    (h : Holds root ⟨[], [], [f]⟩ fs) (hroot : Clean root) (includeSymlinks : Bool)
    (config : ClusterConfig) :
    generate includeSymlinks fs config = some (writtenSingle includeSymlinks root config f) := by
  have hname := h.named (by simp)
  have hfiles : fs.files = [⟨root, 0, .ofNat 48 f.size, f.attributes, [], f.mode, -1, false⟩] := by
    rw [h.files]
    simp [entriesOf, entryOf, hbelow]
  have hpaths : fs.paths = [] := h.paths
  have hmodes : fs.pathsMode = [] := h.pathsMode
  have hlinks : fs.symlinksEx = [] := h.symlinksEx
  have hmulti : isMultifile fs = false := by
    simp [isMultifile, hfiles, FileStorage.filePath, hasParentPath_name hroot]
  unfold generate
  simp only [hfiles]
  simp [hmulti, hpaths, hmodes, hlinks, hname, ofField_ofNat f.size hsize, writtenSingle,
    commonValues, symlinkEntry, File.attributes]

theorem readName_common (hroot : Clean root) (infoHash : ByteString) (config : ClusterConfig)
    (values : List (String × Entry)) (hvalues : values.lookup "name.utf-8" = none) :
    readName infoHash (.dictionary (commonValues root config ++ values)) = some root := by
  simp [readName, commonValues, findString, Entry.findKey, List.lookup_cons, hvalues, hroot.ne,
    sanitizePath_name hroot, hroot.valid, hroot.encoded]

theorem readConfig_common (name : ByteString) (config : ClusterConfig)
    (values : List (String × Entry)) :
    readConfig (.dictionary (commonValues name config ++ values)) = config := by
  simp [readConfig, commonValues, findString, findIntValue, Entry.findKey, List.lookup_cons]

theorem parentPath_target (htarget : Clean target) :
    parentPath (combinePath target letterX) = directoryOf target [] := by
  have hcombine := combinePath_pathOf target [] htarget (by simp) clean_letterX
  rw [pathOf_nil] at hcombine
  rw [hcombine, parentPath_pathOf target [] clean_letterX]

theorem readPaths_tree (root : ByteString) (htarget : Clean target) (includeSymlinks : Bool)
    (config : ClusterConfig) (mode : UInt32) (dirs : List Directory)
    (hdirs : a.dirs = ⟨[], mode⟩ :: dirs) (hordered : Ordered a) (htidy : Tidy a) :
    ∃ fs', readPaths target (writtenTree includeSymlinks root config mode dirs a.links a.files)
        .empty = some fs' ∧ Holds target ⟨a.dirs, [], []⟩ fs' := by
  have hmasked := htidy.masked ⟨[], mode⟩ (by simp [hdirs])
  have hlist : findList (writtenTree includeSymlinks root config mode dirs a.links a.files)
      "paths" = some (dirs.map writtenDirectory) := by
    simp [writtenTree, commonValues, findList, Entry.findKey, List.lookup_cons]
  have hmode : findIntValue (writtenTree includeSymlinks root config mode dirs a.links a.files)
      "mode" 0o755 = ofMode mode := by
    simp [writtenTree, commonValues, findIntValue, Entry.findKey, List.lookup_cons]
  have hrootDir := (holds_empty target).addPath htarget ⟨[], mode⟩ (by simp)
    (by simp [Listing.places, Listing.empty])
  have hnodup := hordered.nodup
  rw [Listing.places, hdirs, List.map_cons] at hnodup
  obtain ⟨fs', hread, hheld⟩ := extractPaths_holds htarget _ _ dirs hrootDir
    (fun d hd => htidy.dir d (by simp [hdirs, hd]))
    (fun d hd => htidy.masked d (by simp [hdirs, hd]))
    (by simpa [Listing.places, Listing.empty] using hnodup)
  refine ⟨fs', ?_, ?_⟩
  · unfold readPaths
    simp only [hlist, hmode, toMode_ofMode, hmasked, parentPath_target htarget]
    exact hread
  · rw [hdirs]
    exact hheld

theorem readSymlinks_tree (root : ByteString) (htarget : Clean target) (includeSymlinks : Bool)
    (config : ClusterConfig) (mode : UInt32) (dirs : List Directory) (htidy : Tidy a)
    (h : Holds target ⟨a.dirs, [], []⟩ fs) :
    ∃ fs', readSymlinks target (writtenTree includeSymlinks root config mode dirs a.links a.files)
        fs = some fs' ∧ Holds target ⟨a.dirs, a.links, []⟩ fs' := by
  unfold readSymlinks
  by_cases hlinks : a.links = []
  · have hlist : findList (writtenTree includeSymlinks root config mode dirs a.links a.files)
        "symlinks" = none := by
      simp [writtenTree, commonValues, findList, Entry.findKey, List.lookup_cons, hlinks]
    rw [hlist, hlinks]
    exact ⟨fs, rfl, h⟩
  · have hlist : findList (writtenTree includeSymlinks root config mode dirs a.links a.files)
        "symlinks" = some (a.links.map writtenLink) := by
      simp [writtenTree, commonValues, findList, Entry.findKey, List.lookup_cons, hlinks]
    obtain ⟨fs', hread, hheld⟩ := extractSymlinks_holds htarget _ _ a.links h htidy.link
      htidy.targets
    refine ⟨fs', ?_, ?_⟩
    · rw [hlist]
      exact hread
    · simpa [Listing.append] using hheld

/-- The files that are read under `target` keep their paths. -/
structure Distinct (target : ByteString) (files : List File) : Prop where
  padding : ∀ f ∈ files, isPadding (pathOf target f.below) = false
  nodup : (files.map fun f => lower (pathOf target f.below)).Nodup

theorem readFiles_tree (root : ByteString) (htarget : Clean target) (includeSymlinks : Bool)
    (config : ClusterConfig) (mode : UInt32) (dirs : List Directory) (hordered : Ordered a)
    (htidy : Tidy a) (hdistinct : Distinct target a.files)
    (h : Holds target ⟨a.dirs, a.links, []⟩ fs) :
    ∃ fs', readFiles target (writtenTree includeSymlinks root config mode dirs a.links a.files)
        fs = some fs' ∧ Holds target a fs' := by
  have hlist : findList (writtenTree includeSymlinks root config mode dirs a.links a.files)
      "files" = some (a.files.map (writtenFile includeSymlinks)) := by
    simp [writtenTree, commonValues, findList, Entry.findKey, List.lookup_cons]
  obtain ⟨fs', taken, hread, hheld⟩ := foldlM_extractFile htarget includeSymlinks _ _ []
    a.files h htidy.file htidy.sizes hordered.placed hdistinct.padding (by simp) hdistinct.nodup
  refine ⟨fs', ?_, ?_⟩
  · simp [readFiles, hlist, extractFiles, hread]
  · simpa [Listing.append] using hheld

/-- The torrent of a tree is read under the name that is asked for, or its own. -/
theorem parse_tree (hroot : Clean root) (htarget : Clean target) (infoHash newName : ByteString)
    (hname : target = if newName = [] then root else newName) (includeSymlinks : Bool)
    (config : ClusterConfig) (mode : UInt32) (dirs : List Directory)
    (hdirs : a.dirs = ⟨[], mode⟩ :: dirs) (hordered : Ordered a) (htidy : Tidy a)
    (hdistinct : Distinct target a.files) :
    ∃ fs', parseInfoSection infoHash newName
        (writtenTree includeSymlinks root config mode dirs a.links a.files) =
          some (fs', config) ∧ Holds target a fs' ∧ fs'.name = target := by
  obtain ⟨fs₁, hpaths, hheld⟩ :=
    readPaths_tree root htarget includeSymlinks config mode dirs hdirs hordered htidy
  obtain ⟨fs₂, hlinks, hheld⟩ :=
    readSymlinks_tree root htarget includeSymlinks config mode dirs htidy hheld
  obtain ⟨fs₃, hfiles, hheld⟩ :=
    readFiles_tree root htarget includeSymlinks config mode dirs hordered htidy hdistinct hheld
  have hread : readName infoHash
      (writtenTree includeSymlinks root config mode dirs a.links a.files) = some root := by
    unfold writtenTree
    rw [List.append_assoc]
    refine readName_common hroot infoHash config _ ?_
    simp [List.lookup_cons]
  have hconfig : readConfig
      (writtenTree includeSymlinks root config mode dirs a.links a.files) = config := by
    unfold writtenTree
    rw [List.append_assoc]
    exact readConfig_common root config _
  refine ⟨{ fs₃ with name := target }, ?_, hheld.rename target (fun _ => rfl), rfl⟩
  simp [parseInfoSection, hread, ← hname, hpaths, hlinks, hfiles, hconfig]

theorem parse_single (hroot : Clean root) (htarget : Clean target) (infoHash newName : ByteString)
    (hname : target = if newName = [] then root else newName) (includeSymlinks : Bool)
    (config : ClusterConfig) (f : File) (hbelow : f.below = []) (hsize : f.size < 2 ^ 48)
    (hpadding : isPadding target = false) :
    ∃ fs', parseInfoSection infoHash newName (writtenSingle includeSymlinks root config f) =
        some (fs', config) ∧ Holds target ⟨[], [], [f]⟩ fs' ∧ fs'.name = target := by
  have hread : readName infoHash (writtenSingle includeSymlinks root config f) = some root := by
    refine readName_common hroot infoHash config _ ?_
    simp [List.lookup_cons, List.lookup_append, lookup_attrEntry]
  have hconfig : readConfig (writtenSingle includeSymlinks root config f) = config :=
    readConfig_common root config _
  have hpaths : findList (writtenSingle includeSymlinks root config f) "paths" = none := by
    simp [writtenSingle, commonValues, findList, Entry.findKey, List.lookup_cons,
      List.lookup_append, lookup_attrEntry]
  have hlinks : findList (writtenSingle includeSymlinks root config f) "symlinks" = none := by
    simp [writtenSingle, commonValues, findList, Entry.findKey, List.lookup_cons,
      List.lookup_append, lookup_attrEntry]
  have hfiles : findList (writtenSingle includeSymlinks root config f) "files" = none := by
    simp [writtenSingle, commonValues, findList, Entry.findKey, List.lookup_cons,
      List.lookup_append, lookup_attrEntry]
  have hlink : findList (writtenSingle includeSymlinks root config f) "symlink path" = none := by
    simp [writtenSingle, commonValues, findList, Entry.findKey, List.lookup_cons,
      List.lookup_append, lookup_attrEntry]
  have hlength : findIntValue (writtenSingle includeSymlinks root config f) "length" (-1) =
      .ofNat f.size := by
    simp [writtenSingle, commonValues, findIntValue, Entry.findKey, List.lookup_cons]
  have hmode : findIntValue (writtenSingle includeSymlinks root config f) "mode" 0o744 =
      ofMode f.mode := by
    simp [writtenSingle, commonValues, findIntValue, Entry.findKey, List.lookup_cons,
      List.lookup_append, lookup_attrEntry]
  have hattributes := readAttributes_attrEntry includeSymlinks f
    (writtenSingle includeSymlinks root config f) target hpadding
    (by simp [writtenSingle, commonValues, Entry.findKey, List.lookup_cons, List.lookup_append])
  have hadded := (holds_empty target).addFileEntry htarget f (by simp [hbelow]) (Or.inl hbelow)
    hsize
  rw [hbelow, pathOf_nil] at hadded
  refine ⟨_, ?_, hadded.rename target (fun _ => rfl), rfl⟩
  simp [parseInfoSection, hread, ← hname, readPaths, readSymlinks, readFiles, hpaths, hlinks,
    hfiles, hconfig, extractLength, hlength,
    Int64.not_lt.mpr (ofNat_nonneg f.size hsize), hattributes, readSymlinkPath,
    hlink, hmode, toMode_ofMode, File.attributes]

end Whole

section RoundTrip

variable {pred pred' : ByteString → Bool} {p p' root target : ByteString} {node : Node}

/-- The filter as it is asked below the root. -/
def keptBelow (pred : ByteString → Bool) (p root : ByteString) (below : List ByteString) : Bool :=
  pred (combinePath p (pathOf root below))

/-- A directory with a file, and below it one with a link and a file. -/
def sampleTree : Node :=
  .directory 0o40750 (.cons [97] (.file 5 0o100644) (.cons [100]
    (.directory 0o40700 (.cons [108] (.link [46, 46, 47, 97] 0o120777)
      (.cons [120] (.file 7 0o100755) .nil))) .nil))

theorem clean_sampleTree : CleanNode sampleTree := by
  have hnames : Clean [97] ∧ Clean [100] ∧ Clean [108] ∧ Clean [120] := by decide +kernel
  have htarget : verifyEncoding [46, 46, 47, 97] = [46, 46, 47, 97] := by decide
  simp [sampleTree, CleanNode, CleanEntries, leaves, ignoreSubdir, TrimmedPaths.dot,
    TrimmedPaths.dotDot, hnames, htarget]

/-- The storage of a tree lists every kept directory, link and file of it, each with its own
mode, the path of every file leads through directories of the list, and offsets that fit into
their field are the sums of the sizes before. -/
theorem tree_listed (hroot : Clean root) (hnode : CleanNode node) :
    Holds root (listNode (keptBelow pred p root) [] node)
        (addFilesImpl pred p root .empty node) ∧
    (addFilesImpl pred p root .empty node).files.map
        (addFilesImpl pred p root .empty node).filePath =
      ((listNode (keptBelow pred p root) [] node).files.map fun f => pathOf root f.below) ∧
    (totalOf (listNode (keptBelow pred p root) [] node).files < 2 ^ 48 →
      ∀ i f, (listNode (keptBelow pred p root) [] node).files[i]? = some f →
        ∃ e, (addFilesImpl pred p root .empty node).files[i]? = some e ∧
          e.offset.toNat = totalOf ((listNode (keptBelow pred p root) [] node).files.take i) ∧
          e.size.toNat = f.size) := by
  have hheld : Holds root (listNode (keptBelow pred p root) [] node)
      (addFilesImpl pred p root .empty node) := addFiles_holds hroot node (fun _ => rfl) hnode
  have htidy : Tidy (listNode (keptBelow pred p root) [] node) :=
    listNode_tidy [] node (by simp) hnode
  exact ⟨hheld, filePaths_eq hroot hheld htidy.file, fun hsmall => offsets_eq hheld hsmall⟩

theorem tree_listed_sample :
    Holds [114] (listNode (keptBelow (fun _ => true) [47] [114]) [] sampleTree)
        (addFilesImpl (fun _ => true) [47] [114] .empty sampleTree) ∧
    (addFilesImpl (fun _ => true) [47] [114] .empty sampleTree).files.map
        (addFilesImpl (fun _ => true) [47] [114] .empty sampleTree).filePath =
      ((listNode (keptBelow (fun _ => true) [47] [114]) [] sampleTree).files.map
        fun f => pathOf [114] f.below) ∧
    ∃ e, (addFilesImpl (fun _ => true) [47] [114] .empty sampleTree).files[1]? = some e ∧
      e.offset.toNat = 5 ∧ e.size.toNat = 7 := by
  obtain ⟨hheld, hpaths, hoffsets⟩ :=
    @tree_listed (fun _ => true) [47] [114] sampleTree (by decide +kernel) clean_sampleTree
  exact ⟨hheld, hpaths, hoffsets (by decide +kernel) 1 ⟨[[100], [120]], 7, true, 0o755⟩ rfl⟩

/-- A whole tree is read as it is listed, unless it has no file. -/
theorem tree_read (hroot : Clean root) (htarget : Clean target) (infoHash newName : ByteString)
    (hname : target = if newName = [] then root else newName) (includeSymlinks : Bool)
    (config : ClusterConfig) (keep : List ByteString → Bool) (hnode : CleanNode node)
    (fs : FileStorage) (h : Holds root (listNode keep [] node) fs)
    (hsome : (listNode keep [] node).files ≠ [])
    (hdistinct : Distinct target (listNode keep [] node).files) :
    ∃ fs', (generate includeSymlinks fs config).bind (parseInfoSection infoHash newName) =
        some (fs', config) ∧ Holds target (listNode keep [] node) fs' ∧ fs'.name = target := by
  have htidy : Tidy (listNode keep [] node) := listNode_tidy [] node (by simp) hnode
  rcases listNode_root keep node with hnil | ⟨f, hbelow, hone⟩ | ⟨mode, dirs, hdirs, hfiles⟩
  · exact absurd hnil hsome
  · rw [hone] at h htidy hdistinct ⊢
    have hsize := htidy.sizes f (by simp)
    rw [generate_single f hbelow hsize h hroot includeSymlinks config]
    have hpadding := hdistinct.padding f (by simp)
    rw [hbelow, pathOf_nil] at hpadding
    exact parse_single hroot htarget infoHash newName hname includeSymlinks config f hbelow hsize
      hpadding
  · rw [generate_tree hroot h htidy includeSymlinks config mode dirs hdirs hsome hfiles]
    exact parse_tree hroot htarget infoHash newName hname includeSymlinks config mode dirs hdirs
      h.ordered htidy hdistinct

/-- A torrent that is made of a tree and read under a name is the torrent of the tree under
that name. -/
theorem torrent_read_back (infoHash newName target : ByteString) (includeSymlinks : Bool)
    (config : ClusterConfig) (hroot : Clean root) (htarget : Clean target)
    (hname : target = if newName = [] then root else newName) (hnode : CleanNode node)
    (made : FileStorage) (hmade : made = addFilesImpl pred' p' target .empty node)
    (hfilter : ∀ below, keptBelow pred p root below = keptBelow pred' p' target below)
    (hsome : made.files ≠ [])
    (hpadding : ∀ path ∈ made.files.map made.filePath, isPadding path = false)
    (hlower : ((made.files.map made.filePath).map lower).Nodup) :
    (generate includeSymlinks (addFilesImpl pred p root .empty node) config).bind
        (parseInfoSection infoHash newName) = some (made, config) := by
  have hlisted : Holds root (listNode (keptBelow pred p root) [] node)
      (addFilesImpl pred p root .empty node) := addFiles_holds hroot node (fun _ => rfl) hnode
  have hheld : Holds target (listNode (keptBelow pred p root) [] node) made := by
    rw [hmade]
    exact addFiles_holds htarget node hfilter hnode
  have htidy : Tidy (listNode (keptBelow pred p root) [] node) :=
    listNode_tidy [] node (by simp) hnode
  have hpaths := filePaths_eq htarget hheld htidy.file
  have hfiles : (listNode (keptBelow pred p root) [] node).files ≠ [] := by
    intro hnil
    apply hsome
    rw [hheld.files, hnil]
    rfl
  rw [hpaths] at hpadding hlower
  have hdistinct : Distinct target (listNode (keptBelow pred p root) [] node).files := by
    constructor
    · intro f hf
      exact hpadding _ (List.mem_map.mpr ⟨f, hf, rfl⟩)
    · rwa [List.map_map] at hlower
  obtain ⟨fs', hread, hsame, hfs'⟩ := tree_read hroot htarget infoHash newName hname
    includeSymlinks config (keptBelow pred p root) hnode _ hlisted hfiles hdistinct
  rw [hread, hsame.unique hheld (by rw [hfs', hheld.named hfiles])]

theorem torrent_read_back_sample :
    (generate true (addFilesImpl (fun _ => true) [47] [114] .empty sampleTree)
        ⟨[104], 3, [], [], [47]⟩).bind (parseInfoSection [] [110]) =
      some (addFilesImpl (fun _ => true) [47] [110] .empty sampleTree,
        ⟨[104], 3, [], [], [47]⟩) :=
  torrent_read_back [] [110] [110] true ⟨[104], 3, [], [], [47]⟩ (by decide +kernel)
    (by decide +kernel) (by decide) clean_sampleTree
    (addFilesImpl (fun _ => true) [47] [110] .empty sampleTree) rfl (fun _ => rfl)
    (by decide +kernel) (by decide +kernel) (by decide +kernel)

end RoundTrip

end Gingko.ReadTorrents
