import Gingko.FiledPaths
import Gingko.FileFilters

/-!
The torrent of the files that a filter lets through. Adding a directory asks the filter about
the root, about every directory on the way and about the file, and does not enter what is
refused. A torrent that stores the paths below the parent of the root holds the files that a
downloader picks with the same expressions, unless they pick a file whose directory they
leave out, the path reads as something else, or it lies under the root of the file system.
-/
namespace Gingko.FilteredTorrents

open Base64Codec DataPaths FileFilters TorrentTrees FiledPaths
open TrimmedPaths (dot joined)
open TorrentPaths (Named combinePath filename isComplete pathOf)

section Torrent

variable (lib : RegexLibrary)

def complete (cwd f : ByteString) : ByteString := if isComplete f then f else combinePath cwd f

/-- The path at which a complete path is looked for. -/
def lookedAt (path : ByteString) : ByteString :=
  combinePath (TorrentPaths.parentPath path) (filename path)

/-- The tree of the file, as the file system has it. -/
def addFiles (pred : ByteString → Bool) (cwd : ByteString) (look : ByteString → Node)
    (file : ByteString) : FileStorage :=
  let parent := TorrentPaths.parentPath (complete cwd file)
  addFilesImpl pred parent (filename file) .empty (look (combinePath parent (filename file)))

/-- The files of the torrent; with a filter in error, or without files, there is none. -/
def makeTorrent (cwd : ByteString) (look : ByteString → Node) (fullPath : ByteString)
    (includes excludes : List lib.Regex) : Option FileStorage :=
  let filter := makeFilter lib fullPath includes excludes
  if filter.isError then none
  else
    let fs := addFiles filter.accepts cwd look (filterPaths fullPath).1
    if fs.files = [] then none else some fs

def torrentPaths (torrent : Option FileStorage) : List ByteString := (torrent.map filePaths).getD []

/-- The files of a torrent that have a priority. -/
def chosenFiles (files : List ByteString) (priorities : List ℕ) : List ByteString :=
  ((files.zip priorities).filter (·.2 ≠ 0)).map Prod.fst

/-- The path of a file relative to the parent of the root. -/
def storedPath (p : FullPath) (names : List ByteString) : ByteString := pathOf p.name names

/-- What the filter asks the expressions about: right under the root of the file system the
path without its first letter. -/
def askedPath (p : FullPath) (names : List ByteString) : ByteString :=
  if p.dir = [] then (storedPath p names).tail else storedPath p names

/-- The path, read as an expression for everything below it, is one and matches. -/
def ReadsAsPath (p : FullPath) (names : List ByteString) : Prop :=
  ∃ re, lib.assign (p.text ++ slash :: everything) = some re ∧
    lib.regexMatch (p.text ++ joined names) re = true

section Root

variable (p : FullPath)

theorem parentPath_length (f : ByteString) (hne : f ≠ []) :
    (TorrentPaths.parentPath f).length < f.length := by
  have hpos := List.length_pos_iff.mpr hne
  unfold TorrentPaths.parentPath
  split
  · exact hpos
  · have hreverse : f.reverse.length = f.length := List.length_reverse
    rw [List.length_reverse, ← hreverse]
    obtain ⟨c, rest, hrest⟩ := List.exists_cons_of_ne_nil (List.reverse_ne_nil_iff.mpr hne)
    have houter := fun l : ByteString =>
      List.length_dropWhile_le (fun c => !TorrentPaths.isSeparator c) l
    have hinner := List.length_dropWhile_le TorrentPaths.isSeparator rest
    rw [hrest, List.length_cons]
    -- the last letter goes with the separators or with the last name
    cases hsep : TorrentPaths.isSeparator c with
    | true =>
      rw [List.dropWhile_cons_of_pos hsep]
      have hdropped := houter (rest.dropWhile TorrentPaths.isSeparator)
      omega
    | false =>
      rw [List.dropWhile_cons_of_neg (by simp [hsep]), List.dropWhile_cons_of_pos (by simp [hsep])]
      have hdropped := houter rest
      omega

theorem filename_text : filename p.text = p.name :=
  TorrentPaths.filename_append p.dir p.name p.name_ne p.name_slash

theorem complete_text (cwd : ByteString) : complete cwd p.text = p.text := by
  have hcomplete : isComplete p.text = true := by
    rw [isComplete, FullPath.text, p.absolute]
    exact decide_eq_true rfl
  rw [complete, if_pos hcomplete]

variable {p}

/-- A path that is looked for at itself has a last name, and its parent goes before that. -/
theorem name_of_lookedAt (hlooked : lookedAt p.text = p.text) :
    Named p.name ∧ ∀ rest, combinePath (TorrentPaths.parentPath p.text) (pathOf p.name rest) =
      p.text ++ joined rest := by
  have htext : p.text.length = p.dir.length + p.name.length + 1 := by
    simp [FullPath.text, Nat.add_assoc]
  have hshort := parentPath_length p.text (by simp [FullPath.text])
  unfold lookedAt at hlooked
  rw [filename_text] at hlooked
  generalize TorrentPaths.parentPath p.text = parent at hlooked hshort ⊢
  have hdot : p.name ≠ dot := by
    intro hdot
    rw [combinePath, hdot] at hlooked
    split at hlooked
    · have hlength := congrArg List.length hlooked
      rw [htext, hdot] at hlength
      omega
    · rw [if_pos (Or.inr rfl)] at hlooked
      have hlength := congrArg List.length hlooked
      omega
  refine ⟨⟨p.name_ne, p.name_slash, hdot⟩, ?_⟩
  intro rest
  have hpath : pathOf p.name rest ≠ [] ∧ pathOf p.name rest ≠ dot := by
    refine ⟨by simp [pathOf, p.name_ne], ?_⟩
    intro heq
    have hpos := List.length_pos_iff.mpr p.name_ne
    have hlength : p.name.length + (joined rest).length = 1 := by
      rw [← List.length_append]
      exact congrArg List.length heq
    have hnil : joined rest = [] := List.length_eq_zero_iff.mp (by omega)
    rw [pathOf, hnil, List.append_nil] at heq
    exact hdot heq
  unfold combinePath at hlooked ⊢
  split at hlooked
  · have hlength := congrArg List.length hlooked
    omega
  · next hparent =>
    rw [if_neg (not_or.mpr ⟨p.name_ne, hdot⟩)] at hlooked
    rw [if_neg hparent, if_neg (not_or.mpr hpath), pathOf, ← List.append_assoc, hlooked]

end Root

section Filter

variable {lib} {p : FullPath} {includes excludes : List lib.Regex}

theorem drop_prefix (p : FullPath) (names : List ByteString) :
    (p.text ++ joined names).drop ((DataPaths.parentPath p.text).length + 1) =
      askedPath p names := by
  rw [p.parentPath_text, askedPath, storedPath, pathOf]
  split
  · next hdir =>
    obtain ⟨c, name, hname⟩ := List.exists_cons_of_ne_nil p.name_ne
    simp [FullPath.text, hdir, hname]
  · simp [FullPath.text, List.drop_append]

theorem joined_ne_nil (names : List ByteString) (hne : names ≠ []) : joined names ≠ [] := by
  obtain ⟨name, rest, rfl⟩ := List.exists_cons_of_ne_nil hne
  simp [joined]

/-- The filter lets a path below the root through that the path reads as, when the
expressions select what they are asked about. -/
theorem accepts_iff (names : List ByteString) (hne : names ≠ []) :
    (makeFilter lib p.text includes excludes).accepts (p.text ++ joined names) = true ↔
      ReadsAsPath lib p names ∧ Selected lib includes excludes (askedPath p names) := by
  have hbelow : p.text ++ joined names ≠ p.text := by simp [joined_ne_nil names hne]
  simp only [makeFilter, p.filterPaths_text, FileFilter.create, FileFilter.accepts,
    if_neg hbelow, drop_prefix, ReadsAsPath]
  cases lib.assign (p.text ++ slash :: everything) with
  | none => simp
  | some re =>
    cases hmatch : lib.regexMatch (p.text ++ joined names) re with
    | false => simp [hmatch]
    | true => simp [hmatch, Selected]

theorem accepts_root : (makeFilter lib p.text includes excludes).accepts p.text = true := by
  simp [makeFilter, p.filterPaths_text, FileFilter.create, FileFilter.accepts]

end Filter

section Added

variable {p : FullPath} {look : ByteString → Node} {stMode : UInt32} {entries : Entries}

/-- Adding the directory adds the files that are accepted with all directories on the way. -/
theorem addFiles_paths (pred : ByteString → Bool) (cwd : ByteString)
    (hlooked : lookedAt p.text = p.text)
    (hlook : look p.text = .directory stMode entries) (hnamed : NamedEntries entries) :
    filePaths (addFiles pred cwd look p.text) =
      ((filesIn entries).filter (keptAlong (fun names => pred (p.text ++ joined names)) [])).map
        fun names => filedAs (storedPath p names) := by
  obtain ⟨hname, hbelow⟩ := name_of_lookedAt hlooked
  have hat : combinePath (TorrentPaths.parentPath p.text) p.name = p.text := by
    rw [← filename_text p]
    exact hlooked
  have hkeep : ∀ names, (fun names => pred (p.text ++ joined names)) names =
      pred (combinePath (TorrentPaths.parentPath p.text) (pathOf p.name names)) := by
    intro names
    rw [hbelow]
  have hadded := addFilesImpl_adds hname hkeep .empty (by simp [Sound, FileStorage.empty]) []
    (by simp) (.directory stMode entries) hnamed
  rw [TorrentPaths.pathOf_nil] at hadded
  unfold addFiles
  simp only [complete_text, filename_text, hat, hlook]
  rw [hadded.filePaths]
  rfl

theorem addFiles_missing (pred : ByteString → Bool) (cwd : ByteString)
    (hmissing : look (lookedAt p.text) = .missing) :
    addFiles pred cwd look p.text = .empty := by
  unfold addFiles
  unfold lookedAt at hmissing
  simp only [complete_text, hmissing]
  rfl

end Added

section Selection

variable {lib} {p : FullPath} {cwd : ByteString} {look : ByteString → Node} {stMode : UInt32}
  {entries : Entries} {includes excludes : List lib.Regex}

mutual

theorem filesOf_named (node : Node) (hnode : NamedNode node) :
    ∀ names ∈ filesOf node, ∀ n ∈ names, Named n := by
  match node with
  | .file _ _ => simp [filesOf]
  | .link _ _ => simp [filesOf]
  | .directory _ entries =>
    intro names hnames
    exact (filesIn_named entries hnode names hnames).2
  | .other => simp [filesOf]
  | .missing => simp [filesOf]

/-- A file lies strictly below its directory. -/
theorem filesIn_named (entries : Entries) (hentries : NamedEntries entries) :
    ∀ names ∈ filesIn entries, names ≠ [] ∧ ∀ n ∈ names, Named n := by
  match entries with
  | .nil => simp [filesIn]
  | .cons leaf node rest =>
    simp only [NamedEntries] at hentries
    obtain ⟨hfirst, hrest⟩ := hentries
    intro names hnames
    simp only [filesIn] at hnames
    cases hignored : ignoreSubdir leaf with
    | true =>
      rw [if_pos hignored] at hnames
      exact filesIn_named rest hrest names hnames
    | false =>
      obtain ⟨hleaf, hnode⟩ := hfirst hignored
      rw [if_neg (by simp [hignored])] at hnames
      obtain hnames | hnames := List.mem_append.mp hnames
      · obtain ⟨below, hbelow, rfl⟩ := List.mem_map.mp hnames
        refine ⟨List.cons_ne_nil _ _, ?_⟩
        intro n hn
        obtain rfl | hn := List.mem_cons.mp hn
        · exact hleaf
        · exact filesOf_named node hnode below hbelow n hn
      · exact filesIn_named rest hrest names hnames

end

/-- Of two choices, one within the other, the same is left only if they agree. -/
theorem map_filter_eq_iff {α β : Type} (l : List α) (f : α → β) (inner outer : α → Bool)
    (hwithin : ∀ x ∈ l, inner x = true → outer x = true) :
    (l.filter inner).map f = (l.filter outer).map f ↔
      ∀ x ∈ l, outer x = true → inner x = true := by
  constructor
  · intro hmap x hx houter
    have hlength : (l.filter inner).length = (l.filter outer).length := by
      simpa using congrArg List.length hmap
    have hfilter : (l.filter outer).filter inner = l.filter inner := by
      rw [List.filter_filter]
      apply List.filter_congr
      intro y hy
      cases hinner : inner y with
      | false => simp
      | true => simp [hwithin y hy hinner]
    have hsame : l.filter inner = l.filter outer := by
      have hsublist : (l.filter inner).Sublist (l.filter outer) := by
        rw [← hfilter]
        exact List.filter_sublist
      exact hsublist.eq_of_length hlength
    have hmem : x ∈ l.filter inner := by
      rw [hsame]
      exact List.mem_filter.mpr ⟨hx, houter⟩
    exact (List.mem_filter.mp hmem).2
  · intro hagree
    have hsame : l.filter inner = l.filter outer := by
      apply List.filter_congr
      intro x hx
      exact Bool.eq_iff_iff.mpr ⟨hwithin x hx, hagree x hx⟩
    rw [hsame]

/-- The filter and a downloader of the whole directory select the same files by the stored
paths. -/
structure Meets (lib : RegexLibrary) (p : FullPath) (cwd : ByteString) (look : ByteString → Node)
    (entries : Entries) (includes excludes : List lib.Regex) : Prop where
  accepted : ∀ names ∈ filesIn entries,
    ((makeFilter lib p.text includes excludes).accepts (p.text ++ joined names) = true ↔
      Selected lib includes excludes (storedPath p names))
  stored : filePaths (addFiles (fun _ => true) cwd look p.text) =
    (filesIn entries).map (storedPath p)
  chosen : torrentPaths (makeTorrent lib cwd look p.text includes excludes) =
    chosenFiles (filePaths (addFiles (fun _ => true) cwd look p.text))
      (parseNeedDownloadFiles lib includes excludes
        (filePaths (addFiles (fun _ => true) cwd look p.text)))

/-- The directory is looked for and its files are kept by their paths; what the expressions
select reads as a path and lies in directories that they select as well. -/
def SelectsAlong (lib : RegexLibrary) (p : FullPath) (entries : Entries)
    (includes excludes : List lib.Regex) : Prop :=
  ∀ names ∈ filesIn entries,
    lookedAt p.text = p.text ∧ filedAs (storedPath p names) = storedPath p names ∧
    (Selected lib includes excludes (storedPath p names) →
      ∀ onWay, onWay ≠ [] → onWay <+: names →
        ReadsAsPath lib p onWay ∧ Selected lib includes excludes (askedPath p onWay)) ∧
    (ReadsAsPath lib p names → Selected lib includes excludes (askedPath p names) →
      Selected lib includes excludes (storedPath p names))

theorem chosenFiles_map {α : Type} (files : List α) (path : α → ByteString) :
    chosenFiles (files.map path) (parseNeedDownloadFiles lib includes excludes (files.map path)) =
      (files.filter fun f => needDownloadFile lib includes excludes (path f) ≠ 0).map path := by
  unfold chosenFiles parseNeedDownloadFiles
  rw [List.map_map, List.zip_map', List.filter_map, List.map_map]
  rfl

/-- The files that make_torrent adds to the torrent. -/
def accepted (lib : RegexLibrary) (p : FullPath) (includes excludes : List lib.Regex)
    (names : List ByteString) : Bool :=
  keptAlong (fun names =>
    (makeFilter lib p.text includes excludes).accepts (p.text ++ joined names)) [] names

theorem accepted_iff (names : List ByteString) :
    accepted lib p includes excludes names = true ↔
      ∀ onWay, onWay ≠ [] → onWay <+: names →
        ReadsAsPath lib p onWay ∧ Selected lib includes excludes (askedPath p onWay) := by
  unfold accepted keptAlong
  rw [List.all_eq_true]
  constructor
  · intro hall onWay hne hprefix
    exact (accepts_iff onWay hne).mp (hall onWay ((List.mem_inits _ _).mpr hprefix))
  · intro hall onWay hmem
    by_cases hne : onWay = []
    · rw [hne]
      simpa [joined] using accepts_root
    · exact (accepts_iff onWay hne).mpr (hall onWay hne ((List.mem_inits _ _).mp hmem))

theorem torrentPaths_makeTorrent (cwd : ByteString) (includes excludes : List lib.Regex)
    (hlooked : lookedAt p.text = p.text)
    (hlook : look p.text = .directory stMode entries) (hnamed : NamedEntries entries) :
    torrentPaths (makeTorrent lib cwd look p.text includes excludes) =
      ((filesIn entries).filter (accepted lib p includes excludes)).map
        fun names => filedAs (storedPath p names) := by
  have hadded := addFiles_paths (makeFilter lib p.text includes excludes).accepts cwd hlooked
    hlook hnamed
  by_cases herror : (makeFilter lib p.text includes excludes).isError = true
  · have hnone : (filesIn entries).filter (accepted lib p includes excludes) = [] := by
      apply List.filter_eq_nil_iff.mpr
      intro names hnames haccepted
      have hne := (filesIn_named entries hnamed names hnames).1
      obtain ⟨⟨re, hassign, -⟩, -⟩ :=
        (accepted_iff names).mp haccepted names hne List.prefix_rfl
      simp [makeFilter, p.filterPaths_text, FileFilter.create, FileFilter.isError,
        hassign] at herror
    rw [hnone, makeTorrent, if_pos herror]
    rfl
  · simp only [makeTorrent, if_neg herror, p.filterPaths_text]
    unfold accepted
    rw [← hadded]
    split
    · next hempty =>
      rw [filePaths, hempty]
      rfl
    · rfl

theorem accepts_iff_accepted (hnamed : NamedEntries entries) (names : List ByteString)
    (hnames : names ∈ filesIn entries) (haccepted : accepted lib p includes excludes names = true) :
    (makeFilter lib p.text includes excludes).accepts (p.text ++ joined names) = true := by
  have hne := (filesIn_named entries hnamed names hnames).1
  exact (accepts_iff names hne).mpr ((accepted_iff names).mp haccepted names hne List.prefix_rfl)

/-- Where the directory is looked for, the files in the torrent are the selected ones exactly
when what is selected lies in selected directories. -/
theorem meets_of_lookedAt (hlooked : lookedAt p.text = p.text)
    (hlook : look p.text = .directory stMode entries) (hnamed : NamedEntries entries) :
    Meets lib p cwd look entries includes excludes ↔
      SelectsAlong lib p entries includes excludes := by
  have hwhole : filePaths (addFiles (fun _ => true) cwd look p.text) =
      (filesIn entries).map fun names => filedAs (storedPath p names) := by
    have hall : (filesIn entries).filter (keptAlong (fun _ => true) []) = filesIn entries :=
      List.filter_eq_self.mpr fun names _ => List.all_eq_true.mpr fun _ _ => rfl
    rw [addFiles_paths _ cwd hlooked hlook hnamed, hall]
  have hmade := torrentPaths_makeTorrent cwd includes excludes hlooked hlook hnamed
  -- with the stored paths as they should be, two choices of the same files are compared
  have hchosen : (∀ names ∈ filesIn entries, filedAs (storedPath p names) = storedPath p names) →
      (torrentPaths (makeTorrent lib cwd look p.text includes excludes) =
        chosenFiles (filePaths (addFiles (fun _ => true) cwd look p.text))
          (parseNeedDownloadFiles lib includes excludes
            (filePaths (addFiles (fun _ => true) cwd look p.text))) ↔
        ((filesIn entries).filter (accepted lib p includes excludes)).map (storedPath p) =
          ((filesIn entries).filter fun names =>
            needDownloadFile lib includes excludes (storedPath p names) ≠ 0).map
              (storedPath p)) := by
    intro hstored
    have hpaths : (filesIn entries).map (fun names => filedAs (storedPath p names)) =
        (filesIn entries).map (storedPath p) := List.map_congr_left hstored
    have hkept : ((filesIn entries).filter (accepted lib p includes excludes)).map
          (fun names => filedAs (storedPath p names)) =
        ((filesIn entries).filter (accepted lib p includes excludes)).map (storedPath p) :=
      List.map_congr_left fun names hnames => hstored names (List.mem_of_mem_filter hnames)
    rw [hmade, hwhole, hpaths, hkept, chosenFiles_map]
  constructor
  · intro hmeets names hnames
    have hstored : ∀ names ∈ filesIn entries,
        filedAs (storedPath p names) = storedPath p names := by
      have hsame := hmeets.stored
      rw [hwhole] at hsame
      exact List.map_inj_left.mp hsame
    have hne := (filesIn_named entries hnamed names hnames).1
    have hagree := (map_filter_eq_iff (filesIn entries) (storedPath p) _ _
      (fun names hnames haccepted => by
        have hin := accepts_iff_accepted hnamed names hnames haccepted
        have hselected := (hmeets.accepted names hnames).mp hin
        simpa using (needDownloadFile_iff lib includes excludes _).mpr hselected)).mp
      ((hchosen hstored).mp hmeets.chosen)
    refine ⟨hlooked, hstored names hnames, ?_, ?_⟩
    · intro hselected
      refine (accepted_iff names).mp (hagree names hnames ?_)
      simpa using (needDownloadFile_iff lib includes excludes _).mpr hselected
    · intro hreads hasked
      exact (hmeets.accepted names hnames).mp ((accepts_iff names hne).mpr ⟨hreads, hasked⟩)
  · intro halong
    have hstored : ∀ names ∈ filesIn entries,
        filedAs (storedPath p names) = storedPath p names :=
      fun names hnames => (halong names hnames).2.1
    have haccepted : ∀ names ∈ filesIn entries,
        ((makeFilter lib p.text includes excludes).accepts (p.text ++ joined names) = true ↔
          Selected lib includes excludes (storedPath p names)) := by
      intro names hnames
      obtain ⟨-, -, hway, hback⟩ := halong names hnames
      have hne := (filesIn_named entries hnamed names hnames).1
      rw [accepts_iff names hne]
      constructor
      · intro hasked
        exact hback hasked.1 hasked.2
      · intro hselected
        exact hway hselected names hne List.prefix_rfl
    refine ⟨haccepted, ?_, ?_⟩
    · rw [hwhole]
      exact List.map_congr_left hstored
    · rw [hchosen hstored, map_filter_eq_iff]
      · intro names hnames hneed
        have hselected := (needDownloadFile_iff lib includes excludes _).mp (by simpa using hneed)
        exact (accepted_iff names).mpr ((halong names hnames).2.2.1 hselected)
      · intro names hnames hin
        have hselected :=
          (haccepted names hnames).mp (accepts_iff_accepted hnamed names hnames hin)
        simpa using (needDownloadFile_iff lib includes excludes _).mpr hselected

/-- Where it is not looked for, only a directory without files loses nothing. -/
theorem meets_iff_selectsAlong (hlook : look p.text = .directory stMode entries)
    (helse : lookedAt p.text ≠ p.text → look (lookedAt p.text) = .missing)
    (hnamed : NamedEntries entries) :
    Meets lib p cwd look entries includes excludes ↔
      SelectsAlong lib p entries includes excludes := by
  by_cases hlooked : lookedAt p.text = p.text
  · exact meets_of_lookedAt hlooked hlook hnamed
  · have hempty : ∀ pred, addFiles pred cwd look p.text = .empty := fun pred =>
      addFiles_missing pred cwd (helse hlooked)
    have hnone : torrentPaths (makeTorrent lib cwd look p.text includes excludes) = [] := by
      simp [makeTorrent, p.filterPaths_text, hempty, FileStorage.empty, torrentPaths]
    constructor
    · intro hmeets names hnames
      have hstored := hmeets.stored
      rw [hempty] at hstored
      have hnil : filesIn entries = [] := List.map_eq_nil_iff.mp hstored.symm
      rw [hnil] at hnames
      exact absurd hnames List.not_mem_nil
    · intro halong
      have hnil : filesIn entries = [] := by
        apply List.eq_nil_iff_forall_not_mem.mpr
        intro names hnames
        exact hlooked (halong names hnames).1
      refine ⟨by simp [hnil], ?_, ?_⟩
      · rw [hempty, hnil]
        rfl
      · rw [hempty, hnone]
        rfl

/-- Whatever is selected, nothing is left out only of a directory without subdirectories. -/
theorem selectsAlong_all_iff (hquotes : lib.Quotes) (hnamed : NamedEntries entries) :
    (∀ includes excludes, SelectsAlong lib p entries includes excludes) ↔
      ∀ names ∈ filesIn entries, lookedAt p.text = p.text ∧
        filedAs (storedPath p names) = storedPath p names ∧ ReadsAsPath lib p names ∧
        DataPaths.parentPath p.text ≠ [slash] ∧ names.length = 1 := by
  constructor
  · intro hall names hnames
    have hne := (filesIn_named entries hnamed names hnames).1
    obtain ⟨hlooked, hfiled, -, -⟩ := hall [] [] names hnames
    -- an expression for the stored path alone selects nothing else
    obtain ⟨re, hre⟩ := hquotes (storedPath p names)
    have hselected : Selected lib [re] [] (storedPath p names) :=
      ⟨.inr ⟨re, List.mem_singleton_self re, (hre _).mpr rfl⟩, by simp⟩
    have hway := (hall [re] [] names hnames).2.2.1 hselected
    have honly : ∀ onWay, onWay ≠ [] → onWay <+: names →
        askedPath p onWay = storedPath p names := by
      intro onWay hsome hprefix
      obtain ⟨hincluded, -⟩ := (hway onWay hsome hprefix).2
      obtain ⟨re', hmem, hmatch⟩ := hincluded.resolve_left (List.cons_ne_nil re [])
      obtain rfl := List.mem_singleton.mp hmem
      exact (hre _).mp hmatch
    have hdir : p.dir ≠ [] := by
      intro hdir
      have hsame := congrArg List.length (honly names hne List.prefix_rfl)
      have hpos := List.length_pos_iff.mpr p.name_ne
      rw [askedPath, if_pos hdir, List.length_tail, storedPath, pathOf, List.length_append] at hsame
      omega
    refine ⟨hlooked, hfiled, (hway names hne List.prefix_rfl).1, p.parentPath_ne_iff.mpr hdir, ?_⟩
    obtain ⟨name, rest, rfl⟩ := List.exists_cons_of_ne_nil hne
    have hfirst := honly [name] (List.cons_ne_nil _ _) ⟨rest, rfl⟩
    rw [askedPath, if_neg hdir] at hfirst
    have hrest : joined rest = [] := by simpa [storedPath, pathOf, joined] using hfirst
    have hnil : rest = [] := by
      by_contra hsome
      exact joined_ne_nil rest hsome hrest
    rw [hnil, List.length_singleton]
  · intro hflat includes excludes names hnames
    obtain ⟨hlooked, hfiled, hreads, hparent, hone⟩ := hflat names hnames
    have hdir := p.parentPath_ne_iff.mp hparent
    have hasked : askedPath p names = storedPath p names := if_neg hdir
    refine ⟨hlooked, hfiled, ?_, ?_⟩
    · intro hselected onWay hsome hprefix
      have hpos := List.length_pos_iff.mpr hsome
      have hle := hprefix.length_le
      obtain rfl : onWay = names := hprefix.eq_of_length (by omega)
      exact ⟨hreads, by rwa [hasked]⟩
    · intro _ hselected
      rwa [hasked] at hselected

end Selection

/-- `/d/c`, with the file `u` and the directory `s` of a file `v`. -/
def plainPath : FullPath :=
  ⟨[slash, 100], [99], by decide, by decide, by decide, by decide, by decide⟩

def plainEntries : Entries :=
  .cons [117] (.file 1 0o100644) (.cons [115] (.directory 0o40755
    (.cons [118] (.file 2 0o100644) .nil)) .nil)

theorem plainEntries_named : NamedEntries plainEntries := by
  have hnames : Named [117] ∧ Named [115] ∧ Named [118] := by
    refine ⟨⟨?_, ?_, ?_⟩, ⟨?_, ?_, ?_⟩, ⟨?_, ?_, ?_⟩⟩ <;> decide
  simp [plainEntries, NamedEntries, NamedNode, hnames]

/-- `c/.*`, and `c/s/v`. -/
def included : plainLibrary.Regex :=
  [(.letter 99, .once), (.letter slash, .once), (.any, .star)]

def excluded : plainLibrary.Regex := plainQuote [99, slash, 115, slash, 118]

/-- `/d/c+` and `/cd`, with the file `u`. -/
def plusPath : FullPath :=
  ⟨[slash, 100], [99, 43], by decide, by decide, by decide, by decide, by decide⟩

def topPath : FullPath :=
  ⟨[], [99, 100], by decide, by decide, by decide, by decide, by decide⟩

def oneEntry : Entries := .cons [117] (.file 1 0o100644) .nil

end Torrent

end Gingko.FilteredTorrents
