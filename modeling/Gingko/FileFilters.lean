import Gingko.DataPaths

/-!
The files that go into a torrent. A filter reads the full path as a regular
expression, cuts the parent of the root off the name of a file, and asks the include
and exclude expressions about the rest. Regular expressions are those of a library.
A downloader asks the same expressions about the paths that a torrent stores.
-/
namespace Gingko.FileFilters

open AgentMessages AgentTasks Base64Codec MachineRooms DataPaths

def star : UInt8 := 42

/-- Compiled expressions, and whether one matches the whole of a text. -/
structure RegexLibrary where
  Regex : Type
  assign : ByteString → Option Regex
  regexMatch : ByteString → Regex → Bool

/-- Every text has an expression that matches it alone. -/
def RegexLibrary.Quotes (lib : RegexLibrary) : Prop :=
  ∀ text, ∃ re, ∀ other, lib.regexMatch other re = true ↔ other = text

section PlainPatterns

/-- A letter or any letter, and how often. -/
inductive Atom where
  | letter (b : UInt8)
  | any

inductive Count where
  | once
  | star
  | plus

def Atom.ok : Atom → UInt8 → Bool
  | .letter b, c => b = c
  | .any, _ => true

def Count.ok : Count → ℕ → Bool
  | .once, n => n = 1
  | .star, _ => true
  | .plus, n => 1 ≤ n

/-- Patterns of letters, `.`, `*` and `+`. -/
def plainParse : ByteString → Option (List (Atom × Count))
  | [] => some []
  | b :: rest =>
    let atom := if b = 46 then .any else .letter b
    match rest with
    | [] => if b = star ∨ b = 43 then none else some [(atom, .once)]
    | q :: rest' =>
      if b = star ∨ b = 43 then none
      else if q = star then (plainParse rest').map ((atom, .star) :: ·)
      else if q = 43 then (plainParse rest').map ((atom, .plus) :: ·)
      else (plainParse (q :: rest')).map ((atom, .once) :: ·)

def plainMatch : List (Atom × Count) → ByteString → Bool
  | [], text => text.isEmpty
  | (atom, count) :: pattern, text =>
    (List.range (text.length + 1)).any fun n =>
      count.ok n && (text.take n).all atom.ok && plainMatch pattern (text.drop n)

def plainLibrary : RegexLibrary where
  Regex := List (Atom × Count)
  assign := plainParse
  regexMatch text re := plainMatch re text

theorem plainMatch_letters (text other : ByteString) :
    plainMatch (text.map fun b => (.letter b, .once)) other = true ↔ other = text := by
  induction text generalizing other with
  | nil => simp [plainMatch]
  | cons b rest ih =>
    rw [List.map_cons, plainMatch, List.any_eq_true]
    cases other with
    | nil => simp [Count.ok]
    | cons c others =>
      constructor
      · rintro ⟨n, -, hn⟩
        rw [Bool.and_eq_true, Bool.and_eq_true] at hn
        obtain ⟨⟨hcount, hletter⟩, hrest⟩ := hn
        obtain rfl : n = 1 := by simpa [Count.ok] using hcount
        have hothers : others = rest := (ih others).mp (by simpa using hrest)
        have hletter : b = c := by simpa [Atom.ok] using hletter
        rw [hothers, hletter]
      · rintro ⟨⟩
        refine ⟨1, by simp, ?_⟩
        have hrest := (ih rest).mpr rfl
        simp [Count.ok, Atom.ok, hrest]

/-- The pattern that matches one text. -/
def plainQuote (text : ByteString) : plainLibrary.Regex := text.map fun b => (.letter b, .once)

theorem plainLibrary_quotes : plainLibrary.Quotes := fun text =>
  ⟨plainQuote text, plainMatch_letters text⟩

end PlainPatterns

section Filter

variable (lib : RegexLibrary)

/-- `re` is `none` when the path was no expression. -/
structure FileFilter where
  rootPath : ByteString
  re : Option lib.Regex
  prefixLen : ℕ
  includes : List lib.Regex
  excludes : List lib.Regex

def FileFilter.create (rootPath pathReg : ByteString) (includes excludes : List lib.Regex) :
    FileFilter lib :=
  ⟨rootPath, lib.assign pathReg, (parentPath rootPath).length + 1, includes, excludes⟩

variable {lib}

def FileFilter.isError (filter : FileFilter lib) : Bool := filter.re.isNone

def FileFilter.accepts (filter : FileFilter lib) (filename : ByteString) : Bool :=
  if filename = filter.rootPath then true
  else if ¬(filter.re.any (lib.regexMatch filename)) then false
  else
    let regexM := lib.regexMatch (filename.drop filter.prefixLen)
    if ¬filter.includes.isEmpty ∧ filter.includes.any regexM = false then false
    else !filter.excludes.any regexM

end Filter

section Torrent

variable (lib : RegexLibrary)

/-- Every letter. -/
def everything : ByteString := [46, star]

/-- The root and the path expression. A `*` in the short name stands for any text. -/
def filterPaths (fullPath : ByteString) : ByteString × ByteString :=
  let (parentPath, shortName) := (pathSlipt fullPath).getD ([], [])
  if star ∉ shortName then (fullPath, fullPath ++ slash :: everything)
  else
    (parentPath, parentPath ++ slash ::
      shortName.flatMap fun b => if b = star then everything else [b])

/-- The filter of a path. -/
def makeFilter (fullPath : ByteString) (includes excludes : List lib.Regex) : FileFilter lib :=
  let (rootPath, regPath) := filterPaths fullPath
  FileFilter.create lib rootPath regPath includes excludes

def needDownloadFile (includes excludes : List lib.Regex) (filepath : ByteString) : ℕ :=
  let regexM := lib.regexMatch filepath
  let priority := if includes.isEmpty ∨ includes.any regexM then 1 else 0
  if excludes.any regexM then 0 else priority

/-- The priorities of the files of a torrent. -/
def parseNeedDownloadFiles (includes excludes : List lib.Regex) (files : List ByteString) :
    List ℕ :=
  files.map (needDownloadFile lib includes excludes)

def Selected (includes excludes : List lib.Regex) (filepath : ByteString) : Prop :=
  (includes = [] ∨ ∃ re ∈ includes, lib.regexMatch filepath re = true) ∧
    ∀ re ∈ excludes, ¬lib.regexMatch filepath re = true

theorem needDownloadFile_iff (includes excludes : List lib.Regex) (filepath : ByteString) :
    needDownloadFile lib includes excludes filepath ≠ 0 ↔
      Selected lib includes excludes filepath := by
  simp only [needDownloadFile, Selected, List.isEmpty_iff, List.any_eq_true]
  by_cases hexcluded : ∃ re ∈ excludes, lib.regexMatch filepath re = true
  · rw [if_pos hexcluded]
    refine ⟨fun hzero => absurd rfl hzero, fun ⟨_, hnone⟩ => ?_⟩
    obtain ⟨re, hmem, hmatch⟩ := hexcluded
    exact absurd hmatch (hnone re hmem)
  · rw [if_neg hexcluded]
    have hnone : ∀ re ∈ excludes, ¬lib.regexMatch filepath re = true := fun re hmem hmatch =>
      hexcluded ⟨re, hmem, hmatch⟩
    split
    · next hincluded => exact ⟨fun _ => ⟨hincluded, hnone⟩, fun _ => Nat.one_ne_zero⟩
    · next hincluded =>
      exact ⟨fun hzero => absurd rfl hzero, fun hselected => absurd hselected.1 hincluded⟩

/-- A full path without repeated or trailing slashes, and without `*`; the directory is
empty when the root of the file system is the parent. -/
structure FullPath where
  dir : ByteString
  name : ByteString
  dir_end : dir.getLast? ≠ some slash
  name_ne : name ≠ []
  name_slash : slash ∉ name
  absolute : (dir ++ slash :: name).head? = some slash
  no_star : star ∉ dir ++ slash :: name

def FullPath.text (p : FullPath) : ByteString := p.dir ++ slash :: p.name

theorem FullPath.rfind_text (p : FullPath) : rfind [slash] p.text = some p.dir.length :=
  rfind_letter slash p.dir p.name p.name_slash

theorem FullPath.trim_text (p : FullPath) : trimBackSlash p.text = p.text :=
  trimBackSlash_dataPath p.dir p.name p.name_ne p.name_slash

theorem FullPath.parentPath_text (p : FullPath) :
    parentPath p.text = if p.dir = [] then [slash] else p.dir := by
  simp only [parentPath, p.trim_text, p.rfind_text, parentAt, List.length_eq_zero_iff]
  split
  · rfl
  · exact List.take_left

theorem FullPath.parentPath_ne_iff (p : FullPath) : parentPath p.text ≠ [slash] ↔ p.dir ≠ [] := by
  rw [p.parentPath_text]
  split
  · next hdir => simp [hdir]
  · next hdir =>
    refine ⟨fun _ => hdir, fun _ hroot => p.dir_end ?_⟩
    rw [hroot]
    rfl

theorem FullPath.fileName_text (p : FullPath) : fileName p.text = p.name := by
  simp only [fileName, p.trim_text, p.rfind_text]
  exact drop_joined p.dir p.name

theorem FullPath.filterPaths_text (p : FullPath) :
    filterPaths p.text = (p.text, p.text ++ slash :: everything) := by
  have hstar : star ∉ ((pathSlipt p.text).getD ([], [])).2 := by
    cases hsplit : pathSlipt p.text with
    | none => simp
    | some parts =>
      have hname := (pathSlipt_parts p.text parts.1 parts.2 hsplit).2
      rw [p.fileName_text] at hname
      rw [Option.getD_some, ← hname]
      exact fun hmem => p.no_star (by simp [hmem])
  simp only [filterPaths, if_pos hstar]

end Torrent
end Gingko.FileFilters
