import Gingko.TaskResumes
import Gingko.TorrentPaths

/-!
The files of a torrent. A directory is listed with the modes of its files and directories
and the targets of its links; the list is written into the info dictionary of the torrent,
and read from it again, under another name if one is given. Hashes, times and the encoding
of the dictionary are left out.
-/
namespace Gingko.TorrentTrees

open Base64Codec TorrentPaths
open TaskResumes (Entry)

section Storage

structure SymlinkFile where
  mode : UInt32
  path : ByteString
  symlinkPath : ByteString
  deriving DecidableEq

structure Attributes where
  padFile : Bool
  hidden : Bool
  executable : Bool
  symlink : Bool
  deriving DecidableEq

structure FileEntry where
  path : ByteString
  size : Int64
  attributes : Attributes
  symlinkPath : ByteString
  mode : UInt32
  deriving DecidableEq

/-- `offset` and `size` are bit fields. `pathIndex` is the place of the directory in the list
of the storage, -1 for none and -2 for a whole path in `name`. -/
structure InternalFileEntry where
  name : ByteString
  offset : BitVec 48
  size : BitVec 48
  attributes : Attributes
  symlinkPath : ByteString
  mode : UInt32
  pathIndex : Int
  noRootDir : Bool
  deriving DecidableEq

def toField (n : Int64) : BitVec 48 := n.toBitVec.setWidth 48

def ofField (field : BitVec 48) : Int64 := .ofBitVec (field.setWidth 64)

structure FileStorage where
  files : List InternalFileEntry
  paths : List ByteString
  pathsMode : List UInt32
  symlinksEx : List SymlinkFile
  name : ByteString
  totalSize : Int64
  deriving DecidableEq

namespace FileStorage

def empty : FileStorage := ⟨[], [], [], [], [], 0⟩

def addPath (fs : FileStorage) (path : ByteString) (mode : UInt32) : FileStorage :=
  if path ≠ [] ∧ !fs.paths.contains path then
    { fs with paths := fs.paths ++ [path], pathsMode := fs.pathsMode ++ [mode] }
  else fs

def addSymlink (fs : FileStorage) (path symlinkPath : ByteString) (mode : UInt32) : FileStorage :=
  if path = [] ∨ symlinkPath = [] then fs
  else { fs with symlinksEx := fs.symlinksEx ++ [⟨mode, path, symlinkPath⟩] }

/-- A search from the end. -/
def findPath (fs : FileStorage) (path : ByteString) : Option ℕ :=
  (fs.paths.reverse.idxOf? path).map fun back => fs.paths.length - 1 - back

/-- A directory that has not been listed is listed now. -/
def updatePathIndex (fs : FileStorage) (e : InternalFileEntry) :
    FileStorage × InternalFileEntry :=
  if isComplete e.name then (fs, { e with pathIndex := -2 })
  else
    let parent := parentPath e.name
    if parent = [] then (fs, { e with pathIndex := -1 })
    else
      match fs.findPath parent with
      | some index =>
        (fs, { e with noRootDir := true, pathIndex := index, name := filename e.name })
      | none =>
        ({ fs with paths := fs.paths ++ [parent], pathsMode := fs.pathsMode ++ [0o755] },
          { e with noRootDir := true, pathIndex := fs.paths.length, name := filename e.name })

/-- What both functions that add a file do with it; they count different sizes. -/
def pushFile (fs : FileStorage) (e : FileEntry) (counted : Int64) : FileStorage :=
  let new := fs.updatePathIndex
    ⟨e.path, toField fs.totalSize, toField e.size, e.attributes, e.symlinkPath, e.mode, -1, false⟩
  { new.1 with files := fs.files ++ [new.2], totalSize := fs.totalSize + counted }

/-- The first file names the storage by the first name of its path. -/
def nameBy (fs : FileStorage) (file : ByteString) : FileStorage :=
  if !hasParentPath file then { fs with name := file }
  else if fs.files = [] then { fs with name := (pathElements file).headD [] }
  else fs

/-- A link is not a file of the torrent, but stands in a list of its own. -/
def addFile (fs : FileStorage) (file : ByteString) (size : Int64) (flags : Attributes)
    (symlinkPath : ByteString) (mode : UInt32) : FileStorage :=
  let size := if size < 0 then 0 else size
  let fs := fs.nameBy file
  if flags.symlink then fs.addSymlink file symlinkPath mode
  else fs.pushFile ⟨file, size, flags, [], mode⟩ size

/-- The size that is counted is what the field has kept. -/
def addFileEntry (fs : FileStorage) (e : FileEntry) : FileStorage :=
  (fs.nameBy e.path).pushFile e (ofField (toField e.size))

def filePath (fs : FileStorage) (e : InternalFileEntry) : ByteString :=
  if e.pathIndex < 0 then e.name
  else
    let path := fs.paths.getD e.pathIndex.toNat []
    if e.noRootDir then combinePath path e.name else combinePath fs.name (combinePath path e.name)

end FileStorage

end Storage

section Listing

mutual

/-- What `stat_file` tells of an entry of the file system, with links followed or not as the
flags ask for, and `missing` if it fails. -/
inductive Node where
  | file (size : Int64) (stMode : UInt32)
  | link (target : ByteString) (stMode : UInt32)
  | directory (stMode : UInt32) (entries : Entries)
  | other
  | missing

inductive Entries where
  | nil
  | cons (leaf : ByteString) (node : Node) (rest : Entries)

end

def sIxusr : UInt32 := 0o100

def getFileAttributes (stMode : UInt32) (isLink : Bool) : Attributes :=
  ⟨false, false, stMode &&& sIxusr ≠ 0, isLink⟩

def maxSymlinkPath : ℕ := 200

/-- A target that fills the buffer is lost. -/
def getSymlinkPath (target : ByteString) : ByteString :=
  if target.length < maxSymlinkPath then target else []

def ignoreSubdir (leaf : ByteString) : Bool :=
  leaf = TrimmedPaths.dotDot || leaf = TrimmedPaths.dot

def nameOf (l : ByteString) (fs : FileStorage) : FileStorage :=
  if fs.files = [] then { fs with name := l } else fs

def letterX : ByteString := [120]

variable (pred : ByteString → Bool) (p : ByteString)

mutual

def addFilesImpl (l : ByteString) (fs : FileStorage) : Node → FileStorage
  | .file size stMode =>
    if !pred (combinePath p l) then fs
    else nameOf l (fs.addFile l size (getFileAttributes stMode false) [] (stMode &&& 0o777))
  | .link target stMode =>
    if !pred (combinePath p l) then fs
    else nameOf l (fs.addFile l 0 (getFileAttributes stMode true) (getSymlinkPath target)
      (stMode &&& 0o777))
  | .directory stMode entries =>
    if !pred (combinePath p l) then fs
    else nameOf l (addEntries l
      (fs.addPath (parentPath (combinePath l letterX)) (stMode &&& 0o777)) entries)
  | .other => if !pred (combinePath p l) then fs else nameOf l fs
  | .missing => fs

def addEntries (l : ByteString) (fs : FileStorage) : Entries → FileStorage
  | .nil => fs
  | .cons leaf node rest =>
    if ignoreSubdir leaf then addEntries l fs rest
    else addEntries l (addFilesImpl (combinePath l leaf) fs node) rest

end

end Listing

section Generate

structure ClusterConfig where
  host : ByteString
  port : Int64
  user : ByteString
  passwd : ByteString
  prefixPath : ByteString
  deriving DecidableEq

def ofMode (mode : UInt32) : Int64 := mode.toUInt64.toInt64

def toMode (value : Int64) : UInt32 := value.toUInt64.toUInt32

/-- The letters p, h, x and l. -/
def letters (includeSymlinks : Bool) (attributes : Attributes) : ByteString :=
  (if attributes.padFile then [112] else []) ++ (if attributes.hidden then [104] else []) ++
    (if attributes.executable then [120] else []) ++
    (if includeSymlinks && attributes.symlink then [108] else [])

def attrEntry (includeSymlinks : Bool) (attributes : Attributes) : List (String × Entry) :=
  if attributes = ⟨false, false, false, false⟩ then []
  else [("attr", .string (letters includeSymlinks attributes))]

def symlinkEntry (includeSymlinks : Bool) (attributes : Attributes) (symlinkPath : ByteString) :
    List (String × Entry) :=
  if includeSymlinks && attributes.symlink then
    [("symlink path", .list ((pathElements symlinkPath).map Entry.string))]
  else []

/-- The names of a path below the first one, without empty ones. -/
def namesBelow (path : ByteString) : List Entry :=
  ((pathElements path).tail.filter (· ≠ [])).map Entry.string

def genPathsEntry (fs : FileStorage) : List Entry :=
  (fs.paths.zip fs.pathsMode).tail.map fun path =>
    .dictionary [("mode", .integer (ofMode path.2)),
      ("path", if namesBelow path.1 = [] then .undefined else .list (namesBelow path.1))]

def genSymlinksEntry (fs : FileStorage) : List Entry :=
  fs.symlinksEx.map fun sf =>
    .dictionary [("mode", .integer (ofMode sf.mode)), ("path", .list (namesBelow sf.path)),
      ("symlink path", .string sf.symlinkPath)]

def fileEntry (includeSymlinks : Bool) (fs : FileStorage) (e : InternalFileEntry) : Entry :=
  .dictionary ([("length", .integer (ofField e.size)), ("mode", .integer (ofMode e.mode)),
    ("path", .list ((pathElements (fs.filePath e)).tail.map Entry.string))] ++
    attrEntry includeSymlinks e.attributes ++
    symlinkEntry includeSymlinks e.attributes e.symlinkPath)

def isMultifile (fs : FileStorage) : Bool :=
  match fs.files with
  | [] => false
  | [e] => hasParentPath (fs.filePath e)
  | _ => true

/-- The assignment to `mode` for the directories comes after the one for a single file. -/
def generate (includeSymlinks : Bool) (fs : FileStorage) (config : ClusterConfig) :
    Option Entry :=
  match fs.files with
  | [] => none
  | first :: _ =>
    let common : List (String × Entry) :=
      [("name", .string fs.name), ("HADOOP_HOST", .string config.host),
        ("HADOOP_PORT", .integer config.port), ("HADOOP_USER", .string config.user),
        ("HADOOP_PASSWD", .string config.passwd), ("dest_src", .string config.prefixPath)]
    let files : List (String × Entry) :=
      if isMultifile fs then [("files", .list (fs.files.map (fileEntry includeSymlinks fs)))]
      else [("length", .integer (ofField first.size))] ++
        attrEntry includeSymlinks first.attributes ++
        symlinkEntry includeSymlinks first.attributes first.symlinkPath
    let mode : List (String × Entry) :=
      match fs.pathsMode with
      | mode :: _ => [("mode", .integer (ofMode mode))]
      | [] => if isMultifile fs then [] else [("mode", .integer (ofMode first.mode))]
    let paths : List (String × Entry) :=
      if fs.paths = [] then [] else [("paths", .list (genPathsEntry fs))]
    let symlinks : List (String × Entry) :=
      if fs.symlinksEx = [] then [] else [("symlinks", .list (genSymlinksEntry fs))]
    some (.dictionary (common ++ files ++ mode ++ paths ++ symlinks))

end Generate

section Parse

def findIntValue (e : Entry) (key : String) (default : Int64) : Int64 :=
  match e.findKey key with
  | some (.integer value) => value
  | _ => default

def findString (e : Entry) (key : String) : Option ByteString :=
  match e.findKey key with
  | some (.string value) => some value
  | _ => none

def findList (e : Entry) (key : String) : Option (List Entry) :=
  match e.findKey key with
  | some (.list values) => some values
  | _ => none

def isDictionary : Entry → Bool
  | .dictionary _ => true
  | _ => false

def stringOf : Entry → Option ByteString
  | .string value => some value
  | _ => none

/-- The path of the elements below the root, as directories and links have it. -/
def pathBelow (rootDir : ByteString) (elements : List Entry) : Option ByteString :=
  (elements.mapM stringOf).map fun names =>
    verifyEncoding (sanitizePath
      (names.foldl (fun path pathElement => combinePath path (trimPathElement pathElement))
        rootDir))

def extractPath (rootDir : ByteString) (target : FileStorage) (dict : Entry) :
    Option FileStorage := do
  guard (isDictionary dict)
  let mode := toMode (findIntValue dict "mode" 0o755)
  let elements ← findList dict "path"
  let path ← pathBelow rootDir elements
  return target.addPath (parentPath (combinePath path letterX)) (mode &&& 0o777)

def extractPaths (rootDir : ByteString) (paths : List Entry) (target : FileStorage) :
    Option FileStorage :=
  paths.foldlM (extractPath rootDir) target

def extractSymlink (rootDir : ByteString) (target : FileStorage) (dict : Entry) :
    Option FileStorage := do
  guard (isDictionary dict)
  let mode := toMode (findIntValue dict "mode" 0o755)
  let elements ← findList dict "path"
  let path ← pathBelow rootDir elements
  let symlinkPath ← findString dict "symlink path"
  return target.addSymlink path (verifyEncoding symlinkPath) mode

def extractSymlinks (rootDir : ByteString) (symlinks : List Entry) (target : FileStorage) :
    Option FileStorage :=
  symlinks.foldlM (extractSymlink rootDir) target

def paddingFile : ByteString :=
  "_____padding_file_".toList.map fun c => UInt8.ofNat c.toNat

def isPadding (path : ByteString) : Bool := path.tails.any paddingFile.isPrefixOf

/-- What the letters say, over what the path says of padding. -/
def readLetters (attr : ByteString) (padFile : Bool) : Attributes :=
  ⟨padFile || attr.contains 112, attr.contains 104, attr.contains 120, attr.contains 108⟩

def readAttributes (dict : Entry) (path : ByteString) : Attributes :=
  readLetters ((findString dict "attr").getD []) (isPadding path)

def readSymlinkPath (dict : Entry) : ByteString :=
  match findList dict "symlink path" with
  | some elements => elements.foldl (fun path element =>
      combinePath path (trimPathElement ((stringOf element).getD []))) []
  | none => []

/-- A file that is declared a link has no size. -/
def extractSingleFile (rootDir : ByteString) (dict : Entry) : Option FileEntry := do
  guard (isDictionary dict)
  let .integer length ← dict.findKey "length" | none
  guard (0 ≤ length)
  let mode := toMode (findIntValue dict "mode" 0o644)
  let elements ← (findList dict "path.utf-8").or (findList dict "path")
  let names ← elements.mapM stringOf
  let below := names.foldl (fun path pathElement =>
    let pathElement := if pathElement = [] then [underscore] else pathElement
    if validPathElement pathElement then combinePath path (trimPathElement pathElement)
    else path) rootDir
  let path := verifyEncoding (sanitizePath below)
  let attributes := readAttributes dict path
  return ⟨path, if attributes.symlink then 0 else length, attributes,
    if attributes.symlink then readSymlinkPath dict else [], mode⟩

def toLower (c : UInt8) : UInt8 := if 65 ≤ c ∧ c ≤ 90 then c + 32 else c

def lower (path : ByteString) : ByteString := path.map toLower

def decimalText (n : ℕ) : ByteString := (Nat.toDigits 10 n).map fun c => UInt8.ofNat c.toNat

/-- The loop that counts up until the path is new; a path more than there are taken ones is
enough. -/
def uniquePath (taken : List ByteString) (path : ByteString) : ByteString :=
  if !taken.contains (lower path) then path
  else
    ((List.range (taken.length + 1)).map fun cnt =>
      removeExtension path ++
        ([period] ++ decimalText (cnt + 1) ++ extension path).take 49).find?
      (fun new => !taken.contains (lower new)) |>.getD path

/-- The paths that have come are kept without regard to case. -/
def extractFile (rootDir : ByteString) (s : FileStorage × List ByteString) (dict : Entry) :
    Option (FileStorage × List ByteString) := do
  let e ← extractSingleFile rootDir dict
  let path := uniquePath s.2 e.path
  return (s.1.addFileEntry { e with path }, lower path :: s.2)

def extractFiles (rootDir : ByteString) (list : List Entry) (target : FileStorage) :
    Option FileStorage :=
  (list.foldlM (extractFile rootDir) (target, [])).map Prod.fst

def extractLength (name : ByteString) (info : Entry) (target : FileStorage) :
    Option FileStorage :=
  let size := findIntValue info "length" (-1)
  if size < 0 then none
  else
    let attributes := readAttributes info name
    some (target.addFileEntry ⟨name, if attributes.symlink then 0 else size, attributes,
      readSymlinkPath info, toMode (findIntValue info "mode" 0o744)⟩)

/-- The name in the file, or that of the infohash if it is empty. -/
def readName (infoHash : ByteString) (info : Entry) : Option ByteString := do
  let name ← (findString info "name.utf-8").or (findString info "name")
  let name := sanitizePath (if name = [] then infoHash else name)
  guard (validPathElement name)
  return verifyEncoding name

def readConfig (info : Entry) : ClusterConfig where
  host := (findString info "HADOOP_HOST").getD []
  port := findIntValue info "HADOOP_PORT" 0
  user := (findString info "HADOOP_USER").getD []
  passwd := (findString info "HADOOP_PASSWD").getD []
  prefixPath := (findString info "dest_src").getD []

def readPaths (name : ByteString) (info : Entry) (target : FileStorage) : Option FileStorage :=
  match findList info "paths" with
  | some paths =>
    extractPaths name paths (target.addPath (parentPath (combinePath name letterX))
      (toMode (findIntValue info "mode" 0o755) &&& 0o777))
  | none => some target

def readSymlinks (name : ByteString) (info : Entry) (target : FileStorage) :
    Option FileStorage :=
  match findList info "symlinks" with
  | some symlinks => extractSymlinks name symlinks target
  | none => some target

def readFiles (name : ByteString) (info : Entry) (target : FileStorage) : Option FileStorage :=
  match findList info "files" with
  | some files => extractFiles name files target
  | none => extractLength name info target

/-- The part of the info dictionary that is about files. -/
def parseInfoSection (infoHash newName : ByteString) (info : Entry) :
    Option (FileStorage × ClusterConfig) := do
  let readName ← readName infoHash info
  let name := if newName = [] then readName else newName
  let fs ← readPaths name info .empty
  let fs ← readSymlinks name info fs
  let fs ← readFiles name info fs
  return ({ fs with name }, readConfig info)

end Parse

end Gingko.TorrentTrees
