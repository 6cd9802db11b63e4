import Gingko.DataPaths
import Mathlib.Data.List.TakeWhile

/-!
The removal of what is not in a torrent. A walk visits everything below the root of a
download, each directory after what is in it, and a callback unlinks the files and
symlinks and removes the directories that the torrent does not list. What is a file
to be removed is told from the mode by one bit, and sockets have it too.
-/
namespace Gingko.OutsideFiles

open Base64Codec AgentTasks DataPaths

section Modes

def sIfmt : UInt32 := 0o170000

def sIfreg : UInt32 := 0o100000

/-- What is neither a directory nor a symlink. -/
inductive FileKind where
  | regular
  | socket
  | blockDevice
  | charDevice
  | fifo
  deriving DecidableEq

def FileKind.bits : FileKind → UInt32
  | .regular => sIfreg
  | .socket => 0o140000
  | .blockDevice => 0o060000
  | .charDevice => 0o020000
  | .fifo => 0o010000

structure Stat where
  kind : FileKind
  stMode : UInt32
  typed : stMode &&& sIfmt = kind.bits

/-- The bit of regular files is set for sockets as well. -/
theorem Stat.regularBit_iff (stat : Stat) :
    stat.stMode &&& sIfreg ≠ 0 ↔ stat.kind = .regular ∨ stat.kind = .socket := by
  have hbits : stat.stMode &&& sIfreg = stat.kind.bits &&& sIfreg := by
    rw [← stat.typed, UInt32.and_assoc]
    rfl
  rw [hbits]
  cases stat.kind <;> decide

end Modes

section Walk

/-- What a directory holds, in the order in which the walk reads it. -/
inductive Listing where
  | nil
  | file (name : ByteString) (stat : Stat) (rest : Listing)
  | symlink (name : ByteString) (rest : Listing)
  | dir (name : ByteString) (children rest : Listing)

inductive FtwType where
  | f (stat : Stat)
  | sl
  | sln
  | dp
  | dnr
  | ns

structure Visit where
  path : ByteString
  type : FtwType

def inDir (dirPath name : ByteString) : ByteString := dirPath ++ slash :: name

/-- `q` lies below the directory `p`. -/
def Below (p q : ByteString) : Prop := p ++ [slash] <+: q

instance (p q : ByteString) : Decidable (Below p q) := inferInstanceAs (Decidable (_ <+: _))

/-- The walk that does not follow symlinks and visits a directory after its entries. -/
def Listing.walk (dirPath : ByteString) : Listing → List Visit
  | .nil => []
  | .file name stat rest => ⟨inDir dirPath name, .f stat⟩ :: rest.walk dirPath
  | .symlink name rest => ⟨inDir dirPath name, .sl⟩ :: rest.walk dirPath
  | .dir name children rest =>
    children.walk (inDir dirPath name) ++ ⟨inDir dirPath name, .dp⟩ :: rest.walk dirPath

def Listing.names : Listing → List ByteString
  | .nil => []
  | .file name _ rest => name :: rest.names
  | .symlink name rest => name :: rest.names
  | .dir name _ rest => name :: rest.names

/-- Names have no slash, and a directory has each once. -/
def Listing.Proper : Listing → Prop
  | .nil => True
  | .file name _ rest => slash ∉ name ∧ name ∉ rest.names ∧ rest.Proper
  | .symlink name rest => slash ∉ name ∧ name ∉ rest.names ∧ rest.Proper
  | .dir name children rest =>
    slash ∉ name ∧ name ∉ rest.names ∧ children.Proper ∧ rest.Proper

/-- A path is the entry `name` of a directory, or below it. -/
def Inside (dirPath name path : ByteString) : Prop :=
  ∃ tail, path = inDir dirPath name ++ tail ∧ (tail = [] ∨ tail.head? = some slash)

theorem inside_self (dirPath name : ByteString) : Inside dirPath name (inDir dirPath name) :=
  ⟨[], (List.append_nil _).symm, .inl rfl⟩

theorem Inside.below {dirPath name p q : ByteString} (hp : Inside dirPath name p)
    (hbelow : Below p q) : Inside dirPath name q := by
  obtain ⟨tail, rfl, htail⟩ := hp
  obtain ⟨more, rfl⟩ := hbelow
  refine ⟨tail ++ [slash] ++ more, by simp only [List.append_assoc], .inr ?_⟩
  obtain rfl | hslash := htail
  · rfl
  · simp [hslash]

theorem Inside.unique {dirPath a b path : ByteString} (ha : Inside dirPath a path)
    (hb : Inside dirPath b path) (haslash : slash ∉ a) (hbslash : slash ∉ b) : a = b := by
  have hname (name tail : ByteString) (hslash : slash ∉ name)
      (htail : tail = [] ∨ tail.head? = some slash) :
      (name ++ tail).takeWhile (· ≠ slash) = name := by
    have hletters : ∀ c ∈ name, (c ≠ slash : Bool) = true := fun c hc =>
      decide_eq_true fun heq => hslash (heq ▸ hc)
    rw [List.takeWhile_append_of_pos hletters]
    obtain rfl | hhead := htail
    · simp
    · obtain ⟨rest, rfl⟩ := List.head?_eq_some_iff.mp hhead
      simp
  obtain ⟨atail, rfl, hatail⟩ := ha
  obtain ⟨btail, heq, hbtail⟩ := hb
  have hrest : a ++ atail = b ++ btail := by simpa [inDir] using heq
  rw [← hname a atail haslash hatail, hrest, hname b btail hbslash hbtail]

theorem exists_inside_cons {dirPath name path : ByteString} {names : List ByteString}
    (h : Inside dirPath name path ∨ ∃ other ∈ names, Inside dirPath other path) :
    ∃ other ∈ name :: names, Inside dirPath other path := by
  obtain hname | ⟨other, hother, hinside⟩ := h
  · exact ⟨name, List.mem_cons_self, hname⟩
  · exact ⟨other, List.mem_cons_of_mem name hother, hinside⟩

theorem Inside.of_child {dirPath name child path : ByteString}
    (h : Inside (inDir dirPath name) child path) : Inside dirPath name path := by
  obtain ⟨tail, rfl, -⟩ := h
  exact ⟨slash :: child ++ tail, by simp [inDir], .inr rfl⟩

theorem Inside.length_lt {dirPath name path : ByteString} (h : Inside dirPath name path) :
    dirPath.length < path.length := by
  obtain ⟨tail, rfl, -⟩ := h
  simp only [inDir, List.length_append, List.length_cons]
  omega

/-- Everything in a listing is inside one of its names. -/
theorem Listing.walk_inside (dirPath : ByteString) (f : Listing) (v : Visit)
    (hv : v ∈ f.walk dirPath) : ∃ name ∈ f.names, Inside dirPath name v.path := by
  induction f generalizing dirPath with
  | nil => cases hv
  | file name stat rest ih | symlink name rest ih =>
    apply exists_inside_cons
    obtain rfl | hv := List.mem_cons.mp hv
    · exact .inl (inside_self dirPath name)
    · exact .inr (ih dirPath hv)
  | dir name children rest ihchildren ihrest =>
    apply exists_inside_cons
    obtain hv | hv := List.mem_append.mp hv
    · obtain ⟨child, -, hchild⟩ := ihchildren (inDir dirPath name) hv
      exact .inl hchild.of_child
    · obtain rfl | hv := List.mem_cons.mp hv
      · exact .inl (inside_self dirPath name)
      · exact .inr (ihrest dirPath hv)

/-- A later visit is to another path, and not below an earlier one. -/
def Before (u v : Visit) : Prop := u.path ≠ v.path ∧ ¬Below u.path v.path

/-- An entry comes apart from all that the other names of its directory hold. -/
theorem before_rest {dirPath name : ByteString} {rest : Listing} (hslash : slash ∉ name)
    (hname : name ∉ rest.names) (hslashes : ∀ other ∈ rest.names, slash ∉ other) {u v : Visit}
    (hu : Inside dirPath name u.path) (hv : v ∈ rest.walk dirPath) : Before u v := by
  obtain ⟨other, hother, hinside⟩ := rest.walk_inside dirPath v hv
  have hne : name ≠ other := fun h => hname (h ▸ hother)
  constructor
  · intro hpath
    exact hne ((hpath ▸ hu).unique hinside hslash (hslashes other hother))
  · intro hbelow
    exact hne ((hu.below hbelow).unique hinside hslash (hslashes other hother))

theorem Listing.Proper.slashes {f : Listing} (hproper : f.Proper) :
    ∀ name ∈ f.names, slash ∉ name := by
  induction f with
  | nil => simp [Listing.names]
  | file name stat rest ih | symlink name rest ih =>
    exact List.forall_mem_cons.mpr ⟨hproper.1, ih hproper.2.2⟩
  | dir name children rest _ ih =>
    exact List.forall_mem_cons.mpr ⟨hproper.1, ih hproper.2.2.2⟩

theorem Listing.walk_before (dirPath : ByteString) (f : Listing) (hproper : f.Proper) :
    (f.walk dirPath).Pairwise Before := by
  induction f generalizing dirPath with
  | nil => exact .nil
  | file name stat rest ih | symlink name rest ih =>
    obtain ⟨hslash, hname, hrest⟩ := hproper
    refine .cons (fun v hv => ?_) (ih dirPath hrest)
    exact before_rest hslash hname hrest.slashes (inside_self dirPath name) hv
  | dir name children rest ihchildren ihrest =>
    obtain ⟨hslash, hname, hchildren, hrest⟩ := hproper
    have hself (v : Visit) (hv : v ∈ rest.walk dirPath) :
        Before ⟨inDir dirPath name, .dp⟩ v :=
      before_rest hslash hname hrest.slashes (inside_self dirPath name) hv
    refine List.pairwise_append.mpr ⟨ihchildren _ hchildren, .cons hself (ihrest _ hrest), ?_⟩
    intro u hu v hv
    obtain ⟨child, -, hchild⟩ := children.walk_inside _ u hu
    have hlonger := hchild.length_lt
    obtain rfl | hv := List.mem_cons.mp hv
    · constructor
      · intro h
        rw [h] at hlonger
        exact Nat.lt_irrefl _ hlonger
      · intro hbelow
        have := hbelow.length_le
        simp only [List.length_append, List.length_singleton] at this
        omega
    · exact before_rest hslash hname hrest.slashes hchild.of_child hv

end Walk

section Sweep

/-- What the torrent lists, with its own name at the front of each path. -/
structure TorrentInfo where
  name : ByteString
  files : List ByteString
  symlinks : List ByteString
  paths : List ByteString

def unlink (path : ByteString) (present : List ByteString) : List ByteString :=
  present.filter (· ≠ path)

/-- A directory that is not empty stays. -/
def rmdir (path : ByteString) (present : List ByteString) : List ByteString :=
  if ∃ q ∈ present, Below path q then present else present.filter (· ≠ path)

inductive FtwAction where
  | continue
  | stop

def deleteFileCallback (ti : TorrentInfo) (base : ℕ) (present : List ByteString) (v : Visit) :
    FtwAction × List ByteString :=
  let basePath := v.path.drop base
  match v.type with
  | .f stat =>
    if stat.stMode &&& sIfreg = 0 then (.continue, present)
    else if ti.files.contains basePath then (.continue, present)
    else (.continue, unlink v.path present)
  | .sl | .sln =>
    if ti.symlinks.contains basePath then (.continue, present)
    else (.continue, unlink v.path present)
  | .dp =>
    if ti.paths.contains (basePath ++ [slash]) then (.continue, present)
    else (.continue, rmdir v.path present)
  | .dnr => (.stop, present)
  | .ns => (.stop, present)

/-- The walk with its callback; `false` when the callback has stopped it. -/
def nftw (callback : List ByteString → Visit → FtwAction × List ByteString) :
    List Visit → List ByteString → Bool × List ByteString
  | [], present => (true, present)
  | v :: rest, present =>
    match callback present v with
    | (.continue, present) => nftw callback rest present
    | (.stop, present) => (false, present)

def rootName (ti : TorrentInfo) (newName : ByteString) : ByteString :=
  if newName = [] then ti.name else newName

/-- The root of a download, as the one entry of the save path that is walked. -/
structure Download (name : ByteString) where
  root : Listing
  named : root.names = [name]
  proper : root.Proper

def Download.walk {name : ByteString} (download : Download name) (savePath : ByteString) :
    List Visit := download.root.walk savePath

/-- What is left of everything under the root, with symlinks not followed. -/
def deleteFilesOutTorrent (ti : TorrentInfo) (savePath newName : ByteString)
    (download : Download (rootName ti newName)) : Bool × List ByteString :=
  nftw (deleteFileCallback ti (savePath.length + 1)) (download.walk savePath)
    ((download.walk savePath).map Visit.path)

/-- What the callback takes away when `present` is what there is. -/
def Visit.taken (ti : TorrentInfo) (base : ℕ) (present : List ByteString) (v : Visit) : Prop :=
  match v.type with
  | .f stat => stat.stMode &&& sIfreg ≠ 0 ∧ v.path.drop base ∉ ti.files
  | .sl | .sln => v.path.drop base ∉ ti.symlinks
  | .dp => v.path.drop base ++ [slash] ∉ ti.paths ∧ ¬∃ q ∈ present, Below v.path q
  | .dnr | .ns => False

def Visit.readable (v : Visit) : Prop := v.type ≠ .dnr ∧ v.type ≠ .ns

theorem Listing.walk_readable (dirPath : ByteString) (f : Listing) :
    ∀ v ∈ f.walk dirPath, v.readable := by
  induction f generalizing dirPath with
  | nil => simp [Listing.walk]
  | file name stat rest ih | symlink name rest ih =>
    exact List.forall_mem_cons.mpr ⟨⟨by rintro ⟨⟩, by rintro ⟨⟩⟩, ih dirPath⟩
  | dir name children rest ihchildren ihrest =>
    exact List.forall_mem_append.mpr ⟨ihchildren _,
      List.forall_mem_cons.mpr ⟨⟨by rintro ⟨⟩, by rintro ⟨⟩⟩, ihrest dirPath⟩⟩

/-- The callback takes away the path it is at, or nothing. -/
theorem deleteFileCallback_cases (ti : TorrentInfo) (base : ℕ) (present : List ByteString)
    (v : Visit) (hreadable : v.readable) :
    (v.taken ti base present ∧
      deleteFileCallback ti base present v = (.continue, present.filter (· ≠ v.path))) ∨
    (¬v.taken ti base present ∧
      deleteFileCallback ti base present v = (.continue, present)) := by
  obtain ⟨path, type⟩ := v
  cases type with
  | f stat =>
    simp only [Visit.taken, deleteFileCallback, unlink, List.contains_iff_mem]
    split
    · next hspecial => exact .inr ⟨fun h => h.1 hspecial, rfl⟩
    · next hregular =>
      split
      · next hlisted => exact .inr ⟨fun h => h.2 hlisted, rfl⟩
      · next hunlisted => exact .inl ⟨⟨hregular, hunlisted⟩, rfl⟩
  | sl | sln =>
    simp only [Visit.taken, deleteFileCallback, unlink, List.contains_iff_mem]
    split
    · next hlisted => exact .inr ⟨fun h => h hlisted, rfl⟩
    · next hunlisted => exact .inl ⟨hunlisted, rfl⟩
  | dp =>
    simp only [Visit.taken, deleteFileCallback, rmdir, List.contains_iff_mem]
    split
    · next hlisted => exact .inr ⟨fun h => h.1 hlisted, rfl⟩
    · next hunlisted =>
      split
      · next hfull => exact .inr ⟨fun h => h.2 hfull, rfl⟩
      · next hempty => exact .inl ⟨⟨hunlisted, hempty⟩, rfl⟩
  | dnr => exact absurd rfl hreadable.1
  | ns => exact absurd rfl hreadable.2

/-- A walk over `visits` from `present` to `left`. -/
structure Swept (ti : TorrentInfo) (base : ℕ) (visits : List Visit)
    (present left : List ByteString) : Prop where
  subset : ∀ q ∈ left, q ∈ present
  others : ∀ q ∈ present, q ∉ visits.map Visit.path → q ∈ left
  taken : ∀ v ∈ visits, v.path ∈ present → (v.path ∉ left ↔ v.taken ti base left)

/-- What a directory held when it was visited is what it holds at the end, since nothing
below it is visited later. -/
theorem Visit.taken_congr (ti : TorrentInfo) (base : ℕ) (v : Visit) (present left : List ByteString)
    (hsubset : ∀ q ∈ left, q ∈ present) (hbelow : ∀ q ∈ present, Below v.path q → q ∈ left) :
    v.taken ti base present ↔ v.taken ti base left := by
  have hsame : (∃ q ∈ present, Below v.path q) ↔ ∃ q ∈ left, Below v.path q :=
    ⟨fun ⟨q, hq, h⟩ => ⟨q, hbelow q hq h, h⟩, fun ⟨q, hq, h⟩ => ⟨q, hsubset q hq, h⟩⟩
  unfold Visit.taken
  split <;> simp only [hsame]

theorem not_below_self (p : ByteString) : ¬Below p p := by
  intro h
  have := h.length_le
  rw [List.length_append, List.length_singleton] at this
  omega

section First

variable {v : Visit} {rest : List Visit} (hfirst : ∀ u ∈ rest, Before v u)

include hfirst

theorem own_not_visited : v.path ∉ rest.map Visit.path := by
  rw [List.mem_map]
  rintro ⟨u, hu, hpath⟩
  exact (hfirst u hu).1 hpath.symm

theorem below_not_visited (q : ByteString) (hq : Below v.path q) :
    q ∉ (v :: rest).map Visit.path := by
  rw [List.map_cons, List.mem_cons, not_or, List.mem_map]
  refine ⟨fun h => not_below_self v.path (h ▸ hq), ?_⟩
  rintro ⟨u, hu, rfl⟩
  exact (hfirst u hu).2 hq

variable {ti : TorrentInfo} {base : ℕ} {present left : List ByteString}

theorem Swept.cons_taken (htaken : v.taken ti base present)
    (h : Swept ti base rest (present.filter (· ≠ v.path)) left) :
    Swept ti base (v :: rest) present left := by
  have hsubset (q : ByteString) (hq : q ∈ left) : q ∈ present :=
    List.mem_of_mem_filter (h.subset q hq)
  have hgone : v.path ∉ left := fun hleft => by simpa using h.subset _ hleft
  have hothers (q : ByteString) (hq : q ∈ present) (hnot : q ∉ (v :: rest).map Visit.path) :
      q ∈ left := by
    rw [List.map_cons, List.mem_cons, not_or] at hnot
    exact h.others q (by simpa using ⟨hq, hnot.1⟩) hnot.2
  refine ⟨hsubset, hothers, List.forall_mem_cons.mpr ⟨fun _ => ?_, fun u hu hpresent => ?_⟩⟩
  · have hsame := v.taken_congr ti base present left hsubset fun q hq hbelow =>
      hothers q hq (below_not_visited hfirst q hbelow)
    exact iff_of_true hgone (hsame.mp htaken)
  · have hne : u.path ≠ v.path := (hfirst u hu).1.symm
    exact h.taken u hu (by simpa using ⟨hpresent, hne⟩)

theorem Swept.cons_kept (hkept : ¬v.taken ti base present)
    (h : Swept ti base rest present left) : Swept ti base (v :: rest) present left := by
  have hothers (q : ByteString) (hq : q ∈ present) (hnot : q ∉ (v :: rest).map Visit.path) :
      q ∈ left := by
    rw [List.map_cons, List.mem_cons, not_or] at hnot
    exact h.others q hq hnot.2
  refine ⟨h.subset, hothers, List.forall_mem_cons.mpr ⟨fun hpresent => ?_, h.taken⟩⟩
  have hsame := v.taken_congr ti base present left h.subset fun q hq hbelow =>
    hothers q hq (below_not_visited hfirst q hbelow)
  have hleft : v.path ∈ left := h.others _ hpresent (own_not_visited hfirst)
  exact iff_of_false (fun hgone => hgone hleft) (fun htaken => hkept (hsame.mpr htaken))

end First

theorem nftw_swept (ti : TorrentInfo) (base : ℕ) (visits : List Visit)
    (hbefore : visits.Pairwise Before) (hreadable : ∀ v ∈ visits, v.readable)
    (present : List ByteString) : ∃ left,
      nftw (deleteFileCallback ti base) visits present = (true, left) ∧
      Swept ti base visits present left := by
  induction visits generalizing present with
  | nil => exact ⟨present, rfl, fun _ hq => hq, fun _ hq _ => hq, by simp⟩
  | cons v rest ih =>
    obtain ⟨hfirst, hrest⟩ := List.pairwise_cons.mp hbefore
    obtain ⟨hreads, hreadrest⟩ := List.forall_mem_cons.mp hreadable
    rw [nftw]
    obtain ⟨htaken, hcallback⟩ | ⟨hkept, hcallback⟩ :=
      deleteFileCallback_cases ti base present v hreads
    · obtain ⟨left, hleft, hswept⟩ := ih hrest hreadrest (present.filter (· ≠ v.path))
      rw [hcallback]
      exact ⟨left, hleft, hswept.cons_taken hfirst htaken⟩
    · obtain ⟨left, hleft, hswept⟩ := ih hrest hreadrest present
      rw [hcallback]
      exact ⟨left, hleft, hswept.cons_kept hfirst hkept⟩

/-- What ought to go, by the path below the save path: a regular file, a symlink or a
directory that has come to be empty, if the torrent does not list it. -/
def Visit.Removable (ti : TorrentInfo) (rel : ByteString) (left : List ByteString) (v : Visit) :
    Prop :=
  match v.type with
  | .f stat => stat.kind = .regular ∧ rel ∉ ti.files
  | .sl | .sln => rel ∉ ti.symlinks
  | .dp => rel ++ [slash] ∉ ti.paths ∧ ¬∃ q ∈ left, Below v.path q
  | .dnr | .ns => False

section Download

variable (ti : TorrentInfo) (savePath newName : ByteString)
  (download : Download (rootName ti newName))

/-- The run ends, adds nothing, and takes away exactly what ought to go. -/
def SweepsExactly : Prop :=
  let out := deleteFilesOutTorrent ti savePath newName download
  out.1 = true ∧ (∀ q ∈ out.2, q ∈ (download.walk savePath).map Visit.path) ∧
    ∀ v ∈ download.walk savePath, ∀ rel, v.path = inDir savePath rel →
      (v.path ∉ out.2 ↔ v.Removable ti rel out.2)

def SocketsListed : Prop :=
  ∀ v ∈ download.walk savePath, ∀ stat, v.type = .f stat → stat.kind = .socket →
    ∀ rel, v.path = inDir savePath rel → rel ∈ ti.files

theorem drop_inDir (rel : ByteString) : (inDir savePath rel).drop (savePath.length + 1) = rel := by
  simp [inDir]

/-- What the callback takes away is what ought to go, but for a socket. -/
theorem taken_iff_removable (v : Visit) (rel : ByteString) (hrel : v.path = inDir savePath rel)
    (left : List ByteString)
    (hsocket : ∀ stat, v.type = .f stat → stat.kind = .socket → rel ∈ ti.files) :
    v.taken ti (savePath.length + 1) left ↔ v.Removable ti rel left := by
  obtain ⟨path, type⟩ := v
  subst hrel
  cases type with
  | f stat =>
    simp only [Visit.taken, Visit.Removable, drop_inDir, stat.regularBit_iff]
    refine and_congr_left fun hunlisted => ⟨fun hbit => hbit.resolve_right fun hkind => ?_, .inl⟩
    exact hunlisted (hsocket stat rfl hkind)
  | sl | sln | dp | dnr | ns => simp only [Visit.taken, Visit.Removable, drop_inDir]

/-- Exactly the unlisted regular files, symlinks and then empty directories go, when and
only when every socket in the tree bears the name of a file of the torrent. -/
theorem sweepsExactly_iff :
    SweepsExactly ti savePath newName download ↔ SocketsListed ti savePath newName download := by
  obtain ⟨left, hleft, hswept⟩ := nftw_swept ti (savePath.length + 1) (download.walk savePath)
    (download.root.walk_before savePath download.proper) (download.root.walk_readable savePath)
    ((download.walk savePath).map Visit.path)
  have hrun : deleteFilesOutTorrent ti savePath newName download = (true, left) := hleft
  have htaken (v : Visit) (hv : v ∈ download.walk savePath) :=
    hswept.taken v hv (List.mem_map_of_mem hv)
  simp only [SweepsExactly, hrun, true_and]
  constructor
  · rintro ⟨-, hexact⟩ v hv stat htype hkind rel hrel
    by_contra hunlisted
    -- the bit test lets the socket through, and it is taken away
    have hgone : v.taken ti (savePath.length + 1) left := by
      simp only [Visit.taken, htype, hrel, drop_inDir]
      exact ⟨stat.regularBit_iff.mpr (.inr hkind), hunlisted⟩
    have hremovable := (hexact v hv rel hrel).mp ((htaken v hv).mpr hgone)
    simp only [Visit.Removable, htype, hkind] at hremovable
    cases hremovable.1
  · intro hsockets
    refine ⟨hswept.subset, fun v hv rel hrel => (htaken v hv).trans ?_⟩
    exact taken_iff_removable ti savePath v rel hrel left fun stat htype hkind =>
      hsockets v hv stat htype hkind rel hrel

end Download

/-- A torrent `d` without files, and a download of it with the socket `s`. -/
def emptyTorrent : TorrentInfo := ⟨[100], [], [], [[100, slash]]⟩

def socketDownload : Download (rootName emptyTorrent []) where
  root := .dir [100] (.file [115] ⟨.socket, 0o140644, rfl⟩ .nil) .nil
  named := rfl
  proper := by simp [Listing.Proper, Listing.names, slash]

theorem sweepsExactly_fails : ¬SweepsExactly emptyTorrent [slash, 116] [] socketDownload := by
  rintro ⟨-, -, hexact⟩
  have hremovable := (hexact ⟨[slash, 116, slash, 100, slash, 115], .f ⟨.socket, 0o140644, rfl⟩⟩
    List.mem_cons_self [100, slash, 115] rfl).mp (by decide)
  cases hremovable.1

end Sweep
end Gingko.OutsideFiles
