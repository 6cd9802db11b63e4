import Gingko.FileSystems

/-!
Making the directories of a path. The parents are gone through back to one that is there,
and what is missing is made from there on, each directory after its parent. What is there
is taken for a directory by one bit of its mode, and sockets and block devices have it.
-/
namespace Gingko.MadeDirectories

open Base64Codec DataPaths OutsideFiles FileSystems

/-- What the kernel refuses besides what the tree of directories does not allow. -/
structure Refusals where
  stat : FileSystem → ByteString → Bool
  mkdir : FileSystem → ByteString → Bool

/-- Whether the path is a directory now, the file system that is left, and the paths of the
directories that have been made, in their order. -/
structure Outcome where
  ok : Bool
  fs : FileSystem
  made : List ByteString

section Functions

variable (refusals : Refusals) (mode : DirMode)

def statMode (fs : FileSystem) (path : ByteString) : Option UInt32 :=
  if refusals.stat fs path then none else fs.stMode path

def tryMkdir (fs : FileSystem) (path : ByteString) : Option FileSystem :=
  if refusals.mkdir fs path then none else fs.mkdir mode path

def checkAndMkdir (path : ByteString) (fs : FileSystem) : Outcome :=
  match statMode refusals fs path with
  | none =>
    match tryMkdir refusals mode fs path with
    | none => ⟨false, fs, []⟩
    | some fs' => ⟨true, fs', [path]⟩
  | some stMode => ⟨stMode &&& sIfdir ≠ 0, fs, []⟩

/-- The path itself, unless its parents have failed. -/
def afterParents (path : ByteString) (parents : Outcome) : Outcome :=
  if parents.ok then
    let last := checkAndMkdir refusals mode path parents.fs
    { last with made := parents.made ++ last.made }
  else parents

def checkAndMkdirR (path : ByteString) (fs : FileSystem) : Outcome :=
  if _h : parentPath path = [] then checkAndMkdir refusals mode path fs
  else
    match statMode refusals fs (parentPath path) with
    | none => afterParents refusals mode path (checkAndMkdirR (parentPath path) fs)
    | some stMode =>
      if stMode &&& sIfdir = 0 then ⟨false, fs, []⟩ else checkAndMkdir refusals mode path fs
termination_by path.length
decreasing_by exact parentPath_length_lt path ‹_›

end Functions

section Property

/-- The parent of a path and its parents, the longest last. -/
def ancestors (path : ByteString) : List ByteString :=
  if _h : parentPath path = [] then [] else ancestors (parentPath path) ++ [parentPath path]
termination_by path.length
decreasing_by exact parentPath_length_lt path ‹_›

variable (mode : DirMode)

/-- Directories are made one by one, each where nothing is and in a directory. -/
inductive Builds : FileSystem → List ByteString → FileSystem → Prop
  | nil (fs : FileSystem) : Builds fs [] fs
  | cons (fs fs' fs'' : FileSystem) (path : ByteString) (rest : List ByteString)
      (hmissing : fs.find path = none)
      (hparent : parentPath path ≠ [] → fs.IsDirectory (parentPath path))
      (hmade : fs.mkdir mode path = some fs') (hrest : Builds fs' rest fs'') :
      Builds fs (path :: rest) fs''

/-- Nothing is made but directories that were missing among the path and its ancestors. -/
structure OnlyMissing (path : ByteString) (fs : FileSystem) (outcome : Outcome) : Prop where
  builds : Builds mode fs outcome.made outcome.fs
  only : ∀ p ∈ outcome.made, p ∈ ancestors path ++ [path] ∧ fs.find p = none

/-- And if it says so, the path and its ancestors are directories. -/
structure MakesDirectories (path : ByteString) (fs : FileSystem) (outcome : Outcome) : Prop
    extends OnlyMissing mode path fs outcome where
  directories : outcome.ok = true → ∀ p ∈ ancestors path ++ [path], outcome.fs.IsDirectory p

/-- The path leads to a socket or to a block device. -/
def NamesDevice (fs : FileSystem) (path : ByteString) : Prop :=
  ∃ i stat, fs.find path = some i ∧ fs.tree.nodes[i]? = some (.other stat) ∧
    (stat.kind = .socket ∨ stat.kind = .blockDevice)

/-- The path is made a directory where nothing is. -/
def ensure (fs : FileSystem) (path : ByteString) : Option FileSystem :=
  if (fs.stMode path).isSome then some fs else fs.mkdir mode path

/-- The file system with the missing ancestors of the path in place, if they can be made. -/
def withAncestors (path : ByteString) (fs : FileSystem) : Option FileSystem :=
  (ancestors path).foldlM (ensure mode) fs

end Property

section Bits

variable {fs : FileSystem} {path : ByteString}

theorem not_directory_of_device (h : NamesDevice fs path) : ¬ fs.IsDirectory path := by
  intro hdirectory
  obtain ⟨i, stat, hfind, hnode, -⟩ := h
  obtain ⟨j, hfind', mode, parent, entries, hnode'⟩ := hdirectory
  obtain rfl := Option.some.inj (hfind.symm.trans hfind')
  cases hnode.symm.trans hnode'

/-- What passes for a directory. -/
theorem directoryBit_iff {stMode : UInt32} (h : fs.stMode path = some stMode) :
    stMode &&& sIfdir ≠ 0 ↔ fs.IsDirectory path ∨ NamesDevice fs path := by
  unfold FileSystem.stMode at h
  cases hfind : fs.find path with
  | none =>
    rw [hfind] at h
    contradiction
  | some i =>
    rw [hfind, Option.bind_some] at h
    cases hnode : fs.tree.nodes[i]? with
    | none =>
      rw [hnode] at h
      contradiction
    | some node =>
      rw [hnode] at h
      cases node with
      | directory mode parent entries =>
        obtain rfl := Option.some.inj h
        refine iff_of_true mode.directoryBit (.inl ?_)
        exact ⟨i, hfind, mode, parent, entries, hnode⟩
      | symlink rooted target => contradiction
      | other stat =>
        obtain rfl := Option.some.inj h
        rw [directoryBit_stat_iff]
        constructor
        · intro hkind
          exact .inr ⟨i, stat, hfind, hnode, hkind⟩
        · rintro (hdirectory | ⟨j, stat', hfind', hnode', hkind⟩)
          · obtain ⟨j, hfind', mode, parent, entries, hnode'⟩ := hdirectory
            obtain rfl := Option.some.inj (hfind.symm.trans hfind')
            cases hnode.symm.trans hnode'
          · obtain rfl := Option.some.inj (hfind.symm.trans hfind')
            cases hnode.symm.trans hnode'
            exact hkind

theorem stMode_isSome (h : fs.IsDirectory path ∨ NamesDevice fs path) :
    (fs.stMode path).isSome := by
  unfold FileSystem.stMode
  rcases h with ⟨i, hfind, mode, parent, entries, hnode⟩ | ⟨i, stat, hfind, hnode, -⟩
  · rw [hfind, Option.bind_some, hnode]
    rfl
  · rw [hfind, Option.bind_some, hnode]
    rfl

theorem find_of_stMode (h : (fs.stMode path).isSome) : ∃ i, fs.find path = some i := by
  unfold FileSystem.stMode at h
  cases hfind : fs.find path with
  | none =>
    rw [hfind] at h
    contradiction
  | some i => exact ⟨i, rfl⟩

end Bits

section Ancestors

variable {mode : DirMode} {fs fs' : FileSystem} {path : ByteString}

theorem ancestors_nil (h : parentPath path = []) : ancestors path = [] := by
  rw [ancestors, dif_pos h]

theorem ancestors_parent (h : parentPath path ≠ []) :
    ancestors path = ancestors (parentPath path) ++ [parentPath path] := by
  rw [ancestors, dif_neg h]

/-- All the ancestors of a path that leads anywhere are directories. -/
theorem isDirectory_ancestors {i : ℕ} (h : fs.find path = some i) :
    ∀ p ∈ ancestors path, fs.IsDirectory p := by
  induction path using ancestors.induct generalizing i with
  | case1 path hnone =>
    rw [ancestors_nil hnone]
    exact fun p hp => absurd hp List.not_mem_nil
  | case2 path hparent ih =>
    rw [ancestors_parent hparent]
    have hdirectory := find_parent h hparent
    obtain ⟨j, hfind, -⟩ := id hdirectory
    intro p hp
    obtain habove | hself := List.mem_append.mp hp
    · exact ih hfind p habove
    · rw [List.mem_singleton.mp hself]
      exact hdirectory

theorem isDirectory_path {p : ByteString} (h : fs.IsDirectory path)
    (hp : p ∈ ancestors path ++ [path]) : fs.IsDirectory p := by
  obtain ⟨i, hfind, -⟩ := id h
  obtain habove | hself := List.mem_append.mp hp
  · exact isDirectory_ancestors hfind p habove
  · rw [List.mem_singleton.mp hself]
    exact h

theorem withAncestors_nil (h : parentPath path = []) : withAncestors mode path fs = some fs := by
  rw [withAncestors, ancestors_nil h]
  rfl

theorem withAncestors_parent (h : parentPath path ≠ []) : withAncestors mode path fs =
    (withAncestors mode (parentPath path) fs).bind fun fs => ensure mode fs (parentPath path) := by
  rw [withAncestors, ancestors_parent h, List.foldlM_append]
  simp only [List.foldlM_cons, List.foldlM_nil, bind_pure]
  rfl

/-- Nothing is made where the path is there. -/
theorem withAncestors_there (h : (fs.stMode path).isSome) :
    withAncestors mode path fs = some fs := by
  obtain ⟨i, hfind⟩ := find_of_stMode h
  have hall := isDirectory_ancestors hfind
  rw [withAncestors]
  generalize ancestors path = above at hall ⊢
  induction above with
  | nil => rfl
  | cons p rest ih =>
    obtain ⟨hp, hrest⟩ := List.forall_mem_cons.mp hall
    rw [List.foldlM_cons, ensure, if_pos (stMode_isSome (.inl hp))]
    exact ih hrest

end Ancestors

section Builds

variable {mode : DirMode} {fs fs' fs'' : FileSystem}

theorem builds_one {path : ByteString} (h : fs.mkdir mode path = some fs') :
    Builds mode fs [path] fs' :=
  .cons fs fs' fs' path [] (find_eq_none_of_mkdir h) (mkdir_parent_isDirectory h) h (.nil fs')

theorem Builds.append {made more : List ByteString} (h : Builds mode fs made fs')
    (hmore : Builds mode fs' more fs'') : Builds mode fs (made ++ more) fs'' := by
  induction h with
  | nil fs => exact hmore
  | cons fs mid fs' path rest hmissing hparent hmade _ ih =>
    exact .cons fs mid fs'' path _ hmissing hparent hmade (ih hmore)

/-- What is missing in the end was missing before. -/
theorem Builds.missing {made : List ByteString} {path : ByteString} (h : Builds mode fs made fs')
    (hnone : fs'.find path = none) : fs.find path = none := by
  induction h with
  | nil fs => exact hnone
  | cons fs mid fs' first rest _ _ hmade _ ih =>
    cases hfind : fs.find path with
    | none => rfl
    | some i =>
      have hlater := find_mkdir hmade hfind
      rw [ih hnone] at hlater
      contradiction

end Builds

section Outcomes

variable (refusals : Refusals) (mode : DirMode)

theorem statMode_eq_some {fs : FileSystem} {path : ByteString} {stMode : UInt32}
    (h : statMode refusals fs path = some stMode) : fs.stMode path = some stMode :=
  (Option.ite_none_left_eq_some.mp h).2

theorem tryMkdir_eq_some {fs fs' : FileSystem} {path : ByteString}
    (h : tryMkdir refusals mode fs path = some fs') : fs.mkdir mode path = some fs' :=
  (Option.ite_none_left_eq_some.mp h).2

theorem onlyMissing_nothing (ok : Bool) (path : ByteString) (fs : FileSystem) :
    OnlyMissing mode path fs ⟨ok, fs, []⟩ :=
  ⟨.nil fs, fun _ hp => absurd hp List.not_mem_nil⟩

theorem checkAndMkdir_onlyMissing (path : ByteString) (fs : FileSystem) :
    OnlyMissing mode path fs (checkAndMkdir refusals mode path fs) := by
  unfold checkAndMkdir
  split
  · split
    · exact onlyMissing_nothing mode false path fs
    · rename_i fs' htry
      have hmade := tryMkdir_eq_some refusals mode htry
      refine ⟨builds_one hmade, fun p hp => ?_⟩
      obtain rfl := List.mem_singleton.mp hp
      exact ⟨List.mem_append_right _ hp, find_eq_none_of_mkdir hmade⟩
  · exact onlyMissing_nothing mode _ path fs

/-- What is missing after the parents have been made was missing before. -/
theorem afterParents_onlyMissing {path : ByteString} {fs : FileSystem} {parents : Outcome}
    (hparent : parentPath path ≠ []) (h : OnlyMissing mode (parentPath path) fs parents) :
    OnlyMissing mode path fs (afterParents refusals mode path parents) := by
  have habove : ∀ p ∈ parents.made, p ∈ ancestors path ++ [path] ∧ fs.find p = none := by
    intro p hp
    obtain ⟨hmem, hnone⟩ := h.only p hp
    rw [ancestors_parent hparent]
    exact ⟨List.mem_append_left _ hmem, hnone⟩
  unfold afterParents
  split
  · obtain ⟨hbuilds, honly⟩ := checkAndMkdir_onlyMissing refusals mode path parents.fs
    refine ⟨h.builds.append hbuilds, fun p hp => ?_⟩
    obtain hold | hnew := List.mem_append.mp hp
    · exact habove p hold
    · obtain ⟨hmem, hnone⟩ := honly p hnew
      exact ⟨hmem, h.builds.missing hnone⟩
  · exact ⟨h.builds, habove⟩

/-- What is left when it says so is the file system with the path in place. -/
theorem checkAndMkdir_ok (path : ByteString) (fs : FileSystem)
    (h : (checkAndMkdir refusals mode path fs).ok = true) :
    ensure mode fs path = some (checkAndMkdir refusals mode path fs).fs ∧
      ((checkAndMkdir refusals mode path fs).fs.IsDirectory path ∨
        NamesDevice (checkAndMkdir refusals mode path fs).fs path) := by
  unfold checkAndMkdir at h ⊢
  cases hstat : statMode refusals fs path with
  | none =>
    rw [hstat] at h
    cases htry : tryMkdir refusals mode fs path with
    | none =>
      rw [htry] at h
      contradiction
    | some fs' =>
      have hmade := tryMkdir_eq_some refusals mode htry
      have hnone : (fs.stMode path).isSome = false := by
        rw [FileSystem.stMode, find_eq_none_of_mkdir hmade]
        rfl
      refine ⟨?_, .inl (isDirectory_mkdir hmade)⟩
      rw [ensure, hnone]
      exact hmade
  | some stMode =>
    rw [hstat] at h
    have hmode := statMode_eq_some refusals hstat
    refine ⟨?_, (directoryBit_iff hmode).mp (of_decide_eq_true h)⟩
    rw [ensure, hmode]
    rfl

section Recursion

variable {path : ByteString} {fs : FileSystem}

theorem checkAndMkdirR_single (h : parentPath path = []) :
    checkAndMkdirR refusals mode path fs = checkAndMkdir refusals mode path fs := by
  rw [checkAndMkdirR, dif_pos h]

theorem checkAndMkdirR_missing (h : parentPath path ≠ [])
    (hstat : statMode refusals fs (parentPath path) = none) :
    checkAndMkdirR refusals mode path fs =
      afterParents refusals mode path (checkAndMkdirR refusals mode (parentPath path) fs) := by
  rw [checkAndMkdirR, dif_neg h, hstat]

theorem checkAndMkdirR_there (h : parentPath path ≠ []) {stMode : UInt32}
    (hstat : statMode refusals fs (parentPath path) = some stMode) :
    checkAndMkdirR refusals mode path fs =
      if stMode &&& sIfdir = 0 then ⟨false, fs, []⟩ else checkAndMkdir refusals mode path fs := by
  rw [checkAndMkdirR, dif_neg h, hstat]

end Recursion

theorem checkAndMkdirR_onlyMissing (path : ByteString) (fs : FileSystem) :
    OnlyMissing mode path fs (checkAndMkdirR refusals mode path fs) := by
  induction path using ancestors.induct with
  | case1 path hnone =>
    rw [checkAndMkdirR_single refusals mode hnone]
    exact checkAndMkdir_onlyMissing refusals mode path fs
  | case2 path hparent ih =>
    cases hstat : statMode refusals fs (parentPath path) with
    | none =>
      rw [checkAndMkdirR_missing refusals mode hparent hstat]
      exact afterParents_onlyMissing refusals mode hparent ih
    | some stMode =>
      rw [checkAndMkdirR_there refusals mode hparent hstat]
      split
      · exact onlyMissing_nothing mode false path fs
      · exact checkAndMkdir_onlyMissing refusals mode path fs

/-- If it says so, the missing ancestors are in place, and after them the path. -/
theorem checkAndMkdirR_ok (path : ByteString) (fs : FileSystem)
    (h : (checkAndMkdirR refusals mode path fs).ok = true) :
    ∃ fs', withAncestors mode path fs = some fs' ∧
      ensure mode fs' path = some (checkAndMkdirR refusals mode path fs).fs ∧
      ((checkAndMkdirR refusals mode path fs).fs.IsDirectory path ∨
        NamesDevice (checkAndMkdirR refusals mode path fs).fs path) := by
  induction path using ancestors.induct with
  | case1 path hnone =>
    rw [checkAndMkdirR_single refusals mode hnone] at h ⊢
    exact ⟨fs, withAncestors_nil hnone, checkAndMkdir_ok refusals mode path fs h⟩
  | case2 path hparent ih =>
    rw [withAncestors_parent hparent]
    cases hstat : statMode refusals fs (parentPath path) with
    | none =>
      rw [checkAndMkdirR_missing refusals mode hparent hstat, afterParents] at h ⊢
      by_cases hok : (checkAndMkdirR refusals mode (parentPath path) fs).ok = true
      · rw [if_pos hok] at h ⊢
        obtain ⟨fs', habove, hplaced, -⟩ := ih hok
        rw [habove, Option.bind_some]
        exact ⟨_, hplaced, checkAndMkdir_ok refusals mode path _ h⟩
      · rw [if_neg hok] at h
        exact absurd h hok
    | some stMode =>
      rw [checkAndMkdirR_there refusals mode hparent hstat] at h ⊢
      split at h
      · contradiction
      · rename_i hbit
        have hthere : (fs.stMode (parentPath path)).isSome := by
          rw [statMode_eq_some refusals hstat]
          rfl
        rw [if_neg hbit, withAncestors_there hthere, Option.bind_some, ensure, if_pos hthere]
        exact ⟨fs, rfl, checkAndMkdir_ok refusals mode path fs h⟩

end Outcomes

section Permitted

variable (mode : DirMode) {path : ByteString} {fs fs' fs'' : FileSystem}

/-- The kernel refuses nothing. -/
def nothingRefused : Refusals := ⟨fun _ _ => false, fun _ _ => false⟩

/-- A path that passes for a directory in the end had a directory for a parent before. -/
theorem isDirectory_parent (hplaced : ensure mode fs path = some fs')
    (hpasses : fs'.IsDirectory path ∨ NamesDevice fs' path) (hparent : parentPath path ≠ []) :
    fs.IsDirectory (parentPath path) := by
  unfold ensure at hplaced
  split at hplaced
  · obtain rfl := Option.some.inj hplaced
    obtain ⟨i, hfind⟩ := find_of_stMode (stMode_isSome hpasses)
    exact find_parent hfind hparent
  · exact mkdir_parent_isDirectory hplaced hparent

theorem checkAndMkdir_permitted (hplaced : ensure mode fs path = some fs')
    (hpasses : fs'.IsDirectory path ∨ NamesDevice fs' path) :
    (checkAndMkdir nothingRefused mode path fs).ok = true ∧
      (checkAndMkdir nothingRefused mode path fs).fs = fs' := by
  have hstat : statMode nothingRefused fs path = fs.stMode path := rfl
  have htry : tryMkdir nothingRefused mode fs path = fs.mkdir mode path := rfl
  unfold ensure at hplaced
  unfold checkAndMkdir
  rw [hstat, htry]
  cases hmode : fs.stMode path with
  | none =>
    rw [hmode] at hplaced
    rw [show fs.mkdir mode path = some fs' from hplaced]
    exact ⟨rfl, rfl⟩
  | some stMode =>
    rw [hmode] at hplaced
    obtain rfl := Option.some.inj hplaced
    exact ⟨decide_eq_true ((directoryBit_iff hmode).mpr hpasses), rfl⟩

/-- Where nothing is refused, it says so whenever the path passes in the end. -/
theorem checkAndMkdirR_permitted (habove : withAncestors mode path fs = some fs')
    (hplaced : ensure mode fs' path = some fs'')
    (hpasses : fs''.IsDirectory path ∨ NamesDevice fs'' path) :
    (checkAndMkdirR nothingRefused mode path fs).ok = true ∧
      (checkAndMkdirR nothingRefused mode path fs).fs = fs'' := by
  induction path using ancestors.induct generalizing fs' fs'' with
  | case1 path hnone =>
    rw [withAncestors_nil hnone] at habove
    obtain rfl := Option.some.inj habove
    rw [checkAndMkdirR_single nothingRefused mode hnone]
    exact checkAndMkdir_permitted mode hplaced hpasses
  | case2 path hparent ih =>
    have hdirectory := isDirectory_parent mode hplaced hpasses hparent
    rw [withAncestors_parent hparent] at habove
    obtain ⟨before, hbefore, habove⟩ := Option.bind_eq_some_iff.mp habove
    cases hstat : statMode nothingRefused fs (parentPath path) with
    | none =>
      obtain ⟨hok, hfs⟩ := ih hbefore habove (.inl hdirectory)
      rw [checkAndMkdirR_missing nothingRefused mode hparent hstat, afterParents, if_pos hok, hfs]
      exact checkAndMkdir_permitted mode hplaced hpasses
    | some stMode =>
      have hmode := statMode_eq_some nothingRefused hstat
      have hthere : (fs.stMode (parentPath path)).isSome := by
        rw [hmode]
        rfl
      rw [withAncestors_there hthere] at hbefore
      obtain rfl := Option.some.inj hbefore
      rw [ensure, if_pos hthere] at habove
      obtain rfl := Option.some.inj habove
      have hbit := (directoryBit_iff hmode).mpr (.inl hdirectory)
      rw [checkAndMkdirR_there nothingRefused mode hparent hstat, if_neg hbit]
      exact checkAndMkdir_permitted mode hplaced hpasses

end Permitted

section Results

/-- Whatever is refused, it does so exactly when the path, with its missing ancestors in
place, does not lead to a socket or to a block device. -/
theorem checkAndMkdirR_iff (mode : DirMode) (path : ByteString) (fs : FileSystem) :
    (∀ refusals, MakesDirectories mode path fs (checkAndMkdirR refusals mode path fs)) ↔
      ∀ fs', withAncestors mode path fs = some fs' → ¬ NamesDevice fs' path := by
  constructor
  · intro h fs' habove hdevice
    have hplaced : ensure mode fs' path = some fs' := by
      rw [ensure, if_pos (stMode_isSome (.inr hdevice))]
    obtain ⟨hok, hfs⟩ := checkAndMkdirR_permitted mode habove hplaced (.inr hdevice)
    have hdirectory := (h nothingRefused).directories hok path (by simp)
    rw [hfs] at hdirectory
    exact not_directory_of_device hdevice hdirectory
  · intro h refusals
    refine ⟨checkAndMkdirR_onlyMissing refusals mode path fs, fun hok p hp => ?_⟩
    obtain ⟨fs', habove, hplaced, hpasses⟩ := checkAndMkdirR_ok refusals mode path fs hok
    have hdirectory : (checkAndMkdirR refusals mode path fs).fs.IsDirectory path := by
      refine hpasses.resolve_right fun hdevice => ?_
      unfold ensure at hplaced
      split at hplaced
      · obtain rfl := Option.some.inj hplaced
        exact h _ habove hdevice
      · exact not_directory_of_device hdevice (isDirectory_mkdir hplaced)
    exact isDirectory_path hdirectory hp

end Results

section Samples

def sampleMode : DirMode := ⟨0o040755, by decide⟩

def sampleSocket : Stat := ⟨.socket, 0o140755, by decide⟩

/-- A working directory with a socket of the name `s`. -/
def sampleFs : FileSystem where
  tree := {
    nodes := [.directory sampleMode 0 fun name => if name = [115] then some 1 else none,
      .other sampleSocket]
    root := 0
    links := 40 }
  cwd := 0

/-- The socket passes for a directory. -/
theorem socket_taken_for_directory :
    (checkAndMkdirR nothingRefused sampleMode [115] sampleFs).ok = true ∧
      ¬ MakesDirectories sampleMode [115] sampleFs
        (checkAndMkdirR nothingRefused sampleMode [115] sampleFs) := by
  have hparent : parentPath [115] = [] := by decide
  have hdevice : NamesDevice sampleFs [115] := ⟨1, sampleSocket, rfl, rfl, .inl rfl⟩
  have hself : checkAndMkdirR nothingRefused sampleMode [115] sampleFs = ⟨true, sampleFs, []⟩ := by
    rw [checkAndMkdirR_single nothingRefused sampleMode hparent]
    rfl
  rw [hself]
  refine ⟨rfl, fun hmakes => ?_⟩
  exact not_directory_of_device hdevice (hmakes.directories rfl [115] (by simp))

end Samples
end Gingko.MadeDirectories
