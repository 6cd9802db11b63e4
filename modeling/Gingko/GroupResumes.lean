import Gingko.HangChecks
import Gingko.ResumableTasks

/-!
Tasks of a group manager that come back from their resume files. The file holds the
credentials, the parameters and the status; the new task goes through the creation of
fresh tasks, which starts every torrent and names a task of a url by its url again.
-/
namespace Gingko.GroupResumes

open KeyedMaps Base64Codec AgentTasks GroupTasks GroupAdds GroupCalls ResumableTasks GuardedRuns
open AgentAdds (toHex hexstrToBytes hexstrToBytes_toHex)

/-- The outside lets the task of the file be created again: directories and files can
be used, the torrent file is the old one, and the session takes the torrent. -/
structure Accepts (env : GroupEnv) (t : GroupTask) : Prop where
  readable : env.readable (resumeName t.infohash) = true
  savePath : env.checkAndMkdirR t.params.savePath = true
  torrentFile : t.params.torrentPath ≠ [] →
    0 < env.fileSize t.params.torrentPath ∧
      env.fileSize t.params.torrentPath ≤ env.maxMetadataSize ∧
      ∃ ti, env.torrentFile t.params.torrentPath t.params.newName = some ti ∧
        toHex ti.1 = t.infohash
  saveTorrent : t.params.saveTorrentPath ≠ [] → env.canCreate t.params.saveTorrentPath = true
  tmp : ∀ path, env.checkAndMkdir path = true
  torrents : ∀ p, env.addTorrent p = true
  syms : env.parseSyms = true

/-- What a resumed task and its torrent have in common with the written ones. A task
that was written as paused is to be paused, any other one is to run. -/
structure Restored (t : GroupTask) (torrent : Torrent) (r : GroupTask) (u : Torrent) : Prop where
  cred : r.cred = t.cred
  params : r.params = t.params
  status : r.controlStatus = t.controlStatus
  upload : u.uploadThrottle = torrent.uploadThrottle
  download : u.downloadThrottle = torrent.downloadThrottle
  connections : u.connections = torrent.connections
  paused : u.paused = true ↔ t.controlStatus = .paused

/-- The manager has a task under the old infohash again, restored with its torrent. -/
def ComesBack (after : Group) (t : GroupTask) (torrent : Torrent) : Prop :=
  ∃ ref handle u, after.infohashMap.lookup t.infohash = some (some ref) ∧
    (after.tasks ref).torrentHandle = some handle ∧
    after.session.torrents.lookup handle = some u ∧ Restored t torrent (after.tasks ref) u

/-- A task of a torrent url that goes by the infohash of its metadata. -/
def Renamed (t : GroupTask) : Prop := t.isTorrentUrl = true ∧ t.infohash ≠ t.params.torrentUrl

section Restart

variable {env : GroupEnv} {t : GroupTask}

theorem openSource_resumed (h : Resumable t) (hkeyed : Keyed t) (hacc : Accepts env t)
    (hurl : t.isTorrentUrl = false) :
    ∃ infoHash layout, openSource env t.params = some (.torrent infoHash layout) ∧
      toHex infoHash = t.infohash := by
  have hlength : t.infohash.length = 40 := hkeyed.resolve_left (by simp [hurl])
  unfold openSource
  by_cases hpath : t.params.torrentPath = []
  · obtain ⟨hnourl, bytes, hbytes⟩ := h.torrent hurl hpath
    have hsome : t.params.infohash ≠ [] := by
      rw [h.infohash]
      intro hnil
      simp [hnil] at hlength
    refine ⟨bytes, env.infoOfHash bytes t.params.newName, ?_, hbytes.symm⟩
    rw [if_neg (by simp [hpath]), if_neg (by simp [hnourl]), if_pos hsome, if_neg, h.infohash,
      if_pos hlength, hbytes, hexstrToBytes_toHex]
    · rfl
    · intro hsave
      have hcreate := hacc.saveTorrent hsave.1
      rw [hsave.2] at hcreate
      contradiction
  · obtain ⟨hpos, hmax, ti, hti, hhex⟩ := hacc.torrentFile hpath
    refine ⟨ti.1, ti.2, ?_, hhex⟩
    rw [if_pos hpath]
    simp only
    rw [if_neg, hti]
    · rfl
    · rintro (hle | hlt)
      · exact absurd hle (Int64.not_le.mpr hpos)
      · exact absurd hmax (Int64.not_le.mpr hlt)

/-- The creation gives the task its old name, unless it was renamed. -/
theorem nameTask_resumed (h : Resumable t) (hkeyed : Keyed t) (hacc : Accepts env t)
    (begun : GroupTask) (hbegun : begun.isTorrentUrl = false) :
    ∃ named source, nameTask env begun t.params t.cred = .ok (named, source) ∧
      named.infohash = (if t.isTorrentUrl then t.params.torrentUrl else t.infohash) ∧
      named.params = { t.params with infohash := named.infohash } ∧ named.cred = t.cred ∧
      named.controlStatus = begun.controlStatus ∧ named.isTorrentUrl = t.isTorrentUrl := by
  have hsaved : ¬ (t.params.savePath = [] ∨ env.checkAndMkdirR t.params.savePath = false) := by
    simp [h.savePath, hacc.savePath]
  unfold nameTask
  simp only [if_neg hsaved]
  cases hurl : t.isTorrentUrl with
  | false =>
    obtain ⟨infoHash, layout, hsource, hhex⟩ := openSource_resumed h hkeyed hacc hurl
    simp only [hsource]
    exact ⟨_, _, rfl, hhex, rfl, rfl, rfl, hbegun⟩
  | true =>
    obtain ⟨hpath, hsome, hresume, htmp⟩ := h.url hurl
    have hsource : openSource env t.params = some .url := by
      unfold openSource
      rw [if_neg (by simp [hpath]), if_pos hsome]
    simp only [hsource]
    refine ⟨_, _, rfl, rfl, ?_, rfl, rfl, rfl⟩
    simp [hresume, htmp]

/-- A started task, in a manager that has the map from before. -/
structure Started (g : Group) (named : GroupTask) (outcome : CreateOutcome) : Prop where
  created : outcome.created = true
  infohashMap : outcome.group.infohashMap = g.infohashMap
  infohash : outcome.task.infohash = named.infohash
  params : outcome.task.params = named.params
  cred : outcome.task.cred = named.cred
  status : outcome.task.controlStatus = named.controlStatus
  isUrl : outcome.task.isTorrentUrl = named.isTorrentUrl
  torrent : ∃ handle u, outcome.task.torrentHandle = some handle ∧
    outcome.group.session.torrents.lookup handle = some u ∧ Limited named.params u ∧
    u.paused = false

theorem generateResumeFile_map (g : Group) :
    (g.generateResumeFile env t).infohashMap = g.infohashMap := by
  unfold Group.generateResumeFile
  split
  · rfl
  · split <;> rfl

theorem started_startTask (hacc : Accepts env t) (g : Group) (named : GroupTask) (source : Source) :
    Started g named (startTask env g named source) := by
  have htmp : tmpFails env named = false := by simp [tmpFails, hacc.tmp]
  have hsyms : symsFail env named = false := by simp [symsFail, hacc.syms]
  unfold startTask
  rw [htmp, if_neg (by simp), hacc.torrents, if_neg (by simp), hsyms, if_neg (by simp)]
  refine ⟨rfl, generateResumeFile_map _, rfl, rfl, rfl, rfl, rfl, g.session.nextHandle,
    (torrentOf (torrentParams env named source)).resume, rfl, ?_, ?_, rfl⟩
  · simp only [generateResumeFile_session]
    rw [lookup_change_self, lookup_add]
    rfl
  · exact limited_resume _ _ (limited_torrentOf named source)

variable (env) in
theorem lookup_settle {g : Group} {named : GroupTask} {outcome : CreateOutcome}
    (h : Started g named outcome) (left : Group) (key : ByteString) (hkey : key ≠ named.infohash) :
    (settle env outcome left).group.infohashMap.lookup key = g.infohashMap.lookup key := by
  unfold settle register
  rw [if_pos h.created]
  cases hadded : addTaskToMap outcome.group outcome.task with
  | none =>
    show (outcome.group.destroy env outcome.task).infohashMap.lookup key = _
    rw [destroy_eq, h.infohashMap]
  | some g' =>
    unfold addTaskToMap at hadded
    split at hadded
    · obtain rfl := Option.some.inj hadded
      rw [← h.infohash] at hkey
      simp only [h.infohashMap]
      exact AList.lookup_insert_ne hkey
    · contradiction

variable (env) in
/-- A task that is started under a new key is found there with its torrent. -/
theorem settle_started {g : Group} {named : GroupTask} {outcome : CreateOutcome}
    (h : Started g named outcome) (left : Group) (hsome : named.infohash ≠ [])
    (hkeyed : Keyed named) (hfree : g.infohashMap.lookup named.infohash = none) :
    ∃ ref, (settle env outcome left).group.infohashMap.lookup named.infohash = some (some ref) ∧
      (settle env outcome left).group.tasks ref = outcome.task ∧
      (settle env outcome left).group.session = outcome.group.session := by
  unfold settle register
  rw [if_pos h.created]
  unfold addTaskToMap
  rw [if_pos]
  · refine ⟨outcome.group.nextRef, ?_, Function.update_self .., rfl⟩
    rw [← h.infohash]
    exact AList.lookup_insert _
  · rw [h.infohash, h.isUrl, h.infohashMap]
    exact ⟨hsome, hkeyed.symm, hfree⟩

variable {torrent : Torrent}

theorem status_read (h : Resumable t) :
    (loadTask env t.resumeData).controlStatus = t.controlStatus := h.status

theorem createFromResumeFile_written (h : Resumable t) (hacc : Accepts env t)
    (hactive : t.controlStatus ≠ .canceled ∧ t.controlStatus ≠ .finished) (content : ByteString)
    (hround : env.bdecode content = .whole t.resumeData) (g : Group) :
    createFromResumeFile env g (resumeName t.infohash) content =
      some (create env g (loadTask env t.resumeData) t.params t.cred) := by
  have hstatus : stopTask env t.resumeData.controlStatus = none := by
    unfold stopTask
    rw [show ControlTaskStatus.ofCode t.resumeData.controlStatus = t.controlStatus from h.status]
    exact if_neg (not_or.mpr hactive)
  unfold createFromResumeFile
  rw [hacc.readable, if_neg (by simp), hround]
  simp only [hstatus]
  rfl

/-- A task that comes back under another key is not found under its old one. -/
theorem not_comesBack_renamed {g : Group} {named : GroupTask} {outcome : CreateOutcome}
    (hstarted : Started g named outcome) (left : Group) (hother : t.infohash ≠ named.infohash)
    (hfree : g.infohashMap.lookup t.infohash = none) :
    ¬ ComesBack (settle env outcome left).group t torrent := by
  rintro ⟨ref, handle, u, hlook, _⟩
  rw [lookup_settle env hstarted left t.infohash hother, hfree] at hlook
  contradiction

/-- A task that is started under its old key comes back running. -/
theorem comesBack_settle {g : Group} {named : GroupTask} {outcome : CreateOutcome}
    (hstarted : Started g named outcome) (left : Group) (hlimits : Limited t.params torrent)
    (hsame : named.infohash = t.infohash) (hparams : named.params = t.params)
    (hcred : named.cred = t.cred) (hstatus : named.controlStatus = t.controlStatus)
    (hsome : t.infohash ≠ []) (hkeyed : Keyed named)
    (hfree : g.infohashMap.lookup t.infohash = none) :
    ComesBack (settle env outcome left).group t torrent ↔ t.controlStatus ≠ .paused := by
  obtain ⟨ref, hlook, htask, hsession⟩ := settle_started env hstarted left (hsame ▸ hsome) hkeyed
    (hsame ▸ hfree)
  rw [hsame] at hlook
  obtain ⟨handle, u, hhandle, hu, hulimits, hruns⟩ := hstarted.torrent
  rw [hparams] at hulimits
  constructor
  · rintro ⟨ref', handle', u', hlook', hhandle', hu', hrestored⟩ hpaused
    obtain rfl := Option.some.inj (Option.some.inj (hlook.symm.trans hlook'))
    rw [htask, hhandle] at hhandle'
    obtain rfl := Option.some.inj hhandle'
    rw [hsession, hu] at hu'
    obtain rfl := Option.some.inj hu'
    rw [hrestored.paused.mpr hpaused] at hruns
    contradiction
  · intro hactive
    refine ⟨ref, handle, u, hlook, by rw [htask, hhandle], by rw [hsession, hu], ?_⟩
    rw [htask]
    refine ⟨hstarted.cred.trans hcred, hstarted.params.trans hparams,
      hstarted.status.trans hstatus, ?_, ?_, ?_, ?_⟩
    · rw [hulimits.upload, hlimits.upload]
    · rw [hulimits.download, hlimits.download]
    · rw [hulimits.connections, hlimits.connections]
      rfl
    · simp [hruns, hactive]

/-- The file of a task brings the task back, except that a paused task runs, that a
renamed one goes by its url, and that one file name is skipped. -/
theorem comesBack_iff (h : Resumable t) (hkeyed : Keyed t) (hlimits : Limited t.params torrent)
    (hactive : t.controlStatus ≠ .canceled ∧ t.controlStatus ≠ .finished)
    (hsome : t.infohash ≠ []) (hacc : Accepts env t) (g : Group) (content : ByteString)
    (hfile : g.resumeDir (resumeName t.infohash) = some content)
    (hround : env.bdecode content = .whole t.resumeData)
    (hfree : g.infohashMap.lookup t.infohash = none) :
    ∃ after, addResumeEntry env (resumeName t.infohash) g = some after ∧
      (ComesBack after.group t torrent ↔ t.controlStatus ≠ .paused ∧ ¬ Renamed t ∧
        skippedNames.contains (resumeName t.infohash) = false) := by
  unfold addResumeEntry
  cases hskip : skippedNames.contains (resumeName t.infohash) with
  | true =>
    rw [if_pos rfl]
    refine ⟨_, rfl, ?_⟩
    simp [ComesBack, hfree]
  | false =>
    rw [if_neg (by simp), hfile]
    simp only [createFromResumeFile_written h hacc hactive content hround g]
    refine ⟨_, rfl, ?_⟩
    obtain ⟨named, source, hnamed, hinfohash, hparams, hcred, hstatus, hurl⟩ :=
      nameTask_resumed h hkeyed hacc (loadTask env t.resumeData) rfl
    have hcreate : create env g (loadTask env t.resumeData) t.params t.cred =
        startTask env g named source := by
      unfold create
      rw [hnamed]
    rw [hcreate]
    have hstarted := started_startTask hacc g named source
    by_cases hrenamed : Renamed t
    · have hother : t.infohash ≠ named.infohash := by
        rw [hinfohash, if_pos hrenamed.1]
        exact hrenamed.2
      simp [not_comesBack_renamed hstarted _ hother hfree, hrenamed]
    · have hsame : named.infohash = t.infohash := by
        rw [hinfohash]
        split
        · rename_i hflag
          by_contra hne
          exact hrenamed ⟨hflag, fun heq => hne heq.symm⟩
        · rfl
      have hkept : named.params = t.params := by
        rw [hparams, hsame, ← h.infohash]
      have hnamedKeyed : Keyed named := by
        unfold Keyed
        rw [hurl, hsame]
        exact hkeyed
      rw [comesBack_settle hstarted _ hlimits hsame hkept hcred (hstatus.trans (status_read h))
        hsome hnamedKeyed hfree]
      simp [hrenamed]

/-- What the hang check reads is read back from the file. -/
def checksOf (t : GroupTask) : HangChecks.Checks :=
  ⟨t.controlStatus, t.lastCheckTime.toInt, t.lastCheckDownloaded.toInt⟩

theorem checksOf_loadTask (h : Resumable t) :
    checksOf (loadTask env t.resumeData) = checksOf t := by
  unfold checksOf
  rw [status_read h]
  rfl

end Restart

/-- A task that writes its file when it is destroyed. -/
def Writes (writer : GroupEnv) (t : GroupTask) : Prop :=
  t.infohash ≠ [] ∧ writer.opens (resumeName t.infohash) = true ∧
    t.controlStatus ≠ .canceled ∧ t.controlStatus ≠ .finished

theorem resumeDir_destroy (writer : GroupEnv) (g : Group) (t : GroupTask) (h : Writes writer t) :
    (g.destroy writer t).resumeDir (resumeName t.infohash) =
      some (writer.bencode t.resumeData) := by
  obtain ⟨hsome, hopens, hactive⟩ := h
  unfold Group.destroy Group.persist Group.generateResumeFile
  rw [if_neg (not_or.mpr hactive), if_neg hsome, if_pos hopens]
  exact Function.update_self ..

/-- In every run of a manager, a task whose file is written comes back from the file
just when it is not paused and was not renamed, and the name of the file is read. -/
theorem group_resume_iff (settings : GroupSettings) (es : List (GroupEnv × AbsentTasks.Event))
    (g : Group) (hrun : Path AbsentTasks.step (fun _ _ => True) (Group.start settings) es g)
    (ref : TaskRef) (torrent : Torrent)
    (htorrent : (g.tasks ref).torrentHandle.bind g.session.torrents.lookup = some torrent)
    (writer env : GroupEnv) (hwrites : Writes writer (g.tasks ref))
    (hround : env.bdecode (writer.bencode (g.tasks ref).resumeData) =
      .whole (g.tasks ref).resumeData)
    (hacc : Accepts env (g.tasks ref)) (g' : Group)
    (hfile : g'.resumeDir (resumeName (g.tasks ref).infohash) =
      (g.destroy writer (g.tasks ref)).resumeDir (resumeName (g.tasks ref).infohash))
    (hfree : g'.infohashMap.lookup (g.tasks ref).infohash = none) :
    ∃ after, addResumeEntry env (resumeName (g.tasks ref).infohash) g' = some after ∧
      (ComesBack after.group (g.tasks ref) torrent ↔
        (g.tasks ref).controlStatus ≠ .paused ∧ ¬ Renamed (g.tasks ref) ∧
          skippedNames.contains (resumeName (g.tasks ref).infohash) = false) := by
  have hkept := kept_run settings es g hrun
  obtain ⟨handle, hown, hlook⟩ := Option.bind_eq_some_iff.mp htorrent
  have hlt : ref < g.nextRef := by
    by_contra hge
    rw [(hkept.fresh ref (Nat.le_of_not_lt hge)).1] at hown
    contradiction
  obtain ⟨hresumable, hkeyed⟩ := hkept.resumable ref hlt
  rw [resumeDir_destroy writer g _ hwrites] at hfile
  exact comesBack_iff hresumable hkeyed (hkept.limited ref hlt handle torrent hown hlook)
    hwrites.2.2 hwrites.1 hacc g' _ hfile hround hfree

section Samples

/-- The files hold what was written. -/
def resumingEnv (t : GroupTask) : GroupEnv :=
  { sampleEnv true with bdecode := fun _ => .whole t.resumeData }

def sampleEvents (more : List AbsentTasks.Event) : List (GroupEnv × AbsentTasks.Event) :=
  (sampleEnv true, .add everybody sampleParam ⟨1, 1, 1⟩) :: more.map fun e => (sampleEnv true, e)

/-- A manager that has loaded nothing yet, with the resume files of another one. -/
def restarted (g : Group) : Group := { emptyGroup with resumeDir := g.resumeDir }

def addedGroup : Group :=
  (addTask (sampleEnv true) everybody sampleParam ⟨1, 1, 1⟩ emptyGroup).group

def addedTorrent : Torrent := ⟨false, true, 10485760, 10485760, 8000⟩

theorem group_resume_iff_added :
    ∃ after, addResumeEntry (resumingEnv (addedGroup.tasks 0))
        (resumeName (addedGroup.tasks 0).infohash)
        (restarted (addedGroup.destroy (sampleEnv true) (addedGroup.tasks 0))) = some after ∧
      ComesBack after.group (addedGroup.tasks 0) addedTorrent := by
  have hrun : Path AbsentTasks.step (fun _ _ => True) emptyGroup (sampleEvents []) addedGroup :=
    path_of_steps _ _ _ (fun _ _ _ => trivial) rfl
  have hacc : Accepts (resumingEnv (addedGroup.tasks 0)) (addedGroup.tasks 0) :=
    ⟨rfl, rfl, fun h => absurd rfl h, fun _ => rfl, fun _ => rfl, fun _ => rfl, rfl⟩
  obtain ⟨after, hafter, hback⟩ := group_resume_iff ⟨0, 0, 0⟩ _ addedGroup hrun 0 addedTorrent rfl
    (sampleEnv true) (resumingEnv (addedGroup.tasks 0)) ⟨List.cons_ne_nil _ _, rfl, nofun, nofun⟩
    rfl hacc (restarted (addedGroup.destroy (sampleEnv true) (addedGroup.tasks 0))) rfl rfl
  refine ⟨after, hafter, hback.mpr ⟨nofun, ?_, rfl⟩⟩
  intro hrenamed
  exact absurd hrenamed.1 (by decide)

def pausedGroup : Group :=
  changeTorrent (changeTask addedGroup 0 fun t => { t with controlStatus := .paused }) (some 0)
    Torrent.pause

/-- A paused task is written as paused, and runs when the manager has restarted. -/
theorem paused_task_runs :
    Path AbsentTasks.step (fun _ _ => True) emptyGroup
        (sampleEvents [.call sampleHash (.controlTask .pause ⟨1, 1, 1⟩)]) pausedGroup ∧
      (pausedGroup.tasks 0).controlStatus = .paused ∧
      (pausedGroup.session.torrents.lookup 0).map Torrent.paused = some true ∧
      ∃ after, addResumeEntry (resumingEnv (pausedGroup.tasks 0)) (resumeName sampleHash)
          (restarted (pausedGroup.destroy (sampleEnv true) (pausedGroup.tasks 0))) = some after ∧
        after.status = .success ∧ (after.group.tasks 0).controlStatus = .paused ∧
        (after.group.session.torrents.lookup 0).map Torrent.paused = some false :=
  ⟨path_of_steps _ _ _ (fun _ _ _ => trivial) rfl, rfl, rfl, _, rfl, rfl, rfl, rfl⟩

end Samples
end Gingko.GroupResumes
