import Gingko.AbsentTasks

/-!
What every task of a group manager keeps over a run: its parameters name its source
and its infohash, and its torrent in the session has the limits that the parameters
say. A call touches one task and its torrent, or adds a task.
-/
namespace Gingko.ResumableTasks

open KeyedMaps Base64Codec AgentTasks GroupTasks GroupAdds GroupCalls AbsentTasks GuardedRuns
open AgentAdds (toHex)

/-- The torrent has the limits of the parameters. -/
structure Limited (p : DownloadParam) (torrent : Torrent) : Prop where
  upload : torrent.uploadThrottle = Torrent.throttle p.uploadLimit
  download : torrent.downloadThrottle = Torrent.throttle p.downloadLimit
  connections : torrent.connections = (torrent.setMaxConnections p.connectionsLimit).connections

/-- The parameters name the source that the task was made of, and its infohash. -/
structure Resumable (t : GroupTask) : Prop where
  infohash : t.params.infohash = t.infohash
  savePath : t.params.savePath ≠ []
  status : ControlTaskStatus.ofCode t.controlStatus.code = t.controlStatus
  url : t.isTorrentUrl = true → t.params.torrentPath = [] ∧ t.params.torrentUrl ≠ [] ∧
    t.params.needSaveResume = false ∧ t.params.needDownToTmpFirst = false
  torrent : t.isTorrentUrl = false → t.params.torrentPath = [] →
    t.params.torrentUrl = [] ∧ ∃ bytes, t.infohash = toHex bytes

def Keyed (t : GroupTask) : Prop := t.isTorrentUrl = true ∨ t.infohash.length = 40

theorem ofCode_code (code : Int64) :
    ControlTaskStatus.ofCode (ControlTaskStatus.ofCode code).code = .ofCode code := by
  by_cases hnamed : code = 0 ∨ code = 11 ∨ code = 12 ∨ code = 13 ∨ code = 15
  · rcases hnamed with rfl | rfl | rfl | rfl | rfl <;> rfl
  · simp only [not_or] at hnamed
    obtain ⟨hnormal, hcanceled, hpaused, hresume, hfinished⟩ := hnamed
    have hunnamed : ControlTaskStatus.ofCode code = .unnamed code := by
      rw [ControlTaskStatus.ofCode, if_neg hnormal, if_neg hcanceled, if_neg hpaused,
        if_neg hresume, if_neg hfinished]
    rw [hunnamed]
    exact hunnamed

section Naming

variable (env : GroupEnv)

theorem openSource_url (param : DownloadParam) (h : openSource env param = some .url) :
    param.torrentPath = [] ∧ param.torrentUrl ≠ [] := by
  unfold openSource at h
  split at h
  · simp only at h
    split at h
    · contradiction
    · obtain ⟨ti, _, hsource⟩ := Option.map_eq_some_iff.mp h
      contradiction
  · rename_i hpath
    split at h
    · rename_i hurl
      exact ⟨by simpa using hpath, hurl⟩
    · split at h
      · split at h
        · contradiction
        · split at h
          · obtain ⟨bytes, _, hsource⟩ := Option.map_eq_some_iff.mp h
            contradiction
          · contradiction
      · contradiction

theorem openSource_torrent (param : DownloadParam) (infoHash : ByteString) (layout : TorrentLayout)
    (h : openSource env param = some (.torrent infoHash layout)) (hpath : param.torrentPath = []) :
    param.torrentUrl = [] := by
  unfold openSource at h
  rw [if_neg (by simp [hpath])] at h
  by_contra hurl
  rw [if_pos hurl] at h
  simp at h

theorem resumable_nameTask (t : GroupTask) (hurl : t.isTorrentUrl = false)
    (hstatus : ControlTaskStatus.ofCode t.controlStatus.code = t.controlStatus)
    (param : DownloadParam) (cred : UserCred) (named : GroupTask) (source : Source)
    (h : nameTask env t param cred = .ok (named, source)) : Resumable named := by
  unfold nameTask at h
  simp only at h
  split at h
  · contradiction
  · rename_i hpath
    have hsave : param.savePath ≠ [] := fun hempty => hpath (Or.inl hempty)
    split at h
    · contradiction
    · rename_i hsource
      obtain ⟨hfile, hsome⟩ := openSource_url env param hsource
      obtain ⟨rfl, rfl⟩ := Prod.mk.inj (Except.ok.inj h)
      exact ⟨rfl, hsave, hstatus, fun _ => ⟨hfile, hsome, rfl, rfl⟩, nofun⟩
    · rename_i infoHash layout hsource
      obtain ⟨rfl, rfl⟩ := Prod.mk.inj (Except.ok.inj h)
      refine ⟨rfl, hsave, hstatus, ?_, ?_⟩
      · intro hflag
        rw [show t.isTorrentUrl = true from hflag] at hurl
        contradiction
      · intro _ hfile
        exact ⟨openSource_torrent env param infoHash layout hsource hfile, infoHash, rfl⟩

end Naming

section Sessions

variable (s : Session) (handle : TorrentHandle) (f : Torrent → Torrent)

theorem lookup_change_self :
    (s.change handle f).torrents.lookup handle = (s.torrents.lookup handle).map f := by
  simp only [Session.change]
  cases hlook : s.torrents.lookup handle with
  | none => exact hlook
  | some torrent => exact AList.lookup_insert _

theorem lookup_change_ne (other : TorrentHandle) (h : other ≠ handle) :
    (s.change handle f).torrents.lookup other = s.torrents.lookup other := by
  simp only [Session.change]
  cases hlook : s.torrents.lookup handle with
  | none => rfl
  | some torrent => exact AList.lookup_insert_ne h

theorem lookup_add (torrent : Torrent) :
    (s.add torrent).torrents.lookup s.nextHandle = some torrent := AList.lookup_insert _

/-- Torrents are added, and the old ones stay as they are. -/
structure Extended (s s' : Session) : Prop where
  next : s.nextHandle ≤ s'.nextHandle
  torrents : ∀ h < s.nextHandle, s'.torrents.lookup h = s.torrents.lookup h

theorem extended_refl : Extended s s := ⟨Nat.le_refl _, fun _ _ => rfl⟩

theorem extended_add (torrent : Torrent) : Extended s (s.add torrent) where
  next := Nat.le_succ _
  torrents _ hlt := AList.lookup_insert_ne (Nat.ne_of_lt hlt)

theorem extended_addChange (torrent : Torrent) :
    Extended s ((s.add torrent).change s.nextHandle f) where
  next := Nat.le_succ _
  torrents h hlt := by
    rw [lookup_change_ne _ _ _ h (Nat.ne_of_lt hlt)]
    exact (extended_add s torrent).torrents h hlt

end Sessions

/-- Every task can be resumed and has a torrent of its own, limited as it says. -/
structure Kept (g : Group) : Prop where
  resumable : ∀ ref < g.nextRef, Resumable (g.tasks ref) ∧ Keyed (g.tasks ref)
  handles : ∀ ref < g.nextRef, ∃ handle, (g.tasks ref).torrentHandle = some handle ∧
    handle < g.session.nextHandle
  distinct : ∀ a < g.nextRef, ∀ b < g.nextRef,
    (g.tasks a).torrentHandle = (g.tasks b).torrentHandle → a = b
  limited : ∀ ref < g.nextRef, ∀ handle torrent, (g.tasks ref).torrentHandle = some handle →
    g.session.torrents.lookup handle = some torrent → Limited (g.tasks ref).params torrent
  fresh : ∀ ref, g.nextRef ≤ ref →
    (g.tasks ref).torrentHandle = none ∧ (g.tasks ref).isTorrentUrl = false

/-- A call on one task changes no other task and no other torrent. -/
structure Touches (g g' : Group) (ref : TaskRef) : Prop where
  nextRef : g'.nextRef = g.nextRef
  nextHandle : g'.session.nextHandle = g.session.nextHandle
  others : ∀ other, other ≠ ref → g'.tasks other = g.tasks other
  handle : (g'.tasks ref).torrentHandle = (g.tasks ref).torrentHandle
  isUrl : (g'.tasks ref).isTorrentUrl = (g.tasks ref).isTorrentUrl
  resumable : Resumable (g.tasks ref) → Resumable (g'.tasks ref)
  keyed : Keyed (g.tasks ref) → Keyed (g'.tasks ref)
  torrents : ∀ h torrent, some h ≠ (g.tasks ref).torrentHandle →
    g'.session.torrents.lookup h = some torrent → g.session.torrents.lookup h = some torrent
  own : ∀ h torrent', (g.tasks ref).torrentHandle = some h →
    g'.session.torrents.lookup h = some torrent' →
    ∃ torrent, g.session.torrents.lookup h = some torrent ∧
      (Limited (g.tasks ref).params torrent → Limited (g'.tasks ref).params torrent')

theorem Kept.touch {g g' : Group} (h : Kept g) (ref : TaskRef) (ht : Touches g g' ref) :
    Kept g' := by
  have hhandle : ∀ other, (g'.tasks other).torrentHandle = (g.tasks other).torrentHandle := by
    intro other
    by_cases hother : other = ref
    · rw [hother, ht.handle]
    · rw [ht.others other hother]
  refine ⟨?_, ?_, ?_, ?_, ?_⟩
  · intro other hlt
    rw [ht.nextRef] at hlt
    by_cases hother : other = ref
    · subst hother
      exact ⟨ht.resumable (h.resumable other hlt).1, ht.keyed (h.resumable other hlt).2⟩
    · rw [ht.others other hother]
      exact h.resumable other hlt
  · intro other hlt
    rw [hhandle, ht.nextHandle]
    exact h.handles other (ht.nextRef ▸ hlt)
  · intro a ha b hb hsame
    rw [hhandle, hhandle] at hsame
    exact h.distinct a (ht.nextRef ▸ ha) b (ht.nextRef ▸ hb) hsame
  · intro other hlt handle torrent' howner hlook
    rw [ht.nextRef] at hlt
    rw [hhandle] at howner
    by_cases hother : other = ref
    · subst hother
      obtain ⟨torrent, hold, hlimits⟩ := ht.own handle torrent' howner hlook
      exact hlimits (h.limited other hlt handle torrent howner hold)
    · rw [ht.others other hother]
      refine h.limited other hlt handle torrent' howner (ht.torrents handle torrent' ?_ hlook)
      -- a torrent belongs to one task
      intro hsame
      by_cases href : ref < g.nextRef
      · exact hother (h.distinct other hlt ref href (howner.trans hsame))
      · rw [(h.fresh ref (Nat.le_of_not_lt href)).1] at hsame
        contradiction
  · intro other hle
    rw [ht.nextRef] at hle
    by_cases hother : other = ref
    · subst hother
      rw [ht.handle, ht.isUrl]
      exact h.fresh other hle
    · rw [ht.others other hother]
      exact h.fresh other hle

/-- Tasks without a place in the session are not looked at. -/
theorem Kept.extend {g g' : Group} (h : Kept g) (htasks : g'.tasks = g.tasks)
    (hnext : g'.nextRef = g.nextRef) (hsession : Extended g.session g'.session) : Kept g' := by
  refine ⟨?_, ?_, ?_, ?_, ?_⟩
  · rw [htasks, hnext]
    exact h.resumable
  · intro ref hlt
    rw [hnext] at hlt
    obtain ⟨handle, howner, hhandle⟩ := h.handles ref hlt
    rw [htasks]
    exact ⟨handle, howner, Nat.lt_of_lt_of_le hhandle hsession.next⟩
  · rw [htasks, hnext]
    exact h.distinct
  · intro ref hlt handle torrent howner hlook
    rw [hnext] at hlt
    rw [htasks] at howner ⊢
    obtain ⟨own, hown, hhandle⟩ := h.handles ref hlt
    obtain rfl := Option.some.inj (howner.symm.trans hown)
    rw [hsession.torrents handle hhandle] at hlook
    exact h.limited ref hlt handle torrent howner hlook
  · rw [htasks, hnext]
    exact h.fresh

section Calls

variable {g : Group} (ref : TaskRef)

theorem touches_of_same {g' : Group} (htasks : g'.tasks = g.tasks) (hnext : g'.nextRef = g.nextRef)
    (hsession : g'.session = g.session) : Touches g g' ref := by
  refine ⟨hnext, by rw [hsession], fun _ _ => by rw [htasks], by rw [htasks], by rw [htasks],
    by rw [htasks]; exact id, by rw [htasks]; exact id, ?_, ?_⟩
  · intro h torrent _ hlook
    rw [hsession] at hlook
    exact hlook
  · intro h torrent _ hlook
    rw [hsession] at hlook
    rw [htasks]
    exact ⟨torrent, hlook, id⟩

theorem Touches.trans {g' g'' : Group} (h : Touches g g' ref) (h' : Touches g' g'' ref) :
    Touches g g'' ref := by
  refine ⟨h'.nextRef.trans h.nextRef, h'.nextHandle.trans h.nextHandle, ?_,
    h'.handle.trans h.handle, h'.isUrl.trans h.isUrl, fun hold => h'.resumable (h.resumable hold),
    fun hold => h'.keyed (h.keyed hold), ?_, ?_⟩
  · intro other hother
    exact (h'.others other hother).trans (h.others other hother)
  · intro handle torrent hother hlook
    exact h.torrents handle torrent hother (h'.torrents handle torrent (h.handle ▸ hother) hlook)
  · intro handle torrent'' howner hlook
    obtain ⟨torrent', hlook', hlimits'⟩ := h'.own handle torrent'' (h.handle ▸ howner) hlook
    obtain ⟨torrent, hlook, hlimits⟩ := h.own handle torrent' howner hlook'
    exact ⟨torrent, hlook, fun hold => hlimits' (hlimits hold)⟩

/-- A change of one task and of its torrent. -/
theorem touches_change (f : GroupTask → GroupTask) (ft : Torrent → Torrent)
    (hhandle : (f (g.tasks ref)).torrentHandle = (g.tasks ref).torrentHandle)
    (hurl : (f (g.tasks ref)).isTorrentUrl = (g.tasks ref).isTorrentUrl)
    (hresumable : Resumable (g.tasks ref) → Resumable (f (g.tasks ref)))
    (hkeyed : Keyed (g.tasks ref) → Keyed (f (g.tasks ref)))
    (hlimits : ∀ torrent, Limited (g.tasks ref).params torrent →
      Limited (f (g.tasks ref)).params (ft torrent)) :
    Touches g (changeTask (changeTorrent g (g.tasks ref).torrentHandle ft) ref f) ref := by
  have htasks : ∀ handle, (changeTorrent g handle ft).tasks = g.tasks := by
    intro handle
    cases handle <;> rfl
  have hself : (changeTask (changeTorrent g (g.tasks ref).torrentHandle ft) ref f).tasks ref =
      f (g.tasks ref) := by
    simp only [changeTask, htasks, Function.update_self]
  refine ⟨?_, ?_, ?_, by rw [hself, hhandle], by rw [hself, hurl], by rw [hself]; exact hresumable,
    by rw [hself]; exact hkeyed, ?_, ?_⟩
  · cases (g.tasks ref).torrentHandle <;> rfl
  · cases (g.tasks ref).torrentHandle <;> rfl
  · intro other hother
    simp only [changeTask, htasks, Function.update_of_ne hother]
  · intro h torrent hother hlook
    cases howner : (g.tasks ref).torrentHandle with
    | none =>
      rw [howner] at hlook
      exact hlook
    | some handle =>
      rw [howner] at hlook hother
      have hne : h ≠ handle := fun hsame => hother (congrArg some hsame)
      exact (lookup_change_ne g.session handle ft h hne).symm.trans hlook
  · intro h torrent' howner hlook
    rw [howner] at hlook
    have hmap := (lookup_change_self g.session h ft).symm.trans hlook
    obtain ⟨torrent, hold, rfl⟩ := Option.map_eq_some_iff.mp hmap
    exact ⟨torrent, hold, by rw [hself]; exact hlimits torrent⟩

theorem changeTorrent_changeTask (handle : Option TorrentHandle) (f : GroupTask → GroupTask)
    (ft : Torrent → Torrent) :
    changeTorrent (changeTask g ref f) handle ft = changeTask (changeTorrent g handle ft) ref f := by
  cases handle <;> rfl

theorem limitTorrent_uploadThrottle (options : TaskOptions) (torrent : Torrent) :
    (limitTorrent options torrent).uploadThrottle =
      if 0 < options.uploadLimit then Torrent.throttle options.uploadLimit
      else torrent.uploadThrottle := by
  simp only [limitTorrent]
  split <;> split <;> split <;> rfl

theorem limitTorrent_downloadThrottle (options : TaskOptions) (torrent : Torrent) :
    (limitTorrent options torrent).downloadThrottle =
      if 0 < options.downloadLimit then Torrent.throttle options.downloadLimit
      else torrent.downloadThrottle := by
  simp only [limitTorrent]
  split <;> split <;> split <;> rfl

theorem limitTorrent_connections (options : TaskOptions) (torrent : Torrent) :
    (limitTorrent options torrent).connections =
      if 0 < options.connectionsLimit then
        (torrent.setMaxConnections options.connectionsLimit).connections
      else torrent.connections := by
  simp only [limitTorrent]
  split <;> split <;> split <;> rfl

theorem limited_limitTorrent (options : TaskOptions) (p : DownloadParam) (torrent : Torrent)
    (h : Limited p torrent) : Limited (limitParams options p) (limitTorrent options torrent) := by
  refine ⟨?_, ?_, ?_⟩
  · rw [limitTorrent_uploadThrottle, h.upload]
    simp only [limitParams]
    split <;> rfl
  · rw [limitTorrent_downloadThrottle, h.download]
    simp only [limitParams]
    split <;> rfl
  · rw [limitTorrent_connections, h.connections]
    simp only [limitParams]
    split <;> rfl

theorem touches_setOptions (options : TaskOptions) :
    Touches g (setOptions g ref options).2 ref := by
  unfold setOptions
  split
  · exact touches_of_same ref rfl rfl rfl
  · refine touches_change ref (fun t => { t with params := limitParams options t.params })
      (limitTorrent options) rfl rfl ?_ id
      (fun torrent h => limited_limitTorrent options _ torrent h)
    intro h
    exact ⟨h.infohash, h.savePath, h.status, h.url, h.torrent⟩

/-- A change of the status of the task, as known by its code. -/
theorem touches_control (status : ControlTaskStatus)
    (hstatus : ControlTaskStatus.ofCode status.code = status) (ft : Torrent → Torrent)
    (hlimits : ∀ p torrent, Limited p torrent → Limited p (ft torrent)) :
    Touches g (changeTorrent (changeTask g ref fun t => { t with controlStatus := status })
      (g.tasks ref).torrentHandle ft) ref := by
  rw [changeTorrent_changeTask]
  refine touches_change ref _ _ rfl rfl ?_ id (fun torrent h => hlimits _ torrent h)
  intro h
  exact ⟨h.infohash, h.savePath, hstatus, h.url, h.torrent⟩

theorem limited_resume (p : DownloadParam) (torrent : Torrent) (h : Limited p torrent) :
    Limited p torrent.resume := ⟨h.upload, h.download, h.connections⟩

theorem limited_pause (p : DownloadParam) (torrent : Torrent) (h : Limited p torrent) :
    Limited p torrent.pause := ⟨h.upload, h.download, h.connections⟩

theorem touches_removeSession (handle : TorrentHandle)
    (hown : (g.tasks ref).torrentHandle = some handle) :
    Touches g { g with session := g.session.remove handle } ref := by
  refine ⟨rfl, rfl, fun _ _ => rfl, rfl, rfl, id, id, ?_, ?_⟩
  · intro h torrent hother hlook
    have hne : h ≠ handle := fun hsame => hother (by rw [hsame, hown])
    exact (AList.lookup_erase_ne hne).symm.trans hlook
  · intro h torrent' howner hlook
    obtain rfl := Option.some.inj (hown.symm.trans howner)
    have hnone : (g.session.torrents.erase handle).lookup handle = none := AList.lookup_erase _ _
    rw [show (g.session.remove handle).torrents.lookup handle = none from hnone] at hlook
    contradiction

theorem touches_moveToFinished {g' : Group} (handle : TorrentHandle) (infohash : ByteString)
    (h : moveToFinished g handle infohash = some g') : Touches g g' ref := by
  obtain rfl | ⟨moved, -, rfl⟩ := moveToFinished_cases h
  · exact touches_of_same ref rfl rfl rfl
  · exact touches_of_same ref rfl rfl rfl

theorem persist_same (env : GroupEnv) (t : GroupTask) : (g.persist env t).tasks = g.tasks ∧
    (g.persist env t).nextRef = g.nextRef ∧ (g.persist env t).session = g.session := by
  rw [persist_eq]
  exact ⟨rfl, rfl, rfl⟩

/-- A change of the task alone. -/
theorem touches_changeTask (f : GroupTask → GroupTask)
    (hhandle : (f (g.tasks ref)).torrentHandle = (g.tasks ref).torrentHandle)
    (hurl : (f (g.tasks ref)).isTorrentUrl = (g.tasks ref).isTorrentUrl)
    (hresumable : Resumable (g.tasks ref) → Resumable (f (g.tasks ref)))
    (hkeyed : Keyed (g.tasks ref) → Keyed (f (g.tasks ref)))
    (hlimits : ∀ torrent, Limited (g.tasks ref).params torrent →
      Limited (f (g.tasks ref)).params torrent) : Touches g (changeTask g ref f) ref := by
  refine ⟨rfl, rfl, fun _ hother => Function.update_of_ne hother _ _, ?_, ?_, ?_, ?_,
    fun _ _ _ => id, ?_⟩
  · simp only [changeTask, Function.update_self, hhandle]
  · simp only [changeTask, Function.update_self, hurl]
  · simp only [changeTask, Function.update_self]
    exact hresumable
  · simp only [changeTask, Function.update_self]
    exact hkeyed
  · intro h torrent' _ hlook
    simp only [changeTask, Function.update_self]
    exact ⟨torrent', hlook, hlimits torrent'⟩

theorem touches_finishTask (env : GroupEnv) (isRemoveByUser : Bool) :
    Touches g (changeTask g ref (finishTask env isRemoveByUser)) ref := by
  refine touches_changeTask ref _ rfl rfl ?_ id (fun _ h => h)
  intro h
  refine ⟨h.infohash, h.savePath, ?_, h.url, h.torrent⟩
  cases isRemoveByUser <;> rfl

theorem touches_removeTorrent {g' : Group} (env : GroupEnv) (isRemoveByUser : Bool)
    (h : removeTorrent env g ref isRemoveByUser = some g') : Touches g g' ref := by
  unfold removeTorrent at h
  cases hown : (g.tasks ref).torrentHandle with
  | none =>
    rw [hown] at h
    obtain rfl := Option.some.inj h
    exact touches_of_same ref rfl rfl rfl
  | some handle =>
    simp only [hown] at h
    split at h
    · obtain ⟨moved, hmove, hrest⟩ := Option.bind_eq_some_iff.mp h
      obtain rfl := Option.some.inj hrest
      have hremoved := touches_removeSession ref handle hown
      have hmoved := hremoved.trans ref (touches_moveToFinished ref handle _ hmove)
      have hfinished := hmoved.trans ref (touches_finishTask ref env isRemoveByUser)
      obtain ⟨htasks, hnext, hsession⟩ := persist_same
        (g := changeTask moved ref (finishTask env isRemoveByUser)) env
        ((changeTask moved ref (finishTask env isRemoveByUser)).tasks ref)
      exact hfinished.trans ref (touches_of_same ref htasks hnext hsession)
    · obtain rfl := Option.some.inj h
      exact touches_of_same ref rfl rfl rfl

theorem touches_controlRef {g' : Group} (env : GroupEnv) (type : ControlTaskType)
    (h : controlRef env type g ref = some g') : Touches g g' ref := by
  cases type with
  | unknown =>
    obtain rfl := Option.some.inj h
    exact touches_of_same ref rfl rfl rfl
  | cancel =>
    have hstatus : Touches g (changeTask g ref fun t => { t with controlStatus := .canceled }) ref :=
      touches_changeTask ref (fun t => { t with controlStatus := .canceled }) rfl rfl
        (fun h => ⟨h.infohash, h.savePath, rfl, h.url, h.torrent⟩) id (fun _ h => h)
    exact hstatus.trans ref (touches_removeTorrent ref env true h)
  | pause =>
    obtain rfl := Option.some.inj h
    exact touches_control ref .paused rfl _ limited_pause
  | resume =>
    obtain rfl := Option.some.inj h
    exact touches_control ref .resume rfl _ limited_resume

theorem touches_onMetadataReceived {g' : Group} (infohash : ByteString)
    (h : onMetadataReceived g ref infohash = some g') : Touches g g' ref := by
  unfold onMetadataReceived at h
  split at h
  · rename_i hurl
    have hrenamed : Touches g (changeTask g ref fun t => { t with
        infohash := infohash
        params := { t.params with infohash := infohash }
        taskStatus := { t.taskStatus with infohash := infohash } }) ref := by
      refine touches_changeTask ref _ rfl rfl ?_ (fun _ => Or.inl hurl)
        (fun _ h => ⟨h.upload, h.download, h.connections⟩)
      intro h
      refine ⟨rfl, h.savePath, h.status, h.url, ?_⟩
      intro hflag
      rw [show (g.tasks ref).isTorrentUrl = false from hflag] at hurl
      contradiction
    refine hrenamed.trans ref ?_
    obtain rfl | ⟨task, -, rfl⟩ := updateInfohashByTorrentUrl_cases h
    · exact touches_of_same ref rfl rfl rfl
    · exact touches_of_same ref rfl rfl rfl
  · obtain rfl := Option.some.inj h
    exact touches_of_same ref rfl rfl rfl

end Calls

section Adds

variable {env : GroupEnv} {g : Group}

/-- What a creation leaves: the old tasks and torrents, and a task to be resumed. -/
structure Creation (g : Group) (outcome : CreateOutcome) : Prop where
  tasks : outcome.group.tasks = g.tasks
  nextRef : outcome.group.nextRef = g.nextRef
  extended : Extended g.session outcome.group.session
  resumable : outcome.created = true → Resumable outcome.task
  handle : outcome.created = true → outcome.task.torrentHandle = some g.session.nextHandle ∧
    g.session.nextHandle < outcome.group.session.nextHandle
  limited : outcome.created = true → ∀ torrent,
    outcome.group.session.torrents.lookup g.session.nextHandle = some torrent →
      Limited outcome.task.params torrent

theorem limited_torrentOf (t : GroupTask) (source : Source) :
    Limited t.params (torrentOf (torrentParams env t source)) := ⟨rfl, rfl, rfl⟩

theorem creation_failed (t : GroupTask) (g' : Group) (htasks : g'.tasks = g.tasks)
    (hnext : g'.nextRef = g.nextRef) (hsession : Extended g.session g'.session) :
    Creation g ⟨false, t, g'⟩ :=
  ⟨htasks, hnext, hsession, nofun, nofun, nofun⟩

theorem creation_startTask (t : GroupTask) (source : Source) (h : Resumable t) :
    Creation g (startTask env g t source) := by
  unfold startTask
  split
  · exact creation_failed t g rfl rfl (extended_refl _)
  · split
    · exact creation_failed t g rfl rfl (extended_refl _)
    · split
      · exact creation_failed _ _ rfl rfl (extended_add _ _)
      · simp only
        have hfile : ∀ (g : Group) (t : GroupTask), (g.generateResumeFile env t).tasks = g.tasks ∧
            (g.generateResumeFile env t).nextRef = g.nextRef := by
          intro g t
          unfold Group.generateResumeFile
          split
          · exact ⟨rfl, rfl⟩
          · split <;> exact ⟨rfl, rfl⟩
        refine ⟨(hfile _ _).1, (hfile _ _).2, ?_, ?_, ?_, ?_⟩
        · simp only [generateResumeFile_session]
          exact extended_addChange g.session Torrent.resume _
        · intro _
          exact ⟨h.infohash, h.savePath, h.status, h.url, h.torrent⟩
        · intro _
          refine ⟨rfl, ?_⟩
          simp only [generateResumeFile_session]
          exact Nat.lt_succ_self _
        · intro _ torrent hlook
          simp only [generateResumeFile_session] at hlook
          rw [lookup_change_self] at hlook
          obtain ⟨added, hadded, rfl⟩ := Option.map_eq_some_iff.mp hlook
          obtain rfl := Option.some.inj ((lookup_add g.session _).symm.trans hadded)
          exact limited_resume _ _ (limited_torrentOf t source)

theorem creation_create (t : GroupTask) (hurl : t.isTorrentUrl = false)
    (hstatus : ControlTaskStatus.ofCode t.controlStatus.code = t.controlStatus)
    (param : DownloadParam) (cred : UserCred) : Creation g (create env g t param cred) := by
  unfold create
  cases hname : nameTask env t param cred with
  | error stopped => exact creation_failed stopped g rfl rfl (extended_refl _)
  | ok named =>
    exact creation_startTask named.1 named.2
      (resumable_nameTask env t hurl hstatus param cred named.1 named.2 hname)

theorem creation_createFromResumeFile {name content : ByteString} {created : CreateOutcome}
    (h : createFromResumeFile env g name content = some created) : Creation g created := by
  unfold createFromResumeFile at h
  split at h
  · obtain rfl := Option.some.inj h
    exact creation_failed _ g rfl rfl (extended_refl _)
  · split at h
    · obtain rfl := Option.some.inj h
      exact creation_failed _ g rfl rfl (extended_refl _)
    · contradiction
    · obtain ⟨stopped, -, rfl⟩ := Option.map_eq_some_iff.mp h
      exact creation_failed stopped g rfl rfl (extended_refl _)
    · rename_i d _
      split at h
      · obtain rfl := Option.some.inj h
        exact creation_failed _ g rfl rfl (extended_refl _)
      · obtain rfl := Option.some.inj h
        exact creation_create (loadTask env d) rfl (ofCode_code d.controlStatus) _ _

/-- The tasks after a registration are the old ones and the new one. -/
theorem forall_update_lt (f : TaskRef → GroupTask) (next : TaskRef) (t : GroupTask)
    (P : TaskRef → GroupTask → Prop) (hold : ∀ ref < next, P ref (f ref)) (hnew : P next t) :
    ∀ ref < next + 1, P ref (Function.update f next t ref) := by
  intro ref hlt
  rcases Nat.lt_or_eq_of_le (Nat.le_of_lt_succ hlt) with hlt' | rfl
  · rw [Function.update_of_ne (Nat.ne_of_lt hlt')]
    exact hold ref hlt'
  · rw [Function.update_self]
    exact hnew

theorem kept_addTaskToMap {outcome : CreateOutcome} {g' : Group} (h : Kept g)
    (hc : Creation g outcome) (hcreated : outcome.created = true)
    (hadded : addTaskToMap outcome.group outcome.task = some g') : Kept g' := by
  unfold addTaskToMap at hadded
  split at hadded
  · rename_i hkey
    obtain rfl := Option.some.inj hadded
    obtain ⟨hown, hcounted⟩ := hc.handle hcreated
    have hold := h.extend hc.tasks hc.nextRef hc.extended
    -- an old task has an older torrent
    have holder : ∀ ref < outcome.group.nextRef,
        (outcome.group.tasks ref).torrentHandle ≠ outcome.task.torrentHandle := by
      intro ref hlt hsame
      rw [hc.tasks, hown] at hsame
      rw [hc.nextRef] at hlt
      obtain ⟨own, howns, hhandle⟩ := h.handles ref hlt
      obtain rfl := Option.some.inj (howns.symm.trans hsame)
      exact absurd hhandle (Nat.lt_irrefl _)
    refine ⟨?_, ?_, ?_, ?_, ?_⟩
    · exact forall_update_lt _ _ _ (fun _ t => Resumable t ∧ Keyed t) hold.resumable
        ⟨hc.resumable hcreated, hkey.2.1.symm⟩
    · exact forall_update_lt _ _ _ (fun _ t => ∃ handle, t.torrentHandle = some handle ∧
        handle < outcome.group.session.nextHandle) hold.handles ⟨_, hown, hcounted⟩
    · refine forall_update_lt _ _ _ (fun a t => ∀ b < outcome.group.nextRef + 1, t.torrentHandle =
        (Function.update outcome.group.tasks outcome.group.nextRef outcome.task b).torrentHandle →
          a = b) (fun a ha => ?_) ?_
      · exact forall_update_lt _ _ _ (fun b t =>
          (outcome.group.tasks a).torrentHandle = t.torrentHandle → a = b)
          (hold.distinct a ha) (fun hsame => absurd hsame (holder a ha))
      · exact forall_update_lt _ _ _ (fun b t =>
          outcome.task.torrentHandle = t.torrentHandle → outcome.group.nextRef = b)
          (fun b hb hsame => absurd hsame.symm (holder b hb)) (fun _ => rfl)
    · refine forall_update_lt _ _ _ (fun _ t => ∀ handle torrent, t.torrentHandle = some handle →
        outcome.group.session.torrents.lookup handle = some torrent → Limited t.params torrent)
        hold.limited ?_
      intro handle torrent howner hlook
      obtain rfl := Option.some.inj (hown.symm.trans howner)
      exact hc.limited hcreated torrent hlook
    · intro ref hle
      have hne : ref ≠ outcome.group.nextRef := Nat.ne_of_gt hle
      simp only
      rw [Function.update_of_ne hne]
      exact hold.fresh ref (Nat.le_of_succ_le hle)
  · contradiction

theorem kept_settle {outcome : CreateOutcome} (h : Kept g) (hc : Creation g outcome) (left : Group)
    (htasks : left.tasks = outcome.group.tasks) (hnext : left.nextRef = outcome.group.nextRef)
    (hsession : left.session = outcome.group.session) : Kept (settle env outcome left).group := by
  have hdestroyed : ∀ (g' : Group) (t : GroupTask), g'.tasks = outcome.group.tasks →
      g'.nextRef = outcome.group.nextRef → g'.session = outcome.group.session →
      Kept (g'.destroy env t) := by
    intro g' t htasks hnext hsession
    obtain ⟨hsame, hcount, hkept⟩ := persist_same (g := g') env t
    refine h.extend (hsame.trans (htasks.trans hc.tasks)) (hcount.trans (hnext.trans hc.nextRef)) ?_
    rw [show (g'.destroy env t).session = outcome.group.session from hkept.trans hsession]
    exact hc.extended
  unfold settle
  split
  · rename_i hcreated
    unfold register
    cases hadded : addTaskToMap outcome.group outcome.task with
    | none => exact hdestroyed outcome.group outcome.task rfl rfl rfl
    | some g' => exact kept_addTaskToMap h hc hcreated hadded
  · exact hdestroyed left outcome.task htasks hnext hsession

end Adds

section Runs

variable {g : Group}

theorem kept_controlAll {g' : Group} (env : GroupEnv) (type : ControlTaskType) (refs : List TaskRef)
    (h : Kept g) (hrun : refs.foldlM (controlRef env type) g = some g') : Kept g' := by
  induction refs generalizing g with
  | nil =>
    obtain rfl := Option.some.inj hrun
    exact h
  | cons ref rest ih =>
    obtain ⟨next, hnext, hrest⟩ := Option.bind_eq_some_iff.mp hrun
    exact ih (h.touch ref (touches_controlRef ref env type hnext)) hrest

theorem kept_same {g' : Group} (h : Kept g) (htasks : g'.tasks = g.tasks)
    (hnext : g'.nextRef = g.nextRef) (hsession : g'.session = g.session) : Kept g' :=
  h.extend htasks hnext (by rw [hsession]; exact extended_refl _)

theorem kept_setTaskOptions (options : TaskOptions) (h : Kept g) :
    Kept (setTaskOptions g options).2 := by
  unfold setTaskOptions
  split
  · exact kept_same h rfl rfl rfl
  · split
    · exact kept_same h rfl rfl rfl
    · exact h
    · exact h.touch _ (touches_setOptions _ _)

theorem kept_callTask {g' : Group} {answer : Answer} (env : GroupEnv) (infohash : ByteString)
    (call : TaskCall) (h : Kept g) (hcall : callTask env g infohash call = some (answer, g')) :
    Kept g' := by
  cases call with
  | setTaskOptions download upload connections =>
    have hafter : (setTaskOptions g ⟨infohash, download, upload, connections⟩).2 = g' :=
      (Prod.mk.inj (Option.some.inj hcall)).2
    rw [← hafter]
    exact kept_setTaskOptions _ h
  | getTaskOptions =>
    obtain ⟨-, rfl⟩ := Prod.mk.inj (Option.some.inj hcall)
    exact h
  | controlTask type cred =>
    obtain ⟨done, hdone, hpair⟩ := Option.map_eq_some_iff.mp hcall
    obtain ⟨-, rfl⟩ := Prod.mk.inj hpair
    simp only [controlTask, Bool.false_eq_true, if_false] at hdone
    split at hdone
    · obtain rfl := Option.some.inj hdone
      exact h
    · unfold controlTaskByInfohash at hdone
      split at hdone
      · obtain rfl := Option.some.inj hdone
        exact h
      · obtain rfl := Option.some.inj hdone
        exact h
      · rename_i ref _
        split at hdone
        · obtain ⟨after, hafter, rfl⟩ := Option.map_eq_some_iff.mp hdone
          exact h.touch ref (touches_controlRef ref env type hafter)
        · obtain rfl := Option.some.inj hdone
          exact h

theorem kept_step {g' : Group} (e : GroupEnv × Event) (h : Kept g) (hstep : step g e = some g') :
    Kept g' := by
  obtain ⟨env, event⟩ := e
  cases event with
  | call infohash call =>
    obtain ⟨answered, hanswered, rfl⟩ := Option.map_eq_some_iff.mp hstep
    exact kept_callTask env infohash call h hanswered
  | controlAll type cred =>
    obtain ⟨answered, hanswered, rfl⟩ := Option.map_eq_some_iff.mp hstep
    obtain ⟨after, hafter, rfl⟩ := Option.map_eq_some_iff.mp hanswered
    exact kept_controlAll env type _ h hafter
  | add rights param cred =>
    obtain rfl := Option.some.inj hstep
    unfold addTask
    split
    · exact h
    · exact kept_settle h (creation_create (newTask env) rfl rfl param cred) _ rfl rfl rfl
  | resumeEntry name =>
    obtain ⟨after, hafter, rfl⟩ := Option.map_eq_some_iff.mp hstep
    unfold addResumeEntry at hafter
    split at hafter
    · obtain rfl := Option.some.inj hafter
      exact h
    · split at hafter
      · obtain rfl := Option.some.inj hafter
        exact h
      · obtain ⟨created, hcreated, rfl⟩ := Option.map_eq_some_iff.mp hafter
        exact kept_settle h (creation_createFromResumeFile hcreated) _ rfl rfl rfl
  | remove ref timeout =>
    have hflag : Touches g (changeTask g ref fun t =>
        { t with isTimeout := t.isTimeout || timeout }) ref :=
      touches_changeTask ref (fun t => { t with isTimeout := t.isTimeout || timeout }) rfl rfl
        (fun h => ⟨h.infohash, h.savePath, h.status, h.url, h.torrent⟩) id (fun _ h => h)
    exact h.touch ref (hflag.trans ref (touches_removeTorrent ref env false hstep))
  | metadataReceived ref infohash =>
    exact h.touch ref (touches_onMetadataReceived ref infohash hstep)
  | dropFinished keep =>
    obtain rfl := Option.some.inj hstep
    obtain ⟨resumeDir, hdropped⟩ := dropFinished_eq env keep g
    rw [hdropped]
    exact kept_same h rfl rfl rfl

/-- In every run of a manager, every task can be resumed and has its limits. -/
theorem kept_run (settings : GroupSettings) (es : List (GroupEnv × Event)) (g : Group)
    (h : Path step (fun _ _ => True) (Group.start settings) es g) : Kept g :=
  h.invariant Kept (fun _ e _ hkept _ hstep => kept_step e hkept hstep)
    ⟨nofun, nofun, nofun, nofun, fun _ _ => ⟨rfl, rfl⟩⟩

end Runs
end Gingko.ResumableTasks
