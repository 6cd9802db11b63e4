import Gingko.GroupAdds

/-!
What a failed add leaves behind. The destroyed task writes the resume file of its
infohash, so a failure is without a trace only where the task has no infohash yet, or
where it is not in the session and the file cannot be written or does not change. A
resume file with fields that cannot be read ends the process, and stays where it is.
-/
namespace Gingko.FailedGroupAdds

open KeyedMaps Base64Codec AgentTasks GroupTasks GroupAdds

/-- Adding a task: a request, or a file of the resume directory. -/
inductive AddCall where
  | request (rights : AddRights) (param : DownloadParam) (cred : UserCred)
  | resumeEntry (name : ByteString)

def AddCall.run (env : GroupEnv) (g : Group) : AddCall → Option AddOutcome
  | .request rights param cred => some (addTask env rights param cred g)
  | .resumeEntry name => addResumeEntry env name g

/-- There is a running task of this infohash. -/
def Runs (g : Group) (infohash : ByteString) : Prop :=
  infohash ≠ [] ∧ ∃ ref, g.infohashMap.lookup infohash = some (some ref)

instance (g : Group) (infohash : ByteString) : Decidable (Runs g infohash) :=
  match h : g.infohashMap.lookup infohash with
  | some (some ref) =>
    if hne : infohash = [] then isFalse (fun hruns => hruns.1 hne) else isTrue ⟨hne, ref, h⟩
  | some none => isFalse (fun hruns => by simp [Runs, h] at hruns)
  | none => isFalse (fun hruns => by simp [Runs, h] at hruns)

/-- The resume files of a destroyed task: the one it was loaded from, and the one that
is named after its infohash. -/
def AddCall.ownFiles (call : AddCall) (t : GroupTask) : List ByteString :=
  (match call with
    | .request _ _ _ => []
    | .resumeEntry name => [name]) ++ if t.infohash = [] then [] else [resumeName t.infohash]

/-- Everything is as before, and the files in the list are gone, unless they are those
of a running task. -/
structure Traceless (g : Group) (own : List ByteString) (g' : Group) : Prop where
  infohashMap : g'.infohashMap = g.infohashMap
  torrentMap : g'.torrentMap = g.torrentMap
  finishedInfohashList : g'.finishedInfohashList = g.finishedInfohashList
  torrents : g'.session.torrents = g.session.torrents
  running : ∀ infohash, Runs g infohash →
    g'.resumeDir (resumeName infohash) = g.resumeDir (resumeName infohash)
  rejected : ∀ name ∈ own, (∀ infohash, Runs g infohash → resumeName infohash ≠ name) →
    g'.resumeDir name = none

section Condition

variable (env : GroupEnv) (g : Group)

/-- The creation stops before the session has the torrent. -/
def StopsBeforeSession : Naming → Prop
  | .error _ => True
  | .ok (t, source) => tmpFails env t = true ∨ env.addTorrent (torrentParams env t source) = false

/-- The file that the destroyed task writes does no harm, given what is in the resume
directory by then: it cannot be opened and is not there, or a running task has the
same infohash and its file already holds just this. -/
def Harmless (before : ByteString → Option ByteString) (t : GroupTask) : Prop :=
  t.infohash ≠ [] →
    if Runs g t.infohash then
      if env.opens (resumeName t.infohash) then
        g.resumeDir (resumeName t.infohash) = some (env.bencode t.resumeData)
      else before (resumeName t.infohash) = g.resumeDir (resumeName t.infohash)
    else env.opens (resumeName t.infohash) = false ∧ before (resumeName t.infohash) = none

def AddCall.LeavesNoTrace : AddCall → Prop
  | .request rights param cred => credOk rights cred = false ∨
      let naming := nameTask env (newTask env) param cred
      StopsBeforeSession env naming ∧ Harmless env g g.resumeDir (Naming.task naming)
  | .resumeEntry name => ∀ content, g.resumeDir name = some content →
      ∃ naming, nameResumed env name content = some naming ∧ StopsBeforeSession env naming ∧
        Harmless env g (Function.update g.resumeDir name none) (Naming.task naming) ∧
        ∀ infohash, Runs g infohash → resumeName infohash = name →
          infohash = (Naming.task naming).infohash

end Condition

section Destruction

variable {env : GroupEnv} {g : Group} {t : GroupTask}

/-- A task without an infohash that is in the session has no torrent to write about. -/
def Named (t : GroupTask) : Prop :=
  t.infohash ≠ [] → ¬ (t.controlStatus = .canceled ∨ t.controlStatus = .finished)

theorem destroy_other (name : ByteString) (h : name ≠ resumeName t.infohash) :
    (g.destroy env t).resumeDir name = g.resumeDir name := by
  unfold Group.destroy Group.persist
  split
  · exact Function.update_of_ne h ..
  · unfold Group.generateResumeFile
    split
    · rfl
    · split
      · exact Function.update_of_ne h ..
      · rfl

theorem destroy_own (hnamed : Named t) (hinfohash : t.infohash ≠ []) :
    (g.destroy env t).resumeDir (resumeName t.infohash) =
      if env.opens (resumeName t.infohash) then some (env.bencode t.resumeData)
      else g.resumeDir (resumeName t.infohash) := by
  unfold Group.destroy Group.persist Group.generateResumeFile
  rw [if_neg (hnamed hinfohash), if_neg hinfohash]
  split
  · exact Function.update_self ..
  · rfl

/-- A task without an infohash writes nothing. -/
theorem destroy_unnamed (hempty : t.infohash = []) (name : ByteString) :
    (g.destroy env t).resumeDir name = g.resumeDir name ∨
      name = resumeName t.infohash ∧ (g.destroy env t).resumeDir name = none := by
  by_cases hname : name = resumeName t.infohash
  · unfold Group.destroy Group.persist
    split
    · refine Or.inr ⟨hname, ?_⟩
      rw [hname]
      exact Function.update_self ..
    · unfold Group.generateResumeFile
      rw [if_pos hempty]
      exact Or.inl rfl
  · exact Or.inl (destroy_other name hname)

end Destruction

section Files

variable {env : GroupEnv} {g : Group} {t : GroupTask} {before : ByteString → Option ByteString}
  {own : List ByteString}

/-- What a rejection before the session asks of the files. -/
def FilesKept (env : GroupEnv) (g : Group) (t : GroupTask)
    (before : ByteString → Option ByteString) (own : List ByteString) : Prop :=
  (∀ infohash, Runs g infohash →
    (({ g with resumeDir := before } : Group).destroy env t).resumeDir (resumeName infohash) =
      g.resumeDir (resumeName infohash)) ∧
  ∀ name ∈ own ++ (if t.infohash = [] then [] else [resumeName t.infohash]),
    (∀ infohash, Runs g infohash → resumeName infohash ≠ name) →
      (({ g with resumeDir := before } : Group).destroy env t).resumeDir name = none

/-- A running task whose file is in the list is the one that is written again. -/
def Spared (g : Group) (t : GroupTask) (own : List ByteString) : Prop :=
  ∀ name ∈ own, ∀ infohash, Runs g infohash → resumeName infohash = name → infohash = t.infohash

theorem filesKept_unnamed (hempty : t.infohash = [])
    (hsame : ∀ name, name ∉ own → before name = g.resumeDir name)
    (hgone : ∀ name ∈ own, before name = none) (hthere : ∀ name ∈ own, g.resumeDir name ≠ none) :
    FilesKept env g t before own ↔ Spared g t own := by
  have hafter (infohash : ByteString) (hruns : Runs g infohash) :
      (({ g with resumeDir := before } : Group).destroy env t).resumeDir (resumeName infohash) =
        before (resumeName infohash) := by
    apply destroy_other
    rw [hempty]
    intro heq
    exact hruns.1 ((resumeName_inj infohash []).mp heq)
  constructor
  · intro hkept name hname infohash hruns heq
    have hold := hkept.1 infohash hruns
    rw [hafter infohash hruns, heq, hgone name hname] at hold
    exact absurd hold.symm (hthere name hname)
  · intro hspared
    constructor
    · intro infohash hruns
      rw [hafter infohash hruns]
      apply hsame
      intro hname
      have hself := hspared _ hname infohash hruns rfl
      exact hruns.1 (hself.trans hempty)
    · intro name hname _
      rw [if_pos hempty, List.append_nil] at hname
      rcases destroy_unnamed hempty name with hold | ⟨-, hnone⟩
      · exact hold.trans (hgone name hname)
      · exact hnone

/-- The file of a running task that is written again. -/
theorem kept_own_iff (hnamed : Named t) (hinfohash : t.infohash ≠ []) (hruns : Runs g t.infohash) :
    (({ g with resumeDir := before } : Group).destroy env t).resumeDir (resumeName t.infohash) =
      g.resumeDir (resumeName t.infohash) ↔ Harmless env g before t := by
  rw [destroy_own hnamed hinfohash]
  unfold Harmless
  rw [if_pos hruns]
  split
  · exact ⟨fun hsame _ => hsame.symm, fun hharmless => (hharmless hinfohash).symm⟩
  · exact ⟨fun hsame _ => hsame, fun hharmless => hharmless hinfohash⟩

/-- The file that is written for an infohash that does not run. -/
theorem gone_own_iff (hnamed : Named t) (hinfohash : t.infohash ≠ [])
    (hidle : ¬ Runs g t.infohash) :
    (({ g with resumeDir := before } : Group).destroy env t).resumeDir (resumeName t.infohash) =
      none ↔ Harmless env g before t := by
  rw [destroy_own hnamed hinfohash]
  unfold Harmless
  rw [if_neg hidle]
  cases hopens : env.opens (resumeName t.infohash) with
  | true => simp [hinfohash]
  | false => simp [hinfohash]

theorem filesKept_named (hnamed : Named t) (hinfohash : t.infohash ≠ [])
    (hsame : ∀ name, name ∉ own → before name = g.resumeDir name)
    (hgone : ∀ name ∈ own, before name = none) (hthere : ∀ name ∈ own, g.resumeDir name ≠ none) :
    FilesKept env g t before own ↔ Harmless env g before t ∧ Spared g t own := by
  have hother (infohash : ByteString) (hne : infohash ≠ t.infohash) :
      (({ g with resumeDir := before } : Group).destroy env t).resumeDir (resumeName infohash) =
        before (resumeName infohash) :=
    destroy_other _ (fun heq => hne ((resumeName_inj _ _).mp heq))
  constructor
  · intro hkept
    refine ⟨?_, ?_⟩
    · by_cases hruns : Runs g t.infohash
      · exact (kept_own_iff hnamed hinfohash hruns).mp (hkept.1 t.infohash hruns)
      · apply (gone_own_iff hnamed hinfohash hruns).mp
        apply hkept.2 (resumeName t.infohash) (by simp [hinfohash])
        intro infohash hother heq
        exact hruns ((resumeName_inj _ _).mp heq ▸ hother)
    · intro name hname infohash hruns heq
      by_contra hne
      have hold := hkept.1 infohash hruns
      rw [hother infohash hne, heq, hgone name hname] at hold
      exact hthere name hname hold.symm
  · intro hboth
    obtain ⟨hharmless, hspared⟩ := hboth
    constructor
    · intro infohash hruns
      by_cases hself : infohash = t.infohash
      · rw [hself] at hruns ⊢
        exact (kept_own_iff hnamed hinfohash hruns).mpr hharmless
      · rw [hother infohash hself]
        apply hsame
        intro hname
        exact hself (hspared _ hname infohash hruns rfl)
    · intro name hname hfree
      by_cases hself : name = resumeName t.infohash
      · have hruns : ¬ Runs g t.infohash := fun hruns => hfree t.infohash hruns hself.symm
        rw [hself]
        exact (gone_own_iff hnamed hinfohash hruns).mpr hharmless
      · rw [if_neg hinfohash] at hname
        rcases List.mem_append.mp hname with hlisted | hlast
        · rw [destroy_other name hself]
          exact hgone name hlisted
        · exact absurd (List.mem_singleton.mp hlast) hself

end Files

section Creation

variable {env : GroupEnv} {g : Group}

theorem nameTask_controlStatus (t : GroupTask) (param : DownloadParam) (cred : UserCred) :
    (Naming.task (nameTask env t param cred)).controlStatus = t.controlStatus := by
  unfold nameTask
  simp only
  split
  · rfl
  · cases openSource env param with
    | none => rfl
    | some source => cases source <;> rfl

theorem named_request (param : DownloadParam) (cred : UserCred) :
    Named (Naming.task (nameTask env (newTask env) param cred)) := by
  intro _
  rw [nameTask_controlStatus]
  simp [newTask]

theorem stopTask_some {code : Int64} {t : GroupTask} (h : stopTask env code = some t) :
    t.infohash = [] := by
  obtain ⟨-, hstopped⟩ := Option.ite_none_right_eq_some.mp h
  rw [← Option.some.inj hstopped]
  rfl

theorem stopTask_none {code : Int64} (h : stopTask env code = none) :
    ¬ (ControlTaskStatus.ofCode code = .canceled ∨ ControlTaskStatus.ofCode code = .finished) := by
  intro hover
  unfold stopTask at h
  rw [if_pos hover] at h
  contradiction

theorem named_resumed {name content : ByteString} {naming : Naming}
    (h : nameResumed env name content = some naming) : Named (Naming.task naming) := by
  intro hinfohash
  unfold nameResumed at h
  split at h
  · obtain rfl := Option.some.inj h
    exact absurd rfl hinfohash
  · split at h
    · obtain rfl := Option.some.inj h
      exact absurd rfl hinfohash
    · contradiction
    · obtain ⟨stopped, hstopped, rfl⟩ := Option.map_eq_some_iff.mp h
      exact absurd (stopTask_some hstopped) hinfohash
    · rename_i d _
      split at h
      · rename_i stopped hstopped
        obtain rfl := Option.some.inj h
        exact absurd (stopTask_some hstopped) hinfohash
      · rename_i hgoes
        obtain rfl := Option.some.inj h
        rw [nameTask_controlStatus]
        exact stopTask_none hgoes

theorem finish_stopped (naming : Naming) (h : StopsBeforeSession env naming) :
    finish env g naming = ⟨false, Naming.task naming, g⟩ := by
  cases naming with
  | error t => rfl
  | ok named =>
    show startTask env g named.1 named.2 = _
    unfold startTask
    by_cases htmp : tmpFails env named.1 = true
    · rw [if_pos htmp]
      rfl
    · rw [if_neg htmp, if_pos (h.resolve_left htmp)]
      rfl

/-- Past the session the torrent is there, whatever comes then. -/
theorem finish_added (naming : Naming) (h : ¬ StopsBeforeSession env naming) :
    (finish env g naming).group.session.torrents ≠ g.session.torrents := by
  cases naming with
  | error t => exact absurd trivial h
  | ok named =>
    obtain ⟨htmp, hrefused⟩ := not_or.mp h
    show (startTask env g named.1 named.2).group.session.torrents ≠ _
    unfold startTask
    rw [if_neg htmp, if_neg hrefused]
    intro heq
    apply g.session.notMem_next
    rw [← heq]
    split
    · exact (g.session.mem_add _ _).mpr (Or.inl rfl)
    · show _ ∈ ((Group.generateResumeFile _ _ _).session.change _ _).torrents
      rw [generateResumeFile_session, Session.mem_change]
      exact (g.session.mem_add _ _).mpr (Or.inl rfl)

end Creation

section Calls

variable {env : GroupEnv} {g : Group}

theorem filesKept_iff {t : GroupTask} {before : ByteString → Option ByteString}
    {own : List ByteString} (hnamed : Named t)
    (hsame : ∀ name, name ∉ own → before name = g.resumeDir name)
    (hgone : ∀ name ∈ own, before name = none) (hthere : ∀ name ∈ own, g.resumeDir name ≠ none) :
    FilesKept env g t before own ↔ Harmless env g before t ∧ Spared g t own := by
  by_cases hempty : t.infohash = []
  · rw [filesKept_unnamed hempty hsame hgone hthere]
    exact ⟨fun hspared => ⟨fun hinfohash => absurd hempty hinfohash, hspared⟩, And.right⟩
  · exact filesKept_named hnamed hempty hsame hgone hthere

/-- Where the session is as before, a rejection is judged by its files alone. -/
theorem traceless_destroy_iff (call : AddCall) (t : GroupTask)
    (before : ByteString → Option ByteString) (own : List ByteString)
    (hown : call.ownFiles t = own ++ if t.infohash = [] then [] else [resumeName t.infohash]) :
    Traceless g (call.ownFiles t) (({ g with resumeDir := before } : Group).destroy env t) ↔
      FilesKept env g t before own := by
  constructor
  · intro htrace
    rw [hown] at htrace
    exact ⟨htrace.running, htrace.rejected⟩
  · intro hkept
    rw [hown, destroy_eq]
    exact ⟨rfl, rfl, rfl, rfl, hkept.1, hkept.2⟩

theorem register_failed (created : CreateOutcome)
    (hfailed : (register env created).status ≠ .success) :
    register env created =
      ⟨.addTaskExist, some created.task, created.group.destroy env created.task⟩ := by
  unfold register at hfailed ⊢
  split
  · rename_i group hadded
    simp [hadded] at hfailed
  · rfl

/-- A rejection changes nothing of the session, whether the creation has failed or the
map has the infohash. -/
theorem settle_session (created : CreateOutcome) (left : Group)
    (hleft : left.session = created.group.session)
    (hfailed : (settle env created left).status ≠ .success) :
    (settle env created left).group.session = created.group.session := by
  unfold settle at hfailed ⊢
  split at hfailed
  · rename_i hcreated
    rw [if_pos hcreated, register_failed created hfailed]
    exact destroy_session created.task
  · rename_i hcreated
    rw [if_neg hcreated]
    exact (destroy_session created.task).trans hleft

/-- The call may change the directory before the rejected task is destroyed. -/
def leave (f : (ByteString → Option ByteString) → ByteString → Option ByteString) (g : Group) :
    Group :=
  { g with resumeDir := f g.resumeDir }

/-- A naming that stops before the session is judged by the files, any other one has
left its torrent in the session. -/
theorem settle_traceless_iff (call : AddCall) (naming : Naming)
    (f : (ByteString → Option ByteString) → ByteString → Option ByteString) (own : List ByteString)
    (hnamed : Named (Naming.task naming))
    (hown : call.ownFiles (Naming.task naming) =
      own ++ if (Naming.task naming).infohash = [] then []
        else [resumeName (Naming.task naming).infohash])
    (hsame : ∀ name, name ∉ own → f g.resumeDir name = g.resumeDir name)
    (hgone : ∀ name ∈ own, f g.resumeDir name = none)
    (hthere : ∀ name ∈ own, g.resumeDir name ≠ none)
    (hfailed : (settle env (finish env g naming) (leave f (finish env g naming).group)).status ≠
      .success) :
    Traceless g ((settle env (finish env g naming)
          (leave f (finish env g naming).group)).rejected.elim [] call.ownFiles)
        (settle env (finish env g naming) (leave f (finish env g naming).group)).group ↔
      StopsBeforeSession env naming ∧ Harmless env g (f g.resumeDir) (Naming.task naming) ∧
        Spared g (Naming.task naming) own := by
  by_cases hstops : StopsBeforeSession env naming
  · rw [and_iff_right hstops, finish_stopped naming hstops,
      ← filesKept_iff hnamed hsame hgone hthere]
    exact traceless_destroy_iff call (Naming.task naming) (f g.resumeDir) own hown
  · have hsession := settle_session (finish env g naming) (leave f (finish env g naming).group) rfl
      hfailed
    constructor
    · intro htrace
      have htorrents := htrace.torrents
      rw [hsession] at htorrents
      exact absurd htorrents (finish_added naming hstops)
    · intro hboth
      exact absurd hboth.1 hstops

theorem request_traceless_iff (rights : AddRights) (param : DownloadParam) (cred : UserCred)
    (hfailed : (addTask env rights param cred g).status ≠ .success) :
    Traceless g ((addTask env rights param cred g).rejected.elim []
        (AddCall.request rights param cred).ownFiles) (addTask env rights param cred g).group ↔
      (AddCall.request rights param cred).LeavesNoTrace env g := by
  simp only [addTask, create_eq] at hfailed ⊢
  cases hcred : credOk rights cred with
  | false =>
    simp only [if_true, AddCall.LeavesNoTrace, hcred, true_or, iff_true]
    exact ⟨rfl, rfl, rfl, rfl, fun _ _ => rfl, fun _ hname => absurd hname List.not_mem_nil⟩
  | true =>
    simp only [hcred, Bool.true_eq_false, if_false, AddCall.LeavesNoTrace, false_or] at hfailed ⊢
    have hsettle := settle_traceless_iff (.request rights param cred)
      (nameTask env (newTask env) param cred) id [] (named_request param cred) rfl
      (fun _ _ => rfl) (fun _ hname => absurd hname List.not_mem_nil)
      (fun _ hname => absurd hname List.not_mem_nil) hfailed
    refine hsettle.trans (and_congr_right fun _ => and_iff_left ?_)
    intro name hname
    simp at hname

/-- A file of the directory that does not end with a task, once its naming has ended. -/
theorem namedEntry_traceless_iff (name : ByteString) {content : ByteString} {naming : Naming}
    (hcontent : g.resumeDir name = some content)
    (hnaming : nameResumed env name content = some naming) {after : AddOutcome}
    (hafter : settle env (finish env g naming)
      ((finish env g naming).group.setResumeFile name none) = after)
    (hfailed : after.status ≠ .success) :
    Traceless g (after.rejected.elim [] (AddCall.resumeEntry name).ownFiles) after.group ↔
      (AddCall.resumeEntry name).LeavesNoTrace env g := by
  have hgone (other : ByteString) (hother : other ∈ [name]) :
      Function.update g.resumeDir name none other = none := by
    rw [List.mem_singleton.mp hother]
    exact Function.update_self ..
  rw [← hafter] at hfailed ⊢
  have hsettle := settle_traceless_iff (.resumeEntry name) naming
    (fun dir => Function.update dir name none) [name] (named_resumed hnaming) rfl
    (fun other hother => Function.update_of_ne (fun heq => hother (by simp [heq])) ..) hgone
    (fun other hother => by simp [List.mem_singleton.mp hother, hcontent]) hfailed
  refine hsettle.trans ?_
  simp [AddCall.LeavesNoTrace, hcontent, hnaming, Spared]

theorem resumeEntry_traceless_iff (name : ByteString)
    (hfailed : ∀ after, addResumeEntry env name g = some after → after.status ≠ .success) :
    (∃ after, addResumeEntry env name g = some after ∧
      Traceless g (after.rejected.elim [] (AddCall.resumeEntry name).ownFiles) after.group) ↔
      (AddCall.resumeEntry name).LeavesNoTrace env g := by
  unfold addResumeEntry at hfailed ⊢
  by_cases hskipped : skippedNames.contains name = true
  · rw [if_pos hskipped] at hfailed
    exact absurd rfl (hfailed _ rfl)
  · rw [if_neg hskipped] at hfailed ⊢
    cases hcontent : g.resumeDir name with
    | none =>
      simp only [hcontent] at hfailed
      exact absurd rfl (hfailed _ rfl)
    | some content =>
      simp only [hcontent, createFromResumeFile_eq, Option.map_map] at hfailed ⊢
      cases hnaming : nameResumed env name content with
      | none => simp [AddCall.LeavesNoTrace, hcontent, hnaming]
      | some naming =>
        simp only [hnaming, Option.map_some, Option.some.injEq] at hfailed ⊢
        rw [exists_eq_left']
        exact namedEntry_traceless_iff name hcontent hnaming rfl (hfailed _ rfl)

end Calls

section Samples

/-- The manager after user 1 has added the download. -/
def runningGroup : Group :=
  (addTask (sampleEnv true) everybody sampleParam ⟨1, 1, 1⟩ emptyGroup).group

/-- A session that refuses torrents, and resume files that cannot be opened. -/
def unwritableEnv : GroupEnv := { sampleEnv false with opens := fun _ => false }

end Samples
end Gingko.FailedGroupAdds
