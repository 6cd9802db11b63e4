import Gingko.RequestReplies

/-!
What a failed add request leaves behind. A request that is refused, or whose
torrent cannot be read, leaves the tasks alone. A task that gives way to the new
one is removed before the new one is created, and nothing brings it back when
the creation fails.
-/
namespace Gingko.FailedAdds

open KeyedMaps Base64Codec AgentMessages AgentTasks AgentAdds AgentRequests AgentRuns AgentChanges
  AddOutcomes RequestReplies GuardedRuns

/-- The maps, the task objects and the torrents are the same. -/
structure SameTasks (s s' : Agent) : Prop where
  tasksMap : s'.tasksMap = s.tasksMap
  torrentMap : s'.torrentMap = s.torrentMap
  infohashMap : s'.infohashMap = s.infohashMap
  dataPathMap : s'.dataPathMap = s.dataPathMap
  tasks : s'.tasks = s.tasks
  session : s'.session = s.session

/-- One task is gone from the maps and the session; the rest is the same. -/
structure WithoutTask (s : Agent) (dup : TaskRef) (s' : Agent) : Prop where
  tasksMap : s'.tasksMap = s.tasksMap.erase (s.tasks dup).id
  torrentMap : s'.torrentMap = s.torrentMap.erase (s.tasks dup).torrent
  infohashMap : s'.infohashMap = s.infohashMap.erase (s.tasks dup).infohash
  dataPathMap : s'.dataPathMap = s.dataPathMap.erase (s.tasks dup).getDataPath
  canceled : s'.tasks dup = (s.tasks dup).cancel
  tasks : ∀ ref, ref ≠ dup → s'.tasks ref = s.tasks ref
  session : s'.session = s.session.erase (s.tasks dup).torrent

/-- The request has read its torrent, this older task has to give way to it, and
its creation fails. -/
def FailsLate (env : AddEnv) (held : List TaskRef) (cred : Ucred) (message : AddTask)
    (ec : ErrorCode) (s : Agent) (dup : TaskRef) : Prop :=
  ∃ t ti, (readTorrent env ec (setCred cred message.task) s).2 = .ok (t, ti) ∧
    findDup held (fillNewName t ti) s = some dup ∧ givesWay (fillNewName t ti) s dup = true ∧
    CreationFails env { message with task := fillNewName t ti } ti

theorem withoutTask_quitTask (s : Agent) (dup : TaskRef) : WithoutTask s dup (quitTask s dup) :=
  ⟨rfl, rfl, rfl, rfl, Function.update_self _ _ _, fun _ hne => Function.update_of_ne hne _ _, rfl⟩

section Read

variable (env : AddEnv) (ec : ErrorCode) (t : TaskInfo) (s : Agent)

theorem sameTasks_readTorrent : SameTasks s (readTorrent env ec t s).1 := by
  obtain ⟨metas, total, hread⟩ := readTorrent_agent env ec t s
  rw [hread]
  exact ⟨rfl, rfl, rfl, rfl, rfl, rfl⟩

variable {s}

theorem SameTasks.lock {s' : Agent} (h : SameTasks s s') (held : List TaskRef) (ref : TaskRef) :
    s'.lock held ref = s.lock held ref := by
  unfold Agent.lock
  rw [h.tasksMap]

theorem SameTasks.findDup {s' : Agent} (h : SameTasks s s') (held : List TaskRef) :
    findDup held t s' = findDup held t s := by
  have hlock : s'.lock held = s.lock held := funext (h.lock held)
  unfold AgentAdds.findDup
  rw [h.infohashMap, h.dataPathMap, hlock]

theorem SameTasks.givesWay {s' : Agent} (h : SameTasks s s') (dup : TaskRef) :
    givesWay t s' dup = givesWay t s dup := by
  unfold AgentAdds.givesWay
  rw [h.tasks]

theorem SameTasks.withoutTask {s' s'' : Agent} (h : SameTasks s s') (dup : TaskRef)
    (hquit : WithoutTask s' dup s'') : WithoutTask s dup s'' := by
  refine ⟨?_, ?_, ?_, ?_, ?_, ?_, ?_⟩
  · rw [hquit.tasksMap, h.tasksMap, h.tasks]
  · rw [hquit.torrentMap, h.torrentMap, h.tasks]
  · rw [hquit.infohashMap, h.infohashMap, h.tasks]
  · rw [hquit.dataPathMap, h.dataPathMap, h.tasks]
  · rw [hquit.canceled, h.tasks]
  · intro ref hne
    rw [hquit.tasks ref hne, h.tasks]
  · rw [hquit.session, h.session, h.tasks]

end Read

/-- An add request whose only reply is an error has left an error code. -/
theorem ec_of_error (env : AddEnv) (held : List TaskRef) (cred : Ucred) (message : AddTask)
    (ec : ErrorCode) (s : Agent)
    (herror : ∃ f : Failure, (sendError (addTaskAs env held cred message ec s)).replies =
      [.base (baseRes (some f))]) : (addTaskAs env held cred message ec s).ec ≠ none := by
  obtain ⟨f, hreplies⟩ := herror
  rcases addTaskAs_answer env held cred message ec s with ⟨id, hec, htask⟩ | ⟨g, hec, _⟩
  · rw [replies_sendError _ hec, htask] at hreplies
    simp at hreplies
  · rw [hec]
    exact Option.some_ne_none g

/-- For every state of the agent and whatever the outside answers, a failed add
request leaves the tasks as they were, unless its creation fails after an older
task has given way; then that task is gone and nothing else has changed. -/
theorem failed_add_effect (env : AddEnv) (held : List TaskRef) (cred : Ucred) (message : AddTask)
    (ec : ErrorCode) (s : Agent)
    (herror : ∃ f : Failure, (sendError (addTaskAs env held cred message ec s)).replies =
      [.base (baseRes (some f))]) :
    ((∀ dup, ¬ FailsLate env held cred message ec s dup) →
      SameTasks s (addTaskAs env held cred message ec s).agent) ∧
    ∀ dup, FailsLate env held cred message ec s dup →
      WithoutTask s dup (addTaskAs env held cred message ec s).agent := by
  have hsame := sameTasks_readTorrent env ec (setCred cred message.task) s
  have hfailed := ec_of_error env held cred message ec s herror
  unfold addTaskAs at hfailed ⊢
  unfold FailsLate
  generalize readTorrent env ec (setCred cred message.task) s = read at hsame hfailed ⊢
  obtain ⟨s', result⟩ := read
  cases result with
  | error f =>
    refine ⟨fun _ => hsame, ?_⟩
    intro dup hboth
    obtain ⟨t, ti, hread, _⟩ := hboth
    contradiction
  | ok torrent =>
    obtain ⟨t, ti⟩ := torrent
    dsimp only at hsame hfailed ⊢
    have hcase := placeTask_cases env held { message with task := fillNewName t ti } ti s'
    generalize placeTask env held { message with task := fillNewName t ti } ti s' = h
      at hcase hfailed ⊢
    cases hcase with
    | refused dup hdup hway =>
      refine ⟨fun _ => hsame, ?_⟩
      intro dup' hboth
      obtain ⟨t', ti', hread, hdup', hway', _⟩ := hboth
      obtain ⟨rfl, rfl⟩ := Prod.mk.inj (Except.ok.inj hread)
      rw [hsame.findDup, hdup'] at hdup
      rw [hsame.givesWay, ← Option.some.inj hdup, hway'] at hway
      contradiction
    | failed f hdup hcreate =>
      refine ⟨fun _ => hsame, ?_⟩
      intro dup' hboth
      obtain ⟨t', ti', hread, hdup', _⟩ := hboth
      obtain ⟨rfl, rfl⟩ := Prod.mk.inj (Except.ok.inj hread)
      rw [hsame.findDup, hdup'] at hdup
      contradiction
    | failedLate dup f hdup hway hcreate =>
      have hquit := hsame.withoutTask dup (withoutTask_quitTask s' dup)
      rw [hsame.findDup] at hdup
      rw [hsame.givesWay] at hway
      constructor
      · intro hnone
        have hfails := creationFails_of_error env _ ti f hcreate
        exact absurd ⟨t, ti, rfl, hdup, hway, hfails⟩ (hnone dup)
      · intro dup' hboth
        obtain ⟨t', ti', hread, hdup', _⟩ := hboth
        obtain ⟨rfl, rfl⟩ := Prod.mk.inj (Except.ok.inj hread)
        rw [hdup] at hdup'
        rw [← Option.some.inj hdup']
        exact hquit
    | added s'' task torrent hremoved hcreate => contradiction

/-- The database gives no id. -/
def idless : AddEnv := { answering 0 with excute := fun _ => ⟨false, none⟩ }

/-- An agent with one task that gives way. -/
def oneTask : Agent :=
  (final (next plainConf) (World.start plainConf none [])
    (addedAtOnce 0 (user 1001) (addFile .nocheckTask [1] [10]) (answering 1))).agent

/-- The task gives way before the database gives no id. -/
theorem failed_add_effect_late :
    WithoutTask oneTask 0
      (addTaskAs idless [] (user 1001) (addFile .nocheckTask [1] [11]) none oneTask).agent := by
  refine (failed_add_effect idless [] (user 1001) (addFile .nocheckTask [1] [11]) none oneTask
    ⟨Error.generateTaskIdFailed.failure, by decide⟩).2 0 ?_
  exact ⟨_, _, rfl, by decide, by decide, .inl rfl⟩

/-- The request for a task of the same torrent fails for want of an id, and the
old task is gone from the map. -/
theorem failed_add_removes :
    (sendError (addTaskAs idless [] (user 1001) (addFile .nocheckTask [1] [11]) none
        oneTask)).replies = [.base (baseRes (some Error.generateTaskIdFailed.failure))] ∧
      oneTask.tasksMap.lookup 1 = some 0 ∧
      (addTaskAs idless [] (user 1001) (addFile .nocheckTask [1] [11]) none
        oneTask).agent.tasksMap.lookup 1 = none := by
  decide

end Gingko.FailedAdds
