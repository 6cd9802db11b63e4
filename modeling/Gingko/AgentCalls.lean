import Gingko.TaskKeys

/-!
Calls in progress. A call that keeps a task outside the lock keeps one that was
created, and the credentials of a call that is about to set options have passed
the check of its task. Both stay true because task objects are only added and
the fixed part of a created task stays.
-/
namespace Gingko.AgentCalls

open KeyedMaps AgentMessages AgentTasks AgentAdds AgentRequests AgentRuns AgentChanges TaskKeys
  GuardedRuns

/-- A call in progress refers to a created task, and options are set by a user
who passes the check. -/
structure CallOk (conf : AgentConfigure) (s : Agent) (call : Call) : Prop where
  created : ∀ ref, call.task = some ref → ref < s.nextRef
  checked : ∀ cred options ref, call = .setting cred options ref →
    (s.tasks ref).checkCred conf cred = true

def CallsOk (conf : AgentConfigure) (w : World) : Prop :=
  Dict.Holds (fun _ call => CallOk conf w.agent call) w.calls

/-- Objects are only added, and what is fixed about them stays. -/
structure Extends (s t : Agent) : Prop where
  nextRef : s.nextRef ≤ t.nextRef
  tasks : ∀ ref < s.nextRef, fixed (t.tasks ref) = fixed (s.tasks ref)

section Calls

variable (conf : AgentConfigure)

theorem extends_removes (s t : Agent) (h : Removes s t) : Extends s t := by
  induction h with
  | quiet s t h => exact ⟨Nat.le_of_eq h.nextRef.symm, fun ref _ => h.tasks ref⟩
  | erase s t u ref _ h _ ih =>
    have hnext : t.nextRef = s.nextRef := h.nextRef
    refine ⟨by rw [← hnext]; exact ih.nextRef, ?_⟩
    intro r hr
    rw [← hnext] at hr
    exact (ih.tasks r hr).trans (h.tasks r)

theorem extends_indexTask (held : List TaskRef) (s : Agent) (t : Task) (torrent : Torrent) :
    Extends s (indexTask held s t torrent) := by
  have hquiet := quiet_indexTask s t torrent held
  refine ⟨?_, ?_⟩
  · rw [hquiet.nextRef]
    exact Nat.le_succ _
  · intro ref href
    rw [hquiet.tasks, tasks_placed_old s t torrent ref href]

theorem CallOk.extend {s t : Agent} {call : Call} (h : CallOk conf s call) (hext : Extends s t) :
    CallOk conf t call := by
  refine ⟨fun ref href => Nat.lt_of_lt_of_le (h.created ref href) hext.nextRef, ?_⟩
  intro cred options ref hcall
  have hlt := h.created ref (by rw [hcall]; rfl)
  have hcheck := h.checked cred options ref hcall
  have hsame : ∀ task, (fixed task).checkCred conf cred = task.checkCred conf cred := fun _ => rfl
  rw [← hsame, hext.tasks ref hlt, hsame]
  exact hcheck

theorem callsOk_extend (s t : Agent) (calls : Calls) (hext : Extends s t)
    (h : CallsOk conf ⟨s, calls⟩) : CallsOk conf ⟨t, calls⟩ :=
  fun c call hlook => (h c call hlook).extend conf hext

theorem callsOk_erase (s : Agent) (calls : Calls) (c : CallId) (h : CallsOk conf ⟨s, calls⟩) :
    CallsOk conf ⟨s, calls.erase c⟩ :=
  fun c' call hlook => h c' call (Dict.lookup_of_erase calls c c' call hlook).2

theorem callsOk_insert (s : Agent) (calls : Calls) (c : CallId) (call : Call)
    (hcall : CallOk conf s call) (h : CallsOk conf ⟨s, calls⟩) :
    CallsOk conf ⟨s, calls.insert c call⟩ :=
  (Dict.holds_insert _ calls c call (fun c' call' _ => h c' call')).mpr hcall

theorem callOk_idle (s : Agent) (call : Call) (h : call.task = none) : CallOk conf s call := by
  refine ⟨?_, ?_⟩
  · intro ref href
    rw [h] at href
    contradiction
  · intro cred options ref hcall
    rw [hcall] at h
    contradiction

theorem findTask_lt (s : Agent) (hok : KeysOk s) (options : TaskOptions) (ref : TaskRef)
    (h : findTask options s = .ok ref) : ref < s.nextRef := by
  unfold findTask at h
  split at h
  · contradiction
  · rename_i ref' hlook
    rw [← Except.ok.inj h]
    exact (hok.byId _ ref' hlook).2

variable (w : World)

theorem callsOk_beginRequest (hok : KeysOk w.agent) (h : CallsOk conf w) (c : CallId) (cred : Ucred)
    (request : Request) (ec : ErrorCode) (env : AddEnv) :
    CallsOk conf (beginRequest conf c cred request ec env w) := by
  have hext := extends_removes _ _ (removes_beginRequest conf w c cred request ec env)
  have hkept := callsOk_extend conf w.agent _ w.calls hext h
  cases request with
  | addTask message =>
    unfold beginRequest at hkept ⊢
    dsimp only at hkept ⊢
    split at hkept
    · exact hkept
    · exact callsOk_insert conf _ _ c _ (callOk_idle conf _ _ rfl) hkept
  | taskGetopt options =>
    unfold beginRequest
    dsimp only
    split
    · exact h
    · rename_i ref hfound
      refine callsOk_insert conf _ _ c _ ⟨?_, ?_⟩ h
      · intro ref' href
        rw [← Option.some.inj href]
        exact findTask_lt w.agent hok options ref hfound
      · intro cred' options' ref' hcall
        contradiction
  | taskSetopt options =>
    unfold beginRequest
    dsimp only
    split
    · exact h
    · rename_i ref hfound
      split
      · rename_i hcheck
        refine callsOk_insert conf _ _ c _ ⟨?_, ?_⟩ h
        · intro ref' href
          rw [← Option.some.inj href]
          exact findTask_lt w.agent hok options ref hfound
        · intro cred' options' ref' hcall
          obtain ⟨rfl, rfl, rfl⟩ := Call.setting.inj hcall
          exact hcheck
      · exact h
  | agentGetopt options => exact h
  | agentSetopt options updateConfig => exact hkept
  | batchCtrl message =>
    unfold beginRequest at hkept ⊢
    dsimp only at hkept ⊢
    split
    · exact h
    · rename_i htype
      rw [if_neg htype] at hkept
      exact hkept
  | addMetadata message => exact hkept

theorem callsOk_endCall (h : CallsOk conf w) (c : CallId) (ref : TaskRef) :
    CallsOk conf (endCall c ref w) := by
  have hext := extends_removes _ _ (.quiet _ _ (quiet_endCall w c ref))
  exact callsOk_extend conf w.agent _ _ hext (callsOk_erase conf w.agent w.calls c h)

theorem callsOk_resumeCall (h : CallsOk conf w) (c : CallId) (env : AddEnv) (call : Call) :
    CallsOk conf (resumeCall c env w call) := by
  cases call with
  | placing cred message ti =>
    have hext := extends_removes _ _ (removes_removeDup w.held w.agent message.task)
    unfold resumeCall
    dsimp only
    split
    · rename_i hresult
      rw [hresult] at hext
      exact callsOk_extend conf w.agent _ _ hext (callsOk_erase conf w.agent w.calls c h)
    · rename_i hresult
      rw [hresult] at hext
      exact callsOk_insert conf _ _ c _ (callOk_idle conf _ _ rfl)
        (callsOk_extend conf w.agent _ _ hext h)
  | inserting cred message ti =>
    unfold resumeCall insertTask
    dsimp only
    cases createTask env message ti with
    | error f => exact callsOk_erase conf w.agent w.calls c h
    | ok created =>
      have hext := extends_indexTask w.held w.agent created.1 created.2
      refine callsOk_insert conf _ _ c _ ⟨?_, ?_⟩ (callsOk_extend conf w.agent _ _ hext h)
      · intro ref href
        rw [← Option.some.inj href, (quiet_indexTask w.agent _ _ w.held).nextRef]
        exact Nat.lt_succ_self _
      · intro cred' options' ref' hcall
        contradiction
  | created cred ref => exact callsOk_endCall conf w h c ref
  | setting cred options ref =>
    have hquiet : Quiet w.agent (setOptions options ref w.agent) := Quiet.updateTorrent w.agent _ _
    exact callsOk_endCall conf _
      (callsOk_extend conf w.agent _ _ (extends_removes _ _ (.quiet _ _ hquiet)) h) c ref
  | getting cred ref => exact callsOk_endCall conf w h c ref

theorem callsOk_next (hok : KeysOk w.agent) (h : CallsOk conf w) (e : Event) :
    CallsOk conf (next conf w e) := by
  cases e with
  | request c cred request ec env =>
    unfold next
    dsimp only
    split
    · exact h
    · exact callsOk_beginRequest conf w hok h c cred request ec env
  | resume c env =>
    unfold next
    dsimp only
    split
    · exact h
    · exact callsOk_resumeCall conf w h c env _
  | restart row => exact Dict.holds_empty _
  | seedingTimer taskid =>
    exact callsOk_extend conf w.agent _ _
      (extends_removes _ _ (removes_seedingTimerCallback w.held w.agent _)) h
  | torrentError torrent error =>
    exact callsOk_extend conf w.agent _ _
      (extends_removes _ _ (removes_onTorrentError w.held w.agent torrent error)) h
  | persistTasks =>
    exact callsOk_extend conf w.agent _ _
      (extends_removes _ _ (removes_persistTasks w.held w.agent)) h
  | resumeFile d env =>
    refine callsOk_extend conf w.agent _ _ ?_ h
    unfold addResumeTask
    split
    · exact extends_removes _ _ (Removes.refl w.agent)
    · exact extends_indexTask w.held w.agent _ _

end Calls

theorem reachable_ok (conf : AgentConfigure) (row : Option ConfigRow) (rows : List ConfigRow)
    (events : List Event) :
    KeysOk (final (next conf) (World.start conf row rows) events).agent ∧
      CallsOk conf (final (next conf) (World.start conf row rows) events) := by
  apply final_invariant (next conf) (fun w => KeysOk w.agent ∧ CallsOk conf w)
  · intro w e hboth
    obtain ⟨hok, hcalls⟩ := hboth
    exact ⟨keysOk_next conf w e hok, callsOk_next conf w hok hcalls e⟩
  · exact ⟨keysOk_start _ _, Dict.holds_empty _⟩

end Gingko.AgentCalls
