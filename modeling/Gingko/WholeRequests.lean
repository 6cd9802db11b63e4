import Gingko.AgentCalls
import Gingko.RequestReplies
import Mathlib.Data.Fintype.EquivFin

/-!
A message that is handled without other events in between. Its sections, taken
one after the other, do what its handler does as a whole, so every state that
the handlers lead to is one of the interleaved agent.
-/
namespace Gingko.WholeRequests

open KeyedMaps Base64Codec AgentMessages AgentTasks AgentAdds AgentRequests AgentRuns AgentChanges
  TaskKeys AgentCalls RequestReplies GuardedRuns

/-- What the body of a payload asks for, and the error code its parse leaves. -/
def requestOf (env : RequestEnv) (body : Option ByteString) : RequestType → Request × ErrorCode
  | .addTask =>
    let parsed := env.protobuf.addTask body
    (.addTask parsed.2, parseMsg parsed.1)
  | .taskGetopt =>
    let parsed := env.protobuf.taskOptions body
    (.taskGetopt parsed.2, parseMsg parsed.1)
  | .taskSetopt =>
    let parsed := env.protobuf.taskOptions body
    (.taskSetopt parsed.2, parseMsg parsed.1)
  | .agentGetopt =>
    let parsed := env.protobuf.agentOptions body
    (.agentGetopt parsed.2, parseMsg parsed.1)
  | .agentSetopt =>
    let parsed := env.protobuf.agentOptions body
    (.agentSetopt parsed.2 env.updateConfig, parseMsg parsed.1)
  | .batchCtrl =>
    let parsed := env.protobuf.batchCtrl body
    (.batchCtrl parsed.2, parseMsg parsed.1)
  | .addMetadata =>
    let parsed := env.protobuf.metadata body
    (.addMetadata parsed.2, parseMsg parsed.1)

/-- No request has more than three sections after its first. -/
def handledAlone (env : RequestEnv) (c : CallId) (cred : Ucred) (type : RequestType)
    (body : Option ByteString) : List Event :=
  .request c cred (requestOf env body type).1 (requestOf env body type).2 env.add ::
    List.replicate 3 (.resume c env.add)

section Resumes

variable (conf : AgentConfigure) (c : CallId) (env : AddEnv)

theorem resumes_idle (n : ℕ) (w : World) (hidle : w.calls.lookup c = none) :
    final (next conf) w (List.replicate n (.resume c env)) = w := by
  induction n with
  | zero => rfl
  | succ n ih =>
    have hstep : next conf w (.resume c env) = w := by
      simp only [next, hidle]
    calc final (next conf) w (List.replicate (n + 1) (.resume c env))
        = final (next conf) (next conf w (.resume c env)) (List.replicate n (.resume c env)) := rfl
      _ = w := by rw [hstep, ih]

theorem resumes_succ (n : ℕ) (s : Agent) (calls : Calls) (call : Call) :
    final (next conf) ⟨s, calls.insert c call⟩ (List.replicate (n + 1) (.resume c env)) =
      final (next conf) (resumeCall c env ⟨s, calls.insert c call⟩ call)
        (List.replicate n (.resume c env)) := by
  have hstep : next conf ⟨s, calls.insert c call⟩ (.resume c env) =
      resumeCall c env ⟨s, calls.insert c call⟩ call := by
    simp only [next, AList.lookup_insert]
  rw [← hstep]
  rfl

variable (calls : Calls) (hfresh : calls.lookup c = none)

include hfresh

theorem heldBy_insert_idle (call : Call) (hidle : call.task = none) :
    heldBy (calls.insert c call) = heldBy calls := by
  have hnot : c ∉ calls := AList.lookup_eq_none.mp hfresh
  unfold heldBy Dict.values
  rw [AList.entries_insert_of_notMem hnot, List.map_cons, List.filterMap_cons_none hidle]

/-- A call that ends without having erased its task from the maps leaves the
agent as it is. -/
theorem endCall_listed (s : Agent) (call : Call) (ref : TaskRef)
    (hlisted : ref ∈ Dict.values s.tasksMap) :
    endCall c ref ⟨s, calls.insert c call⟩ = ⟨s, calls⟩ := by
  have hdrop : s.dropTask (heldBy calls) ref = s := if_pos (Or.inl hlisted)
  simp only [endCall, Dict.erase_insert_new calls c call hfresh, hdrop]

theorem resumes_holding (n : ℕ) (s : Agent) (call : Call) (ref : TaskRef)
    (hend : ∀ w, resumeCall c env w call = endCall c ref w)
    (hlisted : ref ∈ Dict.values s.tasksMap) :
    final (next conf) ⟨s, calls.insert c call⟩ (List.replicate (n + 1) (.resume c env)) =
      ⟨s, calls⟩ := by
  rw [resumes_succ, hend, endCall_listed c calls hfresh s call ref hlisted]
  exact resumes_idle conf c env n _ hfresh

end Resumes

section Handlers

variable (conf : AgentConfigure) (c : CallId) (env : AddEnv) (cred : Ucred) (w : World)
  (hfresh : w.calls.lookup c = none)

include hfresh

theorem resumes_inserting (message : AddTask) (ti : TorrentInfo) (s : Agent) :
    final (next conf) ⟨s, w.calls.insert c (.inserting cred message ti)⟩
        (List.replicate 2 (.resume c env)) =
      ⟨(insertTask env w.held message ti s).1, w.calls⟩ := by
  have hheld : World.held ⟨s, w.calls.insert c (.inserting cred message ti)⟩ = w.held :=
    heldBy_insert_idle c w.calls hfresh (.inserting cred message ti) rfl
  rw [resumes_succ]
  unfold resumeCall insertTask
  dsimp only
  rw [hheld]
  cases createTask env message ti with
  | error f =>
    dsimp only
    rw [Dict.erase_insert_new w.calls c _ hfresh]
    exact resumes_idle conf c env 1 _ hfresh
  | ok created =>
    dsimp only
    rw [AList.insert_insert]
    apply resumes_holding conf c env w.calls hfresh 0 _ _ s.nextRef (fun _ => rfl)
    rw [(quiet_indexTask s created.1 created.2 w.held).tasksMap]
    exact (Dict.mem_values_iff _ _).mpr ⟨created.1.id, AList.lookup_insert _⟩

/-- The two locked sections of an add request. -/
theorem resumes_placing (message : AddTask) (ti : TorrentInfo) (s : Agent) :
    final (next conf) ⟨s, w.calls.insert c (.placing cred message ti)⟩
        (List.replicate 3 (.resume c env)) =
      ⟨(placeTask env w.held message ti s).agent, w.calls⟩ := by
  have hheld : World.held ⟨s, w.calls.insert c (.placing cred message ti)⟩ = w.held :=
    heldBy_insert_idle c w.calls hfresh (.placing cred message ti) rfl
  rw [resumes_succ]
  unfold resumeCall placeTask
  dsimp only
  rw [hheld]
  obtain ⟨s', refused⟩ := removeDup w.held message.task s
  cases refused with
  | some f =>
    dsimp only
    rw [Dict.erase_insert_new w.calls c _ hfresh]
    exact resumes_idle conf c env 2 _ hfresh
  | none =>
    dsimp only
    rw [AList.insert_insert, resumes_inserting conf c env cred w hfresh message ti s']
    obtain ⟨s'', result⟩ := insertTask env w.held message ti s'
    cases result with
    | error f => rfl
    | ok id => rfl

theorem addTask_alone (message : AddTask) (ec : ErrorCode) :
    final (next conf) (beginRequest conf c cred (.addTask message) ec env w)
        (List.replicate 3 (.resume c env)) =
      ⟨(addTaskAs env w.held cred message ec w.agent).agent, w.calls⟩ := by
  unfold beginRequest addTaskAs
  dsimp only
  obtain ⟨s, result⟩ := readTorrent env ec (setCred cred message.task) w.agent
  cases result with
  | error f => exact resumes_idle conf c env 3 _ hfresh
  | ok torrent => exact resumes_placing conf c env cred w hfresh _ torrent.2 s

theorem taskGetopt_alone (options : TaskOptions) (ec : ErrorCode) :
    final (next conf) (beginRequest conf c cred (.taskGetopt options) ec env w)
        (List.replicate 3 (.resume c env)) = w := by
  unfold beginRequest findTask
  dsimp only
  cases hlook : w.agent.tasksMap.lookup (options.taskid.getD 0) with
  | none => exact resumes_idle conf c env 3 _ hfresh
  | some ref =>
    have hlisted := (Dict.mem_values_iff w.agent.tasksMap ref).mpr ⟨_, hlook⟩
    exact resumes_holding conf c env w.calls hfresh 2 w.agent _ ref (fun _ => rfl) hlisted

theorem taskSetopt_alone (options : TaskOptions) (ec : ErrorCode) :
    ∃ handled, taskSetopt conf (some cred) options ec w.agent = some handled ∧
      final (next conf) (beginRequest conf c cred (.taskSetopt options) ec env w)
        (List.replicate 3 (.resume c env)) = ⟨handled.agent, w.calls⟩ := by
  unfold beginRequest taskSetopt findTask
  dsimp only
  cases hlook : w.agent.tasksMap.lookup (options.taskid.getD 0) with
  | none => exact ⟨_, rfl, resumes_idle conf c env 3 _ hfresh⟩
  | some ref =>
    refine ⟨_, rfl, ?_⟩
    dsimp only
    split
    · have hlisted : ref ∈ Dict.values (setOptions options ref w.agent).tasksMap := by
        have hquiet : Quiet w.agent (setOptions options ref w.agent) := Quiet.updateTorrent ..
        rw [hquiet.tasksMap]
        exact (Dict.mem_values_iff _ ref).mpr ⟨_, hlook⟩
      rw [resumes_succ]
      show final _ (endCall c ref ⟨setOptions options ref w.agent, _⟩) _ = _
      rw [endCall_listed c w.calls hfresh _ _ ref hlisted]
      exact resumes_idle conf c env 2 _ hfresh
    · exact resumes_idle conf c env 3 _ hfresh

end Handlers

theorem processRequest_agent (env : RequestEnv) (held : List TaskRef) (conn : Connection)
    (type : RequestType) (body : Option ByteString) (s : Agent) (handled : Handled)
    (h : handleRequest env held conn type body s = some handled) :
    (processRequest env held conn type body s).agent = handled.agent := by
  unfold processRequest
  rw [h]
  exact agent_sendError handled

section Whole

variable (env : RequestEnv) (c : CallId) (cred : Ucred) (body : Option ByteString) (w : World)
  (hfresh : w.calls.lookup c = none)

include hfresh

/-- The first section of a request and the sections after it, as its handler. -/
theorem sections_handled (type : RequestType) :
    ∃ handled, handleRequest env w.held (some cred) type body w.agent = some handled ∧
      final (next env.conf) (beginRequest env.conf c cred (requestOf env body type).1
          (requestOf env body type).2 env.add w) (List.replicate 3 (.resume c env.add)) =
        ⟨handled.agent, w.calls⟩ := by
  cases type with
  | addTask => exact ⟨_, rfl, addTask_alone env.conf c env.add cred w hfresh _ _⟩
  | taskGetopt =>
    refine ⟨_, rfl, ?_⟩
    have hagent : ∀ (options : TaskOptions) (ec : ErrorCode),
        (taskGetopt options ec w.agent).agent = w.agent := by
      intro options ec
      unfold taskGetopt
      split
      · rfl
      · split
        · rfl
        · rfl
    rw [hagent]
    exact taskGetopt_alone env.conf c env.add cred w hfresh _ _
  | taskSetopt => exact taskSetopt_alone env.conf c env.add cred w hfresh _ _
  | agentGetopt => exact ⟨_, rfl, resumes_idle env.conf c env.add 3 w hfresh⟩
  | agentSetopt => exact ⟨_, rfl, resumes_idle env.conf c env.add 3 _ hfresh⟩
  | batchCtrl =>
    unfold handleRequest handleBatchCtrl beginRequest requestOf
    dsimp only
    split
    · exact ⟨_, rfl, resumes_idle env.conf c env.add 3 w hfresh⟩
    · exact ⟨_, rfl, resumes_idle env.conf c env.add 3 _ hfresh⟩
  | addMetadata => exact ⟨_, rfl, resumes_idle env.conf c env.add 3 _ hfresh⟩

/-- Handled alone, a request leaves what its handler leaves, and no call. -/
theorem handled_alone (type : RequestType) :
    final (next env.conf) w (handledAlone env c cred type body) =
      ⟨(processRequest env w.held (some cred) type body w.agent).agent, w.calls⟩ := by
  obtain ⟨handled, hhandled, hsections⟩ := sections_handled env c cred body w hfresh type
  have hstep : next env.conf w (.request c cred (requestOf env body type).1
      (requestOf env body type).2 env.add) = beginRequest env.conf c cred
        (requestOf env body type).1 (requestOf env body type).2 env.add w := by
    simp only [next, hfresh]
  rw [processRequest_agent env w.held (some cred) type body w.agent handled hhandled, ← hsections,
    ← hstep]
  rfl

end Whole

/-- What a message does when it is handled alone is a run of the interleaved agent. -/
theorem message_run (env : RequestEnv) (cred : Ucred) (data beyond : ByteString) (w : World) :
    ∃ events, final (next env.conf) w events =
      ⟨(processMessage env w.held (some cred) data beyond w.agent).agent, w.calls⟩ := by
  obtain ⟨c, hfresh⟩ := Infinite.exists_notMem_finset w.calls.keys.toFinset
  have hnone : w.calls.lookup c = none := by
    apply AList.lookup_eq_none.mpr
    intro hmem
    exact hfresh (List.mem_toFinset.mpr hmem)
  unfold processMessage
  split
  · exact ⟨[], rfl⟩
  · split
    · exact ⟨[], rfl⟩
    · rename_i type _
      exact ⟨_, handled_alone env c cred (bodyOf data) w hnone type⟩

/-- So messages that are handled alone lead to reachable states only. -/
theorem message_reachable (env : RequestEnv) (row : Option ConfigRow) (rows : List ConfigRow)
    (events : List Event) (cred : Ucred) (data beyond : ByteString) :
    let w := final (next env.conf) (World.start env.conf row rows) events
    ∃ events', final (next env.conf) (World.start env.conf row rows) events' =
      ⟨(processMessage env w.held (some cred) data beyond w.agent).agent, w.calls⟩ := by
  intro w
  obtain ⟨more, hrun⟩ := message_run env cred data beyond w
  refine ⟨events ++ more, ?_⟩
  rw [final_append]
  exact hrun

end Gingko.WholeRequests
