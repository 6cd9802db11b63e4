import Gingko.AddOutcomes

/-!
How often a request is answered. The parse step only notes its failure, so the
handlers run on what the message holds by then, and the noted error is sent
after whatever they reply. A malformed payload is answered properly only where
its handler finds another reason to refuse it before it does anything.
-/
namespace Gingko.RequestReplies

open KeyedMaps Base64Codec AgentMessages AgentTasks AgentAdds AgentRequests AgentRuns AgentChanges
  TaskKeys AddOutcomes GuardedRuns

def parses (p : Protobuf) (body : Option ByteString) : RequestType → Bool
  | .addTask => (p.addTask body).1
  | .taskGetopt => (p.taskOptions body).1
  | .taskSetopt => (p.taskOptions body).1
  | .agentGetopt => (p.agentOptions body).1
  | .agentSetopt => (p.agentOptions body).1
  | .batchCtrl => (p.batchCtrl body).1
  | .addMetadata => (p.metadata body).1

/-- A known type in four bytes, and a body that parses for it. -/
def WellFormed (p : Protobuf) (data beyond : ByteString) : Prop :=
  4 ≤ data.length ∧ ∃ code type, readType data beyond = some code ∧
    RequestType.ofCode code = some type ∧ parses p (bodyOf data) type = true

/-- An error is the only reply and the agent is as before. -/
def Refused (s : Agent) (o : Outcome) : Prop :=
  o.agent = s ∧ ∃ f : Failure, o.replies = [.base (baseRes (some f))]

/-- What the payload should lead to. -/
def Answered (env : RequestEnv) (held : List TaskRef) (conn : Connection)
    (data beyond : ByteString) (s : Agent) : Prop :=
  let o := processMessage env held conn data beyond s
  (WellFormed env.protobuf data beyond → o.replies.length = 1) ∧
    (¬ WellFormed env.protobuf data beyond → Refused s o)

/-- The handler asks for the credentials of the connection. -/
def asksCred (p : Protobuf) (body : Option ByteString) (s : Agent) : RequestType → Bool
  | .addTask => true
  | .taskSetopt => (s.tasksMap.lookup ((p.taskOptions body).2.taskid.getD 0)).isSome
  | .agentSetopt => true
  | .batchCtrl => decide ((p.batchCtrl body).2.getCtrlType ≠ .list)
  | _ => false

/-- The torrent has been read, and then the conflict test refuses the task, or
nothing is in its way and its creation fails. -/
def PlaceRefused (env : AddEnv) (held : List TaskRef) (message : AddTask) (ti : TorrentInfo)
    (s : Agent) : Prop :=
  match findDup held message.task s with
  | some dup => givesWay message.task s dup = false
  | none => CreationFails env message ti

/-- No stored metadata is taken, and a torrent that can be read is refused. -/
def AddRefused (env : AddEnv) (held : List TaskRef) (cred : Ucred) (message : AddTask)
    (ec : ErrorCode) (s : Agent) : Prop :=
  ¬ UsesMetadata (setCred cred message.task) s ∧
    ∀ t ti, (readTorrent env ec (setCred cred message.task) s).2 = .ok (t, ti) →
      PlaceRefused env held { message with task := fillNewName t ti } ti s

/-- The handler refuses what the message holds before it does anything. -/
def RefusedEarly (env : RequestEnv) (held : List TaskRef) (conn : Connection)
    (body : Option ByteString) (s : Agent) : RequestType → Prop
  | .addTask => ∃ cred, conn = some cred ∧
      AddRefused env.add held cred (env.protobuf.addTask body).2
        (parseMsg (env.protobuf.addTask body).1) s
  | .taskGetopt => s.tasksMap.lookup ((env.protobuf.taskOptions body).2.taskid.getD 0) = none
  | .taskSetopt =>
      ∀ ref, s.tasksMap.lookup ((env.protobuf.taskOptions body).2.taskid.getD 0) = some ref →
        ∃ cred, conn = some cred ∧ (s.tasks ref).checkCred env.conf cred = false
  | .agentSetopt => ∃ cred, conn = some cred ∧ changesAgent env.conf cred = false
  | .agentGetopt => False
  | .batchCtrl => False
  | .addMetadata => False

/-- A payload of known type is well formed and the credentials are there when
they are asked for, or it is malformed and refused early. -/
def TypeAnswers (env : RequestEnv) (held : List TaskRef) (conn : Connection) (data : ByteString)
    (s : Agent) (type : RequestType) : Prop :=
  if 4 ≤ data.length ∧ parses env.protobuf (bodyOf data) type = true then
    asksCred env.protobuf (bodyOf data) s type = true → conn.isSome = true
  else RefusedEarly env held conn (bodyOf data) s type

def Answers (env : RequestEnv) (held : List TaskRef) (conn : Connection) (data beyond : ByteString)
    (s : Agent) : Prop :=
  match readType data beyond with
  | none => False
  | some code =>
    match RequestType.ofCode code with
    | none => True
    | some type => TypeAnswers env held conn data s type

section Send

variable (h : Handled)

theorem replies_sendError (hclear : h.ec = none) : (sendError h).replies = h.replies := by
  unfold sendError
  rw [hclear]

theorem agent_sendError : (sendError h).agent = h.agent := by
  unfold sendError
  split
  · rfl
  · rfl

/-- An error that the handler leaves is the only reply exactly when the handler
has not replied. -/
theorem refused_sendError (s : Agent) (f : Failure) (hec : h.ec = some f) :
    Refused s (sendError h) ↔ h.agent = s ∧ h.replies = [] := by
  have hsend : sendError h = ⟨h.agent, h.replies ++ [.base (baseRes (some f))]⟩ := by
    unfold sendError
    rw [hec]
  rw [hsend]
  constructor
  · intro hboth
    obtain ⟨hagent, g, hreplies⟩ := hboth
    refine ⟨hagent, ?_⟩
    have hlength := congrArg List.length hreplies
    simp only [List.length_append, List.length_cons, List.length_nil] at hlength
    exact List.length_eq_zero_iff.mp (by omega)
  · intro hboth
    obtain ⟨hagent, hreplies⟩ := hboth
    exact ⟨hagent, f, by rw [hreplies, List.nil_append]⟩

theorem not_refused_base (s a : Agent) : ¬ Refused s ⟨a, [.base (baseRes none)]⟩ := by
  intro hboth
  obtain ⟨_, f, hreplies⟩ := hboth
  have hres : baseRes none = baseRes (some f) := by
    simpa using hreplies
  have hcode := (baseRes_retCode none).mpr rfl
  rw [hres] at hcode
  exact absurd ((baseRes_retCode (some f)).mp hcode) (Option.some_ne_none f)

/-- A handler that has replied anything but an error does not refuse. -/
theorem not_refused_replied (s : Agent) (hreplied : h.replies ≠ [])
    (hkind : h.ec = none → ∀ f : Failure, h.replies ≠ [.base (baseRes (some f))]) :
    ¬ Refused s (sendError h) := by
  cases hec : h.ec with
  | none =>
    intro hboth
    obtain ⟨_, f, hreplies⟩ := hboth
    rw [replies_sendError h hec] at hreplies
    exact hkind hec f hreplies
  | some f =>
    rw [refused_sendError h s f hec]
    exact fun hboth => hreplied hboth.2

/-- A base reply that carries the noted error does not refuse either. -/
theorem not_refused_acknowledged (s a : Agent) (ec : ErrorCode) :
    ¬ Refused s (sendError ⟨a, ec, [.base (baseRes ec)]⟩) := by
  apply not_refused_replied _ s (List.cons_ne_nil _ _)
  intro hclear f
  simp only at hclear ⊢
  rw [hclear]
  intro hreplies
  exact not_refused_base s s ⟨rfl, f, hreplies⟩

end Send

section Add

variable (env : AddEnv) (held : List TaskRef) (cred : Ucred) (message : AddTask) (ec : ErrorCode)
  (s : Agent)

/-- An add request ends with its reply or with an error, never with both. -/
theorem addTaskAs_answer :
    (∃ id, (addTaskAs env held cred message ec s).ec = none ∧
      (addTaskAs env held cred message ec s).replies = [.task ⟨id, none⟩]) ∨
    ∃ f, (addTaskAs env held cred message ec s).ec = some f ∧
      (addTaskAs env held cred message ec s).replies = [] := by
  unfold addTaskAs
  split
  · rename_i s' f hread
    exact Or.inr ⟨f, rfl, rfl⟩
  · rename_i s' t ti hread
    have hcase := placeTask_cases env held { message with task := fillNewName t ti } ti s'
    generalize placeTask env held { message with task := fillNewName t ti } ti s' = h at hcase ⊢
    cases hcase with
    | refused dup hdup hway => exact Or.inr ⟨_, rfl, rfl⟩
    | failed f hdup hcreate => exact Or.inr ⟨f, rfl, rfl⟩
    | failedLate dup f hdup hway hcreate => exact Or.inr ⟨f, rfl, rfl⟩
    | added s'' task torrent hremoved hcreate => exact Or.inl ⟨task.id, rfl, rfl⟩

theorem placeRefused_iff (ti : TorrentInfo) (hok : KeysOk s) :
    Refused s (sendError (placeTask env held message ti s)) ↔
      PlaceRefused env held message ti s := by
  have hcase := placeTask_cases env held message ti s
  generalize placeTask env held message ti s = h at hcase ⊢
  unfold PlaceRefused
  cases hcase with
  | refused dup hdup hway =>
    rw [refused_sendError _ s _ rfl, hdup]
    exact iff_of_true ⟨rfl, rfl⟩ hway
  | failed f hdup hcreate =>
    rw [refused_sendError _ s f rfl, hdup]
    exact iff_of_true ⟨rfl, rfl⟩ (creationFails_of_error env message ti f hcreate)
  | failedLate dup f hdup hway hcreate =>
    rw [refused_sendError _ s f rfl, hdup]
    refine iff_of_false ?_ ?_
    · exact fun hboth => quitTask_ne held message.task s dup hok hdup hboth.1
    · simp [hway]
  | added s' t torrent hremoved hcreate =>
    refine iff_of_false (not_refused_replied _ s (by simp) (by simp)) ?_
    intro hrefused
    cases hdup : findDup held message.task s with
    | none =>
      rw [hdup] at hrefused
      exact not_creationFails env message ti t.id
        (createdWithId_of_ok env message ti t torrent hcreate) hrefused
    | some dup =>
      rw [hdup] at hrefused
      have hway : givesWay message.task s dup = false := hrefused
      simp [removeDup, hdup, hway] at hremoved

theorem addRefused_iff (hok : KeysOk s) :
    Refused s (sendError (addTaskAs env held cred message ec s)) ↔
      AddRefused env held cred message ec s := by
  have hkept := metas_addTaskAs s env held cred message ec
  rcases readTorrent_metas env ec (setCred cred message.task) s with
    ⟨hsame, hunused⟩ | ⟨hfewer, hused⟩
  · unfold addTaskAs AddRefused
    generalize readTorrent env ec (setCred cred message.task) s = read at hsame ⊢
    obtain ⟨s', result⟩ := read
    change s' = s at hsame
    subst hsame
    cases result with
    | error f =>
      dsimp only
      rw [refused_sendError _ s' f rfl]
      refine iff_of_true ⟨rfl, rfl⟩ ⟨hunused, ?_⟩
      intro t ti hread
      contradiction
    | ok torrent =>
      obtain ⟨t, ti⟩ := torrent
      dsimp only
      rw [placeRefused_iff env held _ s' ti hok]
      constructor
      · intro hplace
        refine ⟨hunused, ?_⟩
        intro t' ti' hread
        obtain ⟨rfl, rfl⟩ := Prod.mk.inj (Except.ok.inj hread)
        exact hplace
      · intro hboth
        exact hboth.2 t ti rfl
  · refine iff_of_false ?_ (fun hboth => hboth.1 hused)
    intro hboth
    obtain ⟨hagent, _⟩ := hboth
    rw [agent_sendError] at hagent
    rw [hagent] at hkept
    rw [← hkept] at hfewer
    exact Nat.lt_irrefl _ hfewer

end Add

section Types

variable (env : RequestEnv) (held : List TaskRef) (conn : Connection) (body : Option ByteString)
  (s : Agent)

theorem not_refused_silent : ¬ Refused s ⟨s, []⟩ := by
  intro hboth
  obtain ⟨_, f, hreplies⟩ := hboth
  contradiction

theorem refused_addTask (hok : KeysOk s) :
    Refused s (processRequest env held conn .addTask body s) ↔
      RefusedEarly env held conn body s .addTask := by
  unfold processRequest RefusedEarly handleRequest addTask
  cases conn with
  | none =>
    refine iff_of_false (not_refused_silent s) ?_
    intro hboth
    obtain ⟨cred, hcred, _⟩ := hboth
    contradiction
  | some cred =>
    dsimp only [Option.map_some]
    rw [addRefused_iff env.add held cred _ _ s hok]
    constructor
    · intro hrefused
      exact ⟨cred, rfl, hrefused⟩
    · intro hboth
      obtain ⟨cred', hcred, hrefused⟩ := hboth
      rw [Option.some.inj hcred]
      exact hrefused

theorem refused_taskGetopt : Refused s (processRequest env held conn .taskGetopt body s) ↔
    RefusedEarly env held conn body s .taskGetopt := by
  unfold processRequest RefusedEarly handleRequest taskGetopt findTask
  dsimp only
  cases hlook : s.tasksMap.lookup ((env.protobuf.taskOptions body).2.taskid.getD 0) with
  | none =>
    dsimp only
    rw [refused_sendError _ s _ rfl]
    exact iff_of_true ⟨rfl, rfl⟩ rfl
  | some ref =>
    dsimp only
    refine iff_of_false ?_ (Option.some_ne_none ref)
    split
    · exact not_refused_replied _ s (by simp) (by simp)
    · exact not_refused_replied _ s (by simp) (by simp)

theorem refused_taskSetopt : Refused s (processRequest env held conn .taskSetopt body s) ↔
    RefusedEarly env held conn body s .taskSetopt := by
  unfold processRequest RefusedEarly handleRequest taskSetopt findTask
  dsimp only
  cases hlook : s.tasksMap.lookup ((env.protobuf.taskOptions body).2.taskid.getD 0) with
  | none =>
    dsimp only
    rw [refused_sendError _ s _ rfl]
    refine iff_of_true ⟨rfl, rfl⟩ ?_
    intro ref hsome
    contradiction
  | some ref =>
    cases conn with
    | none =>
      refine iff_of_false (not_refused_silent s) ?_
      intro hall
      obtain ⟨cred, hcred, _⟩ := hall ref rfl
      contradiction
    | some cred =>
      dsimp only [Option.map_some]
      cases hcheck : (s.tasks ref).checkCred env.conf cred with
      | true =>
        refine iff_of_false (not_refused_acknowledged s _ _) ?_
        intro hall
        obtain ⟨cred', hcred, hfailed⟩ := hall ref rfl
        rw [← Option.some.inj hcred, hcheck] at hfailed
        contradiction
      | false =>
        simp only [Bool.false_eq_true, if_false]
        rw [refused_sendError _ s _ rfl]
        refine iff_of_true ⟨rfl, rfl⟩ ?_
        intro ref' href'
        rw [← Option.some.inj href']
        exact ⟨cred, rfl, hcheck⟩

theorem refused_agentSetopt : Refused s (processRequest env held conn .agentSetopt body s) ↔
    RefusedEarly env held conn body s .agentSetopt := by
  unfold processRequest RefusedEarly handleRequest agentSetopt
  cases conn with
  | none =>
    refine iff_of_false (not_refused_silent s) ?_
    intro hboth
    obtain ⟨cred, hcred, _⟩ := hboth
    contradiction
  | some cred =>
    dsimp only [Option.map_some]
    unfold agentSetoptAs
    cases hallowed : changesAgent env.conf cred with
    | true =>
      refine iff_of_false (not_refused_acknowledged s _ _) ?_
      intro hboth
      obtain ⟨cred', hcred, hfailed⟩ := hboth
      rw [← Option.some.inj hcred, hallowed] at hfailed
      contradiction
    | false =>
      simp only [Bool.false_eq_true, if_false]
      rw [refused_sendError _ s _ rfl]
      exact iff_of_true ⟨rfl, rfl⟩ ⟨cred, rfl, hallowed⟩

theorem not_refused_batchCtrl : ¬ Refused s (processRequest env held conn .batchCtrl body s) := by
  unfold processRequest handleRequest handleBatchCtrl
  dsimp only
  by_cases htype : (env.protobuf.batchCtrl body).2.getCtrlType = .list
  · simp only [htype, if_true]
    exact not_refused_replied _ s (by simp [listTasks]) (by simp [listTasks])
  · simp only [htype, if_false, batchCtrlTasks]
    cases conn with
    | none => exact not_refused_silent s
    | some cred => exact not_refused_replied _ s (by simp) (by simp)

theorem not_refused_addMetadata :
    ¬ Refused s (processRequest env held conn .addMetadata body s) := by
  unfold processRequest handleRequest handleAddMetadata
  dsimp only
  apply not_refused_replied _ s (by simp)
  intro hclear f
  dsimp only at hclear ⊢
  rw [hclear]
  intro hreplies
  exact not_refused_base s s ⟨rfl, f, hreplies⟩

/-- Whatever the body holds, the handler refuses it properly exactly when it
has another reason to, found before it does anything. -/
theorem refused_processRequest (type : RequestType) (hok : KeysOk s) :
    Refused s (processRequest env held conn type body s) ↔
      RefusedEarly env held conn body s type := by
  cases type with
  | addTask => exact refused_addTask env held conn body s hok
  | taskGetopt => exact refused_taskGetopt env held conn body s
  | taskSetopt => exact refused_taskSetopt env held conn body s
  | agentGetopt =>
    refine iff_of_false ?_ (fun h => h)
    exact not_refused_replied _ s (by simp [agentGetopt]) (by simp [agentGetopt])
  | agentSetopt => exact refused_agentSetopt env held conn body s
  | batchCtrl => exact iff_of_false (not_refused_batchCtrl env held conn body s) (fun h => h)
  | addMetadata => exact iff_of_false (not_refused_addMetadata env held conn body s) (fun h => h)

/-- A handler with its credentials replies to a body that parses, or leaves an error. -/
theorem length_sendError (h : Handled)
    (hone : h.ec = none ∧ h.replies.length = 1 ∨ (∃ f, h.ec = some f) ∧ h.replies = []) :
    (sendError h).replies.length = 1 := by
  rcases hone with ⟨hclear, hlength⟩ | ⟨⟨f, hec⟩, hreplies⟩
  · rw [replies_sendError h hclear]
    exact hlength
  · simp only [sendError, hec, hreplies, List.nil_append, List.length_cons, List.length_nil]

theorem length_taskSetopt (hparse : (env.protobuf.taskOptions body).1 = true) :
    (processRequest env held conn .taskSetopt body s).replies.length = 1 ↔
      (asksCred env.protobuf body s .taskSetopt = true → conn.isSome = true) := by
  unfold processRequest handleRequest taskSetopt findTask asksCred
  dsimp only
  rw [hparse]
  cases hlook : s.tasksMap.lookup ((env.protobuf.taskOptions body).2.taskid.getD 0) with
  | none =>
    refine iff_of_true ?_ (fun h => absurd h (by simp))
    exact length_sendError _ (Or.inr ⟨⟨_, rfl⟩, rfl⟩)
  | some ref =>
    cases conn with
    | none => exact iff_of_false (by simp) (fun h => absurd (h rfl) (by simp))
    | some cred =>
      refine iff_of_true ?_ (fun _ => rfl)
      dsimp only [Option.map_some]
      apply length_sendError
      split
      · exact Or.inl ⟨rfl, rfl⟩
      · exact Or.inr ⟨⟨_, rfl⟩, rfl⟩

theorem length_batchCtrl (hparse : (env.protobuf.batchCtrl body).1 = true) :
    (processRequest env held conn .batchCtrl body s).replies.length = 1 ↔
      (asksCred env.protobuf body s .batchCtrl = true → conn.isSome = true) := by
  unfold processRequest handleRequest handleBatchCtrl asksCred
  dsimp only
  rw [hparse]
  by_cases htype : (env.protobuf.batchCtrl body).2.getCtrlType = .list
  · simp only [htype, if_true]
    refine iff_of_true ?_ (fun h => absurd h (by simp))
    exact length_sendError _ (Or.inl ⟨rfl, rfl⟩)
  · simp only [htype, if_false, batchCtrlTasks, ne_eq, not_false_eq_true, decide_true]
    cases conn with
    | none => exact iff_of_false (by simp) (by simp)
    | some cred =>
      refine iff_of_true ?_ (fun _ => rfl)
      exact length_sendError _ (Or.inl ⟨rfl, rfl⟩)

theorem length_agentSetopt (hparse : (env.protobuf.agentOptions body).1 = true) :
    (processRequest env held conn .agentSetopt body s).replies.length = 1 ↔
      (asksCred env.protobuf body s .agentSetopt = true → conn.isSome = true) := by
  unfold processRequest handleRequest agentSetopt
  dsimp only
  rw [hparse]
  cases conn with
  | none => exact iff_of_false (by simp) (fun h => absurd (h rfl) (by simp))
  | some cred =>
    refine iff_of_true ?_ (fun _ => rfl)
    dsimp only [Option.map_some]
    apply length_sendError
    unfold agentSetoptAs
    split
    · exact Or.inl ⟨rfl, rfl⟩
    · exact Or.inr ⟨⟨_, rfl⟩, rfl⟩

theorem length_addTask :
    (processRequest env held conn .addTask body s).replies.length = 1 ↔
      (asksCred env.protobuf body s .addTask = true → conn.isSome = true) := by
  unfold processRequest handleRequest addTask
  cases conn with
  | none => exact iff_of_false (by simp) (fun h => absurd (h rfl) (by simp))
  | some cred =>
    refine iff_of_true ?_ (fun _ => rfl)
    dsimp only [Option.map_some]
    apply length_sendError
    rcases addTaskAs_answer env.add held cred (env.protobuf.addTask body).2
      (parseMsg (env.protobuf.addTask body).1) s with ⟨id, hec, hreplies⟩ | ⟨f, hec, hreplies⟩
    · exact Or.inl ⟨hec, by rw [hreplies]; rfl⟩
    · exact Or.inr ⟨⟨f, hec⟩, hreplies⟩

/-- A body that parses is answered once, unless the credentials it needs are missing. -/
theorem length_processRequest (type : RequestType)
    (hparse : parses env.protobuf body type = true) :
    (processRequest env held conn type body s).replies.length = 1 ↔
      (asksCred env.protobuf body s type = true → conn.isSome = true) := by
  cases type with
  | addTask => exact length_addTask env held conn body s
  | taskGetopt =>
    refine iff_of_true ?_ (fun h => absurd h (by simp [asksCred]))
    change (env.protobuf.taskOptions body).1 = true at hparse
    unfold processRequest handleRequest taskGetopt
    dsimp only
    rw [hparse]
    apply length_sendError
    split
    · exact Or.inr ⟨⟨_, rfl⟩, rfl⟩
    · split
      · exact Or.inl ⟨rfl, rfl⟩
      · exact Or.inl ⟨rfl, rfl⟩
  | taskSetopt => exact length_taskSetopt env held conn body s hparse
  | agentGetopt =>
    refine iff_of_true ?_ (fun h => absurd h (by simp [asksCred]))
    change (env.protobuf.agentOptions body).1 = true at hparse
    unfold processRequest handleRequest
    dsimp only
    rw [hparse]
    exact length_sendError _ (Or.inl ⟨rfl, rfl⟩)
  | agentSetopt => exact length_agentSetopt env held conn body s hparse
  | batchCtrl => exact length_batchCtrl env held conn body s hparse
  | addMetadata =>
    refine iff_of_true ?_ (fun h => absurd h (by simp [asksCred]))
    change (env.protobuf.metadata body).1 = true at hparse
    unfold processRequest handleRequest handleAddMetadata
    dsimp only
    rw [hparse]
    exact length_sendError _ (Or.inl ⟨rfl, rfl⟩)

end Types

section Payload

variable (env : RequestEnv) (held : List TaskRef) (conn : Connection) (data beyond : ByteString)
  (s : Agent)

theorem wellFormed_iff (code : UInt32) (type : RequestType)
    (hread : readType data beyond = some code) (htype : RequestType.ofCode code = some type) :
    WellFormed env.protobuf data beyond ↔
      4 ≤ data.length ∧ parses env.protobuf (bodyOf data) type = true := by
  unfold WellFormed
  constructor
  · intro hboth
    obtain ⟨hlength, code', type', hread', htype', hparse⟩ := hboth
    rw [hread] at hread'
    rw [← Option.some.inj hread', htype] at htype'
    rw [Option.some.inj htype']
    exact ⟨hlength, hparse⟩
  · intro hboth
    obtain ⟨hlength, hparse⟩ := hboth
    exact ⟨hlength, code, type, hread, htype, hparse⟩

theorem answered_iff (hok : KeysOk s) :
    Answered env held conn data beyond s ↔ Answers env held conn data beyond s := by
  unfold Answered Answers processMessage
  cases hread : readType data beyond with
  | none =>
    have hmalformed : ¬ WellFormed env.protobuf data beyond := by
      intro hboth
      obtain ⟨_, code, type, hsome, _⟩ := hboth
      rw [hread] at hsome
      contradiction
    exact iff_of_false (fun h => not_refused_silent s (h.2 hmalformed)) (fun h => h)
  | some code =>
    dsimp only
    cases htype : RequestType.ofCode code with
    | none =>
      have hmalformed : ¬ WellFormed env.protobuf data beyond := by
        intro hboth
        obtain ⟨_, code', type, hsome, hknown, _⟩ := hboth
        rw [hread] at hsome
        rw [← Option.some.inj hsome, htype] at hknown
        contradiction
      refine iff_of_true ⟨fun h => absurd h hmalformed, fun _ => ?_⟩ trivial
      exact (refused_sendError _ s _ rfl).mpr ⟨rfl, rfl⟩
    | some type =>
      have hlength := length_processRequest env held conn (bodyOf data) s type
      dsimp only
      unfold TypeAnswers
      rw [wellFormed_iff env data beyond code type hread htype,
        refused_processRequest env held conn (bodyOf data) s type hok]
      by_cases hgood : 4 ≤ data.length ∧ parses env.protobuf (bodyOf data) type = true
      · rw [if_pos hgood, ← hlength hgood.2]
        exact ⟨fun h => h.1 hgood, fun h => ⟨fun _ => h, fun hbad => absurd hgood hbad⟩⟩
      · rw [if_neg hgood]
        exact ⟨fun h => h.2 hgood, fun h => ⟨fun hbad => absurd hbad hgood, fun _ => h⟩⟩

end Payload

/-- In every reachable state and for every payload, the agent answers as it
should exactly when the payload is well formed with the credentials at hand, or
malformed with another reason to refuse it. -/
theorem payload_answered_iff (env : RequestEnv) (row : Option ConfigRow) (rows : List ConfigRow)
    (events : List Event) (conn : Connection) (data beyond : ByteString) :
    let w := final (next env.conf) (World.start env.conf row rows) events
    Answered env w.held conn data beyond w.agent ↔ Answers env w.held conn data beyond w.agent := by
  intro w
  exact answered_iff env w.held conn data beyond w.agent (keysOk_final env.conf row rows events)

/-- A body whose second field is a limit of five bytes per second, and which
then breaks off: the parser fails after it has stored the limit. -/
def brokenOptions : ByteString := [16, 5, 255]

def brokenProtobuf : Protobuf where
  batchCtrl := fun body => (decide (body = some []), {})
  addTask := fun body => (decide (body = some []), {})
  metadata := fun body => (decide (body = some []), {})
  taskOptions := fun body => (decide (body = some []), {})
  agentOptions := fun body =>
    if body = some brokenOptions then (false, { uploadLimit := some 5 })
    else (decide (body = some []), {})

def brokenEnv : RequestEnv where
  conf := plainConf
  protobuf := brokenProtobuf
  add := answering 1
  updateConfig := fun _ => true
  torrentStatus := fun _ => ⟨[], false, false, .downloading, 0, 0, 0, 0, 0⟩
  storedStatus := fun id => ⟨id, [], 0, 0, [], [], [], .unknow, [], 0, 0, 0, 0, 0⟩

/-- The agent's own user sends the broken options: the limit is set all the same,
and there are two replies. -/
theorem broken_options_applied :
    let s := (World.start plainConf none []).agent
    let o := processMessage brokenEnv [] (some (user 1000)) ([5, 0, 0, 0] ++ brokenOptions) [] s
    o.agent.settings.uploadRateLimit = 5 ∧ o.replies.length = 2 ∧
      ¬ Answered brokenEnv [] (some (user 1000)) ([5, 0, 0, 0] ++ brokenOptions) [] s := by
  intro s o
  have hlimit : o.agent.settings.uploadRateLimit = 5 := by decide
  refine ⟨hlimit, by decide, ?_⟩
  intro hanswered
  have hmalformed : ¬ WellFormed brokenEnv.protobuf ([5, 0, 0, 0] ++ brokenOptions) [] := by
    rw [wellFormed_iff brokenEnv _ _ 5 .agentSetopt (by decide) (by decide)]
    decide
  have hagent : o.agent = s := (hanswered.2 hmalformed).1
  have hbefore : s.settings.uploadRateLimit ≠ 5 := by decide
  rw [hagent] at hlimit
  exact hbefore hlimit

end Gingko.RequestReplies
