import Gingko.AgentRequests
import Gingko.SyncReads

/-!
Requests of a client to the agent, with retries. The type of a request is a
variable of the caller that takes the type of the reply as soon as there is one,
and the next attempt sends what it finds there. An attempt that fails behind this
point therefore changes what is sent afterwards.
-/
namespace Gingko.RequestRetries

open Base64Codec AgentRequests SocketFrames SyncReads

/-- What an attempt meets with: the connection, the credentials, the write, what the
agent sends, what lies in memory behind a reply, and its parser. -/
structure Attempt where
  connects : Bool
  sendsCred : Bool
  writes : Bool
  stream : ByteString
  beyond : ByteString
  parses : Bool
  deriving DecidableEq

inductive Outcome where
  | answered
  | failed
  | faulted
  deriving DecidableEq

inductive ResponseType where
  | base
  | task
  | taskStatus
  | batchCtrl
  | batchList
  | taskGetopt
  | agentGetopt
  deriving DecidableEq

def ResponseType.ofCode (type : UInt32) : Option ResponseType :=
  if type = 10000 then some .base
  else if type = 10001 then some .task
  else if type = 10002 then some .taskStatus
  else if type = 10003 then some .batchCtrl
  else if type = 10004 then some .batchList
  else if type = 10005 then some .taskGetopt
  else if type = 10006 then some .agentGetopt
  else none

structure Told where
  written : Option ByteString
  type : UInt32
  outcome : Outcome
  deriving DecidableEq

section Requests

-- a request that can be serialized is its bytes
variable (sendUcred : Bool) (request : Option ByteString)

/-- The reply is read for its type even when it is shorter than that. -/
def handleReply (a : Attempt) (data : ByteString) (type : UInt32) : UInt32 × Outcome :=
  match readType data a.beyond with
  | none => (type, .faulted)
  | some code =>
    match ResponseType.ofCode code with
    | none => (code, .failed)
    | some _ => (code, if a.parses then .answered else .failed)

def tellUnixServer (a : Attempt) (type : UInt32) : Told :=
  if !a.connects then ⟨none, type, .failed⟩
  else if sendUcred && !a.sendsCred then ⟨none, type, .failed⟩
  else
    match request with
    | none => ⟨none, type, .failed⟩
    | some body =>
      let data := wordBytes type ++ body
      if !a.writes then ⟨some data, type, .failed⟩
      else
        let reply := readData a.stream
        if !reply.ok then ⟨some data, type, .failed⟩
        else
          let handled := handleReply a (reply.data.getD []) type
          ⟨some data, handled.1, handled.2⟩

/-- All that was written, with the type and the outcome of the last attempt. -/
structure Retried where
  writes : List ByteString
  type : UInt32
  outcome : Outcome
  deriving DecidableEq

/-- Only a failure is tried again. -/
def tellEach : List Attempt → UInt32 → Retried
  | [], type => ⟨[], type, .failed⟩
  | a :: rest, type =>
    let told := tellUnixServer sendUcred request a type
    if told.outcome = .failed then
      let others := tellEach rest told.type
      { others with writes := told.written.toList ++ others.writes }
    else ⟨told.written.toList, told.type, told.outcome⟩

/-- The attempts that the limit allows, none for a negative one. -/
def attempts (maxRetryTimes : Int32) (env : ℕ → Attempt) : List Attempt :=
  (List.range maxRetryTimes.toInt.toNat).map env

def tellUnixServerWithRetry (maxRetryTimes : Int32) (env : ℕ → Attempt) (type : UInt32) :
    Retried := tellEach sendUcred request (attempts maxRetryTimes env) type

/-- The attempt gets as far as its write. -/
def reachesWrite (a : Attempt) : Bool :=
  a.connects && (!sendUcred || a.sendsCred) && request.isSome

end Requests

namespace Attempt

def reply (a : Attempt) : Option ByteString :=
  if a.writes && (readData a.stream).ok then some ((readData a.stream).data.getD []) else none

/-- The type and the outcome behind the write. -/
def handled (a : Attempt) (type : UInt32) : UInt32 × Outcome :=
  match a.reply with
  | none => (type, .failed)
  | some data => handleReply a data type

end Attempt

section Types

variable (sendUcred : Bool) (request : Option ByteString) (type : UInt32)

/-- No attempt gets to its write once an attempt has failed on a reply of another type. -/
def Keeps : List Attempt → Prop
  | [] => True
  | a :: rest =>
    if reachesWrite sendUcred request a then
      (a.handled type).2 = .failed →
        if (a.handled type).1 = type then Keeps rest
        else ∀ b ∈ rest, reachesWrite sendUcred request b = false
    else Keeps rest

/-- Every write is the original type and the request. -/
def WritesSame (sent : UInt32) (attempts : List Attempt) : Prop :=
  ∀ written ∈ (tellEach sendUcred request attempts sent).writes,
    request.map (wordBytes type ++ ·) = some written

theorem tell_short (a : Attempt) (sent : UInt32) (h : reachesWrite sendUcred request a = false) :
    tellUnixServer sendUcred request a sent = ⟨none, sent, .failed⟩ := by
  unfold tellUnixServer
  cases hconnects : a.connects with
  | false => rfl
  | true =>
    cases hcred : (sendUcred && !a.sendsCred) with
    | true => simp
    | false =>
      cases request with
      | none => simp
      | some body =>
        simp [reachesWrite, hconnects] at h
        simp [h] at hcred

theorem tell_reaches (a : Attempt) (sent : UInt32) (body : ByteString)
    (h : reachesWrite sendUcred (some body) a = true) :
    tellUnixServer sendUcred (some body) a sent =
      ⟨some (wordBytes sent ++ body), (a.handled sent).1, (a.handled sent).2⟩ := by
  simp only [reachesWrite, Option.isSome_some, Bool.and_true, Bool.and_eq_true, Bool.or_eq_true,
    Bool.not_eq_true'] at h
  obtain ⟨hconnects, hcred⟩ := h
  have hsends : (sendUcred && !a.sendsCred) = false := by
    rcases hcred with hno | hsent
    · rw [hno, Bool.false_and]
    · rw [hsent, Bool.not_true, Bool.and_false]
  simp only [tellUnixServer, hconnects, hsends, Attempt.handled, Attempt.reply]
  cases a.writes with
  | false => simp
  | true =>
    cases (readData a.stream).ok with
    | false => simp
    | true => simp

theorem wordBytes_injective (a b : UInt32) (h : wordBytes a = wordBytes b) : a = b := by
  rw [← wordOfBytes_wordBytes a, h, wordOfBytes_wordBytes]

theorem sent_eq_iff (sent : UInt32) (body : ByteString) :
    (some body).map (wordBytes type ++ ·) = some (wordBytes sent ++ body) ↔ sent = type := by
  constructor
  · intro h
    have hbytes := List.append_cancel_right (Option.some.inj h)
    exact (wordBytes_injective type sent hbytes).symm
  · rintro rfl
    rfl

/-- An attempt that does not reach its write is as good as none. -/
theorem tellEach_short (a : Attempt) (rest : List Attempt) (sent : UInt32)
    (h : reachesWrite sendUcred request a = false) :
    tellEach sendUcred request (a :: rest) sent = tellEach sendUcred request rest sent := by
  simp [tellEach, tell_short sendUcred request a sent h]

theorem exists_body (a : Attempt) (h : reachesWrite sendUcred request a = true) :
    ∃ body, request = some body := by
  simp only [reachesWrite, Bool.and_eq_true] at h
  exact Option.isSome_iff_exists.mp h.2

/-- The first write of an attempt is the type it finds, and only a failure goes on. -/
theorem writesSame_reaches (a : Attempt) (rest : List Attempt) (sent : UInt32)
    (h : reachesWrite sendUcred request a = true) :
    WritesSame sendUcred request type sent (a :: rest) ↔
      sent = type ∧ ((a.handled sent).2 = .failed →
        WritesSame sendUcred request type (a.handled sent).1 rest) := by
  obtain ⟨body, rfl⟩ := exists_body sendUcred request a h
  have htold := tell_reaches sendUcred a sent body h
  have hsent := sent_eq_iff type sent body
  unfold WritesSame
  rw [tellEach, htold]
  by_cases hfailed : (a.handled sent).2 = .failed
  · simp only [hfailed, if_true, Option.toList_some, List.cons_append, List.nil_append,
      List.forall_mem_cons, hsent, true_implies]
  · simp only [hfailed, if_false, Option.toList_some, List.forall_mem_singleton, hsent,
      false_implies, and_true]

/-- With another type in the variable, any further write is a wrong one. -/
theorem writesSame_other (attempts : List Attempt) (sent : UInt32) (hsent : sent ≠ type) :
    WritesSame sendUcred request type sent attempts ↔
      ∀ b ∈ attempts, reachesWrite sendUcred request b = false := by
  induction attempts with
  | nil => simp [WritesSame, tellEach]
  | cons a rest ih =>
    rw [List.forall_mem_cons]
    cases hreaches : reachesWrite sendUcred request a with
    | true =>
      rw [writesSame_reaches sendUcred request type a rest sent hreaches]
      simp [hsent]
    | false =>
      rw [← ih]
      unfold WritesSame
      rw [tellEach_short sendUcred request a rest sent hreaches]
      simp

theorem writesSame_iff (attempts : List Attempt) :
    WritesSame sendUcred request type type attempts ↔ Keeps sendUcred request type attempts := by
  induction attempts with
  | nil => simp [WritesSame, Keeps, tellEach]
  | cons a rest ih =>
    rw [Keeps]
    split
    · rename_i hreaches
      rw [writesSame_reaches sendUcred request type a rest type hreaches]
      split
      · rename_i hsame
        rw [hsame, ih]
        simp
      · rename_i hother
        rw [writesSame_other sendUcred request type rest _ hother]
        simp
    · rename_i hshort
      rw [Bool.not_eq_true] at hshort
      rw [← ih]
      unfold WritesSame
      rw [tellEach_short sendUcred request a rest type hshort]

end Types

/-- Every write of all attempts is the same exactly when no attempt gets to its write
behind one that has failed on a reply of another type. -/
theorem retries_write_same_iff (sendUcred : Bool) (request : Option ByteString)
    (maxRetryTimes : Int32) (env : ℕ → Attempt) (type : UInt32) :
    (∀ written ∈ (tellUnixServerWithRetry sendUcred request maxRetryTimes env type).writes,
        request.map (wordBytes type ++ ·) = some written) ↔
      Keeps sendUcred request type (attempts maxRetryTimes env) :=
  writesSame_iff sendUcred request type (attempts maxRetryTimes env)

section Samples

/-- A reply of the type 1, which is not one of the agent's replies. -/
def strangeReply : Attempt where
  connects := true
  sendsCred := true
  writes := true
  stream := SocketRuns.frame (userMessage (wordBytes 1))
  beyond := []
  parses := true

theorem retry_changes_type :
    ¬ ∀ (sendUcred : Bool) (request : Option ByteString) (maxRetryTimes : Int32)
      (env : ℕ → Attempt) (type : UInt32),
      ∀ written ∈ (tellUnixServerWithRetry sendUcred request maxRetryTimes env type).writes,
        request.map (wordBytes type ++ ·) = some written := by
  intro hall
  have hwrites : (tellUnixServerWithRetry true (some []) 2 (fun _ => strangeReply) 6).writes =
      [wordBytes 6, wordBytes 1] := by
    decide
  have hsecond := hall true (some []) 2 (fun _ => strangeReply) 6 (wordBytes 1) (by simp [hwrites])
  exact absurd hsecond (by decide)

end Samples

end Gingko.RequestRetries
