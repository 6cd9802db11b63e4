import Gingko.FieldProtocols

/-!
Calls of named methods by messages. The generated code of a struct is a shape: the fields it
writes, the fields it knows when it reads, and what reading does to an object. A call through
the two ends of a service is then a call of the function behind it, on the state behind it,
over every protocol that reads back what it has written.
-/
namespace Gingko.RemoteCalls

open FieldProtocols

/-- The code of one struct, with what it promises: reading the written fields stores the value
over the object. -/
structure Shape {τ : Type} (prot : Protocol τ) (α : Type) where
  new : α
  cases : List (Case τ α)
  fields : α → List (WireField τ)
  onto : α → α → α
  Writable : α → Prop
  folds : ∀ a old, Writable a → Folds (readCase prot cases) old (fields a) (onto a old)
  onto_new : ∀ a, onto a new = a

structure Method {τ : Type} (prot : Protocol τ) (α β : Type) where
  name : List UInt8
  args : Shape prot α
  result : Shape prot β

inductive MessageType where
  | call
  | reply
  | exception
  | oneway
  deriving DecidableEq

structure Message (τ : Type) where
  name : List UInt8
  type : MessageType
  seqid : BitVec 32
  body : List τ
  deriving DecidableEq

variable {α β τ υ : Type} {prot : Protocol τ}

namespace Method

variable (m : Method prot α β)

def argsCases : List (Case τ α) := [Case.nested prot 1 m.args.cases id fun _ a => a]

/-- Whether the result came at all is kept beside the object that it is read into. -/
def resultCases : List (Case τ (β × Bool)) :=
  [Case.nested prot 0 m.result.cases Prod.fst fun _ b => (b, true)]

def send (a : α) : Message τ :=
  ⟨m.name, .call, 0, writeStruct prot [.struct prot 1 (m.args.fields a)]⟩

/-- Arguments that cannot be read end the connection. -/
def process (iface : α → υ → β × υ) (seqid : BitVec 32) (body : List τ) (t : υ) :
    Option (Message τ × υ) := do
  let (a, _) ← readStruct prot m.argsCases m.args.new body
  let (b, t) := iface a t
  return (⟨m.name, .reply, seqid, writeStruct prot [.struct prot 0 (m.result.fields b)]⟩, t)

def skipUnless (prot : Protocol τ) (expected : Bool) (body : List τ) : Option (List τ) :=
  if expected then some body else prot.skip .struct body

/-- Behind a message of another type or name the reader goes on with what is left. -/
def recv (old : β) (message : Message τ) : Option β :=
  if message.type = .exception then none
  else do
    let body ← skipUnless prot (message.type = .reply) message.body
    let body ← skipUnless prot (message.name = m.name) body
    let (after, _) ← readStruct prot m.resultCases (old, false) body
    if after.2 then some after.1 else none

theorem read_args (hprot : prot.Lawful) (a : α) (ha : m.args.Writable a) (rest : List τ) :
    readStruct prot m.argsCases m.args.new
      (writeStruct prot [.struct prot 1 (m.args.fields a)] ++ rest) = some (a, rest) := by
  have hread : Consumes (Case.nested prot 1 m.args.cases id fun _ b => b).read
      (writeStruct prot (m.args.fields a)) m.args.new a := by
    have hfolds := m.args.folds a m.args.new ha
    rw [m.args.onto_new] at hfolds
    exact nested_consumes hprot 1 m.args.cases id (fun _ b => b) hfolds
  exact readStruct_folds hprot m.argsCases
    (.cons (.struct prot 1 (m.args.fields a)) [] _ a a hread (.nil a)) rest

theorem read_result (hprot : prot.Lawful) (b old : β) (hb : m.result.Writable b)
    (rest : List τ) :
    readStruct prot m.resultCases (old, false)
      (writeStruct prot [.struct prot 0 (m.result.fields b)] ++ rest) =
        some ((m.result.onto b old, true), rest) := by
  have hread : Consumes
      (Case.nested prot 0 m.result.cases Prod.fst fun (_ : β × Bool) b => (b, true)).read
      (writeStruct prot (m.result.fields b)) (old, false) (m.result.onto b old, true) :=
    nested_consumes hprot 0 m.result.cases Prod.fst _ (m.result.folds b old hb)
  exact readStruct_folds hprot m.resultCases
    (.cons (.struct prot 0 (m.result.fields b)) [] _ _ _ hread (.nil _)) rest

end Method

section Services

abbrev Handler (τ υ : Type) := BitVec 32 → List τ → υ → Option (Message τ × υ)

/-- "Invalid method name: '" and the quote behind the name. -/
def invalidName (name : List UInt8) : List UInt8 :=
  [73, 110, 118, 97, 108, 105, 100, 32, 109, 101, 116, 104, 111, 100, 32, 110, 97, 109, 101, 58,
    32, 39] ++ name ++ [39]

def unknownMethod : BitVec 32 := 1

def dispatchCall (prot : Protocol τ) (service : List (List UInt8 × Handler τ υ))
    (message : Message τ) (t : υ) : Option (Message τ × υ) :=
  match service.find? (fun entry => entry.1 = message.name) with
  | some entry => entry.2 message.seqid message.body t
  | none => do
    let _ ← prot.skip .struct message.body
    return (⟨message.name, .exception, message.seqid,
      writeStruct prot [.scalar prot 1 (.string (invalidName message.name)),
        .scalar prot 2 (.i32 unknownMethod)]⟩, t)

/-- The call of the client, up to the end of the reply; none if either side throws. -/
def Method.call (m : Method prot α β) (service : List (List UInt8 × Handler τ υ)) (a : α)
    (old : β) (t : υ) : Option (β × υ) := do
  let (reply, t) ← dispatchCall prot service (m.send a) t
  let b ← m.recv old reply
  return (b, t)

/-- A request that is read is handed to the function behind the method. -/
theorem Method.dispatchCall_send (hprot : prot.Lawful) (m : Method prot α β)
    (service : List (List UInt8 × Handler τ υ)) (iface : α → υ → β × υ)
    (hservice : service.find? (fun entry => entry.1 = m.name) = some (m.name, m.process iface))
    (a : α) (ha : m.args.Writable a) (t : υ) :
    dispatchCall prot service (m.send a) t =
      some (⟨m.name, .reply, 0,
        writeStruct prot [.struct prot 0 (m.result.fields (iface a t).1)]⟩, (iface a t).2) := by
  have hargs := m.read_args hprot a ha []
  rw [List.append_nil] at hargs
  rw [dispatchCall, show (m.send a).name = m.name from rfl, hservice]
  simp only [Method.send, Method.process, hargs, Option.bind_eq_bind, Option.bind_some,
    Option.pure_def]

/-- A call through the messages does what the function behind them does. -/
theorem Method.call_eq (hprot : prot.Lawful) (m : Method prot α β)
    (service : List (List UInt8 × Handler τ υ)) (iface : α → υ → β × υ)
    (hservice : service.find? (fun entry => entry.1 = m.name) = some (m.name, m.process iface))
    (a : α) (ha : m.args.Writable a) (old : β) (t : υ) (hb : m.result.Writable (iface a t).1) :
    m.call service a old t = some (m.result.onto (iface a t).1 old, (iface a t).2) := by
  have hresult := m.read_result hprot (iface a t).1 old hb []
  rw [List.append_nil] at hresult
  have hrecv : m.recv old ⟨m.name, .reply, 0,
      writeStruct prot [.struct prot 0 (m.result.fields (iface a t).1)]⟩ =
        some (m.result.onto (iface a t).1 old) := by
    simp only [Method.recv, Method.skipUnless, decide_true, if_true, Option.bind_eq_bind,
      Option.bind_some, hresult, reduceCtorEq, if_false]
  rw [Method.call, m.dispatchCall_send hprot service iface hservice a ha t]
  simp only [Option.bind_eq_bind, Option.bind_some, hrecv, Option.pure_def]

end Services

end Gingko.RemoteCalls
