import Gingko.AnnounceMessages
import Gingko.RemoteCalls
import Gingko.TrackerState

/-!
An announce from a client's torrent to the trackers and back. The client asks one tracker
after the other until a call ends without an exception. A call may fail before the tracker
sees it, after the tracker has served it, or in the middle of the reply, and the object that
replies are read into is shared by all calls of one announce.
-/
namespace Gingko.AnnounceServices

open Base64Codec PeerRecords PeerUpdates RedisCommandCreator TrackerState FieldProtocols
  AnnounceMessages RemoteCalls

variable {τ : Type} {prot : Protocol τ} (hprot : prot.Lawful)

section Service

def announceRequestShape : Shape prot AnnounceRequest where
  new := {}
  cases := AnnounceRequest.cases prot
  fields := AnnounceRequest.fields prot
  onto := AnnounceRequest.onto
  Writable := AnnounceRequest.Writable prot
  folds r old h := AnnounceRequest.folds hprot r old _ (AnnounceRequest.onWire_fields r h)
  onto_new := AnnounceRequest.onto_new

def announceResponseShape : Shape prot AnnounceResponse where
  new := {}
  cases := AnnounceResponse.cases prot
  fields := AnnounceResponse.fields prot
  onto := AnnounceResponse.onto
  Writable := AnnounceResponse.Writable prot
  folds r old h := AnnounceResponse.folds hprot r old _ (AnnounceResponse.onWire_fields r h)
  onto_new := AnnounceResponse.onto_new

def controlByInfohashRequestShape : Shape prot ControlByInfohashRequest where
  new := {}
  cases := ControlByInfohashRequest.cases prot
  fields := ControlByInfohashRequest.fields prot
  onto := ControlByInfohashRequest.onto
  Writable := ControlByInfohashRequest.Writable prot
  folds := ControlByInfohashRequest.folds hprot
  onto_new := ControlByInfohashRequest.onto_new

def baseResponseShape : Shape prot BaseResponse where
  new := {}
  cases := BaseResponse.cases prot
  fields := BaseResponse.fields prot
  onto := BaseResponse.onto
  Writable r := TextFits prot r.message
  folds := BaseResponse.folds hprot
  onto_new := BaseResponse.onto_new

def announceMethod : Method prot AnnounceRequest AnnounceResponse :=
  ⟨ascii "announce", announceRequestShape hprot, announceResponseShape hprot⟩

def stopByInfohashMethod : Method prot ControlByInfohashRequest BaseResponse :=
  ⟨ascii "StopByInfohash", controlByInfohashRequestShape hprot, baseResponseShape hprot⟩

def resumeByInfohashMethod : Method prot ControlByInfohashRequest BaseResponse :=
  ⟨ascii "ResumeByInfohash", controlByInfohashRequestShape hprot, baseResponseShape hprot⟩

end Service

section Tracker

variable (conf : TrackerConf) (localTrackerId : ByteString) (env : HandleEnv)

def minInterval : BitVec 32 := 2

def announceInfo (response : AnnounceResponse) (errorCode : ℤ) (message : ByteString) :
    AnnounceResponse :=
  { response with
    ret := some (BitVec.ofInt 16 errorCode)
    failureReason := some message
    minInterval := some minInterval }

def announceSuccess (response : AnnounceResponse) : AnnounceResponse :=
  announceInfo response 0 (ascii "successfully")

def announceError (response : AnnounceResponse) (errorMessage : ByteString) : AnnounceResponse :=
  announceInfo response (-1) errorMessage

def composeResponse (peerList : PeerList) (haveSeed : Bool) (response : AnnounceResponse) :
    AnnounceResponse :=
  { response with
    peers := response.peers ++ peerList.map fun p =>
      { peerid := some p.getPeerId, ip := some p.getIp, port := some p.getPort }
    haveSeed := some haveSeed }

/-- The handler of the tracker; the object it fills is a new one for each call. -/
def announce (request : AnnounceRequest) (t : Tracker) : AnnounceResponse × Tracker :=
  if request.infohash.isNone || request.peer.isNone || (request.peer.getD {}).ip.isNone then
    (announceError {} (ascii "No infohash or source ip"), t)
  else
    match preHandleRequest localTrackerId request with
    | none => (announceError {} (ascii "parse request error"), t)
    | some p =>
      let r := handle conf env p [] false t
      if r.ret ≠ 0 then (announceInfo {} r.ret (ascii "handle request error"), r.tracker)
      else (announceSuccess (composeResponse r.peerList r.haveSeed {}), r.tracker)

/-- "bbts-tracker-control" -/
def controlToken : ByteString := ascii "bbts-tracker-control"

/-- The codes and the texts of the tracker's error category. -/
def fillBaseResponse (code : BitVec 16) (message : String) : BaseResponse :=
  ⟨some code, some (ascii message)⟩

def controlResponse : Option ControlError → BaseResponse
  | none => fillBaseResponse 0 "no error"
  | some .infohashNotFound => fillBaseResponse 3 "infohash not found"
  | some .invalidOperatType => fillBaseResponse 4 "invalid operate type"

def control (type : ControlType) (now : UInt64) (request : ControlByInfohashRequest)
    (t : Tracker) : BaseResponse × Tracker :=
  match request.ip, request.token, request.infohash with
  | some _, some token, some infohash =>
    if token ≠ controlToken then (fillBaseResponse 2 "invalid arguments", t)
    else
      let done := controlByInfohash ((base64Encode infohash).getD infohash) type now t
      (controlResponse done.1, done.2)
  | _, _, _ => (fillBaseResponse 1 "missing arguments", t)

def service (now : UInt64) : List (ByteString × Handler τ Tracker) :=
  [((announceMethod hprot).name,
      (announceMethod hprot).process (announce conf localTrackerId env)),
   ((stopByInfohashMethod hprot).name,
      (stopByInfohashMethod hprot).process (control .stopDownloading now)),
   ((resumeByInfohashMethod hprot).name,
      (resumeByInfohashMethod hprot).process (control .resumeDownload now))]

end Tracker

section Client

structure ExAnnouncePeer where
  peerid : ByteString
  ip : ByteString
  port : BitVec 16

inductive ExStatus where
  | metadata
  | download
  | seeding
  | stopped
  | paused
  deriving DecidableEq

abbrev Address := ByteString × ℤ

structure ExAnnounceRequest where
  infohash : ByteString
  peer : ExAnnouncePeer
  uploaded : BitVec 64
  downloaded : BitVec 64
  left : BitVec 64
  isSeed : Bool
  numWant : BitVec 32
  status : ExStatus
  trackers : List Address

/-- A field is none where the client leaves it as it was allocated. -/
structure ExAnnounceResponse where
  ret : ℤ
  failureReason : ByteString
  minInterval : Option (BitVec 32)
  haveSeed : Option Bool
  peers : List ExAnnouncePeer

/-- A paused torrent announces itself as stopped. -/
def statusOf : ExStatus → Status
  | .download => .download
  | .metadata => .metadata
  | .seeding => .seeding
  | .paused => .stopped
  | .stopped => .stopped

def thriftTrackerAnnounce (idc : ByteString) (req : ExAnnounceRequest) : AnnounceRequest where
  infohash := some req.infohash
  peer := some
    { ip := some req.peer.ip
      port := some (req.peer.port.setWidth 32)
      peerid := some req.peer.peerid
      idc := some idc }
  stat := some
    { uploaded := some req.uploaded
      downloaded := some req.downloaded
      left := some req.left
      status := some (statusOf req.status) }
  isSeed := some req.isSeed
  numWant := some req.numWant

def announced (response : AnnounceResponse) : ExAnnounceResponse where
  ret := (response.ret.getD 0).toInt
  failureReason := response.failureReason.getD []
  minInterval := some (response.minInterval.getD 0)
  haveSeed := some (response.haveSeed.getD false)
  peers := response.peers.map fun p =>
    ⟨p.peerid.getD [], p.ip.getD [], (p.port.getD 0).setWidth 16⟩

def notAnnounced : ExAnnounceResponse :=
  ⟨10000, ascii "announce to tracker failed", none, none, []⟩

/-- How a call of one tracker goes: it never arrives, its reply never arrives, the reply
breaks off and leaves the object in some state, or it ends well. -/
inductive Outcome where
  | refused
  | lost
  | broken (object : AnnounceResponse)
  | answered

structure Attempt where
  outcome : Outcome
  env : HandleEnv
  now : UInt64

def Attempt.isAnswered (attempt : Attempt) : Bool :=
  match attempt.outcome with
  | .answered => true
  | _ => false

/-- The configuration and the identity of each tracker. -/
abbrev Sites := Address → TrackerConf × ByteString

abbrev Trackers := Address → Tracker

variable (sites : Sites) (request : AnnounceRequest)

def siteService (a : Address) (attempt : Attempt) : List (ByteString × Handler τ Tracker) :=
  service hprot (sites a).1 (sites a).2 attempt.env attempt.now

/-- The tracker's part of a call whose reply does not come through. -/
def serve (a : Address) (attempt : Attempt) (trackers : Trackers) : Trackers :=
  match dispatchCall prot (siteService hprot sites a attempt)
    ((announceMethod hprot).send request) (trackers a) with
  | some (_, t) => Function.update trackers a t
  | none => trackers

def tryTrackers : List (Address × Attempt) → AnnounceResponse → Trackers →
    Bool × AnnounceResponse × Trackers
  | [], response, trackers => (false, response, trackers)
  | (a, attempt) :: rest, response, trackers =>
    match attempt.outcome with
    | .refused => tryTrackers rest response trackers
    | .lost => tryTrackers rest response (serve hprot sites request a attempt trackers)
    | .broken object => tryTrackers rest object (serve hprot sites request a attempt trackers)
    | .answered =>
      match (announceMethod hprot).call (siteService hprot sites a attempt) request response
        (trackers a) with
      | some (response, t) => (true, response, Function.update trackers a t)
      | none => tryTrackers rest response trackers

def onAnnounce (calls : List (Address × Attempt)) (trackers : Trackers) :
    ExAnnounceResponse × Trackers :=
  let done := tryTrackers hprot sites request calls {} trackers
  (if done.1 then announced done.2.1 else notAnnounced, done.2.2)

end Client

section EndToEnd

variable (sites : Sites)

/-- The record that the handlers of a tracker work on. -/
def announcedPeer (localTrackerId idc : ByteString) (req : ExAnnounceRequest) : PeerInfo where
  thriftPeer :=
    { infoHash := some req.infohash
      peerId := some req.peer.peerid
      ip := some req.peer.ip
      port := some (req.peer.port.setWidth 32)
      uploaded := some req.uploaded
      downloaded := some req.downloaded
      left := some req.left
      status := some (statusOf req.status)
      wantNumber := some req.numWant
      isSeed := some req.isSeed
      trackerId := some localTrackerId
      idc := some idc }
  base64InfoHash := base64Text req.infohash
  base64PeerId := base64Text req.peer.peerid

theorem preHandleRequest_client (localTrackerId idc : ByteString) (req : ExAnnounceRequest) :
    preHandleRequest localTrackerId (thriftTrackerAnnounce idc req) =
      some (announcedPeer localTrackerId idc req) := by
  simp only [preHandleRequest, thriftTrackerAnnounce, Option.bind_eq_bind, Option.bind_some,
    PeerInfo.setPeerId, PeerInfo.setInfoHash, base64Encode_eq, Option.getD_some, announcedPeer,
    Option.pure_def]

/-- What `announce` does on the client's request, which passes every check. -/
def handled (a : Address) (env : HandleEnv) (idc : ByteString) (req : ExAnnounceRequest)
    (t : Tracker) : HandleResult :=
  handle (sites a).1 env (announcedPeer (sites a).2 idc req) [] false t

def handledResponse (r : HandleResult) : AnnounceResponse :=
  if r.ret ≠ 0 then announceInfo {} r.ret (ascii "handle request error")
  else announceSuccess (composeResponse r.peerList r.haveSeed {})

theorem announce_client (a : Address) (env : HandleEnv) (idc : ByteString)
    (req : ExAnnounceRequest) (t : Tracker) :
    announce (sites a).1 (sites a).2 env (thriftTrackerAnnounce idc req) t =
      (handledResponse (handled sites a env idc req t),
        (handled sites a env idc req t).tracker) := by
  have hset : ((thriftTrackerAnnounce idc req).infohash.isNone ||
      (thriftTrackerAnnounce idc req).peer.isNone ||
      ((thriftTrackerAnnounce idc req).peer.getD {}).ip.isNone) = false := rfl
  rw [announce, hset, if_neg Bool.false_ne_true, preHandleRequest_client]
  by_cases hret : (handled sites a env idc req t).ret ≠ 0
  · rw [handledResponse, if_pos hret]
    exact if_pos hret
  · rw [handledResponse, if_neg hret]
    exact if_neg hret

/-- The texts of the request fit the protocol. -/
def RequestFits (prot : Protocol τ) (idc : ByteString) (req : ExAnnounceRequest) : Prop :=
  ∀ text ∈ [req.infohash, req.peer.ip, req.peer.peerid, idc], prot.Fits text.length

theorem client_writable (idc : ByteString) (req : ExAnnounceRequest)
    (hfits : RequestFits prot idc req) :
    AnnounceRequest.Writable prot (thriftTrackerAnnounce idc req) := by
  simp only [RequestFits, List.forall_mem_cons, List.not_mem_nil, false_implies, implies_true,
    and_true] at hfits
  obtain ⟨hinfohash, hip, hpeerid, hidc⟩ := hfits
  refine ⟨?_, ?_, ?_⟩
  · intro _ htext
    exact Option.some.inj htext ▸ hinfohash
  · intro _ hpeer
    obtain rfl := Option.some.inj hpeer
    exact ⟨fun _ htext => Option.some.inj htext ▸ hpeerid,
      fun _ htext => Option.some.inj htext ▸ hip, fun _ htext => Option.some.inj htext ▸ hidc⟩
  · intro _ hstat status hstatus
    obtain rfl := Option.some.inj hstat
    obtain rfl := Option.some.inj hstatus
    cases req.status <;> rfl

/-- What a call does to the trackers, whether or not its reply comes through. -/
def reached (idc : ByteString) (req : ExAnnounceRequest) (trackers : Trackers)
    (call : Address × Attempt) : Trackers :=
  match call.2.outcome with
  | .refused => trackers
  | _ => Function.update trackers call.1
      (handled sites call.1 call.2.env idc req (trackers call.1)).tracker

def leftOver (response : AnnounceResponse) (call : Address × Attempt) : AnnounceResponse :=
  match call.2.outcome with
  | .broken object => object
  | _ => response

theorem call_client (a : Address) (attempt : Attempt) (idc : ByteString)
    (req : ExAnnounceRequest) (hrequest : RequestFits prot idc req) (old : AnnounceResponse)
    (t : Tracker) (hresponse : AnnounceResponse.Writable prot
      (handledResponse (handled sites a attempt.env idc req t))) :
    (announceMethod hprot).call (siteService hprot sites a attempt)
        (thriftTrackerAnnounce idc req) old t =
      some (AnnounceResponse.onto (handledResponse (handled sites a attempt.env idc req t)) old,
        (handled sites a attempt.env idc req t).tracker) := by
  have hannounce := announce_client sites a attempt.env idc req t
  have hcall := (announceMethod hprot).call_eq hprot (siteService hprot sites a attempt)
    (announce (sites a).1 (sites a).2 attempt.env) rfl (thriftTrackerAnnounce idc req)
    (client_writable idc req hrequest) old t (by rw [hannounce]; exact hresponse)
  rw [hannounce] at hcall
  exact hcall

theorem serve_client (a : Address) (attempt : Attempt) (idc : ByteString)
    (req : ExAnnounceRequest) (hrequest : RequestFits prot idc req) (trackers : Trackers) :
    serve hprot sites (thriftTrackerAnnounce idc req) a attempt trackers =
      Function.update trackers a (handled sites a attempt.env idc req (trackers a)).tracker := by
  have hserved := (announceMethod hprot).dispatchCall_send hprot
    (siteService hprot sites a attempt) (announce (sites a).1 (sites a).2 attempt.env) rfl
    (thriftTrackerAnnounce idc req) (client_writable idc req hrequest) (trackers a)
  rw [announce_client] at hserved
  unfold serve
  rw [hserved]

/-- The calls without an answer, one after the other. -/
theorem tryTrackers_unanswered (idc : ByteString) (req : ExAnnounceRequest)
    (hrequest : RequestFits prot idc req) (before calls : List (Address × Attempt))
    (hbefore : ∀ c ∈ before, c.2.isAnswered = false)
    (response : AnnounceResponse) (trackers : Trackers) :
    tryTrackers hprot sites (thriftTrackerAnnounce idc req) (before ++ calls) response trackers =
      tryTrackers hprot sites (thriftTrackerAnnounce idc req) calls
        (before.foldl leftOver response)
        (before.foldl (reached sites idc req) trackers) := by
  induction before generalizing response trackers with
  | nil => rfl
  | cons c before ih =>
    obtain ⟨a, outcome, env, now⟩ := c
    have hrest := ih fun d hd => hbefore d (List.mem_cons_of_mem _ hd)
    rw [List.foldl_cons, List.foldl_cons, ← hrest, List.cons_append]
    cases outcome with
    | refused => rfl
    | lost =>
      rw [tryTrackers, serve_client hprot sites a _ idc req hrequest]
      rfl
    | broken object =>
      rw [tryTrackers, serve_client hprot sites a _ idc req hrequest]
      rfl
    | answered => exact absurd (hbefore _ List.mem_cons_self) (by simp [Attempt.isAnswered])

section Replies

variable (r : HandleResult) (old : AnnounceResponse)

theorem announced_ret :
    (announced (AnnounceResponse.onto (handledResponse r) old)).ret =
        (BitVec.ofInt 16 r.ret).toInt ∧
      (announced (AnnounceResponse.onto (handledResponse r) old)).minInterval =
        some minInterval := by
  unfold handledResponse
  by_cases hret : r.ret = 0
  · rw [if_neg (not_not_intro hret), hret]
    exact ⟨rfl, rfl⟩
  · rw [if_pos hret]
    exact ⟨rfl, rfl⟩

theorem announced_refused (hret : r.ret ≠ 0) :
    (announced (AnnounceResponse.onto (handledResponse r) old)).peers = [] := by
  rw [handledResponse, if_pos hret]
  rfl

theorem announced_served (hret : r.ret = 0) :
    (announced (AnnounceResponse.onto (handledResponse r) old)).haveSeed = some r.haveSeed ∧
      (announced (AnnounceResponse.onto (handledResponse r) old)).peers =
        r.peerList.map fun p => ⟨p.getPeerId, p.getIp, p.getPort.setWidth 16⟩ := by
  rw [handledResponse, if_neg (not_not_intro hret)]
  refine ⟨rfl, ?_⟩
  simp only [announced, AnnounceResponse.onto, announceSuccess, announceInfo, composeResponse,
    List.nil_append, List.map_map]
  rfl

end Replies

/-- The torrent gets the answer of the first tracker whose call ends well, and the trackers
have each handled the announce as often as a call has reached them. -/
theorem onAnnounce_eq (idc : ByteString) (req : ExAnnounceRequest)
    (hrequest : RequestFits prot idc req) (before : List (Address × Attempt))
    (hbefore : ∀ c ∈ before, c.2.isAnswered = false)
    (trackers : Trackers) :
    let mid := before.foldl (reached sites idc req) trackers
    onAnnounce hprot sites (thriftTrackerAnnounce idc req) before trackers =
      (notAnnounced, mid) ∧
    ∀ (a : Address) (attempt : Attempt) (after : List (Address × Attempt)),
      attempt.isAnswered = true →
      let r := handled sites a attempt.env idc req (mid a)
      AnnounceResponse.Writable prot (handledResponse r) →
      let done := onAnnounce hprot sites (thriftTrackerAnnounce idc req)
        (before ++ (a, attempt) :: after) trackers
      done.2 = Function.update mid a r.tracker ∧
        done.1.ret = (BitVec.ofInt 16 r.ret).toInt ∧
        done.1.minInterval = some minInterval ∧
        (r.ret ≠ 0 → done.1.peers = []) ∧
        (r.ret = 0 → done.1.haveSeed = some r.haveSeed ∧ done.1.peers =
          r.peerList.map fun p => ⟨p.getPeerId, p.getIp, p.getPort.setWidth 16⟩) := by
  intro mid
  constructor
  · have hnone :=
      tryTrackers_unanswered hprot sites idc req hrequest before [] hbefore {} trackers
    rw [List.append_nil] at hnone
    rw [onAnnounce, hnone]
    rfl
  · intro a attempt after hanswered r hresponse done
    have hdone : done = (announced (AnnounceResponse.onto (handledResponse r)
        (before.foldl leftOver {})), Function.update mid a r.tracker) := by
      have hoff := tryTrackers_unanswered hprot sites idc req hrequest before
        ((a, attempt) :: after) hbefore {} trackers
      obtain ⟨outcome, env, now⟩ := attempt
      cases outcome with
      | answered =>
        rw [tryTrackers, call_client hprot sites a _ idc req hrequest _ _ hresponse] at hoff
        simp only [done, onAnnounce, hoff]
        rfl
      | refused => cases hanswered
      | lost => cases hanswered
      | broken object => cases hanswered
    rw [hdone]
    exact ⟨rfl, (announced_ret r _).1, (announced_ret r _).2, announced_refused r _,
      announced_served r _⟩

def seedRequest : ExAnnounceRequest where
  infohash := [1]
  peer := ⟨[2], [3], 4⟩
  uploaded := 0
  downloaded := 0
  left := 0
  isSeed := true
  numWant := 50
  status := .seeding
  trackers := [([5], 80), ([6], 80)]

/-- The first tracker serves the announce and its reply is lost; the second one answers. -/
theorem onAnnounce_sample :
    (onAnnounce TokenStreams.tokens_lawful (fun _ => (defaultConf, [7]))
      (thriftTrackerAnnounce [8] seedRequest)
      [((([5], 80) : Address), ⟨.lost, plainEnv 100 0, 100⟩),
        (([6], 80), ⟨.answered, plainEnv 101 0, 101⟩)] fun _ => Tracker.empty).1.minInterval =
      some minInterval :=
  ((onAnnounce_eq TokenStreams.tokens_lawful (fun _ => (defaultConf, [7])) [8] seedRequest
    (fun _ _ => trivial) [((([5], 80) : Address), ⟨.lost, plainEnv 100 0, 100⟩)]
    (by simp [Attempt.isAnswered]) fun _ => Tracker.empty).2 ([6], 80)
    ⟨.answered, plainEnv 101 0, 101⟩ [] rfl ⟨fun _ _ => trivial, trivial, fun _ _ =>
      ⟨fun _ _ => trivial, fun _ _ => trivial, fun _ _ => trivial⟩⟩).2.2.1

end EndToEnd

end Gingko.AnnounceServices
