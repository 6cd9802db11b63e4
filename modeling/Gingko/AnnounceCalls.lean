import Gingko.TrackerState

/-!
Announces and collection cycles in parallel. Every call of the handler has a
program counter that moves from one separately locked section to the next, and
so has every cycle of the garbage cleaner; entries are objects of a shared heap
that the maps refer to. A call keeps the object it fetched even when the map
has dropped it since.
-/
namespace Gingko.AnnounceCalls

open KeyedMaps Base64Codec PeerRecords PeerUpdates PeerScans TrackerState GuardedRuns

abbrev ObjId := ℕ
abbrev CallId := ℕ
abbrev PassId := ℕ

/-- Where a call of the handler stands. The accepted stages hold the entry, the
peer object and whether this call registered it. -/
inductive CallPoint where
  | start
  | fetched (obj : ObjId)
  | prepared (obj : ObjId) (peerInfo : Option PeerRef) (peerIsNew : Bool)
  | accepted (obj : ObjId) (ref : PeerRef) (peerIsNew : Bool)
  | filled (obj : ObjId) (ref : PeerRef) (peerIsNew : Bool)
  | published (obj : ObjId) (ref : PeerRef) (peerIsNew : Bool)
  | updated
  | foundLocal (obj : Option ObjId)
  | choseLocal (output : PeerList) (haveSeed : Bool)
  | queued (output : PeerList) (haveSeed : Bool)
  | foundRemote (obj : Option ObjId) (output : PeerList) (haveSeed : Bool)
  | done (ret : ℤ) (output : PeerList) (haveSeed : Bool)

structure Call where
  input : PeerInfo
  point : CallPoint

/-- A cycle reads the clock, sweeps the local map and then the remote map. -/
structure Pass where
  now : UInt64
  expireInterval : UInt64
  deleted : Option (List ByteString)

structure World where
  heap : ObjId → SingleInfoHashInfo
  nextObj : ObjId
  localMap : Dict ByteString ObjId
  remoteMap : Dict ByteString ObjId
  infoHashQueue : InfoHashQueue
  commands : List RedisCommand
  calls : Dict CallId Call
  passes : Dict PassId Pass

def World.empty : World where
  heap := fun _ => SingleInfoHashInfo.new 0
  nextObj := 0
  localMap := ∅
  remoteMap := ∅
  infoHashQueue := ⟨∅, false⟩
  commands := []
  calls := ∅
  passes := ∅

inductive Label where
  | begin (c : CallId) (input : PeerInfo)
  | advance (c : CallId) (env : HandleEnv)
  | readClock (q : PassId) (now expireInterval : UInt64)
  | sweepLocal (q : PassId)
  | sweepRemote (q : PassId)

namespace World

def setObj (w : World) (obj : ObjId) (info : SingleInfoHashInfo) : World :=
  { w with heap := Function.update w.heap obj info }

def setPoint (w : World) (c : CallId) (input : PeerInfo) (point : CallPoint) : World :=
  { w with calls := w.calls.insert c ⟨input, point⟩ }

def send (w : World) (commands : List RedisCommand) : World :=
  { w with commands := w.commands ++ commands }

end World

/-- The peer object a call holds while it updates it. -/
def heldPeer (obj : ObjId) : CallPoint → Option PeerRef
  | .prepared o peerInfo _ => if o = obj then peerInfo else none
  | .accepted o ref _ => if o = obj then some ref else none
  | .filled o ref _ => if o = obj then some ref else none
  | .published o ref _ => if o = obj then some ref else none
  | _ => none

/-- A weak reference can be locked while the map or a call owns the peer object. -/
def lockHeld (w : World) (obj : ObjId) (ref : PeerRef) : Option PeerInfo :=
  if ref ∈ Dict.values (w.heap obj).peerMap ∨
      some ref ∈ (Dict.values w.calls).map (fun call => heldPeer obj call.point) then
    some ((w.heap obj).peers ref)
  else none

/-- The first section of an update. -/
def fetch (input : PeerInfo) (now : UInt64) (w : World) : ObjId × World :=
  match w.localMap.lookup input.base64InfoHash with
  | none =>
    (w.nextObj,
      { w with
        heap := Function.update w.heap w.nextObj (SingleInfoHashInfo.new now)
        nextObj := w.nextObj + 1
        localMap := w.localMap.insert input.base64InfoHash w.nextObj })
  | some obj => (obj, w.setObj obj { w.heap obj with timestamp := now })

/-- The scans of the local lists, in one section. -/
def scanLocal (input : PeerInfo) (draws : ChooseDraws) (obj : ObjId) (w : World) : Choice :=
  let lock := lockHeld w obj
  chooseLocalSeed lock input draws (chooseLocalPeers lock input draws false (w.heap obj))

/-- The scans of the remote lists, in one section. -/
def scanRemote (input : PeerInfo) (draws : ChooseDraws) (obj : ObjId) (output : PeerList)
    (haveSeed : Bool) (w : World) : Choice :=
  let lock := lockHeld w obj
  chooseRemoteSeed lock input draws
    (chooseRemotePeers lock input draws ⟨w.heap obj, output, haveSeed⟩)

def advance (conf : TrackerConf) (c : CallId) (env : HandleEnv) (call : Call) (w : World) :
    Option World :=
  let input := call.input
  match call.point with
  | .start =>
    let fetched := fetch input env.update.now w
    some (fetched.2.setPoint c input (.fetched fetched.1))
  | .fetched obj =>
    let pre := preHandlePeerInfo input (w.heap obj)
    some (((w.setObj obj pre.info).send pre.commands).setPoint c input
      (.prepared obj pre.peerInfo pre.peerIsNew))
  | .prepared obj peerInfo peerIsNew =>
    match peerInfo with
    | none => some (w.setPoint c input .updated)
    | some ref =>
      if (w.heap obj).needStop && !input.isASeed then
        some (w.setPoint c input (.done stopDownloadCode [] false))
      else some (w.setPoint c input (.accepted obj ref peerIsNew))
  | .accepted obj ref peerIsNew =>
    some ((w.setObj obj (fillPeerInfo input env.update.updateNow ref peerIsNew
      (w.heap obj))).setPoint c input (.filled obj ref peerIsNew))
  | .filled obj ref peerIsNew =>
    if wantsPublish input env.update.lottery ref (w.heap obj) then
      let sent := setPeerRemote conf input
      if sent.1 = 0 then
        some ((w.send sent.2).setPoint c input (.published obj ref peerIsNew))
      else some ((w.send sent.2).setPoint c input .updated)
    else some (w.setPoint c input .updated)
  | .published obj ref peerIsNew =>
    let info := w.heap obj
    some ((w.setObj obj
      { info.setPeer ref ((info.peers ref).setIsSetRemote true) with
        remotePeerCount := if peerIsNew then info.remotePeerCount + 1 else info.remotePeerCount
        }).setPoint c input .updated)
  | .updated =>
    if input.checkNeedMorePeers then
      some (w.setPoint c input (.foundLocal (w.localMap.lookup input.base64InfoHash)))
    else some (w.setPoint c input (.done 0 [] false))
  | .foundLocal none => some (w.setPoint c input (.choseLocal [] false))
  | .foundLocal (some obj) =>
    let choice := scanLocal input env.choose obj w
    some ((w.setObj obj choice.info).setPoint c input (.choseLocal choice.output choice.haveSeed))
  | .choseLocal output haveSeed =>
    if input.isASeed || (decide (0 < output.length) && haveSeed) then
      some (w.setPoint c input (.done 0 output haveSeed))
    else
      some ({ w with infoHashQueue := addNeedInfoHash input w.infoHashQueue }.setPoint c input
        (.queued output haveSeed))
  | .queued output haveSeed =>
    some (w.setPoint c input
      (.foundRemote (w.remoteMap.lookup input.base64InfoHash) output haveSeed))
  | .foundRemote none output haveSeed => some (w.setPoint c input (.done 0 output haveSeed))
  | .foundRemote (some obj) output haveSeed =>
    let choice := scanRemote input env.choose obj output haveSeed w
    some ((w.setObj obj choice.info).setPoint c input (.done 0 choice.output choice.haveSeed))
  | .done _ _ _ => none

/-- The section of a cycle that erases entries of the local map. -/
def sweep (q : PassId) (pass : Pass) (w : World) : World :=
  let kept := Dict.filter
    (fun _ obj => !toDelete pass.now pass.expireInterval (w.heap obj)) w.localMap
  let infoHashsToDelete := w.localMap.keys.filter (fun key => !kept.keys.contains key)
  { w with
    localMap := kept
    passes := w.passes.insert q { pass with deleted := some infoHashsToDelete } }

def step (conf : TrackerConf) (w : World) : Label → Option World
  | .begin c input =>
    match w.calls.lookup c with
    | none => some (w.setPoint c input .start)
    | some _ => none
  | .advance c env => (w.calls.lookup c).bind fun call => advance conf c env call w
  | .readClock q now expireInterval =>
    match w.passes.lookup q with
    | none => some { w with passes := w.passes.insert q ⟨now, expireInterval, none⟩ }
    | some _ => none
  | .sweepLocal q =>
    match w.passes.lookup q with
    | some ⟨now, expireInterval, none⟩ => some (sweep q ⟨now, expireInterval, none⟩ w)
    | _ => none
  | .sweepRemote q =>
    match w.passes.lookup q with
    | some ⟨_, _, some keys⟩ =>
      some { w with
        remoteMap := Dict.filter (fun key _ => !keys.contains key) w.remoteMap
        passes := w.passes.erase q }
    | _ => none

end Gingko.AnnounceCalls
