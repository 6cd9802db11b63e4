import Gingko.Base64Codec
import Mathlib.Data.Int.Notation

/-!
Peer records of the tracker. The optional thrift fields are options: `none` is
a cleared isset bit, and reading such a field gives the default that the
generated constructor stores. The setters keep the base64 keys in step with
the raw identifiers; the decoder of published records builds the peer key
differently. An announce is a record the request handler can have built.
-/
namespace Gingko.PeerRecords

open Base64Codec

/-- Thrift casts any integer to the enumeration, so codes without a name exist. -/
inductive Status where
  | metadata
  | download
  | seeding
  | stopped
  | paused
  | unnamed (code : ℤ)
  deriving DecidableEq, Repr

structure StoredPeerInfo where
  infoHash : Option ByteString := none
  peerId : Option ByteString := none
  ip : Option ByteString := none
  port : Option (BitVec 32) := none
  uploaded : Option (BitVec 64) := none
  downloaded : Option (BitVec 64) := none
  left : Option (BitVec 64) := none
  status : Option Status := none
  wantNumber : Option (BitVec 32) := none
  expireTime : Option (BitVec 64) := none
  timestampStart : Option (BitVec 64) := none
  isSeed : Option Bool := none
  trackerId : Option ByteString := none
  idc : Option ByteString := none
  deriving DecidableEq

/-- The thrift serializer is a library outside the sources. -/
structure ThriftCodec where
  serialize : StoredPeerInfo → ByteString
  parse : ByteString → Option StoredPeerInfo

structure PeerInfo where
  thriftPeer : StoredPeerInfo := {}
  base64InfoHash : ByteString := []
  base64PeerId : ByteString := []
  isSetRemote : Bool := false
  deriving DecidableEq

abbrev PeerList := List PeerInfo

namespace PeerInfo

def initialized (p : PeerInfo) : Bool :=
  p.thriftPeer.infoHash.isSome && p.thriftPeer.peerId.isSome

def getIp (p : PeerInfo) : ByteString := p.thriftPeer.ip.getD []
def getIdc (p : PeerInfo) : ByteString := p.thriftPeer.idc.getD []
def getInfoHash (p : PeerInfo) : ByteString := p.thriftPeer.infoHash.getD []
def getPeerId (p : PeerInfo) : ByteString := p.thriftPeer.peerId.getD []
def getPort (p : PeerInfo) : BitVec 32 := p.thriftPeer.port.getD 0
def getStatus (p : PeerInfo) : Status := p.thriftPeer.status.getD .metadata
def getWantNumber (p : PeerInfo) : BitVec 32 := p.thriftPeer.wantNumber.getD 0
def getIsSeed (p : PeerInfo) : Bool := p.thriftPeer.isSeed.getD false

def checkToStop (p : PeerInfo) : Bool := p.getStatus = .stopped

/-- The wanted number is read as an unsigned integer, so only zero stops it. -/
def checkNeedMorePeers (p : PeerInfo) : Bool :=
  !(decide (p.getWantNumber.toNat ≤ 0) || p.checkToStop)

def isSeeding (p : PeerInfo) : Bool := p.getIsSeed || p.getStatus = .seeding

def isASeed (p : PeerInfo) : Bool := p.getIsSeed

def setInfoHash (p : PeerInfo) (infoHash : ByteString) : PeerInfo :=
  { p with
    thriftPeer := { p.thriftPeer with infoHash := some infoHash }
    base64InfoHash := (base64Encode infoHash).getD infoHash }

def setPeerId (p : PeerInfo) (peerId : ByteString) : PeerInfo :=
  { p with
    thriftPeer := { p.thriftPeer with peerId := some peerId }
    base64PeerId := (base64Encode peerId).getD peerId }

def setIsSetRemote (p : PeerInfo) (flag : Bool) : PeerInfo := { p with isSetRemote := flag }

/-- The copy constructor leaves the base64 keys of the copy empty. -/
def copy (p : PeerInfo) : PeerInfo :=
  { thriftPeer := p.thriftPeer, isSetRemote := p.isSetRemote }

/-- Only the expiry time keeps its stored value when the input has none. -/
def updateInfo (p input : PeerInfo) (now : BitVec 64) : PeerInfo :=
  match input.thriftPeer.infoHash with
  | none => p
  | some infoHash =>
    match input.thriftPeer.peerId with
    | none => p.setInfoHash infoHash
    | some peerId =>
      let q := (p.setInfoHash infoHash).setPeerId peerId
      { q with
        thriftPeer := { q.thriftPeer with
          expireTime := input.thriftPeer.expireTime.or q.thriftPeer.expireTime
          timestampStart := some now
          ip := some input.getIp
          port := some input.getPort
          status := some input.getStatus
          uploaded := some (input.thriftPeer.uploaded.getD 0)
          downloaded := some (input.thriftPeer.downloaded.getD 0)
          left := some (input.thriftPeer.left.getD 0)
          wantNumber := some input.getWantNumber
          isSeed := some input.getIsSeed
          trackerId := some (input.thriftPeer.trackerId.getD [])
          idc := some input.getIdc } }

/-- The peer key is overwritten by the raw identifier when encoding succeeds. -/
def constructPeerInfoByString (codec : ThriftCodec) (text : ByteString) : Option PeerInfo :=
  (codec.parse text).map fun thriftPeer =>
    let p : PeerInfo := { thriftPeer := thriftPeer }
    { p with
      base64InfoHash := (base64Encode p.getInfoHash).getD p.getInfoHash
      base64PeerId := if (base64Encode p.getPeerId).isSome then p.getPeerId else [] }

def constructStringByPeerInfo (codec : ThriftCodec) (p : PeerInfo) : ByteString :=
  codec.serialize p.thriftPeer

/-- Both identifiers are set and their base64 keys are the encodings. -/
structure Keyed (p : PeerInfo) : Prop where
  infoHash : p.thriftPeer.infoHash = some p.getInfoHash
  peerId : p.thriftPeer.peerId = some p.getPeerId
  infoHashKey : p.base64InfoHash = base64Text p.getInfoHash
  peerIdKey : p.base64PeerId = base64Text p.getPeerId

theorem keyed_updateInfo (p input : PeerInfo) (now : BitVec 64) (h : input.Keyed) :
    (p.updateInfo input now).Keyed := by
  unfold updateInfo
  rw [h.infoHash, h.peerId]
  exact ⟨rfl, rfl, by simp [setPeerId, setInfoHash, getInfoHash, base64Encode_eq],
    by simp [setPeerId, setInfoHash, getPeerId, base64Encode_eq]⟩

theorem getPeerId_updateInfo (p input : PeerInfo) (now : BitVec 64) (h : input.Keyed) :
    (p.updateInfo input now).getPeerId = input.getPeerId := by
  unfold updateInfo
  rw [h.infoHash, h.peerId]
  rfl

theorem getIdc_updateInfo (p input : PeerInfo) (now : BitVec 64) (h : input.Keyed) :
    (p.updateInfo input now).getIdc = input.getIdc := by
  unfold updateInfo
  rw [h.infoHash, h.peerId]
  rfl

theorem getIsSeed_updateInfo (p input : PeerInfo) (now : BitVec 64) (h : input.Keyed) :
    (p.updateInfo input now).getIsSeed = input.getIsSeed := by
  unfold updateInfo
  rw [h.infoHash, h.peerId]
  rfl

theorem isSetRemote_updateInfo (p input : PeerInfo) (now : BitVec 64) :
    (p.updateInfo input now).isSetRemote = p.isSetRemote := by
  unfold updateInfo
  split
  · rfl
  · split <;> rfl

theorem keyed_initialized (p : PeerInfo) (h : p.Keyed) : p.initialized = true := by
  simp [initialized, h.infoHash, h.peerId]

/-- Two keyed records with one peer key have the same peer identifier. -/
theorem Keyed.peerId_inj (p q : PeerInfo) (hp : p.Keyed) (hq : q.Keyed) :
    p.base64PeerId = q.base64PeerId ↔ p.getPeerId = q.getPeerId := by
  rw [hp.peerIdKey, hq.peerIdKey]
  exact base64Text_injective.eq_iff

end PeerInfo

structure Peer where
  peerid : Option ByteString := none
  ip : Option ByteString := none
  port : Option (BitVec 32) := none
  idc : Option ByteString := none

structure Stat where
  uploaded : Option (BitVec 64) := none
  downloaded : Option (BitVec 64) := none
  left : Option (BitVec 64) := none
  status : Option Status := none

structure AnnounceRequest where
  infohash : Option ByteString := none
  peer : Option Peer := none
  stat : Option Stat := none
  isSeed : Option Bool := none
  numWant : Option (BitVec 32) := none

/-- "default" -/
def defaultIdc : ByteString := [100, 101, 102, 97, 117, 108, 116]

/-- The record is new, so both identifiers are still unset when they are read. -/
def preHandleRequest (localTrackerId : ByteString) (request : AnnounceRequest) :
    Option PeerInfo := do
  let infohash ← request.infohash
  let peer ← request.peer
  let stat ← request.stat
  let isSeed ← request.isSeed
  let numWant ← request.numWant
  let p : PeerInfo := { thriftPeer := { trackerId := some localTrackerId } }
  let q := (p.setInfoHash infohash).setPeerId (peer.peerid.getD [])
  return { q with
    thriftPeer := { q.thriftPeer with
      ip := some (peer.ip.getD [])
      idc := some (peer.idc.getD defaultIdc)
      port := some (peer.port.getD 0)
      uploaded := some (stat.uploaded.getD 0)
      downloaded := some (stat.downloaded.getD 0)
      left := some (stat.left.getD 0)
      status := some (stat.status.getD .metadata)
      isSeed := some isSeed
      wantNumber := some numWant } }

/-- A peer record as the request handler passes it on. -/
abbrev Announce := { p : PeerInfo // p.Keyed ∧ p.isSetRemote = false }

theorem preHandleRequest_announce (localTrackerId : ByteString) (request : AnnounceRequest)
    (p : PeerInfo) (h : preHandleRequest localTrackerId request = some p) :
    p.Keyed ∧ p.isSetRemote = false := by
  unfold preHandleRequest at h
  simp only [Option.bind_eq_bind, Option.bind_eq_some_iff] at h
  obtain ⟨infohash, _, peer, _, stat, _, isSeed, _, numWant, _, heq⟩ := h
  cases heq
  exact ⟨⟨rfl, rfl, by simp [PeerInfo.setPeerId, PeerInfo.setInfoHash, PeerInfo.getInfoHash,
      base64Encode_eq], by simp [PeerInfo.setPeerId, PeerInfo.setInfoHash, PeerInfo.getPeerId,
      base64Encode_eq]⟩, rfl⟩

/-- A request that names its machine room and leaves the other fields out. -/
def shortRequest (infohash peerid idc : ByteString) (status : Status) (isSeed : Bool)
    (numWant : BitVec 32) : AnnounceRequest where
  infohash := some infohash
  peer := some { peerid := some peerid, idc := some idc }
  stat := some { status := some status }
  isSeed := some isSeed
  numWant := some numWant

def requested (infohash peerid idc : ByteString) (status : Status) (isSeed : Bool)
    (numWant : BitVec 32) : PeerInfo :=
  (preHandleRequest [] (shortRequest infohash peerid idc status isSeed numWant)).getD {}

theorem requested_announce (infohash peerid idc : ByteString) (status : Status) (isSeed : Bool)
    (numWant : BitVec 32) : (requested infohash peerid idc status isSeed numWant).Keyed ∧
      (requested infohash peerid idc status isSeed numWant).isSetRemote = false :=
  preHandleRequest_announce [] (shortRequest infohash peerid idc status isSeed numWant) _ rfl

/-- A decoded record has the thrift fields and the infohash key of the
published one, but its peer key is the raw identifier. -/
theorem construct_serialized (codec : ThriftCodec) (p : PeerInfo)
    (hdecode : codec.parse (codec.serialize p.thriftPeer) = some p.thriftPeer) :
    PeerInfo.constructPeerInfoByString codec (p.constructStringByPeerInfo codec) =
      some { thriftPeer := p.thriftPeer
             base64InfoHash := base64Text p.getInfoHash
             base64PeerId := p.getPeerId } := by
  simp only [PeerInfo.constructPeerInfoByString, PeerInfo.constructStringByPeerInfo, hdecode,
    Option.map_some, base64Encode_eq, Option.isSome_some, if_true, Option.getD_some]
  rfl

end Gingko.PeerRecords
