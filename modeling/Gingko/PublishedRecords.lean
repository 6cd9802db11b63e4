import Gingko.TrackerRuns

/-!
The way of a record from the tracker that publishes it to one that loads it.
The setters keep both keys the encodings of the identifiers. The loader rebuilds
the fields and the infohash key, but its peer key is the raw identifier, which
equals its own encoding only when it is empty.
-/
namespace Gingko.PublishedRecords

open KeyedMaps Base64Codec PeerRecords PeerUpdates TrackerState TrackerRuns

inductive Setter where
  | setIp (ip : ByteString)
  | setIdc (idc : ByteString)
  | setInfoHash (infoHash : ByteString)
  | setPeerId (peerId : ByteString)
  | setPort (port : BitVec 32)
  | setStatus (status : Status)
  | setDownloaded (downloaded : BitVec 64)
  | setUploaded (uploaded : BitVec 64)
  | setLeft (left : BitVec 64)
  | setExpireTime (expireTime : BitVec 64)
  | setTimeStamp (timestamp : BitVec 64)
  | setWantNumber (wantNumber : BitVec 32)
  | setIsSetRemote (isSetRemote : Bool)
  | setIsSeed (isSeed : Bool)
  | setTrackerId (trackerId : ByteString)

def applySetter (p : PeerInfo) : Setter → PeerInfo
  | .setIp ip => { p with thriftPeer := { p.thriftPeer with ip := some ip } }
  | .setIdc idc => { p with thriftPeer := { p.thriftPeer with idc := some idc } }
  | .setInfoHash infoHash => p.setInfoHash infoHash
  | .setPeerId peerId => p.setPeerId peerId
  | .setPort port => { p with thriftPeer := { p.thriftPeer with port := some port } }
  | .setStatus status => { p with thriftPeer := { p.thriftPeer with status := some status } }
  | .setDownloaded downloaded =>
      { p with thriftPeer := { p.thriftPeer with downloaded := some downloaded } }
  | .setUploaded uploaded =>
      { p with thriftPeer := { p.thriftPeer with uploaded := some uploaded } }
  | .setLeft left => { p with thriftPeer := { p.thriftPeer with left := some left } }
  | .setExpireTime expireTime =>
      { p with thriftPeer := { p.thriftPeer with expireTime := some expireTime } }
  | .setTimeStamp timestamp =>
      { p with thriftPeer := { p.thriftPeer with timestampStart := some timestamp } }
  | .setWantNumber wantNumber =>
      { p with thriftPeer := { p.thriftPeer with wantNumber := some wantNumber } }
  | .setIsSetRemote isSetRemote => p.setIsSetRemote isSetRemote
  | .setIsSeed isSeed => { p with thriftPeer := { p.thriftPeer with isSeed := some isSeed } }
  | .setTrackerId trackerId =>
      { p with thriftPeer := { p.thriftPeer with trackerId := some trackerId } }

/-- A new record after the given setters. -/
def built (setters : List Setter) : PeerInfo := setters.foldl applySetter {}

/-- Both keys are the encodings of what the identifiers read as. -/
structure KeysEncode (p : PeerInfo) : Prop where
  infoHash : p.base64InfoHash = base64Text p.getInfoHash
  peerId : p.base64PeerId = base64Text p.getPeerId

theorem keysEncode_applySetter (p : PeerInfo) (setter : Setter) (h : KeysEncode p) :
    KeysEncode (applySetter p setter) := by
  cases setter with
  | setInfoHash infoHash =>
    exact ⟨by simp [applySetter, PeerInfo.setInfoHash, PeerInfo.getInfoHash, base64Encode_eq],
      h.peerId⟩
  | setPeerId peerId =>
    exact ⟨h.infoHash,
      by simp [applySetter, PeerInfo.setPeerId, PeerInfo.getPeerId, base64Encode_eq]⟩
  | _ => exact ⟨h.infoHash, h.peerId⟩

theorem keysEncode_built (setters : List Setter) : KeysEncode (built setters) := by
  have hall : ∀ p, KeysEncode p → KeysEncode (setters.foldl applySetter p) := by
    induction setters with
    | nil => exact fun _ h => h
    | cons setter rest ih => exact fun p h => ih _ (keysEncode_applySetter p setter h)
  exact hall {} ⟨rfl, rfl⟩

/-- What the loader makes of one published value. -/
def decodePublished (codec : ThriftCodec) (value : ByteString) : Option PeerInfo :=
  (base64Decode (cString value)).bind (PeerInfo.constructPeerInfoByString codec)

/-- The loaded record has the fields and the keys of the published one, and its place. -/
structure RoundTrips (conf : TrackerConf) (p q : PeerInfo) : Prop where
  decoded : decodePublished conf.codec (publishedValue conf p) = some q
  thriftPeer : q.thriftPeer = p.thriftPeer
  infoHashKey : q.base64InfoHash = p.base64InfoHash
  peerIdKey : q.base64PeerId = p.base64PeerId
  stored : ∀ info : SingleInfoHashInfo,
    let loaded := loadRemotePeer conf.codec info (publishedValue conf p)
    loaded.peerMap = info.peerMap.insert p.base64PeerId info.nextRef ∧
      loaded.peers info.nextRef = q

/-- A value that decodes is stored under the key it decodes to. -/
theorem loadRemotePeer_stored (codec : ThriftCodec) (info : SingleInfoHashInfo)
    (value : ByteString) (q : PeerInfo) (h : decodePublished codec value = some q) :
    (loadRemotePeer codec info value).peerMap = info.peerMap.insert q.base64PeerId info.nextRef ∧
      (loadRemotePeer codec info value).peers info.nextRef = q := by
  obtain ⟨text, htext, hq⟩ := Option.bind_eq_some_iff.mp h
  unfold loadRemotePeer
  simp only [htext, hq]
  exact ⟨trivial, Function.update_self ..⟩

theorem decodePublished_value (conf : TrackerConf) (p : PeerInfo)
    (hdecode : conf.codec.parse (conf.codec.serialize p.thriftPeer) = some p.thriftPeer) :
    decodePublished conf.codec (publishedValue conf p) =
      some { thriftPeer := p.thriftPeer
             base64InfoHash := base64Text p.getInfoHash
             base64PeerId := p.getPeerId } := by
  unfold decodePublished
  rw [cString_publishedValue, publishedValue, base64Decode_text]
  exact construct_serialized conf.codec p hdecode

/-- The record comes through under its key exactly when its peer identifier is empty. -/
theorem roundTrips_iff (conf : TrackerConf) (setters : List Setter)
    (hdecode : conf.codec.parse (conf.codec.serialize (built setters).thriftPeer) =
      some (built setters).thriftPeer) :
    (∃ q, RoundTrips conf (built setters) q) ↔ (built setters).getPeerId = [] := by
  have hvalue := decodePublished_value conf (built setters) hdecode
  have hkeys := keysEncode_built setters
  constructor
  · intro hboth
    obtain ⟨q, htrip⟩ := hboth
    have hq := Option.some.inj (htrip.decoded.symm.trans hvalue)
    have hkey := htrip.peerIdKey
    rw [hq, hkeys.peerId] at hkey
    exact base64Text_eq_self _ hkey.symm
  · intro hempty
    have hkey : (built setters).getPeerId = (built setters).base64PeerId := by
      rw [hkeys.peerId, hempty]
      rfl
    refine ⟨_, hvalue, rfl, hkeys.infoHash.symm, hkey, ?_⟩
    intro info
    rw [← hkey]
    exact loadRemotePeer_stored conf.codec info _ _ hvalue

theorem roundTrips_without_peerId : (∃ q, RoundTrips defaultConf (built [.setInfoHash [1]]) q) ↔
    (built [.setInfoHash [1]]).getPeerId = [] :=
  roundTrips_iff defaultConf [.setInfoHash [1]] (by decide)

/-- A one-byte peer identifier is loaded under another key than it was published under. -/
theorem peer_key_differs :
    ThriftFields.binaryCodec.parse (ThriftFields.binaryCodec.serialize
        (built [.setInfoHash [1], .setPeerId [2]]).thriftPeer) =
      some (built [.setInfoHash [1], .setPeerId [2]]).thriftPeer ∧
    ¬ ∃ q, RoundTrips defaultConf (built [.setInfoHash [1], .setPeerId [2]]) q := by
  have hdecode : ThriftFields.binaryCodec.parse (ThriftFields.binaryCodec.serialize
      (built [.setInfoHash [1], .setPeerId [2]]).thriftPeer) =
        some (built [.setInfoHash [1], .setPeerId [2]]).thriftPeer := by decide
  refine ⟨hdecode, ?_⟩
  intro hboth
  obtain ⟨q, htrip⟩ := hboth
  have hvalue := decodePublished_value defaultConf _ hdecode
  have hkey := htrip.peerIdKey
  rw [Option.some.inj (htrip.decoded.symm.trans hvalue)] at hkey
  exact absurd hkey (by decide)

end Gingko.PublishedRecords
