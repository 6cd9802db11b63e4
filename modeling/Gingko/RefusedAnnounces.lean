import Gingko.StopOrders

/-!
What a refused announce leaves behind. The refusal comes after the section that
registers the peer and before the one that fills it in, so the announce of a
known peer only refreshes the timestamp, while that of an unknown one leaves a
peer object without any announced field in the map.
-/
namespace Gingko.RefusedAnnounces

open KeyedMaps Base64Codec PeerRecords PeerUpdates PeerScans TrackerState GuardedRuns StopOrders

/-- Nothing but the timestamp of one entry has changed. -/
structure OnlyTimestamp (infohash : ByteString) (t t' : Tracker) : Prop where
  entry : ∃ now, t'.localInfoHashMap.lookup infohash =
    (t.localInfoHashMap.lookup infohash).map (fun info => { info with timestamp := now })
  others : ∀ key, key ≠ infohash →
    t'.localInfoHashMap.lookup key = t.localInfoHashMap.lookup key
  remote : t'.remoteInfoHashMap = t.remoteInfoHashMap
  queue : t'.infoHashQueue = t.infoHashQueue
  sent : t'.commands = t.commands

theorem OnlyTimestamp.peers_length {infohash : ByteString} {t t' : Tracker}
    (h : OnlyTimestamp infohash t t') :
    (t'.localInfoHashMap.lookup infohash).map (fun info => info.peerMap.entries.length) =
      (t.localInfoHashMap.lookup infohash).map (fun info => info.peerMap.entries.length) := by
  obtain ⟨now, hentry⟩ := h.entry
  rw [hentry, Option.map_map]
  rfl

/-- The entry of the announced infohash knows the announced peer. -/
def KnownPeer (input : PeerInfo) (t : Tracker) : Prop :=
  ∃ info, t.localInfoHashMap.lookup input.base64InfoHash = some info ∧
    ∃ ref, info.peerMap.lookup input.base64PeerId = some ref

/-- What a refused update leaves in the entry. -/
def refusedEntry (input : PeerInfo) (info : SingleInfoHashInfo) : SingleInfoHashInfo :=
  match info.peerMap.lookup input.base64PeerId with
  | none => info.insertPeer input.base64PeerId
  | some _ => info

theorem updatePeerEntry_of_refused (conf : TrackerConf) (env : UpdateEnv) (input : PeerInfo)
    (info : SingleInfoHashInfo)
    (h : (updatePeerEntry conf env input info).ret = stopDownloadCode) :
    info.needStop = true ∧
      (updatePeerEntry conf env input info).info = refusedEntry input info := by
  have hcase := updatePeerEntry_cases conf env input info
  generalize (updatePeerEntry conf env input info).ret = ret at hcase h
  generalize (updatePeerEntry conf env input info).info = info' at hcase ⊢
  unfold refusedEntry
  cases hcase with
  | unknownStop hstop hnone => simp [stopDownloadCode] at h
  | knownStop ref hstop hsome => simp [stopDownloadCode] at h
  | newRefused hstop hnone hrefuse =>
    rw [hnone]
    exact ⟨(Bool.and_eq_true_iff.mp hrefuse).1, rfl⟩
  | knownRefused ref hstop hsome hrefuse =>
    rw [hsome]
    exact ⟨(Bool.and_eq_true_iff.mp hrefuse).1, rfl⟩
  | newAccepted hstop hnone haccept => simp [stopDownloadCode] at h
  | knownAccepted ref hstop hsome haccept => simp [stopDownloadCode] at h

/-- A refusal queues no command. -/
theorem updatePeerEntry_refused_commands (conf : TrackerConf) (env : UpdateEnv)
    (input : PeerInfo) (info : SingleInfoHashInfo)
    (h : (updatePeerEntry conf env input info).ret = stopDownloadCode) :
    (updatePeerEntry conf env input info).commands = [] := by
  have hnonzero : (0 : ℤ) ≠ stopDownloadCode := by simp [stopDownloadCode]
  unfold updatePeerEntry preHandlePeerInfo at h ⊢
  cases hlook : info.peerMap.lookup input.base64PeerId with
  | none =>
    cases hstop : input.checkToStop with
    | true => simp [hlook, hstop, hnonzero] at h
    | false =>
      cases hrefuse : ((info.insertPeer input.base64PeerId).needStop && !input.isASeed) with
      | true => simp [hrefuse]
      | false => simp [hlook, hstop, hrefuse, hnonzero] at h
  | some ref =>
    cases hstop : input.checkToStop with
    | true => simp [hlook, hstop, hnonzero] at h
    | false =>
      cases hrefuse : (info.needStop && !input.isASeed) with
      | true => simp [hrefuse]
      | false => simp [hlook, hstop, hrefuse, hnonzero] at h

section Refused

variable (conf : TrackerConf) (env : HandleEnv) (input : PeerInfo) (peerList : PeerList)
  (haveSeed : Bool) (t : Tracker)

/-- Only an entry that was there before carries a stop order. -/
theorem entry_of_refused
    (h : (handle conf env input peerList haveSeed t).ret = stopDownloadCode) :
    ∃ info, t.localInfoHashMap.lookup input.base64InfoHash = some info := by
  rw [handle_ret] at h
  have hstop := (updatePeerEntry_of_refused conf env.update input _ h).1
  cases hlook : t.localInfoHashMap.lookup input.base64InfoHash with
  | none => simp [preHandleInfoHashInfo, hlook, SingleInfoHashInfo.new] at hstop
  | some info => exact ⟨info, rfl⟩

/-- The tracker a refused announce leaves. -/
theorem handle_of_refused
    (h : (handle conf env input peerList haveSeed t).ret = stopDownloadCode) :
    (handle conf env input peerList haveSeed t).tracker =
      { t with
        localInfoHashMap := t.localInfoHashMap.insert input.base64InfoHash
          (refusedEntry input
            (preHandleInfoHashInfo input env.update.now t.localInfoHashMap)) } := by
  rw [handle_ret] at h
  have hentry := (updatePeerEntry_of_refused conf env.update input _ h).2
  have hsent := updatePeerEntry_refused_commands conf env.update input _ h
  have hret : (updatePeer conf env.update input t).1 ≠ 0 := by
    have hne : stopDownloadCode ≠ 0 := by simp [stopDownloadCode]
    simpa only [updatePeer, h] using hne
  simp only [handle, if_pos hret]
  simp only [updatePeer, hentry, hsent, List.append_nil]

/-- A refused announce leaves everything but the timestamp of its infohash as it
was precisely when its peer was registered before. -/
theorem refused_only_timestamp_iff
    (h : (handle conf env input peerList haveSeed t).ret = stopDownloadCode) :
    OnlyTimestamp input.base64InfoHash t (handle conf env input peerList haveSeed t).tracker ↔
      KnownPeer input t := by
  obtain ⟨info, hlook⟩ := entry_of_refused conf env input peerList haveSeed t h
  rw [handle_of_refused conf env input peerList haveSeed t h]
  have hprepared : preHandleInfoHashInfo input env.update.now t.localInfoHashMap =
      { info with timestamp := env.update.now } := by
    simp only [preHandleInfoHashInfo, hlook]
  rw [hprepared]
  constructor
  · intro honly
    refine ⟨info, hlook, ?_⟩
    obtain ⟨now, hentry⟩ := honly.entry
    rw [AList.lookup_insert, hlook, Option.map_some] at hentry
    have hmap := congrArg SingleInfoHashInfo.peerMap (Option.some.inj hentry)
    cases hpeer : info.peerMap.lookup input.base64PeerId with
    | some ref => exact ⟨ref, rfl⟩
    | none =>
      -- the map of the entry has gained the announced peer
      simp only [refusedEntry, hpeer, SingleInfoHashInfo.insertPeer] at hmap
      rw [← hmap, AList.lookup_insert] at hpeer
      contradiction
  · intro hknown
    obtain ⟨entry, hentry, ref, hpeer⟩ := hknown
    obtain rfl := Option.some.inj (hlook.symm.trans hentry)
    have hkept : refusedEntry input { info with timestamp := env.update.now } =
        { info with timestamp := env.update.now } := by
      simp only [refusedEntry, hpeer]
    rw [hkept]
    refine ⟨⟨env.update.now, ?_⟩, ?_, rfl, rfl, rfl⟩
    · rw [AList.lookup_insert, hlook, Option.map_some]
    · intro key hkey
      exact AList.lookup_insert_ne hkey

end Refused

/-- The registered downloader of a stopped infohash. -/
def stoppedOnePeer : Tracker :=
  next defaultConf onePeer (.control (base64Text [1]) .stopDownloading 110)

theorem refused_only_timestamp_iff_known :
    let input := requested [1] [2] [3] .download false 50
    let answer := handle defaultConf (plainEnv 120 0) input [] false stoppedOnePeer
    OnlyTimestamp input.base64InfoHash stoppedOnePeer answer.tracker ↔
      KnownPeer input stoppedOnePeer :=
  refused_only_timestamp_iff defaultConf (plainEnv 120 0)
    (requested [1] [2] [3] .download false 50) [] false stoppedOnePeer (by decide)

/-- A newcomer is refused and stays in the map all the same. -/
theorem refused_newcomer_registered :
    ¬ ∀ (conf : TrackerConf) (env : HandleEnv) (input : PeerInfo) (peerList : PeerList)
        (haveSeed : Bool) (t : Tracker),
      (handle conf env input peerList haveSeed t).ret = stopDownloadCode →
      OnlyTimestamp input.base64InfoHash t
        (handle conf env input peerList haveSeed t).tracker := by
  intro h
  have honly := h defaultConf (plainEnv 120 0) (requested [1] [4] [3] .download false 50) []
    false stoppedOnePeer (by decide)
  have hpeers := honly.peers_length
  have hbefore : (stoppedOnePeer.localInfoHashMap.lookup (base64Text [1])).map
      (fun info => info.peerMap.entries.length) = some 1 := by decide
  have hafter : ((handle defaultConf (plainEnv 120 0) (requested [1] [4] [3] .download false 50)
      [] false stoppedOnePeer).tracker.localInfoHashMap.lookup (base64Text [1])).map
      (fun info => info.peerMap.entries.length) = some 2 := by decide
  have hsame : some 2 = some 1 := hafter.symm.trans (hpeers.trans hbefore)
  contradiction

end Gingko.RefusedAnnounces
