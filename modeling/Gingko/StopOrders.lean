import Gingko.TrackerState

/-!
Stop orders. An order is a flag of the in-memory entry of its infohash, so it
lasts as long as the entry does: announces and orders for other infohashes keep
it, a resume order clears it, and a garbage collection that deletes the entry
drops it together with the entry.
-/
namespace Gingko.StopOrders

open KeyedMaps Base64Codec PeerRecords PeerUpdates PeerScans TrackerState GuardedRuns

/-- The infohash has an entry and the entry carries a stop order. -/
def Stopped (infohash : ByteString) (t : Tracker) : Prop :=
  ∃ info, t.localInfoHashMap.lookup infohash = some info ∧ info.needStop = true

/-- The event is no resume order for the infohash and no collection that
deletes its entry. -/
def KeepsOrder (infohash : ByteString) (t : Tracker) : Event → Prop
  | .announce _ _ => True
  | .control other type _ => other = infohash → type ≠ .resumeDownload
  | .collect now expireInterval => ∀ info, t.localInfoHashMap.lookup infohash = some info →
      toDelete now expireInterval info = false

theorem updatePeerEntry_needStop (conf : TrackerConf) (env : UpdateEnv) (input : PeerInfo)
    (info : SingleInfoHashInfo) :
    (updatePeerEntry conf env input info).info.needStop = info.needStop := by
  have hcase := updatePeerEntry_cases conf env input info
  generalize (updatePeerEntry conf env input info).ret = ret at hcase
  generalize (updatePeerEntry conf env input info).info = info' at hcase ⊢
  cases hcase with
  | unknownStop hstop hnone => rfl
  | knownStop ref hstop hsome => rfl
  | newRefused hstop hnone hrefuse => rfl
  | knownRefused ref hstop hsome hrefuse => rfl
  | newAccepted hstop hnone haccept => exact acceptPeer_needStop conf env input _ true _
  | knownAccepted ref hstop hsome haccept => exact acceptPeer_needStop conf env input ref false info

theorem handleEntry_needStop (conf : TrackerConf) (env : HandleEnv) (input : PeerInfo)
    (haveSeed : Bool) (info : SingleInfoHashInfo) :
    (handleEntry conf env input haveSeed info).needStop = info.needStop := by
  obtain ⟨peerLists, seedLists, hentry⟩ := handleEntry_lists conf env input haveSeed info
  rw [hentry]
  exact updatePeerEntry_needStop conf env.update input info

theorem preHandle_needStop (input : PeerInfo) (now : UInt64) (map : InfoHashMap)
    (info : SingleInfoHashInfo) (h : map.lookup input.base64InfoHash = some info) :
    (preHandleInfoHashInfo input now map).needStop = info.needStop := by
  unfold preHandleInfoHashInfo
  rw [h]

theorem stopped_announce (conf : TrackerConf) (infohash : ByteString) (t : Tracker)
    (input : PeerInfo) (env : HandleEnv) (h : Stopped infohash t) :
    Stopped infohash (next conf t (.announce input env)) := by
  obtain ⟨info, hlook, hstop⟩ := h
  unfold Stopped next
  rw [handle_localInfoHashMap]
  by_cases hkey : infohash = input.base64InfoHash
  · subst hkey
    refine ⟨_, AList.lookup_insert _, ?_⟩
    rw [handleEntry_needStop, preHandle_needStop input _ _ info hlook]
    exact hstop
  · refine ⟨info, ?_, hstop⟩
    rw [AList.lookup_insert_ne hkey]
    exact hlook

theorem stopped_control (conf : TrackerConf) (infohash other : ByteString) (type : ControlType)
    (now : UInt64) (t : Tracker) (hkeep : other = infohash → type ≠ .resumeDownload)
    (h : Stopped infohash t) : Stopped infohash (next conf t (.control other type now)) := by
  obtain ⟨info, hlook, hstop⟩ := h
  simp only [Stopped, next, controlByInfohash]
  by_cases hkey : infohash = other
  · subst hkey
    rw [hlook]
    cases type with
    | stopDownloading => exact ⟨_, AList.lookup_insert _, rfl⟩
    | resumeDownload => exact absurd rfl (hkeep rfl)
    | other code => exact ⟨_, AList.lookup_insert _, hstop⟩
  · cases hother : t.localInfoHashMap.lookup other with
    | none => exact ⟨info, hlook, hstop⟩
    | some entry =>
      refine ⟨info, ?_, hstop⟩
      cases type <;> simpa only [AList.lookup_insert_ne hkey] using hlook

theorem stopped_collect (conf : TrackerConf) (infohash : ByteString) (now expireInterval : UInt64)
    (t : Tracker) (hkeep : ∀ info, t.localInfoHashMap.lookup infohash = some info →
      toDelete now expireInterval info = false)
    (h : Stopped infohash t) : Stopped infohash (next conf t (.collect now expireInterval)) := by
  obtain ⟨info, hlook, hstop⟩ := h
  refine ⟨info, ?_, hstop⟩
  show (periodSchedule now expireInterval t).localInfoHashMap.lookup infohash = some info
  rw [lookup_periodSchedule, hlook, Option.filter_some, hkeep info hlook]
  rfl

theorem stopped_next (conf : TrackerConf) (infohash : ByteString) (t : Tracker) (e : Event)
    (h : Stopped infohash t) (hkeep : KeepsOrder infohash t e) :
    Stopped infohash (next conf t e) := by
  cases e with
  | announce input env => exact stopped_announce conf infohash t input env h
  | control other type now => exact stopped_control conf infohash other type now t hkeep h
  | collect now expireInterval =>
    exact stopped_collect conf infohash now expireInterval t hkeep h

theorem updatePeerEntry_refused (conf : TrackerConf) (env : UpdateEnv) (input : PeerInfo)
    (info : SingleInfoHashInfo) (hneed : info.needStop = true) (hseed : input.isASeed = false)
    (hstop : input.checkToStop = false) :
    (updatePeerEntry conf env input info).ret = stopDownloadCode := by
  have hcase := updatePeerEntry_cases conf env input info
  generalize (updatePeerEntry conf env input info).ret = ret at hcase ⊢
  generalize (updatePeerEntry conf env input info).info = info' at hcase
  cases hcase with
  | unknownStop h hnone => simp [hstop] at h
  | knownStop ref h hsome => simp [hstop] at h
  | newRefused h hnone hrefuse => rfl
  | knownRefused ref h hsome hrefuse => rfl
  | newAccepted h hnone haccept => simp [hneed, hseed] at haccept
  | knownAccepted ref h hsome haccept => simp [hneed, hseed] at haccept

theorem handle_refused (conf : TrackerConf) (env : HandleEnv) (input : PeerInfo)
    (peerList : PeerList) (haveSeed : Bool) (t : Tracker) (h : Stopped input.base64InfoHash t)
    (hseed : input.isASeed = false) (hstop : input.checkToStop = false) :
    (handle conf env input peerList haveSeed t).ret = stopDownloadCode ∧
      (handle conf env input peerList haveSeed t).peerList = peerList := by
  obtain ⟨info, hlook, hneed⟩ := h
  have hret : (updatePeer conf env.update input t).1 = stopDownloadCode := by
    apply updatePeerEntry_refused conf env.update input _ _ hseed hstop
    rw [preHandle_needStop input _ _ info hlook]
    exact hneed
  have hne : (updatePeer conf env.update input t).1 ≠ 0 := by
    rw [hret]
    decide
  simp only [handle, if_pos hne, and_true]
  exact hret

/-- From a successful stop order on, and as long as no resume order for the
infohash and no deletion of its entry happens, every announce for it that is
neither a seed's nor a stop is refused and its list left alone. -/
theorem stop_order_enforced (conf : TrackerConf) (infohash : ByteString) (now : UInt64)
    (t : Tracker) (hfound : (controlByInfohash infohash .stopDownloading now t).1 = none)
    (events : List Event)
    (hkeep : Guarded (next conf) (KeepsOrder infohash)
      (next conf t (.control infohash .stopDownloading now)) events)
    (input : PeerInfo) (env : HandleEnv) (peerList : PeerList) (haveSeed : Bool)
    (hinput : input.base64InfoHash = infohash) (hseed : input.isASeed = false)
    (hstop : input.checkToStop = false) :
    let reached := final (next conf) (next conf t (.control infohash .stopDownloading now)) events
    (handle conf env input peerList haveSeed reached).ret = stopDownloadCode ∧
      (handle conf env input peerList haveSeed reached).peerList = peerList := by
  have hordered : Stopped infohash (next conf t (.control infohash .stopDownloading now)) := by
    simp only [controlByInfohash] at hfound
    simp only [Stopped, next, controlByInfohash]
    cases hlook : t.localInfoHashMap.lookup infohash with
    | none => simp [hlook] at hfound
    | some info => exact ⟨_, AList.lookup_insert _, rfl⟩
  have hreached := final_guarded (next conf) (KeepsOrder infohash) (Stopped infohash)
    (stopped_next conf infohash) _ events hordered hkeep
  subst hinput
  exact handle_refused conf env input peerList haveSeed _ hreached hseed hstop

/-- One downloading peer is registered. -/
def onePeer : Tracker :=
  next defaultConf Tracker.empty (.announce (requested [1] [2] [3] .download false 50) (plainEnv 100 0))

theorem stop_order_enforced_one_peer :
    let events := [Event.announce (requested [1] [4] [3] .download false 50) (plainEnv 120 0),
      .collect 130 3600]
    let reached := final (next defaultConf)
      (next defaultConf onePeer (.control (base64Text [1]) .stopDownloading 110)) events
    let answer := handle defaultConf (plainEnv 140 0) (requested [1] [2] [3] .seeding false 50) []
      false reached
    answer.ret = stopDownloadCode ∧ answer.peerList = [] := by
  apply stop_order_enforced defaultConf (base64Text [1]) 110 onePeer
  · decide
  · refine ⟨trivial, ?_, trivial⟩
    intro info hlook
    have hkept : ((next defaultConf (next defaultConf onePeer
        (.control (base64Text [1]) .stopDownloading 110))
        (.announce (requested [1] [4] [3] .download false 50)
          (plainEnv 120 0))).localInfoHashMap.lookup (base64Text [1])).map (toDelete 130 3600) =
          some false := by
      decide
    rw [hlook] at hkept
    exact Option.some.inj hkept
  · decide
  · decide
  · decide

/-- The only peer departs, the cycle deletes the empty entry and the order with
it, and a later announce is accepted. -/
theorem stop_order_dropped :
    (controlByInfohash (base64Text [1]) .stopDownloading 110 onePeer).1 = none ∧
      ¬ ∀ events : List Event,
        (∀ now, Event.control (base64Text [1]) .resumeDownload now ∉ events) →
        (handle defaultConf (plainEnv 140 0) (requested [1] [4] [3] .download false 50) [] false
          (final (next defaultConf)
            (next defaultConf onePeer (.control (base64Text [1]) .stopDownloading 110)) events)).ret =
          stopDownloadCode := by
  refine ⟨by decide, ?_⟩
  intro h
  have hrefused := h [.announce (requested [1] [2] [3] .stopped false 0) (plainEnv 120 0),
    .collect 130 3600] (by
      intro now hmem
      simp at hmem)
  have haccepted : (handle defaultConf (plainEnv 140 0) (requested [1] [4] [3] .download false 50)
      [] false (final (next defaultConf)
        (next defaultConf onePeer (.control (base64Text [1]) .stopDownloading 110))
        [.announce (requested [1] [2] [3] .stopped false 0) (plainEnv 120 0),
          .collect 130 3600])).ret = 0 := by
    decide
  rw [haccepted] at hrefused
  contradiction

end Gingko.StopOrders
