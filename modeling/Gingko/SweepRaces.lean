import Gingko.AnnounceCalls

/-!
Announces against the garbage cleaner. A call fetches the entry of its infohash
in one section and registers its peer in the next, and the cleaner may delete
an entry without peers, or one whose timestamp is ahead of the cleaner's clock
reading, in between. As long as no sweep meets such an entry of a pending
announce, the peer of every accepted announce is registered when it returns.
-/
namespace Gingko.SweepRaces

open KeyedMaps Base64Codec PeerRecords PeerUpdates PeerScans TrackerState GuardedRuns AnnounceCalls

/-- The local map leads from the infohash to an entry that has the peer. -/
def Registered (w : World) (input : PeerInfo) : Prop :=
  ∃ obj, w.localMap.lookup input.base64InfoHash = some obj ∧
    ∃ ref, (w.heap obj).peerMap.lookup input.base64PeerId = some ref

def SamePeer (a b : PeerInfo) : Prop :=
  a.base64InfoHash = b.base64InfoHash ∧ a.base64PeerId = b.base64PeerId

/-- The call has left its second section. -/
def past : CallPoint → Bool
  | .start => false
  | .fetched _ => false
  | _ => true

def finished : CallPoint → Bool
  | .done _ _ _ => true
  | _ => false

/-- The call has fetched an entry and has not returned. -/
def pending : CallPoint → Bool
  | .start => false
  | .done _ _ _ => false
  | _ => true

/-- No local entry is older than the expiry interval of a sweep. -/
def NoneExpired (w : World) : Label → Prop
  | .sweepLocal q => ∀ pass, w.passes.lookup q = some pass →
      ∀ key obj, w.localMap.lookup key = some obj →
        pass.now.toNat ≤ (w.heap obj).timestamp.toNat + pass.expireInterval.toNat
  | _ => True

/-- When a sweep runs, the entry of every pending announce that is not a stop has
a peer and a timestamp that the clock reading of the sweep has reached. -/
def EntriesInUse (w : World) : Label → Prop
  | .sweepLocal q => ∀ pass, w.passes.lookup q = some pass →
      ∀ c call, w.calls.lookup c = some call → pending call.point = true →
        call.input.checkToStop = false →
        ∀ obj, w.localMap.lookup call.input.base64InfoHash = some obj →
          (w.heap obj).peerMap.entries ≠ [] ∧ (w.heap obj).timestamp.toNat ≤ pass.now.toNat
  | _ => True

/-- What one step of a call does to the local map and to the maps of peers. -/
inductive AdvanceCase (c : CallId) (call : Call) (w : World) : World → Prop
  | found (obj : ObjId) (now : UInt64) (hpoint : call.point = .start)
      (hlook : w.localMap.lookup call.input.base64InfoHash = some obj) :
      AdvanceCase c call w ((w.setObj obj { w.heap obj with timestamp := now }).setPoint c
        call.input (.fetched obj))
  | created (now : UInt64) (hpoint : call.point = .start)
      (hlook : w.localMap.lookup call.input.base64InfoHash = none) :
      AdvanceCase c call w (World.setPoint
        { w with
          heap := Function.update w.heap w.nextObj (SingleInfoHashInfo.new now)
          nextObj := w.nextObj + 1
          localMap := w.localMap.insert call.input.base64InfoHash w.nextObj }
        c call.input (.fetched w.nextObj))
  | prepared (obj : ObjId) (hpoint : call.point = .fetched obj) (point : CallPoint)
      (hpast : past point = true) :
      AdvanceCase c call w (((w.setObj obj (preHandlePeerInfo call.input (w.heap obj)).info).send
        (preHandlePeerInfo call.input (w.heap obj)).commands).setPoint c call.input point)
  | moved (w' : World) (point : CallPoint) (hold : past call.point = true)
      (hpast : past point = true) (hmap : w'.localMap = w.localMap)
      (hnext : w'.nextObj = w.nextObj)
      (hcalls : w'.calls = w.calls.insert c ⟨call.input, point⟩)
      (hpeers : ∀ obj, (w'.heap obj).peerMap = (w.heap obj).peerMap) :
      AdvanceCase c call w w'

theorem AdvanceCase.ofPoint {c : CallId} {call : Call} {w v w' : World} {point : CallPoint}
    (h : some (v.setPoint c call.input point) = some w') (hold : past call.point = true)
    (hpast : past point = true) (hmap : v.localMap = w.localMap) (hnext : v.nextObj = w.nextObj)
    (hcalls : v.calls = w.calls)
    (hpeers : ∀ obj, (v.heap obj).peerMap = (w.heap obj).peerMap) : AdvanceCase c call w w' := by
  have heq := Option.some.inj h
  subst heq
  exact .moved _ point hold hpast hmap hnext (by rw [← hcalls]; rfl) hpeers

theorem setObj_peerMap (w : World) (obj : ObjId) (info : SingleInfoHashInfo)
    (h : info.peerMap = (w.heap obj).peerMap) (o : ObjId) :
    ((w.setObj obj info).heap o).peerMap = (w.heap o).peerMap := by
  by_cases ho : o = obj
  · subst ho
    simpa [World.setObj] using h
  · simp [World.setObj, ho]

theorem scanLocal_peerMap (input : PeerInfo) (draws : ChooseDraws) (obj : ObjId) (w : World) :
    (scanLocal input draws obj w).info.peerMap = (w.heap obj).peerMap := by
  unfold scanLocal chooseLocalSeed
  simp only
  split <;> rfl

theorem scanRemote_peerMap (input : PeerInfo) (draws : ChooseDraws) (obj : ObjId)
    (output : PeerList) (haveSeed : Bool) (w : World) :
    (scanRemote input draws obj output haveSeed w).info.peerMap = (w.heap obj).peerMap := by
  have hfirst : (chooseRemotePeers (lockHeld w obj) input draws
      ⟨w.heap obj, output, haveSeed⟩).info.peerMap = (w.heap obj).peerMap := by
    unfold chooseRemotePeers
    split <;> rfl
  rw [← hfirst]
  unfold scanRemote chooseRemoteSeed
  simp only
  split <;> rfl

theorem advance_cases (conf : TrackerConf) (c : CallId) (env : HandleEnv) (call : Call)
    (w w' : World) (h : advance conf c env call w = some w') : AdvanceCase c call w w' := by
  obtain ⟨input, point⟩ := call
  unfold advance at h
  cases point with
  | start =>
    have heq := Option.some.inj h
    subst heq
    unfold fetch
    cases hlook : w.localMap.lookup input.base64InfoHash with
    | none => exact .created env.update.now rfl hlook
    | some obj => exact .found obj env.update.now rfl hlook
  | fetched obj =>
    have heq := Option.some.inj h
    subst heq
    exact .prepared obj rfl _ rfl
  | prepared obj peerInfo peerIsNew =>
    cases peerInfo with
    | none => exact .ofPoint h rfl rfl rfl rfl rfl (fun _ => rfl)
    | some ref =>
      simp only at h
      split at h
      · exact .ofPoint h rfl rfl rfl rfl rfl (fun _ => rfl)
      · exact .ofPoint h rfl rfl rfl rfl rfl (fun _ => rfl)
  | accepted obj ref peerIsNew =>
    exact .ofPoint h rfl rfl rfl rfl rfl
      (setObj_peerMap w obj _ (fillPeerInfo_peerMap input ref peerIsNew _ _))
  | filled obj ref peerIsNew =>
    simp only at h
    split at h
    · split at h
      · exact .ofPoint h rfl rfl rfl rfl rfl (fun _ => rfl)
      · exact .ofPoint h rfl rfl rfl rfl rfl (fun _ => rfl)
    · exact .ofPoint h rfl rfl rfl rfl rfl (fun _ => rfl)
  | published obj ref peerIsNew =>
    exact .ofPoint h rfl rfl rfl rfl rfl (setObj_peerMap w obj _ rfl)
  | updated =>
    simp only at h
    split at h
    · exact .ofPoint h rfl rfl rfl rfl rfl (fun _ => rfl)
    · exact .ofPoint h rfl rfl rfl rfl rfl (fun _ => rfl)
  | foundLocal found =>
    cases found with
    | none => exact .ofPoint h rfl rfl rfl rfl rfl (fun _ => rfl)
    | some obj =>
      exact .ofPoint h rfl rfl rfl rfl rfl
        (setObj_peerMap w obj _ (scanLocal_peerMap input env.choose obj w))
  | choseLocal output haveSeed =>
    simp only at h
    split at h
    · exact .ofPoint h rfl rfl rfl rfl rfl (fun _ => rfl)
    · exact .ofPoint h rfl rfl rfl rfl rfl (fun _ => rfl)
  | queued output haveSeed => exact .ofPoint h rfl rfl rfl rfl rfl (fun _ => rfl)
  | foundRemote found output haveSeed =>
    cases found with
    | none => exact .ofPoint h rfl rfl rfl rfl rfl (fun _ => rfl)
    | some obj =>
      exact .ofPoint h rfl rfl rfl rfl rfl
        (setObj_peerMap w obj _ (scanRemote_peerMap input env.choose obj output haveSeed w))
  | done ret output haveSeed => contradiction

/-- Local entries are allocated objects of one infohash each, and so are the
entries that calls have fetched and not yet worked on. -/
structure Owned (w : World) : Prop where
  allocated : ∀ key obj, w.localMap.lookup key = some obj → obj < w.nextObj
  unique : ∀ key key' obj, w.localMap.lookup key = some obj →
    w.localMap.lookup key' = some obj → key = key'
  fetchedAllocated : ∀ c input obj, w.calls.lookup c = some ⟨input, .fetched obj⟩ →
    obj < w.nextObj
  fetchedKey : ∀ c input obj key, w.calls.lookup c = some ⟨input, .fetched obj⟩ →
    w.localMap.lookup key = some obj → key = input.base64InfoHash

theorem owned_empty : Owned World.empty where
  allocated key obj h := by simp [World.empty] at h
  unique key key' obj h _ := by simp [World.empty] at h
  fetchedAllocated c input obj h := by simp [World.empty] at h
  fetchedKey c input obj key h _ := by simp [World.empty] at h

/-- What an event changes in the calls is at most the point of one of them. -/
theorem fetched_of_insert (w : World) (c c' : CallId) (input input' : PeerInfo) (obj : ObjId)
    (point : CallPoint) (hpoint : ∀ o, point ≠ .fetched o)
    (h : (w.calls.insert c ⟨input, point⟩).lookup c' = some ⟨input', .fetched obj⟩) :
    w.calls.lookup c' = some ⟨input', .fetched obj⟩ := by
  by_cases hc : c' = c
  · subst hc
    rw [AList.lookup_insert] at h
    have heq := Option.some.inj h
    simp only [Call.mk.injEq] at heq
    exact absurd heq.2 (hpoint obj)
  · rwa [AList.lookup_insert_ne hc] at h

theorem ne_fetched_of_past (point : CallPoint) (h : past point = true) (obj : ObjId) :
    point ≠ .fetched obj := by
  intro heq
  rw [heq] at h
  contradiction

/-- A fetched call is the one that has just fetched, or it was there before. -/
theorem fetched_of_setPoint (w : World) (c c' : CallId) (input input' : PeerInfo)
    (obj obj' : ObjId)
    (h : (w.calls.insert c ⟨input, .fetched obj⟩).lookup c' = some ⟨input', .fetched obj'⟩) :
    (input' = input ∧ obj' = obj) ∨ w.calls.lookup c' = some ⟨input', .fetched obj'⟩ := by
  by_cases hc : c' = c
  · subst hc
    simp only [AList.lookup_insert, Option.some.injEq, Call.mk.injEq,
      CallPoint.fetched.injEq] at h
    exact Or.inl ⟨h.1.symm, h.2.symm⟩
  · rw [AList.lookup_insert_ne hc] at h
    exact Or.inr h

theorem owned_found (w : World) (h : Owned w) (c : CallId) (input : PeerInfo) (obj : ObjId)
    (info : SingleInfoHashInfo) (hlook : w.localMap.lookup input.base64InfoHash = some obj) :
    Owned ((w.setObj obj info).setPoint c input (.fetched obj)) where
  allocated := h.allocated
  unique := h.unique
  fetchedAllocated c' input' obj' hcall := by
    rcases fetched_of_setPoint w c c' input input' obj obj' hcall with ⟨_, rfl⟩ | hbefore
    · exact h.allocated _ _ hlook
    · exact h.fetchedAllocated c' input' obj' hbefore
  fetchedKey c' input' obj' key hcall hkey := by
    rcases fetched_of_setPoint w c c' input input' obj obj' hcall with ⟨rfl, rfl⟩ | hbefore
    · exact h.unique key _ _ hkey hlook
    · exact h.fetchedKey c' input' obj' key hbefore hkey

theorem owned_created (w : World) (h : Owned w) (c : CallId) (input : PeerInfo) (now : UInt64) :
    Owned (World.setPoint
      { w with
        heap := Function.update w.heap w.nextObj (SingleInfoHashInfo.new now)
        nextObj := w.nextObj + 1
        localMap := w.localMap.insert input.base64InfoHash w.nextObj }
      c input (.fetched w.nextObj)) := by
  have hmap : ∀ key obj, (w.localMap.insert input.base64InfoHash w.nextObj).lookup key = some obj →
      (key = input.base64InfoHash ∧ obj = w.nextObj) ∨
        (key ≠ input.base64InfoHash ∧ w.localMap.lookup key = some obj ∧ obj < w.nextObj) := by
    intro key obj hkey
    by_cases heq : key = input.base64InfoHash
    · subst heq
      rw [AList.lookup_insert] at hkey
      exact Or.inl ⟨rfl, (Option.some.inj hkey).symm⟩
    · rw [AList.lookup_insert_ne heq] at hkey
      exact Or.inr ⟨heq, hkey, h.allocated key obj hkey⟩
  refine ⟨?_, ?_, ?_, ?_⟩
  · intro key obj hkey
    rcases hmap key obj hkey with ⟨_, rfl⟩ | ⟨_, _, hlt⟩
    · exact Nat.lt_succ_self w.nextObj
    · exact Nat.lt_succ_of_lt hlt
  · intro key key' obj hkey hkey'
    rcases hmap key obj hkey with ⟨hk, rfl⟩ | ⟨_, hk, hlt⟩
    · rcases hmap key' _ hkey' with ⟨hk', _⟩ | ⟨_, _, hlt'⟩
      · rw [hk, hk']
      · exact absurd hlt' (Nat.lt_irrefl w.nextObj)
    · rcases hmap key' obj hkey' with ⟨_, hobj⟩ | ⟨_, hk', _⟩
      · rw [hobj] at hlt
        exact absurd hlt (Nat.lt_irrefl w.nextObj)
      · exact h.unique key key' obj hk hk'
  · intro c' input' obj hcall
    rcases fetched_of_setPoint w c c' input input' _ obj hcall with ⟨_, rfl⟩ | hbefore
    · exact Nat.lt_succ_self w.nextObj
    · exact Nat.lt_succ_of_lt (h.fetchedAllocated c' input' obj hbefore)
  · intro c' input' obj key hcall hkey
    rcases fetched_of_setPoint w c c' input input' _ obj hcall with ⟨rfl, rfl⟩ | hbefore
    · rcases hmap key _ hkey with ⟨hk, _⟩ | ⟨_, _, hlt⟩
      · exact hk
      · exact absurd hlt (Nat.lt_irrefl w.nextObj)
    · rcases hmap key obj hkey with ⟨_, hobj⟩ | ⟨_, hk, _⟩
      · have hlt := h.fetchedAllocated c' input' obj hbefore
        rw [hobj] at hlt
        exact absurd hlt (Nat.lt_irrefl w.nextObj)
      · exact h.fetchedKey c' input' obj key hbefore hk

/-- The local map and the fetched calls may shrink; everything else is free. -/
theorem owned_shrink (w w' : World) (h : Owned w) (hnext : w'.nextObj = w.nextObj)
    (hmap : ∀ key obj, w'.localMap.lookup key = some obj → w.localMap.lookup key = some obj)
    (hcalls : ∀ c input obj, w'.calls.lookup c = some ⟨input, .fetched obj⟩ →
      w.calls.lookup c = some ⟨input, .fetched obj⟩) : Owned w' where
  allocated key obj hkey := by
    rw [hnext]
    exact h.allocated key obj (hmap key obj hkey)
  unique key key' obj hkey hkey' :=
    h.unique key key' obj (hmap key obj hkey) (hmap key' obj hkey')
  fetchedAllocated c input obj hcall := by
    rw [hnext]
    exact h.fetchedAllocated c input obj (hcalls c input obj hcall)
  fetchedKey c input obj key hcall hkey :=
    h.fetchedKey c input obj key (hcalls c input obj hcall) (hmap key obj hkey)

theorem owned_advance (c : CallId) (call : Call) (w w' : World) (h : Owned w)
    (hcase : AdvanceCase c call w w') : Owned w' := by
  cases hcase with
  | found obj now hpoint hlook => exact owned_found w h c call.input obj _ hlook
  | created now hpoint hlook => exact owned_created w h c call.input now
  | prepared obj hpoint point hpast =>
    exact owned_shrink w _ h rfl (fun _ _ hkey => hkey) (fun c' input' obj' =>
      fetched_of_insert w c c' call.input input' obj' point (ne_fetched_of_past point hpast))
  | moved w' point hold hpast hmap hnext hcalls hpeers =>
    refine owned_shrink w _ h hnext ?_ ?_
    · intro key obj hkey
      rwa [hmap] at hkey
    · intro c' input' obj' hcall
      rw [hcalls] at hcall
      exact fetched_of_insert w c c' call.input input' obj' point (ne_fetched_of_past point hpast)
        hcall

/-- What the events other than the steps of calls do. -/
inductive StepCase (conf : TrackerConf) (w : World) : Label → World → Prop
  | begin (c : CallId) (input : PeerInfo) (hfree : w.calls.lookup c = none) :
      StepCase conf w (.begin c input) (w.setPoint c input .start)
  | advance (c : CallId) (env : HandleEnv) (call : Call) (w' : World)
      (hcall : w.calls.lookup c = some call)
      (hadvance : AnnounceCalls.advance conf c env call w = some w') :
      StepCase conf w (.advance c env) w'
  | readClock (q : PassId) (now expireInterval : UInt64) (passes : Dict PassId Pass) :
      StepCase conf w (.readClock q now expireInterval) { w with passes := passes }
  | sweepLocal (q : PassId) (pass : Pass) (hpass : w.passes.lookup q = some pass) :
      StepCase conf w (.sweepLocal q) (sweep q pass w)
  | sweepRemote (q : PassId) (remote : Dict ByteString ObjId) (passes : Dict PassId Pass) :
      StepCase conf w (.sweepRemote q) { w with remoteMap := remote, passes := passes }

theorem step_cases (conf : TrackerConf) (w w' : World) (e : Label)
    (h : step conf w e = some w') : StepCase conf w e w' := by
  unfold step at h
  cases e with
  | begin c input =>
    simp only at h
    split at h
    · rename_i hfree
      have heq := Option.some.inj h
      subst heq
      exact .begin c input hfree
    · contradiction
  | advance c env =>
    obtain ⟨call, hcall, hadvance⟩ := Option.bind_eq_some_iff.mp h
    exact .advance c env call w' hcall hadvance
  | readClock q now expireInterval =>
    simp only at h
    split at h
    · have heq := Option.some.inj h
      subst heq
      exact .readClock q now expireInterval _
    · contradiction
  | sweepLocal q =>
    simp only at h
    split at h
    · rename_i hpass
      have heq := Option.some.inj h
      subst heq
      exact .sweepLocal q _ hpass
    · contradiction
  | sweepRemote q =>
    simp only at h
    split at h
    · have heq := Option.some.inj h
      subst heq
      exact .sweepRemote q _ _
    · contradiction

theorem lookup_sweep (q : PassId) (pass : Pass) (w : World) (key : ByteString) :
    (sweep q pass w).localMap.lookup key = (w.localMap.lookup key).filter
      (fun obj => !toDelete pass.now pass.expireInterval (w.heap obj)) :=
  Dict.lookup_filter _ _ _

theorem owned_step (conf : TrackerConf) (w w' : World) (e : Label) (h : Owned w)
    (hstep : step conf w e = some w') : Owned w' := by
  cases step_cases conf w w' e hstep with
  | begin c input hfree =>
    exact owned_shrink w _ h rfl (fun _ _ hkey => hkey) (fun c' input' obj' =>
      fetched_of_insert w c c' input input' obj' .start (fun _ => by simp))
  | advance c env call w' hcall hadvance =>
    exact owned_advance c call w w' h (advance_cases conf c env call w w' hadvance)
  | readClock q now expireInterval passes =>
    exact owned_shrink w _ h rfl (fun _ _ hkey => hkey) (fun _ _ _ hcall => hcall)
  | sweepLocal q pass hpass =>
    refine owned_shrink w _ h rfl ?_ (fun _ _ _ hcall => hcall)
    intro key obj hkey
    rw [lookup_sweep] at hkey
    exact (Option.filter_eq_some_iff.mp hkey).1
  | sweepRemote q remote passes =>
    exact owned_shrink w _ h rfl (fun _ _ hkey => hkey) (fun _ _ _ hcall => hcall)

theorem preHandlePeerInfo_registers (input : PeerInfo) (info : SingleInfoHashInfo)
    (hstop : input.checkToStop = false) :
    ∃ ref, (preHandlePeerInfo input info).info.peerMap.lookup input.base64PeerId = some ref := by
  unfold preHandlePeerInfo
  cases hlook : info.peerMap.lookup input.base64PeerId with
  | none =>
    refine ⟨info.nextRef, ?_⟩
    simp [hstop, SingleInfoHashInfo.insertPeer]
  | some ref =>
    refine ⟨ref, ?_⟩
    simpa [hstop] using hlook

theorem preHandlePeerInfo_other (input : PeerInfo) (info : SingleInfoHashInfo) (key : ByteString)
    (hkey : key ≠ input.base64PeerId) :
    (preHandlePeerInfo input info).info.peerMap.lookup key = info.peerMap.lookup key := by
  unfold preHandlePeerInfo
  split
  · split
    · rfl
    · exact AList.lookup_insert_ne hkey
  · split
    · exact AList.lookup_erase_ne hkey
    · rfl

/-- What a call that is not a stop can rely on at each of its points. -/
def Kept (w : World) (input : PeerInfo) : CallPoint → Prop
  | .start => True
  | .fetched obj => w.localMap.lookup input.base64InfoHash = some obj
  | _ => Registered w input

theorem kept_past (w : World) (input : PeerInfo) (point : CallPoint) (h : past point = true) :
    Kept w input point ↔ Registered w input := by
  cases point <;> first | contradiction | rfl

theorem registered_of_eq (w w' : World) (input : PeerInfo) (hmap : w'.localMap = w.localMap)
    (hpeers : ∀ obj, (w'.heap obj).peerMap = (w.heap obj).peerMap) (h : Registered w input) :
    Registered w' input := by
  obtain ⟨obj, hlook, ref, hpeer⟩ := h
  refine ⟨obj, ?_, ref, ?_⟩
  · rw [hmap]
    exact hlook
  · rw [hpeers]
    exact hpeer

theorem kept_own (c : CallId) (call : Call) (w w' : World) (hstop : call.input.checkToStop = false)
    (hcase : AdvanceCase c call w w') (h : Kept w call.input call.point) :
    ∃ point, w'.calls.lookup c = some ⟨call.input, point⟩ ∧ Kept w' call.input point := by
  cases hcase with
  | found obj now hpoint hlook => exact ⟨.fetched obj, AList.lookup_insert _, hlook⟩
  | created now hpoint hlook =>
    exact ⟨.fetched w.nextObj, AList.lookup_insert _, AList.lookup_insert _⟩
  | prepared obj hpoint point hpast =>
    rw [hpoint] at h
    refine ⟨point, AList.lookup_insert _, (kept_past _ _ point hpast).mpr ?_⟩
    obtain ⟨ref, hpeer⟩ := preHandlePeerInfo_registers call.input (w.heap obj) hstop
    refine ⟨obj, h, ref, ?_⟩
    simpa [World.setPoint, World.send, World.setObj] using hpeer
  | moved w' point hold hpast hmap hnext hcalls hpeers =>
    refine ⟨point, ?_, (kept_past _ _ point hpast).mpr ?_⟩
    · rw [hcalls]
      exact AList.lookup_insert _
    · exact registered_of_eq w w' call.input hmap hpeers ((kept_past _ _ _ hold).mp h)

theorem registered_found (w : World) (c : CallId) (input target : PeerInfo) (obj : ObjId)
    (now : UInt64) (h : Registered w target) :
    Registered ((w.setObj obj { w.heap obj with timestamp := now }).setPoint c input
      (.fetched obj)) target :=
  registered_of_eq w _ target rfl (setObj_peerMap w obj _ rfl) h

/-- The step of another peer's call leaves what a call relies on alone. -/
theorem kept_other (c' : CallId) (call : Call) (w w' : World) (input : PeerInfo)
    (point : CallPoint) (howned : Owned w) (hcall : w.calls.lookup c' = some call)
    (hother : ¬ SamePeer call.input input) (hcase : AdvanceCase c' call w w')
    (h : Kept w input point) : Kept w' input point := by
  by_cases hpast : past point = true
  · rw [kept_past _ _ point hpast] at h ⊢
    cases hcase with
    | found obj now hpoint hlook => exact registered_found w c' call.input input obj now h
    | created now hpoint hlook =>
      obtain ⟨obj, hkey, ref, hpeer⟩ := h
      have hne : obj ≠ w.nextObj := Nat.ne_of_lt (howned.allocated _ obj hkey)
      refine ⟨obj, ?_, ref, ?_⟩
      · have hkeys : input.base64InfoHash ≠ call.input.base64InfoHash := by
          intro heq
          rw [heq, hlook] at hkey
          contradiction
        simpa [World.setPoint, AList.lookup_insert_ne hkeys] using hkey
      · simpa [World.setPoint, Function.update_of_ne hne] using hpeer
    | prepared obj hpoint point' hpast' =>
      obtain ⟨target, hkey, ref, hpeer⟩ := h
      refine ⟨target, hkey, ref, ?_⟩
      by_cases hobj : target = obj
      · subst hobj
        have hcall' : w.calls.lookup c' = some ⟨call.input, .fetched target⟩ := by
          rw [hcall, ← hpoint]
        have hinfohash := howned.fetchedKey c' call.input target _ hcall' hkey
        have hpeerid : input.base64PeerId ≠ call.input.base64PeerId := by
          intro heq
          exact hother ⟨hinfohash.symm, heq.symm⟩
        have hkept := preHandlePeerInfo_other call.input (w.heap target) _ hpeerid
        simpa [World.setPoint, World.send, World.setObj, hkept] using hpeer
      · simpa [World.setPoint, World.send, World.setObj, Function.update_of_ne hobj] using hpeer
    | moved w' point' hold hpast' hmap hnext hcalls hpeers =>
      exact registered_of_eq w w' input hmap hpeers h
  · cases point with
    | start => trivial
    | fetched obj =>
      change w.localMap.lookup input.base64InfoHash = some obj at h
      show w'.localMap.lookup input.base64InfoHash = some obj
      cases hcase with
      | found obj' now hpoint hlook => exact h
      | created now hpoint hlook =>
        have hkeys : input.base64InfoHash ≠ call.input.base64InfoHash := by
          intro heq
          rw [heq, hlook] at h
          contradiction
        simpa [World.setPoint, AList.lookup_insert_ne hkeys] using h
      | prepared obj' hpoint point' hpast' => exact h
      | moved w' point' hold hpast' hmap hnext hcalls hpeers =>
        rw [hmap]
        exact h
    | _ => exact absurd rfl hpast

/-- An entry with a peer and a timestamp within the interval is kept. -/
theorem toDelete_false (now expireInterval : UInt64) (info : SingleInfoHashInfo)
    (hpeers : info.peerMap.entries ≠ []) (hreached : info.timestamp.toNat ≤ now.toNat)
    (hfresh : now.toNat ≤ info.timestamp.toNat + expireInterval.toNat) :
    toDelete now expireInterval info = false := by
  have hlength : info.peerMap.entries.length ≠ 0 := by
    intro hzero
    exact hpeers (List.length_eq_zero_iff.mp hzero)
  have hage : ¬ expireInterval < now - info.timestamp := by
    rw [UInt64.lt_iff_toNat_lt,
      UInt64.toNat_sub_of_le _ _ (UInt64.le_iff_toNat_le.mpr hreached)]
    omega
  simp [toDelete, hlength, hage]

theorem kept_sweep (w : World) (q : PassId) (pass : Pass) (input : PeerInfo) (point : CallPoint)
    (hsafe : ∀ obj, w.localMap.lookup input.base64InfoHash = some obj →
      toDelete pass.now pass.expireInterval (w.heap obj) = false)
    (h : Kept w input point) : Kept (sweep q pass w) input point := by
  have hkeep : ∀ obj, w.localMap.lookup input.base64InfoHash = some obj →
      (sweep q pass w).localMap.lookup input.base64InfoHash = some obj := by
    intro obj hlook
    rw [lookup_sweep, hlook, Option.filter_some, hsafe obj hlook]
    rfl
  by_cases hpast : past point = true
  · rw [kept_past _ _ point hpast] at h ⊢
    obtain ⟨obj, hlook, ref, hpeer⟩ := h
    exact ⟨obj, hkeep obj hlook, ref, hpeer⟩
  · cases point with
    | start => trivial
    | fetched obj => exact hkeep obj h
    | _ => exact absurd rfl hpast

/-- The call under observation, and no other unfinished call of its peer. -/
structure Tracked (c : CallId) (input : PeerInfo) (w : World) : Prop where
  owned : Owned w
  call : ∃ point, w.calls.lookup c = some ⟨input, point⟩ ∧
    (finished point = false → Kept w input point)
  alone : ∀ c' call, c' ≠ c → w.calls.lookup c' = some call → finished call.point = false →
    ¬ SamePeer call.input input

theorem not_finished_of_advance (conf : TrackerConf) (c : CallId) (env : HandleEnv) (call : Call)
    (w w' : World) (h : advance conf c env call w = some w') : finished call.point = false := by
  obtain ⟨input, point⟩ := call
  cases point with
  | done ret output haveSeed => contradiction
  | _ => rfl

theorem calls_of_advance (c : CallId) (call : Call) (w w' : World)
    (hcase : AdvanceCase c call w w') :
    ∃ point, w'.calls = w.calls.insert c ⟨call.input, point⟩ := by
  cases hcase with
  | found obj now hpoint hlook => exact ⟨_, rfl⟩
  | created now hpoint hlook => exact ⟨_, rfl⟩
  | prepared obj hpoint point hpast => exact ⟨_, rfl⟩
  | moved w' point hold hpast hmap hnext hcalls hpeers => exact ⟨point, hcalls⟩

theorem tracked_advance (conf : TrackerConf) (c c' : CallId) (input : PeerInfo) (env : HandleEnv)
    (call : Call) (w w' : World) (hstop : input.checkToStop = false) (h : Tracked c input w)
    (hcall : w.calls.lookup c' = some call) (hadvance : advance conf c' env call w = some w') :
    Tracked c input w' := by
  have hcase := advance_cases conf c' env call w w' hadvance
  have hlive := not_finished_of_advance conf c' env call w w' hadvance
  obtain ⟨point', hcalls⟩ := calls_of_advance c' call w w' hcase
  obtain ⟨point, hpoint, hkept⟩ := h.call
  refine ⟨owned_advance c' call w w' h.owned hcase, ?_, ?_⟩
  · by_cases hc : c' = c
    · subst hc
      have heq : call = ⟨input, point⟩ := Option.some.inj (hcall.symm.trans hpoint)
      subst heq
      obtain ⟨next, hnext, hkeep⟩ := kept_own c' _ w w' hstop hcase (hkept hlive)
      exact ⟨next, hnext, fun _ => hkeep⟩
    · refine ⟨point, ?_, ?_⟩
      · rw [hcalls, AList.lookup_insert_ne (Ne.symm hc)]
        exact hpoint
      · intro hunfinished
        exact kept_other c' call w w' input point h.owned hcall
          (h.alone c' call hc hcall hlive) hcase (hkept hunfinished)
  · intro other call' hne hlook hunfinished
    rw [hcalls] at hlook
    by_cases hother : other = c'
    · subst hother
      rw [AList.lookup_insert] at hlook
      have heq := Option.some.inj hlook
      subst heq
      exact h.alone other call hne hcall hlive
    · rw [AList.lookup_insert_ne hother] at hlook
      exact h.alone other call' hne hlook hunfinished

/-- The entry of the observed call survives a guarded sweep. -/
theorem safe_of_guards (w : World) (q : PassId) (pass : Pass) (c : CallId) (input : PeerInfo)
    (point : CallPoint) (hstop : input.checkToStop = false)
    (hpass : w.passes.lookup q = some pass) (hcall : w.calls.lookup c = some ⟨input, point⟩)
    (hpending : pending point = true) (hfresh : NoneExpired w (.sweepLocal q))
    (huse : EntriesInUse w (.sweepLocal q)) (obj : ObjId)
    (hlook : w.localMap.lookup input.base64InfoHash = some obj) :
    toDelete pass.now pass.expireInterval (w.heap obj) = false := by
  obtain ⟨hpeers, hreached⟩ := huse pass hpass c ⟨input, point⟩ hcall hpending hstop obj hlook
  exact toDelete_false _ _ _ hpeers hreached (hfresh pass hpass _ obj hlook)

theorem tracked_step (conf : TrackerConf) (c : CallId) (input : PeerInfo) (w w' : World)
    (e : Label) (hstop : input.checkToStop = false) (h : Tracked c input w)
    (honly : ∀ c' other, e = .begin c' other → ¬ SamePeer other input)
    (hguard : NoneExpired w e ∧ EntriesInUse w e) (hstep : step conf w e = some w') :
    Tracked c input w' := by
  have howned := owned_step conf w w' e h.owned hstep
  obtain ⟨point, hpoint, hkept⟩ := h.call
  cases step_cases conf w w' e hstep with
  | begin c' other hfree =>
    have hc : c ≠ c' := by
      intro heq
      rw [heq, hfree] at hpoint
      contradiction
    refine ⟨howned, ⟨point, ?_, ?_⟩, ?_⟩
    · rw [World.setPoint, AList.lookup_insert_ne hc]
      exact hpoint
    · intro hunfinished
      cases point <;> exact hkept hunfinished
    · intro c'' call hne hlook hunfinished
      by_cases hother : c'' = c'
      · subst hother
        rw [World.setPoint, AList.lookup_insert] at hlook
        have heq := Option.some.inj hlook
        subst heq
        exact honly c'' other rfl
      · rw [World.setPoint, AList.lookup_insert_ne hother] at hlook
        exact h.alone c'' call hne hlook hunfinished
  | advance c' env call w' hcall hadvance =>
    exact tracked_advance conf c c' input env call w w' hstop h hcall hadvance
  | readClock q now expireInterval passes =>
    refine ⟨howned, ⟨point, hpoint, ?_⟩, h.alone⟩
    intro hunfinished
    cases point <;> exact hkept hunfinished
  | sweepLocal q pass hpass =>
    refine ⟨howned, ⟨point, hpoint, ?_⟩, h.alone⟩
    intro hunfinished
    by_cases hpending : pending point = true
    · exact kept_sweep w q pass input point
        (safe_of_guards w q pass c input point hstop hpass hpoint hpending hguard.1 hguard.2)
        (hkept hunfinished)
    · cases point with
      | start => trivial
      | done ret output haveSeed => contradiction
      | _ => exact absurd rfl hpending
  | sweepRemote q remote passes =>
    refine ⟨howned, ⟨point, hpoint, ?_⟩, h.alone⟩
    intro hunfinished
    cases point <;> exact hkept hunfinished

/-- In an interleaving whose sweeps meet no expired entry and no entry that a
pending announce has fetched but that is still without peers or ahead of the
clock reading, an announce that returns 0 leaves its peer registered. -/
theorem announce_registered (conf : TrackerConf) (before during : List Label)
    (w₀ w₁ w₂ w₃ : World) (c : CallId) (input : PeerInfo) (env : HandleEnv) (output : PeerList)
    (haveSeed : Bool) (hstop : input.checkToStop = false)
    (hbefore : Path (step conf) (fun _ _ => True) World.empty before w₀)
    (halone : ∀ c' call, w₀.calls.lookup c' = some call → finished call.point = false →
      ¬ SamePeer call.input input)
    (hbegin : step conf w₀ (.begin c input) = some w₁)
    (hduring : Path (step conf) (fun w e => NoneExpired w e ∧ EntriesInUse w e) w₁ during w₂)
    (honly : ∀ c' other, .begin c' other ∈ during → ¬ SamePeer other input)
    (hreturn : step conf w₂ (.advance c env) = some w₃)
    (hret : w₃.calls.lookup c = some ⟨input, .done 0 output haveSeed⟩) :
    Registered w₃ input := by
  have howned₀ := hbefore.invariant Owned (fun w e t h _ => owned_step conf w t e h) owned_empty
  have hstart : Tracked c input w₁ := by
    have howned₁ := owned_step conf w₀ w₁ _ howned₀ hbegin
    cases step_cases conf w₀ w₁ _ hbegin with
    | begin c' other hfree =>
      refine ⟨howned₁, ⟨.start, AList.lookup_insert _, fun _ => trivial⟩, ?_⟩
      intro c' call hne hlook hunfinished
      rw [World.setPoint, AList.lookup_insert_ne hne] at hlook
      exact halone c' call hlook hunfinished
  have htracked := hduring.invariant_of_mem (Tracked c input) (by
    intro w e t hmem htr hguard hstep
    refine tracked_step conf c input w t e hstop htr ?_ hguard hstep
    intro c' other heq
    subst heq
    exact honly c' other hmem) hstart
  obtain ⟨point, hpoint, hkept⟩ := htracked.call
  cases step_cases conf w₂ w₃ _ hreturn with
  | advance c env call w₃ hcall hadvance =>
    have heq : call = ⟨input, point⟩ := Option.some.inj (hcall.symm.trans hpoint)
    subst heq
    have hlive := not_finished_of_advance conf c env _ w₂ w₃ hadvance
    obtain ⟨point', hpoint', hkept'⟩ := kept_own c _ w₂ w₃ hstop
      (advance_cases conf c env _ w₂ w₃ hadvance) (hkept hlive)
    have hdone := Option.some.inj (hpoint'.symm.trans hret)
    simp only [Call.mk.injEq, true_and] at hdone
    subst hdone
    exact hkept'

def newcomer : PeerInfo := requested [1] [2] [3] .download false 0

/-- The world after the given events, all of them enabled. -/
def reached (es : List Label) : World :=
  (es.foldlM (step defaultConf) World.empty).getD World.empty

def moves : Label := .advance 0 (plainEnv 100 0)

/-- The only call has registered its peer, and a cycle has read the clock. -/
def preparedEntry : World := reached [.begin 0 newcomer, moves, moves, .readClock 0 101 3600]

theorem guards_preparedEntry :
    NoneExpired preparedEntry (.sweepLocal 0) ∧ EntriesInUse preparedEntry (.sweepLocal 0) := by
  constructor
  · intro pass hpass key obj hlook
    obtain ⟨_, rfl⟩ := Dict.lookup_singleton 0 0 _ pass hpass
    obtain ⟨_, rfl⟩ := Dict.lookup_singleton newcomer.base64InfoHash key 0 obj hlook
    decide
  · intro pass hpass c call hcall hpending hstop obj hlook
    obtain ⟨_, rfl⟩ := Dict.lookup_singleton 0 0 _ pass hpass
    obtain ⟨_, rfl⟩ := Dict.lookup_singleton 0 c _ call hcall
    obtain ⟨_, rfl⟩ := Dict.lookup_singleton newcomer.base64InfoHash _ 0 obj hlook
    exact ⟨by decide, by decide⟩

theorem announce_registered_newcomer :
    Registered (reached [.begin 0 newcomer, moves, moves, .readClock 0 101 3600, .sweepLocal 0,
      moves, moves, moves, moves]) newcomer := by
  refine announce_registered defaultConf [] [moves, moves, .readClock 0 101 3600, .sweepLocal 0,
    moves, moves, moves] World.empty (reached [.begin 0 newcomer])
    (reached [.begin 0 newcomer, moves, moves, .readClock 0 101 3600, .sweepLocal 0, moves, moves,
      moves]) _ 0 newcomer (plainEnv 100 0) [] false (by decide) (.nil _) ?_ rfl ?_ ?_ rfl rfl
  · intro c call hcall
    simp [World.empty] at hcall
  · exact .cons _ (reached [.begin 0 newcomer, moves]) _ _ _ rfl ⟨trivial, trivial⟩
      (.cons _ (reached [.begin 0 newcomer, moves, moves]) _ _ _ rfl ⟨trivial, trivial⟩
        (.cons _ preparedEntry _ _ _ rfl ⟨trivial, trivial⟩
          (.cons _ _ _ _ _ rfl guards_preparedEntry
            (.cons _ _ _ _ _ rfl ⟨trivial, trivial⟩ (.cons _ _ _ _ _ rfl ⟨trivial, trivial⟩
              (.cons _ _ _ _ _ rfl ⟨trivial, trivial⟩ (.nil _)))))))
  · intro c other hmem
    simp [moves] at hmem

/-- The only call has fetched its entry, and a cycle has read the clock. -/
def fetchedEntry : World := reached [.begin 0 newcomer, moves, .readClock 0 100 3600]

theorem noneExpired_fetchedEntry : NoneExpired fetchedEntry (.sweepLocal 0) := by
  intro pass hpass key obj hlook
  obtain ⟨_, rfl⟩ := Dict.lookup_singleton 0 0 _ pass hpass
  obtain ⟨_, rfl⟩ := Dict.lookup_singleton newcomer.base64InfoHash key 0 obj hlook
  decide

/-- The cycle deletes the entry between its fetch and the registration, so the
peer ends up in an object that the map has dropped. -/
theorem announce_lost : ¬ ∀ (during : List Label) (w₁ w₂ w₃ : World) (env : HandleEnv)
    (output : PeerList) (haveSeed : Bool),
    step defaultConf World.empty (.begin 0 newcomer) = some w₁ →
    Path (step defaultConf) NoneExpired w₁ during w₂ →
    (∀ c other, Label.begin c other ∉ during) →
    step defaultConf w₂ (.advance 0 env) = some w₃ →
    w₃.calls.lookup 0 = some ⟨newcomer, .done 0 output haveSeed⟩ → Registered w₃ newcomer := by
  intro h
  have hlost := h [moves, .readClock 0 100 3600, .sweepLocal 0, moves, moves, moves, moves]
    (reached [.begin 0 newcomer])
    (reached [.begin 0 newcomer, moves, .readClock 0 100 3600, .sweepLocal 0, moves, moves, moves,
      moves])
    (reached [.begin 0 newcomer, moves, .readClock 0 100 3600, .sweepLocal 0, moves, moves, moves,
      moves, moves])
    (plainEnv 100 0) [] false rfl
    (.cons _ (reached [.begin 0 newcomer, moves]) _ _ _ rfl trivial
      (.cons _ fetchedEntry _ _ _ rfl trivial
        (.cons _ _ _ _ _ rfl noneExpired_fetchedEntry
          (.cons _ _ _ _ _ rfl trivial (.cons _ _ _ _ _ rfl trivial
            (.cons _ _ _ _ _ rfl trivial (.cons _ _ _ _ _ rfl trivial (.nil _))))))))
    (by
      intro c other hmem
      simp [moves] at hmem) rfl rfl
  obtain ⟨obj, hlook, _⟩ := hlost
  have hnone : (reached [.begin 0 newcomer, moves, .readClock 0 100 3600, .sweepLocal 0, moves,
      moves, moves, moves, moves]).localMap.lookup newcomer.base64InfoHash = none := by
    decide
  rw [hnone] at hlook
  contradiction

end Gingko.SweepRaces
