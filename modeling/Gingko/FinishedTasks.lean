import Gingko.GroupFinishes

/-!
Every task of a group manager finishes once, as long as the locked sections find what
they look for. A thread that takes a torrent out of the session owes the move of its
task to the finished list, until it has had the lock.
-/
namespace Gingko.FinishedTasks

open KeyedMaps Base64Codec AgentTasks GroupTasks GroupAdds GroupCalls GroupRemovals
  GroupFinishes GuardedRuns Interleavings

variable {T : Type}

/-- The ledger holds, every thread stands well, and each task without a torrent has been
moved to the finished list or is about to be. -/
structure Accounted (s : State T) : Prop where
  unread : s.shared.endRead = false
  ledger : Ledger s.shared.group s.shared.moves
  places : ∀ t, PlaceOk s.shared.group (s.threads t)
  owed : ∀ ref < s.shared.group.nextRef, ∀ handle,
    (s.shared.group.tasks ref).torrentHandle = some handle →
    handle ∉ s.shared.group.session.torrents → s.shared.moves ref = 1 ∨ Locking s ref

theorem Accounted.finishesOnce {s : State T} (h : Accounted s) : FinishesOnce s where
  unread := h.unread
  once := h.ledger.once
  listed := h.ledger.listed
  running ref href handle hhandle hpresent := by
    have honce := h.ledger.once ref href
    have hnot : s.shared.moves ref ≠ 1 := fun hmoved =>
      h.ledger.gone ref href handle hhandle hmoved hpresent
    omega
  moved ref href handle hhandle hgone hnot :=
    (h.owed ref href handle hhandle hgone).resolve_right hnot

theorem accounted_start (settings : GroupSettings) : Accounted (State.start settings : State T) where
  unread := rfl
  ledger := {
    once := fun ref href => absurd href (Nat.not_lt_zero ref)
    fresh := fun _ _ => ⟨rfl, rfl⟩
    listed := fun _ => Nat.le_refl 0
    handles := fun ref href => absurd href (Nat.not_lt_zero ref)
    distinct := fun a ha => absurd ha (Nat.not_lt_zero a)
    gone := fun ref href => absurd href (Nat.not_lt_zero ref) }
  places _ := trivial
  owed ref href := absurd href (Nat.not_lt_zero ref)

section Steps

variable {s : State T}

/-- A change that keeps the ledger and moves no thread. -/
theorem Accounted.same (h : Accounted s) (group : Group)
    (hsame : SameLedger s.shared.group group) :
    Accounted { s with shared := { s.shared with group := group } } where
  unread := h.unread
  ledger := hsame.ledger h.ledger
  places t := hsame.placeOk _ (h.places t)
  owed ref href handle hhandle hgone := by
    rw [hsame.handle] at hhandle
    rw [hsame.session] at hgone
    exact h.owed ref (hsame.nextRef ▸ href) handle hhandle hgone

/-- Adding a task moves no thread. -/
theorem Accounted.add (h : Accounted s) (group : Group) (hadded : Added s.shared.group group) :
    Accounted { s with shared := { s.shared with group := group } } where
  unread := h.unread
  ledger := added_ledger hadded h.ledger
  places t := (added_extends hadded).placeOk h.ledger _ (h.places t)
  owed ref href handle hhandle hgone := by
    have hextends := added_extends hadded
    by_cases hold : ref < s.shared.group.nextRef
    · obtain ⟨hbefore, hiff⟩ := hextends.torrent h.ledger ref hold handle hhandle
      exact h.owed ref hold handle hbefore (hiff.not.mp hgone)
    · have hgot := hextends.started ref href (Nat.not_lt.mp hold)
      obtain rfl := Option.some.inj (hgot.handle.symm.trans hhandle)
      exact absurd hgot.present hgone

variable [DecidableEq T]

/-- Only the moving thread itself can give up what it owes. -/
theorem locking_act (t : T) (moved : Shared × Place) (ref : TaskRef) (h : Locking s ref)
    (hkept : ∀ byUser handle, s.threads t ≠ .locking ref byUser handle) :
    Locking (s.act t moved) ref := by
  apply s.exists_act t moved (fun _ place => ∃ byUser handle, place = .locking ref byUser handle) h
  intro hmoved
  obtain ⟨byUser, handle, hplace⟩ := hmoved
  exact absurd hplace (hkept byUser handle)

/-- A step that keeps the ledger, of a thread that owes nothing. -/
theorem Accounted.act_same (h : Accounted s) (t : T) (group : Group) (place : Place)
    (hsame : SameLedger s.shared.group group) (hplace : PlaceOk s.shared.group place)
    (hfree : ∀ ref byUser handle, s.threads t ≠ .locking ref byUser handle) :
    Accounted (s.act t ({ s.shared with group := group }, place)) where
  unread := h.unread
  ledger := hsame.ledger h.ledger
  places := by
    apply s.forall_act t _ (fun _ own => PlaceOk group own)
    · exact hsame.placeOk place hplace
    · intro u _
      exact hsame.placeOk _ (h.places u)
  owed ref href handle hhandle hgone := by
    simp only [System.act_shared] at href hhandle hgone ⊢
    rw [hsame.handle] at hhandle
    rw [hsame.session] at hgone
    rcases h.owed ref (hsame.nextRef ▸ href) handle hhandle hgone with hmoved | howed
    · exact Or.inl hmoved
    · exact Or.inr (locking_act t _ ref howed (hfree ref))

/-- The torrent leaves the session, and its thread owes the move from now on. -/
theorem Accounted.act_remove (h : Accounted s) (t : T) (ref : TaskRef) (byUser : Bool)
    (handle : TorrentHandle) (hthread : s.threads t = .removing ref byUser handle) :
    Accounted (s.act t ({ s.shared with group := withoutTorrent s.shared.group handle },
      .locking ref byUser handle)) := by
  obtain ⟨href, hhandle⟩ : PlaceOk s.shared.group (.removing ref byUser handle) :=
    hthread ▸ h.places t
  refine ⟨h.unread, h.ledger.withoutTorrent handle, ?_, ?_⟩
  · apply s.forall_act t _ (fun _ own => PlaceOk (withoutTorrent s.shared.group handle) own)
    · refine ⟨href, hhandle, ?_⟩
      simp [mem_withoutTorrent]
    · intro u _
      exact placeOk_withoutTorrent handle _ (h.places u)
  · intro other hother known hknown hgone
    simp only [System.act_shared, mem_withoutTorrent, not_and] at hother hknown hgone ⊢
    by_cases heq : known = handle
    · -- no other task has this torrent
      subst heq
      obtain rfl := h.ledger.distinct other hother ref href (hknown.trans hhandle.symm)
      exact Or.inr ⟨t, byUser, known, s.act_self t _⟩
    · rcases h.owed other hother known hknown (hgone heq) with hmoved | howed
      · exact Or.inl hmoved
      · refine Or.inr (locking_act t _ other howed ?_)
        intro byUser' handle'
        rw [hthread]
        simp

/-- The entry of the task itself moves to the finished list. -/
theorem Accounted.act_move (h : Accounted s) (t : T) (ref : TaskRef) (byUser : Bool)
    (handle : TorrentHandle) (infohash : ByteString)
    (hthread : s.threads t = .locking ref byUser handle)
    (hlook : s.shared.group.infohashMap.lookup infohash = some (some ref)) :
    Accounted (s.act t (s.shared.move handle infohash, .ending ref byUser)) := by
  obtain ⟨href, hhandle, hgone⟩ : PlaceOk s.shared.group (.locking ref byUser handle) :=
    hthread ▸ h.places t
  obtain ⟨group, hgroup, hmoves⟩ := moves_moveToFinished s.shared.group handle infohash ref hlook
  have hmove : s.shared.move handle infohash =
      ⟨group, s.shared.endRead, Function.update s.shared.moves ref (s.shared.moves ref + 1)⟩ := by
    simp only [Shared.move, hgroup, hlook, Shared.locked]
  rw [hmove]
  refine ⟨h.unread, hmoves.ledger h.ledger href ?_, ?_, ?_⟩
  · intro known hknown
    obtain rfl := Option.some.inj (hknown.symm.trans hhandle)
    exact hgone
  · apply s.forall_act t _ (fun _ own => PlaceOk group own)
    · trivial
    · intro u _
      exact hmoves.placeOk _ (h.places u)
  · intro other hother known hknown hgone'
    simp only [System.act_shared] at hother hknown hgone' ⊢
    rw [hmoves.tasks] at hknown
    rw [hmoves.session] at hgone'
    rw [counted_eq]
    by_cases hne : ref = other
    · rw [if_pos hne, ← hne, hmoves.unmoved h.ledger href]
      exact Or.inl rfl
    · rw [if_neg hne, Nat.add_zero]
      rcases h.owed other (hmoves.nextRef ▸ hother) known hknown hgone' with hmoved | howed
      · exact Or.inl hmoved
      · refine Or.inr (locking_act t _ other howed ?_)
        intro byUser' handle' hplace
        rw [hthread] at hplace
        exact hne (Place.locking.inj hplace).1

/-- A removal begins with a change of the task that keeps its torrent. -/
theorem accounted_beginRemoval (h : Accounted s) (t : T) (ref : TaskRef) (byUser : Bool)
    (f : GroupTask → GroupTask) (s' : State T) (hstep : beginRemoval s t ref byUser f = some s')
    (hf : ∀ task, (f task).torrentHandle = task.torrentHandle) : Accounted s' := by
  unfold beginRemoval at hstep
  split at hstep
  · rename_i hidle
    split at hstep
    · rename_i href
      rw [← Option.some.inj hstep]
      exact h.act_same t _ (.testing ref byUser) (sameLedger_changeTask _ ref f hf) href
        (by simp [hidle])
    · contradiction
  · contradiction

theorem accounted_metadata (h : Accounted s) (t : T) (handle : TorrentHandle)
    (infohash : ByteString) (hidle : s.threads t = .idle) (moved : Shared × Place)
    (hmoved : metadata s.shared handle infohash = some moved) : Accounted (s.act t moved) := by
  unfold metadata at hmoved
  split at hmoved
  · contradiction
  · rename_i ref hlook
    split at hmoved
    · rw [← Option.some.inj hmoved]
      exact h.act_same t _ (.naming ref infohash) (.refl _) trivial (by simp [hidle])
    · contradiction

/-- The test of the torrent handle is not under the lock. -/
theorem accounted_testing (h : Accounted s) (env : GroupEnv) (t : T) (ref : TaskRef)
    (byUser : Bool) (hthread : s.threads t = .testing ref byUser) (moved : Shared × Place)
    (hmoved : advance env s.shared (.testing ref byUser) = some moved) :
    Accounted (s.act t moved) := by
  have href : PlaceOk s.shared.group (.testing ref byUser) := hthread ▸ h.places t
  have hkeep : ∀ place, PlaceOk s.shared.group place → Accounted (s.act t (s.shared, place)) :=
    fun place hplace => h.act_same t _ place (.refl _) hplace (by simp [hthread])
  simp only [advance] at hmoved
  split at hmoved
  · rw [← Option.some.inj hmoved]
    exact hkeep .idle trivial
  · rename_i handle hhandle
    split at hmoved
    · rw [← Option.some.inj hmoved]
      exact hkeep (.removing ref byUser handle) ⟨href, hhandle⟩
    · rw [← Option.some.inj hmoved]
      exact hkeep .idle trivial

theorem accounted_advance (h : Accounted s) (env : GroupEnv) (t : T)
    (hguard : FindsOwn s (env, .advance t)) (moved : Shared × Place)
    (hmoved : advance env s.shared (s.threads t) = some moved) : Accounted (s.act t moved) := by
  unfold FindsOwn at hguard
  cases hthread : s.threads t with
  | idle =>
    rw [hthread] at hmoved
    contradiction
  | testing ref byUser =>
    rw [hthread] at hmoved
    exact accounted_testing h env t ref byUser hthread moved hmoved
  | removing ref byUser handle =>
    rw [hthread] at hmoved
    rw [← Option.some.inj hmoved]
    exact h.act_remove t ref byUser handle hthread
  | locking ref byUser handle =>
    rw [hthread] at hmoved
    simp only [hthread] at hguard
    rw [← Option.some.inj hmoved]
    exact h.act_move t ref byUser handle _ hthread hguard
  | ending ref byUser =>
    rw [hthread] at hmoved
    rw [← Option.some.inj hmoved]
    refine h.act_same t _ (.persisting ref) (sameLedger_changeTask _ ref _ ?_) trivial ?_
    · exact fun _ => rfl
    · simp [hthread]
  | persisting ref =>
    rw [hthread] at hmoved
    rw [← Option.some.inj hmoved]
    exact h.act_same t _ .idle (sameLedger_persist env _ _) trivial (by simp [hthread])
  | naming ref infohash =>
    rw [hthread] at hmoved
    rw [← Option.some.inj hmoved]
    refine h.act_same t _ (.rekeying ref) (sameLedger_changeTask _ ref _ ?_) trivial ?_
    · exact fun _ => rfl
    · simp [hthread]
  | rekeying ref =>
    rw [hthread] at hmoved
    simp only [hthread] at hguard
    rw [← Option.some.inj hmoved]
    obtain ⟨group, hgroup, hsame⟩ := sameLedger_rename _ _ hguard
    rw [hgroup]
    exact h.act_same t group .idle hsame trivial (by simp [hthread])

theorem step_accounted (s s' : State T) (e : GroupEnv × Event T) (h : Accounted s)
    (hguard : FindsOwn s e) (hstep : step s e = some s') : Accounted s' := by
  obtain ⟨env, event⟩ := e
  cases event with
  | add rights param cred =>
    rw [← Option.some.inj hstep]
    exact h.add _ (added_addTask rights param cred)
  | resumeEntry name =>
    obtain ⟨after, hafter, rfl⟩ := Option.map_eq_some_iff.mp hstep
    exact h.add _ (added_addResumeEntry hafter)
  | dropFinished keep =>
    rw [← Option.some.inj hstep]
    exact h.same _ (sameLedger_dropFinished env keep _)
  | cancel t ref => exact accounted_beginRemoval h t ref true _ s' hstep fun _ => rfl
  | giveUp t ref isTimeout => exact accounted_beginRemoval h t ref false _ s' hstep fun _ => rfl
  | metadataReceived t handle infohash =>
    simp only [step] at hstep
    split at hstep
    · rename_i hidle
      obtain ⟨moved, hmoved, rfl⟩ := Option.map_eq_some_iff.mp hstep
      exact accounted_metadata h t handle infohash hidle moved hmoved
    · contradiction
  | advance t =>
    obtain ⟨moved, hmoved, rfl⟩ := Option.map_eq_some_iff.mp hstep
    exact accounted_advance h env t hguard moved hmoved
  | nameInside t u listed => exact absurd hguard not_false

end Steps

section Results

/-- `RemoveTorrentTmp` on an infohash that the map does not have never gets past reading
the end of the map. -/
theorem removeTorrentTmp_leaves_iff (g : Group) (handle : TorrentHandle) (infohash : ByteString) :
    (g.infohashMap.lookup infohash = none → ∃ g', removeTorrentTmp g handle infohash = some g' ∧
      g'.infohashMap = g.infohashMap ∧ g'.torrentMap = g.torrentMap ∧
      g'.finishedInfohashList = g.finishedInfohashList) ↔
    g.infohashMap.lookup infohash ≠ none := by
  constructor
  · intro hleaves hnone
    obtain ⟨g', hmoved, -⟩ := hleaves hnone
    simp [removeTorrentTmp, moveToFinished, hnone] at hmoved
  · intro hsome hnone
    exact absurd hnone hsome

variable [DecidableEq T]

/-- Every task finishes once in every run whose locked sections find their own entries,
and one removal is safe exactly where the map has the infohash. -/
theorem each_task_finishes_once :
    (∀ (settings : GroupSettings) (es : List (GroupEnv × Event T)) (s : State T),
      Path step FindsOwn (State.start settings) es s → FinishesOnce s) ∧
    ∀ (g : Group) (handle : TorrentHandle) (infohash : ByteString),
      (g.infohashMap.lookup infohash = none → ∃ g', removeTorrentTmp g handle infohash = some g' ∧
        g'.infohashMap = g.infohashMap ∧ g'.torrentMap = g.torrentMap ∧
        g'.finishedInfohashList = g.finishedInfohashList) ↔
      g.infohashMap.lookup infohash ≠ none := by
  refine ⟨?_, removeTorrentTmp_leaves_iff⟩
  intro settings es s hrun
  have haccounted : Accounted s := by
    apply hrun.invariant Accounted
    · intro s e s' h hguard hstep
      exact step_accounted s s' e h hguard hstep
    · exact accounted_start settings
  exact haccounted.finishesOnce

end Results

section Samples

def sampleAdd (T : Type) : GroupEnv × Event T :=
  (sampleEnv true, .add everybody sampleParam ⟨1, 1, 1⟩)

/-- The only task is added and canceled by one thread. -/
theorem each_task_finishes_once_alone : ∃ (es : List (GroupEnv × Event Unit)) (s : State Unit),
    Path step FindsOwn (State.start ⟨0, 0, 0⟩) es s ∧ s.shared.moves 0 = 1 ∧
      s.shared.group.finishedInfohashList = [(sampleHash, 0)] ∧ FinishesOnce s := by
  have hrun : ∃ s : State Unit, Path step FindsOwn (State.start ⟨0, 0, 0⟩)
      (sampleAdd Unit :: (sampleEnv true, .cancel () 0) ::
        List.replicate 5 (sampleEnv true, .advance ())) s ∧ s.shared.moves 0 = 1 ∧
      s.shared.group.finishedInfohashList = [(sampleHash, 0)] :=
    ⟨_, .cons _ _ _ _ _ rfl trivial <| .cons _ _ _ _ _ rfl trivial <|
      .cons _ _ _ _ _ rfl trivial <| .cons _ _ _ _ _ rfl trivial <|
      .cons _ _ _ _ _ rfl rfl <| .cons _ _ _ _ _ rfl trivial <|
      .cons _ _ _ _ _ rfl trivial <| .nil _, rfl, rfl⟩
  obtain ⟨s, hpath, hmoves, hlist⟩ := hrun
  exact ⟨_, s, hpath, hmoves, hlist, each_task_finishes_once.1 _ _ s hpath⟩

/-- Two threads cancel the only task, and both test the handle before either removes the
torrent. -/
def bothCancel : List (GroupEnv × Event Bool) :=
  sampleAdd Bool :: [Event.cancel false 0, .cancel true 0, .advance false, .advance true,
    .advance false, .advance false, .advance true, .advance true].map fun e => (sampleEnv true, e)

theorem second_removal_reads_end :
    (∃ s : State Bool, Path step (fun _ _ => True) (State.start ⟨0, 0, 0⟩) bothCancel s ∧
      s.shared.moves 0 = 1 ∧ s.shared.endRead = true ∧ ¬ FinishesOnce s) ∧
    removeTorrentTmp emptyGroup 0 sampleHash = none := by
  refine ⟨?_, rfl⟩
  have hsteps : ∃ s : State Bool, bothCancel.foldlM step (State.start ⟨0, 0, 0⟩) = some s ∧
      s.shared.moves 0 = 1 ∧ s.shared.endRead = true := ⟨_, rfl, rfl, rfl⟩
  obtain ⟨s, hfold, hmoves, hread⟩ := hsteps
  refine ⟨s, path_of_steps _ s _ (fun _ _ _ => trivial) hfold, hmoves, hread, ?_⟩
  intro honce
  rw [honce.unread] at hread
  contradiction

/-- The task of a url is canceled while its metadata arrive. -/
def renamedInside : List (GroupEnv × Event Bool) :=
  (sampleEnv true, .add everybody { torrentUrl := [117], savePath := [47] } ⟨1, 1, 1⟩) ::
    [Event.metadataReceived true 0 sampleHash, .cancel false 0, .advance false, .advance false,
      .nameInside false true true].map fun e => (sampleEnv true, e)

/-- The task has been moved, and its entry is still in the map. -/
example : ∃ s : State Bool, renamedInside.foldlM step (State.start ⟨0, 0, 0⟩) = some s ∧
    s.shared.moves 0 = 1 ∧ s.shared.group.infohashMap.lookup [117] = some (some 0) :=
  ⟨_, rfl, rfl, rfl⟩

end Samples
end Gingko.FinishedTasks
