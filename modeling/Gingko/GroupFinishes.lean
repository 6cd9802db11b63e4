import Gingko.GroupRemovals

/-!
The ledger of a group manager: where each task stands, and which torrent is its own.
Adding a task puts it into the map once and keeps the old tasks as they are; a call
that moves no task and touches no torrent keeps the whole ledger.
-/
namespace Gingko.GroupFinishes

open KeyedMaps Base64Codec AgentTasks GroupTasks GroupAdds GroupCalls GroupRemovals GuardedRuns
  Interleavings

section Adds

variable {env : GroupEnv} {g : Group}

/-- Torrents are added, and the old ones are there or gone as before. -/
structure Grows (s s' : Session) : Prop where
  next : s.nextHandle ≤ s'.nextHandle
  torrents : ∀ h < s.nextHandle, (h ∈ s'.torrents ↔ h ∈ s.torrents)

theorem Grows.refl (s : Session) : Grows s s := ⟨Nat.le_refl _, fun _ _ => Iff.rfl⟩

theorem grows_add (s : Session) (torrent : Torrent) : Grows s (s.add torrent) where
  next := Nat.le_succ _
  torrents h hlt := by
    rw [Session.mem_add]
    exact or_iff_right (Nat.ne_of_lt hlt)

theorem Grows.change {s s' : Session} (h : Grows s s') (handle : TorrentHandle)
    (f : Torrent → Torrent) : Grows s (s'.change handle f) where
  next := h.next
  torrents other hlt := by
    rw [Session.mem_change]
    exact h.torrents other hlt

/-- The task got the next torrent of the session. -/
structure GotTorrent (g : Group) (session : Session) (t : GroupTask) : Prop where
  handle : t.torrentHandle = some g.session.nextHandle
  present : g.session.nextHandle ∈ session.torrents
  counted : g.session.nextHandle < session.nextHandle

/-- What a creation changes of the manager. -/
structure Creates (g : Group) (outcome : CreateOutcome) : Prop where
  group : outcome.group = { g with
    session := outcome.group.session
    resumeDir := outcome.group.resumeDir }
  grows : Grows g.session outcome.group.session
  got : outcome.created = true → GotTorrent g outcome.group.session outcome.task

theorem generateResumeFile_eq (t : GroupTask) : g.generateResumeFile env t =
    { g with resumeDir := (g.generateResumeFile env t).resumeDir } := by
  unfold Group.generateResumeFile
  split
  · rfl
  · split <;> rfl

theorem creates_startTask (t : GroupTask) (source : Source) :
    Creates g (startTask env g t source) := by
  unfold startTask
  split
  · exact ⟨rfl, Grows.refl _, fun hcreated => by simp at hcreated⟩
  · split
    · exact ⟨rfl, Grows.refl _, fun hcreated => by simp at hcreated⟩
    · split
      · exact ⟨rfl, grows_add _ _, fun hcreated => by simp at hcreated⟩
      · simp only
        rw [generateResumeFile_eq]
        refine ⟨rfl, (grows_add _ _).change _ _, fun _ => ⟨rfl, ?_, Nat.lt_succ_self _⟩⟩
        exact (Session.mem_change ..).mpr ((Session.mem_add ..).mpr (Or.inl rfl))

theorem creates_finish (naming : Naming) : Creates g (finish env g naming) := by
  cases naming with
  | error t => exact ⟨rfl, Grows.refl _, fun hcreated => by simp [finish] at hcreated⟩
  | ok named => exact creates_startTask named.1 named.2

/-- What adding a task comes to: a new entry for a new task with a torrent of its own,
or none. -/
inductive Added (g : Group) : Group → Prop
  | rejected (session : Session) (resumeDir : ByteString → Option ByteString)
      (hgrows : Grows g.session session) :
      Added g { g with session := session, resumeDir := resumeDir }
  | registered (session : Session) (resumeDir : ByteString → Option ByteString)
      (torrentMap : Dict TorrentHandle TaskRef) (t : GroupTask) (hgrows : Grows g.session session)
      (hgot : GotTorrent g session t) (hfree : g.infohashMap.lookup t.infohash = none) :
      Added g { g with
        session := session
        resumeDir := resumeDir
        infohashMap := g.infohashMap.insert t.infohash (some g.nextRef)
        torrentMap := torrentMap
        tasks := Function.update g.tasks g.nextRef t
        nextRef := g.nextRef + 1 }

theorem added_destroy (outcome : CreateOutcome) (h : Creates g outcome) (left : Group)
    (hleft : left = { outcome.group with resumeDir := left.resumeDir }) (t : GroupTask) :
    Added g (left.destroy env t) := by
  rw [destroy_eq, hleft, h.group]
  exact .rejected _ _ h.grows

theorem added_settle (outcome : CreateOutcome) (h : Creates g outcome) (left : Group)
    (hleft : left = { outcome.group with resumeDir := left.resumeDir }) :
    Added g (settle env outcome left).group := by
  unfold settle
  split
  · rename_i hcreated
    unfold register
    cases hadded : addTaskToMap outcome.group outcome.task with
    | none => exact added_destroy outcome h outcome.group rfl outcome.task
    | some group =>
      simp only [addTaskToMap, Option.ite_none_right_eq_some] at hadded
      obtain ⟨⟨-, -, hfree⟩, hgroup⟩ := hadded
      rw [← Option.some.inj hgroup]
      rw [h.group] at hfree ⊢
      exact .registered _ _ _ _ h.grows (h.got hcreated) hfree
  · exact added_destroy outcome h left hleft outcome.task

theorem added_addTask (rights : AddRights) (param : DownloadParam) (cred : UserCred) :
    Added g (addTask env rights param cred g).group := by
  unfold addTask
  split
  · exact .rejected g.session g.resumeDir (Grows.refl _)
  · rw [create_eq]
    exact added_settle _ (creates_finish _) _ rfl

theorem added_addResumeEntry {name : ByteString} {after : AddOutcome}
    (h : addResumeEntry env name g = some after) : Added g after.group := by
  unfold addResumeEntry at h
  split at h
  · obtain rfl := Option.some.inj h
    exact .rejected g.session g.resumeDir (Grows.refl _)
  · split at h
    · obtain rfl := Option.some.inj h
      exact .rejected g.session g.resumeDir (Grows.refl _)
    · rw [createFromResumeFile_eq, Option.map_map] at h
      obtain ⟨naming, -, rfl⟩ := Option.map_eq_some_iff.mp h
      exact added_settle _ (creates_finish naming) _ rfl

end Adds

section Ledgers

/-- Where the tasks stand after so many moves of each, and that each has a torrent of
its own. -/
structure Ledger (g : Group) (moves : TaskRef → ℕ) : Prop where
  once : ∀ ref < g.nextRef, mapped g ref + moves ref = 1
  fresh : ∀ ref, g.nextRef ≤ ref → mapped g ref = 0 ∧ moves ref = 0
  listed : ∀ ref, finishedCount g ref ≤ moves ref
  handles : ∀ ref < g.nextRef, ∃ handle, (g.tasks ref).torrentHandle = some handle ∧
    handle < g.session.nextHandle
  distinct : ∀ a < g.nextRef, ∀ b < g.nextRef,
    (g.tasks a).torrentHandle = (g.tasks b).torrentHandle → a = b
  gone : ∀ ref < g.nextRef, ∀ handle, (g.tasks ref).torrentHandle = some handle →
    moves ref = 1 → handle ∉ g.session.torrents

/-- What a thread may rely on about its task. -/
def PlaceOk (g : Group) : Place → Prop
  | .idle | .ending _ _ | .persisting _ | .naming _ _ | .rekeying _ => True
  | .testing ref _ => ref < g.nextRef
  | .removing ref _ handle => ref < g.nextRef ∧ (g.tasks ref).torrentHandle = some handle
  | .locking ref _ handle => ref < g.nextRef ∧ (g.tasks ref).torrentHandle = some handle ∧
      handle ∉ g.session.torrents

/-- A change that moves no task and touches no torrent. -/
structure SameLedger (g g' : Group) : Prop where
  nextRef : g'.nextRef = g.nextRef
  handle : ∀ ref, (g'.tasks ref).torrentHandle = (g.tasks ref).torrentHandle
  mapped : ∀ ref, mapped g' ref = mapped g ref
  finished : ∀ ref, finishedCount g' ref ≤ finishedCount g ref
  session : g'.session = g.session

theorem SameLedger.refl (g : Group) : SameLedger g g :=
  ⟨rfl, fun _ => rfl, fun _ => rfl, fun _ => Nat.le_refl _, rfl⟩

variable {g g' : Group} {moves : TaskRef → ℕ}

theorem SameLedger.trans {g'' : Group} (h : SameLedger g g') (h' : SameLedger g' g'') :
    SameLedger g g'' where
  nextRef := h'.nextRef.trans h.nextRef
  handle ref := (h'.handle ref).trans (h.handle ref)
  mapped ref := (h'.mapped ref).trans (h.mapped ref)
  finished ref := Nat.le_trans (h'.finished ref) (h.finished ref)
  session := h'.session.trans h.session

theorem SameLedger.ledger (h : SameLedger g g') (hledger : Ledger g moves) : Ledger g' moves where
  once ref href := by
    rw [h.mapped]
    exact hledger.once ref (h.nextRef ▸ href)
  fresh ref href := by
    rw [h.mapped]
    exact hledger.fresh ref (h.nextRef ▸ href)
  listed ref := Nat.le_trans (h.finished ref) (hledger.listed ref)
  handles ref href := by
    rw [h.handle, h.session]
    exact hledger.handles ref (h.nextRef ▸ href)
  distinct a ha b hb hsame := by
    rw [h.handle, h.handle] at hsame
    exact hledger.distinct a (h.nextRef ▸ ha) b (h.nextRef ▸ hb) hsame
  gone ref href handle hhandle hmoved := by
    rw [h.handle] at hhandle
    rw [h.session]
    exact hledger.gone ref (h.nextRef ▸ href) handle hhandle hmoved

theorem SameLedger.placeOk (h : SameLedger g g') (place : Place) (hplace : PlaceOk g place) :
    PlaceOk g' place := by
  cases place with
  | testing ref byUser =>
    simp only [PlaceOk, h.nextRef]
    exact hplace
  | removing ref byUser handle =>
    simp only [PlaceOk, h.nextRef, h.handle]
    exact hplace
  | locking ref byUser handle =>
    simp only [PlaceOk, h.nextRef, h.handle, h.session]
    exact hplace
  | _ => trivial

/-- A change of a task that keeps its torrent. -/
theorem sameLedger_changeTask (g : Group) (ref : TaskRef) (f : GroupTask → GroupTask)
    (hf : ∀ t, (f t).torrentHandle = t.torrentHandle) : SameLedger g (changeTask g ref f) where
  nextRef := rfl
  handle other := by
    show (Function.update g.tasks ref (f (g.tasks ref)) other).torrentHandle = _
    by_cases hother : other = ref
    · rw [hother, Function.update_self]
      exact hf _
    · rw [Function.update_of_ne hother]
  mapped _ := rfl
  finished _ := Nat.le_refl _
  session := rfl

theorem sameLedger_persist (env : GroupEnv) (g : Group) (t : GroupTask) :
    SameLedger g (g.persist env t) := by
  rw [persist_eq]
  exact ⟨rfl, fun _ => rfl, fun _ => rfl, fun _ => Nat.le_refl _, rfl⟩

theorem sameLedger_dropFinished (env : GroupEnv) (keep : ByteString × TaskRef → Bool) (g : Group) :
    SameLedger g (dropFinished env keep g) := by
  obtain ⟨resumeDir, hdropped⟩ := dropFinished_eq env keep g
  rw [hdropped]
  exact ⟨rfl, fun _ => rfl, fun _ => rfl, fun _ => List.filter_sublist.countP_le, rfl⟩

theorem sameLedger_rename (torrentUrl infohash : ByteString)
    (hrename : RenameFinds g torrentUrl infohash) : ∃ g',
      updateInfohashByTorrentUrl g torrentUrl infohash = some g' ∧ SameLedger g g' := by
  unfold updateInfohashByTorrentUrl
  unfold RenameFinds at hrename
  split
  · exact ⟨g, rfl, .refl g⟩
  · rename_i hused
    simp only [not_or, not_not] at hused
    have hfinds := hrename hused.1 hused.2.2
    cases hlook : g.infohashMap.lookup torrentUrl with
    | none =>
      rw [hlook] at hfinds
      have hnone : g.finishedInfohashList.any (fun entry => entry.1 == torrentUrl) = false := by
        simpa using hfinds
      simp only [hnone, Bool.false_eq_true, if_false]
      exact ⟨g, rfl, .refl g⟩
    | some task =>
      rw [hlook] at hfinds
      have hne : torrentUrl ≠ infohash := by
        intro heq
        rw [heq] at hlook
        exact absurd (hfinds.symm.trans hlook) (by simp)
      refine ⟨_, rfl, rfl, fun _ => rfl, ?_, fun _ => Nat.le_refl _, rfl⟩
      intro ref
      have hkept : (insertNew infohash task g.infohashMap).lookup torrentUrl = some task := by
        simp only [insertNew, hfinds]
        rw [AList.lookup_insert_ne hne, hlook]
      have hcount := Dict.countEntries_of_lookup (fun _ pointer => pointer == some ref) _ _ _ hkept
      have hnew := Dict.countEntries_insert_new (fun _ pointer => pointer == some ref)
        g.infohashMap infohash task hfinds
      show Dict.countEntries _ _ = Dict.countEntries _ _
      simp only [insertNew, hfinds] at hcount ⊢
      omega

/-- The torrent leaves the session. -/
def withoutTorrent (g : Group) (handle : TorrentHandle) : Group :=
  { g with session := g.session.remove handle }

theorem mem_withoutTorrent (g : Group) (handle other : TorrentHandle) :
    other ∈ (withoutTorrent g handle).session.torrents ↔
      other ≠ handle ∧ other ∈ g.session.torrents := AList.mem_erase

theorem Ledger.withoutTorrent (hledger : Ledger g moves) (handle : TorrentHandle) :
    Ledger (withoutTorrent g handle) moves where
  once := hledger.once
  fresh := hledger.fresh
  listed := hledger.listed
  handles := hledger.handles
  distinct := hledger.distinct
  gone ref href known hknown hmoved := by
    rw [mem_withoutTorrent, not_and]
    intro _
    exact hledger.gone ref href known hknown hmoved

theorem placeOk_withoutTorrent (handle : TorrentHandle) (place : Place) (hplace : PlaceOk g place) :
    PlaceOk (withoutTorrent g handle) place := by
  cases place with
  | locking ref byUser known =>
    refine ⟨hplace.1, hplace.2.1, ?_⟩
    rw [mem_withoutTorrent, not_and]
    intro _
    exact hplace.2.2
  | _ => exact hplace

end Ledgers

section Growth

variable {g g' : Group} {moves : TaskRef → ℕ}

/-- Tasks are added, each with a torrent in the session, and the old ones stay. -/
structure Extends (g g' : Group) : Prop where
  refs : g.nextRef ≤ g'.nextRef
  tasks : ∀ ref < g.nextRef, g'.tasks ref = g.tasks ref
  finished : ∀ ref, finishedCount g' ref = finishedCount g ref
  session : Grows g.session g'.session
  started : ∀ ref < g'.nextRef, g.nextRef ≤ ref → GotTorrent g g'.session (g'.tasks ref)

/-- The torrent of an old task is there or gone as before. -/
theorem Extends.torrent (h : Extends g g') (hledger : Ledger g moves) (ref : TaskRef)
    (href : ref < g.nextRef) (handle : TorrentHandle)
    (hhandle : (g'.tasks ref).torrentHandle = some handle) :
    (g.tasks ref).torrentHandle = some handle ∧
      (handle ∈ g'.session.torrents ↔ handle ∈ g.session.torrents) := by
  rw [h.tasks ref href] at hhandle
  obtain ⟨known, hknown, hlt⟩ := hledger.handles ref href
  obtain rfl := Option.some.inj (hknown.symm.trans hhandle)
  exact ⟨hhandle, h.session.torrents known hlt⟩

theorem Extends.placeOk (h : Extends g g') (hledger : Ledger g moves) (place : Place)
    (hplace : PlaceOk g place) : PlaceOk g' place := by
  cases place with
  | testing ref byUser => exact Nat.lt_of_lt_of_le hplace h.refs
  | removing ref byUser handle =>
    obtain ⟨href, hhandle⟩ := hplace
    exact ⟨Nat.lt_of_lt_of_le href h.refs, by rw [h.tasks ref href]; exact hhandle⟩
  | locking ref byUser handle =>
    obtain ⟨href, hhandle, hgone⟩ := hplace
    have hkept : (g'.tasks ref).torrentHandle = some handle := by
      rw [h.tasks ref href]
      exact hhandle
    refine ⟨Nat.lt_of_lt_of_le href h.refs, hkept, ?_⟩
    rw [(h.torrent hledger ref href handle hkept).2]
    exact hgone
  | _ => trivial

theorem added_extends (h : Added g g') : Extends g g' := by
  cases h with
  | rejected session resumeDir hgrows =>
    refine ⟨Nat.le_refl _, fun _ _ => rfl, fun _ => rfl, hgrows, ?_⟩
    intro ref hlt hle
    exact absurd hlt (Nat.not_lt.mpr hle)
  | registered session resumeDir torrentMap t hgrows hgot hfree =>
    refine ⟨Nat.le_succ _, ?_, fun _ => rfl, hgrows, ?_⟩
    · intro ref href
      exact Function.update_of_ne (Nat.ne_of_lt href) ..
    · intro ref hlt hle
      obtain rfl := Nat.le_antisymm (Nat.le_of_lt_succ hlt) hle
      show GotTorrent g session (Function.update g.tasks g.nextRef t g.nextRef)
      rw [Function.update_self]
      exact hgot

/-- A new task is in the map once. -/
theorem added_mapped (h : Added g g') (ref : TaskRef) :
    mapped g' ref = mapped g ref + if g.nextRef ≤ ref ∧ ref < g'.nextRef then 1 else 0 := by
  cases h with
  | rejected session resumeDir hgrows =>
    rw [if_neg fun hboth => absurd hboth.2 (Nat.not_lt.mpr hboth.1)]
    rfl
  | registered session resumeDir torrentMap t hgrows hgot hfree =>
    show Dict.countEntries _ (g.infohashMap.insert t.infohash (some g.nextRef)) = _
    rw [Dict.countEntries_insert_new _ _ _ _ hfree]
    show mapped g ref + _ = mapped g ref + if g.nextRef ≤ ref ∧ ref < g.nextRef + 1 then 1 else 0
    by_cases href : ref = g.nextRef
    · subst href
      simp
    · rw [if_neg (by simpa using Ne.symm href), if_neg]
      intro hboth
      exact href (Nat.le_antisymm (Nat.le_of_lt_succ hboth.2) hboth.1)

theorem added_nextRef (h : Added g g') : g'.nextRef ≤ g.nextRef + 1 := by
  cases h with
  | rejected session resumeDir hgrows => exact Nat.le_succ _
  | registered session resumeDir torrentMap t hgrows hgot hfree => exact Nat.le_refl _

/-- New tasks have new torrents. -/
theorem Extends.handle (h : Extends g g') (hledger : Ledger g moves) (ref : TaskRef)
    (href : ref < g'.nextRef) : ∃ handle, (g'.tasks ref).torrentHandle = some handle ∧
      handle < g'.session.nextHandle ∧ (handle < g.session.nextHandle ↔ ref < g.nextRef) := by
  by_cases hold : ref < g.nextRef
  · obtain ⟨handle, hhandle, hlt⟩ := hledger.handles ref hold
    refine ⟨handle, ?_, Nat.lt_of_lt_of_le hlt h.session.next, by simp [hlt, hold]⟩
    rw [h.tasks ref hold]
    exact hhandle
  · have hgot := h.started ref href (Nat.not_lt.mp hold)
    exact ⟨_, hgot.handle, hgot.counted, by simp [hold]⟩

theorem added_ledger (h : Added g g') (hledger : Ledger g moves) : Ledger g' moves := by
  have hextends := added_extends h
  have hone := added_nextRef h
  constructor
  · intro ref href
    rw [added_mapped h]
    by_cases hold : ref < g.nextRef
    · rw [if_neg fun hboth => absurd hold (Nat.not_lt.mpr hboth.1)]
      exact hledger.once ref hold
    · obtain ⟨hmapped, hmoves⟩ := hledger.fresh ref (Nat.not_lt.mp hold)
      rw [if_pos ⟨Nat.not_lt.mp hold, href⟩, hmapped, hmoves]
  · intro ref href
    rw [added_mapped h, if_neg fun hboth => absurd hboth.2 (Nat.not_lt.mpr href)]
    exact hledger.fresh ref (Nat.le_trans hextends.refs href)
  · intro ref
    rw [hextends.finished]
    exact hledger.listed ref
  · intro ref href
    obtain ⟨handle, hsome, hlt, -⟩ := hextends.handle hledger ref href
    exact ⟨handle, hsome, hlt⟩
  · intro a ha b hb hsame
    obtain ⟨handle, hsome, -, hiff⟩ := hextends.handle hledger a ha
    obtain ⟨other, hother, -, hiff'⟩ := hextends.handle hledger b hb
    rw [hsame, hother] at hsome
    obtain rfl := Option.some.inj hsome
    by_cases hold : a < g.nextRef
    · have hold' : b < g.nextRef := hiff'.mp (hiff.mpr hold)
      rw [hextends.tasks a hold, hextends.tasks b hold'] at hsame
      exact hledger.distinct a hold b hold' hsame
    · have hnew : ¬ b < g.nextRef := fun hold' => hold (hiff.mp (hiff'.mpr hold'))
      have honly : ∀ ref < g'.nextRef, ¬ ref < g.nextRef → ref = g.nextRef := by
        intro ref href hnot
        exact Nat.le_antisymm (Nat.le_of_lt_succ (Nat.lt_of_lt_of_le href hone))
          (Nat.not_lt.mp hnot)
      rw [honly a ha hold, honly b hb hnew]
  · intro ref href handle hsome hmoved
    have hold : ref < g.nextRef := by
      by_contra hnew
      have hnone := (hledger.fresh ref (Nat.not_lt.mp hnew)).2
      omega
    obtain ⟨hbefore, hiff⟩ := hextends.torrent hledger ref hold handle hsome
    rw [hiff]
    exact hledger.gone ref hold handle hbefore hmoved

end Growth

section Moves

variable {g g' : Group} {ref : TaskRef} {moves : TaskRef → ℕ}

/-- One task goes from the map to the finished list. -/
structure Moves (g g' : Group) (ref : TaskRef) : Prop where
  nextRef : g'.nextRef = g.nextRef
  tasks : g'.tasks = g.tasks
  session : g'.session = g.session
  mapped : ∀ other, mapped g other = mapped g' other + if ref = other then 1 else 0
  finished : ∀ other, finishedCount g' other =
    finishedCount g other + if ref = other then 1 else 0

theorem moves_moveToFinished (g : Group) (handle : TorrentHandle) (infohash : ByteString)
    (ref : TaskRef) (hlook : g.infohashMap.lookup infohash = some (some ref)) :
    ∃ g', moveToFinished g handle infohash = some g' ∧ Moves g g' ref := by
  unfold moveToFinished
  rw [hlook]
  refine ⟨_, rfl, rfl, rfl, rfl, ?_, ?_⟩
  · intro other
    have hcount := Dict.countEntries_of_lookup (fun _ pointer => pointer == some other) _ _ _ hlook
    simpa [mapped] using hcount
  · intro other
    simp [finishedCount, List.countP_append, List.countP_singleton]

theorem Moves.placeOk (h : Moves g g' ref) (place : Place) (hplace : PlaceOk g place) :
    PlaceOk g' place := by
  cases place with
  | testing other byUser =>
    simp only [PlaceOk, h.nextRef]
    exact hplace
  | removing other byUser handle =>
    simp only [PlaceOk, h.nextRef, h.tasks]
    exact hplace
  | locking other byUser handle =>
    simp only [PlaceOk, h.nextRef, h.tasks, h.session]
    exact hplace
  | _ => trivial

/-- A task in the map has not been moved before. -/
theorem Moves.unmoved (h : Moves g g' ref) (hledger : Ledger g moves) (href : ref < g.nextRef) :
    moves ref = 0 := by
  have honce := hledger.once ref href
  have hmapped := h.mapped ref
  rw [if_pos rfl] at hmapped
  omega

theorem counted_eq (moves : TaskRef → ℕ) (ref other : TaskRef) :
    Function.update moves ref (moves ref + 1) other =
      moves other + if ref = other then 1 else 0 := by
  by_cases hother : ref = other
  · subst hother
    rw [Function.update_self, if_pos rfl]
  · rw [Function.update_of_ne (Ne.symm hother), if_neg hother, Nat.add_zero]

theorem Moves.ledger (h : Moves g g' ref) (hledger : Ledger g moves) (href : ref < g.nextRef)
    (hgone : ∀ handle, (g.tasks ref).torrentHandle = some handle →
      handle ∉ g.session.torrents) :
    Ledger g' (Function.update moves ref (moves ref + 1)) where
  once other hother := by
    have honce := hledger.once other (h.nextRef ▸ hother)
    have hmapped := h.mapped other
    rw [counted_eq]
    omega
  fresh other hother := by
    have hfresh := hledger.fresh other (h.nextRef ▸ hother)
    have hne : ref ≠ other := Nat.ne_of_lt (Nat.lt_of_lt_of_le href (h.nextRef ▸ hother))
    have hmapped := h.mapped other
    rw [if_neg hne] at hmapped
    rw [counted_eq, if_neg hne]
    omega
  listed other := by
    have hlisted := hledger.listed other
    rw [counted_eq, h.finished]
    omega
  handles other hother := by
    rw [h.tasks, h.session]
    exact hledger.handles other (h.nextRef ▸ hother)
  distinct a ha b hb hsame := by
    rw [h.tasks] at hsame
    exact hledger.distinct a (h.nextRef ▸ ha) b (h.nextRef ▸ hb) hsame
  gone other hother handle hhandle hmoved := by
    rw [h.tasks] at hhandle
    rw [h.session]
    by_cases hne : ref = other
    · subst hne
      exact hgone handle hhandle
    · rw [counted_eq, if_neg hne, Nat.add_zero] at hmoved
      exact hledger.gone other (h.nextRef ▸ hother) handle hhandle hmoved

end Moves
end Gingko.GroupFinishes
