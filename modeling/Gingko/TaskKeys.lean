import Gingko.AgentChanges

/-!
Map entries and task objects in every run of the agent. An entry stands under
the key of the task it refers to, every object has a torrent of its own, and a
task of `tasks_map_` is always found by its torrent. None of this depends on
which tasks conflict.
-/
namespace Gingko.TaskKeys

open KeyedMaps Base64Codec AgentMessages AgentTasks AgentAdds AgentRuns AgentChanges GuardedRuns

/-- Every entry refers to a created task that has the key of the entry. -/
def Keyed {K : Type*} [DecidableEq K] (s : Agent) (key : Task → K) (m : Dict K TaskRef) : Prop :=
  Dict.Holds (fun k ref => key (s.tasks ref) = k ∧ ref < s.nextRef) m

section Keyed

variable {K : Type*} [DecidableEq K] (s : Agent) (key : Task → K) (m : Dict K TaskRef)

theorem keyed_quiet (t : Agent) (h : Quiet s t) (hkey : ∀ task, key (fixed task) = key task)
    (hkeyed : Keyed s key m) : Keyed t key m := by
  intro k ref hlook
  have hold := hkeyed k ref hlook
  refine ⟨?_, ?_⟩
  · rw [h.field_eq key hkey ref]
    exact hold.1
  · rw [h.nextRef]
    exact hold.2

theorem keyed_erase (k : K) (h : Keyed s key m) : Keyed s key (m.erase k) := by
  intro k' ref hlook
  exact h k' ref (Dict.lookup_of_erase m k k' ref hlook).2

end Keyed

structure KeysOk (s : Agent) : Prop where
  byId : Keyed s Task.id s.tasksMap
  byTorrent : Keyed s Task.torrent s.torrentMap
  byInfohash : Keyed s Task.infohash s.infohashMap
  byDataPath : Keyed s Task.getDataPath s.dataPathMap
  objects : ∀ ref < s.nextRef, (s.tasks ref).torrent = ref ∧ (s.tasks ref).notNew = true
  torrentFound : ∀ id ref, s.tasksMap.lookup id = some ref →
    s.torrentMap.lookup (s.tasks ref).torrent = some ref

section Changes

variable (s : Agent)

theorem keysOk_start (settings : SessionSettings) (agentConfig : List ConfigRow) :
    KeysOk (Agent.start settings agentConfig) := by
  refine ⟨Dict.holds_empty _, Dict.holds_empty _, Dict.holds_empty _, Dict.holds_empty _, ?_, ?_⟩
  · intro ref href
    exact absurd href (Nat.not_lt_zero ref)
  · intro id ref hlook
    change (∅ : Dict Int64 TaskRef).lookup id = some ref at hlook
    rw [AList.lookup_empty] at hlook
    contradiction

theorem keysOk_quiet (t : Agent) (h : Quiet s t) (hok : KeysOk s) : KeysOk t := by
  refine ⟨?_, ?_, ?_, ?_, ?_, ?_⟩
  · rw [h.tasksMap]
    exact keyed_quiet s Task.id _ t h (fun _ => rfl) hok.byId
  · rw [h.torrentMap]
    exact keyed_quiet s Task.torrent _ t h (fun _ => rfl) hok.byTorrent
  · rw [h.infohashMap]
    exact keyed_quiet s Task.infohash _ t h (fun _ => rfl) hok.byInfohash
  · rw [h.dataPathMap]
    exact keyed_quiet s Task.getDataPath _ t h (fun _ => rfl) hok.byDataPath
  · intro ref href
    rw [h.nextRef] at href
    rw [h.torrent_eq, h.notNew_eq]
    exact hok.objects ref href
  · intro id ref hlook
    rw [h.tasksMap] at hlook
    rw [h.torrentMap, h.torrent_eq]
    exact hok.torrentFound id ref hlook

theorem referenced_lt (hok : KeysOk s) (ref : TaskRef) (href : Referenced s ref) :
    ref < s.nextRef := by
  cases href with
  | byId id hlook => exact (hok.byId id ref hlook).2
  | byTorrent torrent hlook => exact (hok.byTorrent torrent ref hlook).2
  | byInfohash infohash hlook => exact (hok.byInfohash infohash ref hlook).2
  | byDataPath path hlook => exact (hok.byDataPath path ref hlook).2

theorem keysOk_erase (ref : TaskRef) (href : Referenced s ref) (hok : KeysOk s) :
    KeysOk (s.eraseTaskFromMap (s.tasks ref)) := by
  refine ⟨keyed_erase s Task.id _ _ hok.byId, keyed_erase s Task.torrent _ _ hok.byTorrent,
    keyed_erase s Task.infohash _ _ hok.byInfohash,
    keyed_erase s Task.getDataPath _ _ hok.byDataPath, hok.objects, ?_⟩
  intro id ref' hlook
  obtain ⟨hne, hold⟩ := Dict.lookup_of_erase s.tasksMap _ id ref' hlook
  have hkey := hok.byId id ref' hold
  have htorrent : (s.tasks ref').torrent ≠ (s.tasks ref).torrent := by
    intro heq
    rw [(hok.objects ref' hkey.2).1, (hok.objects ref (referenced_lt s hok ref href)).1] at heq
    rw [← hkey.1, heq] at hne
    exact hne rfl
  show (s.torrentMap.erase (s.tasks ref).torrent).lookup (s.tasks ref').torrent = some ref'
  rw [AList.lookup_erase_ne htorrent]
  exact hok.torrentFound id ref' hold

theorem keysOk_removes (t : Agent) (h : Removes s t) (hok : KeysOk s) : KeysOk t :=
  h.invariant KeysOk (fun s t hquiet => keysOk_quiet s t hquiet)
    (fun s ref href => keysOk_erase s ref href) hok

end Changes

section Place

variable (s : Agent) (t : Task) (torrent : Torrent)

/-- The agent with a new task under all its keys, before the task that it
replaces in `tasks_map_` is let go. -/
def placed : Agent :=
  { s.newTask t torrent with
    tasksMap := s.tasksMap.insert t.id s.nextRef
    torrentMap := s.torrentMap.insert s.nextRef s.nextRef
    infohashMap := s.infohashMap.insert t.infohash s.nextRef
    dataPathMap := s.dataPathMap.insert t.getDataPath s.nextRef }

/-- An insertion lets go of the task that it replaces under its identifier. -/
theorem indexTask_eq (held : List TaskRef) :
    indexTask held s t torrent =
      match s.tasksMap.lookup t.id with
      | none => placed s t torrent
      | some old => (placed s t torrent).dropTask held old := by
  have hobject : (s.newTask t torrent).tasks s.nextRef =
      { t with notNew := true, torrent := s.nextRef } := by
    simp [Agent.newTask]
  unfold indexTask Agent.addTaskToMap
  dsimp only
  rw [hobject]
  rfl

theorem quiet_indexTask (held : List TaskRef) :
    Quiet (placed s t torrent) (indexTask held s t torrent) := by
  rw [indexTask_eq]
  split
  · exact Quiet.refl _
  · exact Quiet.dropTask held _ _

theorem tasks_placed_old (ref : TaskRef) (h : ref < s.nextRef) :
    (placed s t torrent).tasks ref = s.tasks ref :=
  Function.update_of_ne (Nat.ne_of_lt h) _ _

theorem tasks_placed_new :
    (placed s t torrent).tasks s.nextRef = { t with notNew := true, torrent := s.nextRef } :=
  Function.update_self _ _ _

theorem keyed_placed {K : Type*} [DecidableEq K] (key : Task → K) (m : Dict K TaskRef) (k : K)
    (hkey : key { t with notNew := true, torrent := s.nextRef } = k) (h : Keyed s key m) :
    Keyed (placed s t torrent) key (m.insert k s.nextRef) := by
  intro k' ref hlook
  rcases Dict.lookup_of_insert m k k' s.nextRef ref hlook with ⟨rfl, rfl⟩ | ⟨_, hold⟩
  · rw [tasks_placed_new]
    exact ⟨hkey, Nat.lt_succ_self _⟩
  · obtain ⟨hfield, hlt⟩ := h k' ref hold
    rw [tasks_placed_old s t torrent ref hlt]
    exact ⟨hfield, Nat.lt_succ_of_lt hlt⟩

theorem keysOk_placed (hok : KeysOk s) : KeysOk (placed s t torrent) := by
  refine ⟨keyed_placed s t torrent Task.id _ _ rfl hok.byId,
    keyed_placed s t torrent Task.torrent _ _ rfl hok.byTorrent,
    keyed_placed s t torrent Task.infohash _ _ rfl hok.byInfohash,
    keyed_placed s t torrent Task.getDataPath _ _ rfl hok.byDataPath, ?_, ?_⟩
  · intro ref href
    rcases Nat.lt_or_eq_of_le (Nat.le_of_lt_succ href) with hlt | heq
    · rw [tasks_placed_old s t torrent ref hlt]
      exact hok.objects ref hlt
    · rw [heq, tasks_placed_new]
      exact ⟨rfl, rfl⟩
  · intro id ref hlook
    show (s.torrentMap.insert s.nextRef s.nextRef).lookup _ = some ref
    rcases Dict.lookup_of_insert s.tasksMap t.id id s.nextRef ref hlook with ⟨_, rfl⟩ | ⟨_, hold⟩
    · rw [tasks_placed_new]
      exact AList.lookup_insert _
    · have hlt := (hok.byId id ref hold).2
      rw [tasks_placed_old s t torrent ref hlt]
      have hne : (s.tasks ref).torrent ≠ s.nextRef := by
        rw [(hok.objects ref hlt).1]
        exact Nat.ne_of_lt hlt
      rw [AList.lookup_insert_ne hne]
      exact hok.torrentFound id ref hold

theorem keysOk_indexTask (held : List TaskRef) (hok : KeysOk s) :
    KeysOk (indexTask held s t torrent) :=
  keysOk_quiet _ _ (quiet_indexTask s t torrent held) (keysOk_placed s t torrent hok)

end Place

theorem keysOk_next (conf : AgentConfigure) (w : World) (e : Event) (hok : KeysOk w.agent) :
    KeysOk (next conf w e).agent := by
  have hcase := stepCase_next conf w e
  generalize next conf w e = w' at hcase ⊢
  cases hcase with
  | removes hcreated h => exact keysOk_removes w.agent w'.agent h hok
  | indexes t torrent hcreated h =>
    rw [h]
    exact keysOk_indexTask w.agent t torrent w.held hok
  | restarts row hcreated h =>
    rw [h]
    exact keysOk_start _ _

/-- In every reachable state the entries are in step with the objects. -/
theorem keysOk_final (conf : AgentConfigure) (row : Option ConfigRow) (rows : List ConfigRow)
    (events : List Event) :
    KeysOk (final (next conf) (World.start conf row rows) events).agent :=
  final_invariant (next conf) (fun w => KeysOk w.agent) (keysOk_next conf) _ events
    (keysOk_start _ _)

end Gingko.TaskKeys
