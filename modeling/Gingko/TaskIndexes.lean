import Gingko.TaskKeys

/-!
The agreement of the agent's four maps. Removing a task that is indexed keeps
it; creating one keeps it exactly when no task of `tasks_map_` has the new id,
infohash or data path. The conflict test looks for one conflicting task only,
and it is over before the insertion takes the lock again.
-/
namespace Gingko.TaskIndexes

open KeyedMaps Base64Codec AgentMessages AgentTasks AgentAdds AgentRequests AgentRuns AgentChanges
  TaskKeys GuardedRuns

/-- Every task is found under its infohash and its data path, every entry is of
a task, and no two tasks have one of them in common. -/
structure IndexesAgree (s : Agent) : Prop where
  infohashFound : ∀ id ref, s.tasksMap.lookup id = some ref →
    s.infohashMap.lookup (s.tasks ref).infohash = some ref
  dataPathFound : ∀ id ref, s.tasksMap.lookup id = some ref →
    s.dataPathMap.lookup (s.tasks ref).getDataPath = some ref
  infohashListed : ∀ k ref, s.infohashMap.lookup k = some ref → ref ∈ Dict.values s.tasksMap
  dataPathListed : ∀ k ref, s.dataPathMap.lookup k = some ref → ref ∈ Dict.values s.tasksMap
  torrentListed : ∀ k ref, s.torrentMap.lookup k = some ref → ref ∈ Dict.values s.tasksMap
  infohashDistinct : ∀ id id' ref ref', s.tasksMap.lookup id = some ref →
    s.tasksMap.lookup id' = some ref' → (s.tasks ref).infohash = (s.tasks ref').infohash → id = id'
  dataPathDistinct : ∀ id id' ref ref', s.tasksMap.lookup id = some ref →
    s.tasksMap.lookup id' = some ref' → (s.tasks ref).getDataPath = (s.tasks ref').getDataPath →
      id = id'

/-- No task of `tasks_map_` has the id, the infohash or the data path of the new one. -/
def Clear (s : Agent) (t : Task) : Prop :=
  ∀ id ref, s.tasksMap.lookup id = some ref → (s.tasks ref).id ≠ t.id ∧
    (s.tasks ref).infohash ≠ t.infohash ∧ (s.tasks ref).getDataPath ≠ t.getDataPath

section Shared

variable {K : Type*} [DecidableEq K] (s : Agent) (key : Task → K) (m : Dict K TaskRef)

/-- One of the two maps by content: tasks are found by their key, and entries are tasks. -/
structure MapAgrees : Prop where
  found : ∀ id ref, s.tasksMap.lookup id = some ref → m.lookup (key (s.tasks ref)) = some ref
  listed : ∀ k ref, m.lookup k = some ref → ref ∈ Dict.values s.tasksMap

variable {s key m}

/-- Tasks that are found by their key do not share it. -/
theorem MapAgrees.distinct (h : MapAgrees s key m) (hok : KeysOk s) (id id' : Int64)
    (ref ref' : TaskRef) (hlook : s.tasksMap.lookup id = some ref)
    (hlook' : s.tasksMap.lookup id' = some ref') (heq : key (s.tasks ref) = key (s.tasks ref')) :
    id = id' := by
  have hfound := h.found id ref hlook
  rw [heq, h.found id' ref' hlook'] at hfound
  have hsame : ref' = ref := Option.some.inj hfound
  rw [← (hok.byId id ref hlook).1, ← (hok.byId id' ref' hlook').1, hsame]

end Shared

theorem indexesAgree_iff (s : Agent) (hok : KeysOk s) :
    IndexesAgree s ↔ MapAgrees s Task.infohash s.infohashMap ∧
      MapAgrees s Task.getDataPath s.dataPathMap ∧
      ∀ k ref, s.torrentMap.lookup k = some ref → ref ∈ Dict.values s.tasksMap := by
  constructor
  · intro h
    exact ⟨⟨h.infohashFound, h.infohashListed⟩, ⟨h.dataPathFound, h.dataPathListed⟩,
      h.torrentListed⟩
  · intro hboth
    obtain ⟨hinfohash, hdataPath, htorrent⟩ := hboth
    exact ⟨hinfohash.found, hdataPath.found, hinfohash.listed, hdataPath.listed, htorrent,
      hinfohash.distinct hok, hdataPath.distinct hok⟩

theorem indexesAgree_start (settings : SessionSettings) (agentConfig : List ConfigRow) :
    IndexesAgree (Agent.start settings agentConfig) := by
  apply (indexesAgree_iff _ (keysOk_start settings agentConfig)).mpr
  exact ⟨⟨Dict.holds_empty _, Dict.holds_empty _⟩, ⟨Dict.holds_empty _, Dict.holds_empty _⟩,
    Dict.holds_empty _⟩

section Remove

variable (s : Agent)

theorem mapAgrees_quiet {K : Type*} [DecidableEq K] (key : Task → K) (m : Dict K TaskRef)
    (t : Agent) (hquiet : Quiet s t) (hkey : ∀ task, key (fixed task) = key task)
    (h : MapAgrees s key m) : MapAgrees t key m := by
  refine ⟨?_, ?_⟩
  · intro id ref hlook
    rw [hquiet.tasksMap] at hlook
    rw [hquiet.field_eq key hkey]
    exact h.found id ref hlook
  · intro k ref hlook
    rw [hquiet.tasksMap]
    exact h.listed k ref hlook

theorem indexesAgree_quiet (t : Agent) (hok : KeysOk s) (hquiet : Quiet s t)
    (h : IndexesAgree s) : IndexesAgree t := by
  obtain ⟨hinfohash, hdataPath, htorrent⟩ := (indexesAgree_iff s hok).mp h
  apply (indexesAgree_iff t (keysOk_quiet s t hquiet hok)).mpr
  rw [hquiet.infohashMap, hquiet.dataPathMap, hquiet.torrentMap, hquiet.tasksMap]
  exact ⟨mapAgrees_quiet s Task.infohash _ t hquiet (fun _ => rfl) hinfohash,
    mapAgrees_quiet s Task.getDataPath _ t hquiet (fun _ => rfl) hdataPath, htorrent⟩

theorem listed_of_referenced (h : IndexesAgree s) (ref : TaskRef) (href : Referenced s ref) :
    ref ∈ Dict.values s.tasksMap := by
  cases href with
  | byId id hlook => exact (Dict.mem_values_iff _ ref).mpr ⟨id, hlook⟩
  | byTorrent torrent hlook => exact h.torrentListed torrent ref hlook
  | byInfohash infohash hlook => exact h.infohashListed infohash ref hlook
  | byDataPath path hlook => exact h.dataPathListed path ref hlook

theorem mem_values_eraseTask (hok : KeysOk s) (ref ref' : TaskRef)
    (hmem : ref ∈ Dict.values s.tasksMap) :
    ref' ∈ Dict.values (s.tasksMap.erase (s.tasks ref).id) ↔
      ref' ∈ Dict.values s.tasksMap ∧ ref' ≠ ref := by
  obtain ⟨id, hlook⟩ := (Dict.mem_values_iff _ ref).mp hmem
  have hid := (hok.byId id ref hlook).1
  rw [hid]
  apply Dict.mem_values_erase _ _ _ _ hlook
  intro id' hlook'
  rw [← hid, (hok.byId id' ref hlook').1]

theorem mapAgrees_erase {K : Type*} [DecidableEq K] (key : Task → K) (m : Dict K TaskRef)
    (hok : KeysOk s) (hkeyed : Keyed s key m) (h : MapAgrees s key m) (ref : TaskRef)
    (hmem : ref ∈ Dict.values s.tasksMap) :
    MapAgrees (s.eraseTaskFromMap (s.tasks ref)) key (m.erase (key (s.tasks ref))) := by
  obtain ⟨id, href⟩ := (Dict.mem_values_iff _ ref).mp hmem
  refine ⟨?_, ?_⟩
  · intro id' ref' hlook
    obtain ⟨hne, hold⟩ := Dict.lookup_of_erase s.tasksMap _ id' ref' hlook
    have hkey : key (s.tasks ref') ≠ key (s.tasks ref) := by
      intro heq
      have hid := h.distinct hok id' id ref' ref hold href heq
      rw [hid, (hok.byId id ref href).1] at hne
      exact hne rfl
    show (m.erase (key (s.tasks ref))).lookup (key (s.tasks ref')) = some ref'
    rw [AList.lookup_erase_ne hkey]
    exact h.found id' ref' hold
  · intro k ref' hlook
    obtain ⟨hne, hold⟩ := Dict.lookup_of_erase m _ k ref' hlook
    apply (mem_values_eraseTask s hok ref ref' hmem).mpr
    refine ⟨h.listed k ref' hold, ?_⟩
    intro heq
    rw [heq] at hold
    exact hne (hkeyed k ref hold).1.symm

theorem indexesAgree_erase (hok : KeysOk s) (ref : TaskRef) (href : Referenced s ref)
    (h : IndexesAgree s) : IndexesAgree (s.eraseTaskFromMap (s.tasks ref)) := by
  have hmem := listed_of_referenced s h ref href
  obtain ⟨hinfohash, hdataPath, htorrent⟩ := (indexesAgree_iff s hok).mp h
  apply (indexesAgree_iff _ (keysOk_erase s ref href hok)).mpr
  refine ⟨mapAgrees_erase s Task.infohash _ hok hok.byInfohash hinfohash ref hmem,
    mapAgrees_erase s Task.getDataPath _ hok hok.byDataPath hdataPath ref hmem, ?_⟩
  intro k ref' hlook
  obtain ⟨hne, hold⟩ := Dict.lookup_of_erase s.torrentMap _ k ref' hlook
  apply (mem_values_eraseTask s hok ref ref' hmem).mpr
  refine ⟨htorrent k ref' hold, ?_⟩
  intro heq
  rw [heq] at hold
  exact hne (hok.byTorrent k ref hold).1.symm

theorem indexesAgree_removes (t : Agent) (hremoves : Removes s t) (hok : KeysOk s)
    (h : IndexesAgree s) : IndexesAgree t := by
  have hboth := hremoves.invariant (fun s => KeysOk s ∧ IndexesAgree s) ?_ ?_ ⟨hok, h⟩
  · exact hboth.2
  · intro s t hquiet hboth
    obtain ⟨hok, h⟩ := hboth
    exact ⟨keysOk_quiet s t hquiet hok, indexesAgree_quiet s t hok hquiet h⟩
  · intro s ref href hboth
    obtain ⟨hok, h⟩ := hboth
    exact ⟨keysOk_erase s ref href hok, indexesAgree_erase s hok ref href h⟩

end Remove

section Place

variable (s : Agent) (t : Task) (torrent : Torrent)

theorem mem_values_placed (ref : TaskRef) (hfree : s.tasksMap.lookup t.id = none) :
    ref ∈ Dict.values (placed s t torrent).tasksMap ↔
      ref = s.nextRef ∨ ref ∈ Dict.values s.tasksMap :=
  Dict.mem_values_insert_new s.tasksMap t.id s.nextRef ref hfree

theorem free_of_clear (hok : KeysOk s) (hclear : Clear s t) : s.tasksMap.lookup t.id = none := by
  cases hlook : s.tasksMap.lookup t.id with
  | none => rfl
  | some ref => exact absurd (hok.byId t.id ref hlook).1 (hclear t.id ref hlook).1

theorem mapAgrees_placed {K : Type*} [DecidableEq K] (key : Task → K) (m : Dict K TaskRef) (k : K)
    (hkey : key { t with notNew := true, torrent := s.nextRef } = k) (hok : KeysOk s)
    (hfree : s.tasksMap.lookup t.id = none)
    (hnew : ∀ id ref, s.tasksMap.lookup id = some ref → key (s.tasks ref) ≠ k)
    (h : MapAgrees s key m) : MapAgrees (placed s t torrent) key (m.insert k s.nextRef) := by
  refine ⟨?_, ?_⟩
  · intro id ref hlook
    rcases Dict.lookup_of_insert s.tasksMap t.id id s.nextRef ref hlook with ⟨_, rfl⟩ | ⟨_, hold⟩
    · rw [tasks_placed_new, hkey]
      exact AList.lookup_insert m
    · rw [tasks_placed_old s t torrent ref (hok.byId id ref hold).2,
        AList.lookup_insert_ne (hnew id ref hold)]
      exact h.found id ref hold
  · intro k' ref hlook
    apply (mem_values_placed s t torrent ref hfree).mpr
    rcases Dict.lookup_of_insert m k k' s.nextRef ref hlook with ⟨_, rfl⟩ | ⟨_, hold⟩
    · exact Or.inl rfl
    · exact Or.inr (h.listed k' ref hold)

theorem indexesAgree_placed (hok : KeysOk s) (h : IndexesAgree s) (hclear : Clear s t) :
    IndexesAgree (placed s t torrent) := by
  have hfree := free_of_clear s t hok hclear
  obtain ⟨hinfohash, hdataPath, htorrent⟩ := (indexesAgree_iff s hok).mp h
  apply (indexesAgree_iff _ (keysOk_placed s t torrent hok)).mpr
  refine ⟨mapAgrees_placed s t torrent Task.infohash _ _ rfl hok hfree
      (fun id ref hlook => (hclear id ref hlook).2.1) hinfohash,
    mapAgrees_placed s t torrent Task.getDataPath _ _ rfl hok hfree
      (fun id ref hlook => (hclear id ref hlook).2.2) hdataPath, ?_⟩
  intro k ref hlook
  apply (mem_values_placed s t torrent ref hfree).mpr
  rcases Dict.lookup_of_insert s.torrentMap s.nextRef k s.nextRef ref hlook with
    ⟨_, rfl⟩ | ⟨_, hold⟩
  · exact Or.inl rfl
  · exact Or.inr (htorrent k ref hold)

/-- A task that loses its id to the new one keeps its torrent's entry. -/
theorem id_clear_of_placed (hok : KeysOk s) (h : IndexesAgree (placed s t torrent)) (id : Int64)
    (ref : TaskRef) (hlook : s.tasksMap.lookup id = some ref) : (s.tasks ref).id ≠ t.id := by
  intro heq
  obtain ⟨hid, hlt⟩ := hok.byId id ref hlook
  have htorrent := hok.torrentFound id ref hlook
  rw [(hok.objects ref hlt).1] at htorrent
  have hkept : (placed s t torrent).torrentMap.lookup ref = some ref := by
    show (s.torrentMap.insert s.nextRef s.nextRef).lookup ref = some ref
    rw [AList.lookup_insert_ne (Nat.ne_of_lt hlt)]
    exact htorrent
  obtain ⟨id', hlook'⟩ := (Dict.mem_values_iff _ ref).mp (h.torrentListed ref ref hkept)
  rcases Dict.lookup_of_insert s.tasksMap t.id id' s.nextRef ref hlook' with
    ⟨_, hnew⟩ | ⟨hne, hold⟩
  · exact absurd hnew (Nat.ne_of_lt hlt)
  · rw [← (hok.byId id' ref hold).1, heq] at hne
    exact hne rfl

/-- A task that keeps its id is not found by a key that it shares with the new one. -/
theorem key_clear_of_placed {K : Type*} [DecidableEq K] (key : Task → K) (m : Dict K TaskRef)
    (k : K) (hok : KeysOk s) (h : MapAgrees (placed s t torrent) key (m.insert k s.nextRef))
    (id : Int64) (ref : TaskRef) (hlook : s.tasksMap.lookup id = some ref)
    (hid : (s.tasks ref).id ≠ t.id) : key (s.tasks ref) ≠ k := by
  intro heq
  obtain ⟨hkey, hlt⟩ := hok.byId id ref hlook
  have hkept : (placed s t torrent).tasksMap.lookup id = some ref := by
    show (s.tasksMap.insert t.id s.nextRef).lookup id = some ref
    rw [AList.lookup_insert_ne (by rw [← hkey]; exact hid)]
    exact hlook
  have hfound := h.found id ref hkept
  rw [tasks_placed_old s t torrent ref hlt, heq, AList.lookup_insert] at hfound
  exact absurd (Option.some.inj hfound).symm (Nat.ne_of_lt hlt)

theorem clear_of_placed (hok : KeysOk s) (h : IndexesAgree (placed s t torrent)) : Clear s t := by
  obtain ⟨hinfohash, hdataPath, _⟩ :=
    (indexesAgree_iff _ (keysOk_placed s t torrent hok)).mp h
  intro id ref hlook
  have hid := id_clear_of_placed s t torrent hok h id ref hlook
  exact ⟨hid, key_clear_of_placed s t torrent Task.infohash _ _ hok hinfohash id ref hlook hid,
    key_clear_of_placed s t torrent Task.getDataPath _ _ hok hdataPath id ref hlook hid⟩

theorem indexesAgree_indexTask (held : List TaskRef) (hok : KeysOk s) (h : IndexesAgree s) :
    IndexesAgree (indexTask held s t torrent) ↔ Clear s t := by
  have hquiet := quiet_indexTask s t torrent held
  constructor
  · intro hnew
    apply clear_of_placed s t torrent hok
    exact indexesAgree_quiet _ _ (keysOk_indexTask s t torrent held hok) hquiet.symm hnew
  · intro hclear
    exact indexesAgree_quiet _ _ (keysOk_placed s t torrent hok) hquiet
      (indexesAgree_placed s t torrent hok h hclear)

end Place

/-- A task that the event creates is clear of the tasks there are. -/
def CreatesClear (w : World) (e : Event) : Prop :=
  ∀ created, createdTask w e = some created → Clear w.agent created.1

theorem indexesAgree_next (conf : AgentConfigure) (w : World) (e : Event) (hok : KeysOk w.agent)
    (h : IndexesAgree w.agent) : IndexesAgree (next conf w e).agent ↔ CreatesClear w e := by
  have hcase := stepCase_next conf w e
  generalize next conf w e = w' at hcase ⊢
  have hquiet : createdTask w e = none → CreatesClear w e := by
    intro hnone created hcreated
    rw [hnone] at hcreated
    contradiction
  cases hcase with
  | removes hcreated hremoves =>
    exact iff_of_true (indexesAgree_removes w.agent w'.agent hremoves hok h) (hquiet hcreated)
  | indexes t torrent hcreated hagent =>
    rw [hagent, indexesAgree_indexTask w.agent t torrent w.held hok h]
    constructor
    · intro hclear created hsome
      rw [hcreated] at hsome
      rw [← Option.some.inj hsome]
      exact hclear
    · intro hcreates
      exact hcreates (t, torrent) hcreated
  | restarts row hcreated hworld =>
    rw [hworld]
    exact iff_of_true (indexesAgree_start _ _) (hquiet hcreated)

/-- Over every run of the agent, the four maps agree throughout precisely when
each created task is clear of the tasks of `tasks_map_`. -/
theorem indexes_agree_iff (conf : AgentConfigure) (row : Option ConfigRow)
    (rows : List ConfigRow) (events : List Event) :
    Throughout (next conf) (fun w => IndexesAgree w.agent) (World.start conf row rows) events ↔
      Guarded (next conf) CreatesClear (World.start conf row rows) events := by
  apply throughout_iff_guarded (next conf) CreatesClear (fun w => KeysOk w.agent)
  · exact keysOk_next conf
  · exact indexesAgree_next conf
  · exact keysOk_start _ _
  · exact indexesAgree_start _ _

/-- The third task has the torrent of the first one and the path of the second. -/
def crossedConflicts : List Event :=
  addedAtOnce 0 (user 1001) (addFile .nocheckTask [1] [10]) (answering 1) ++
    addedAtOnce 0 (user 1001) (addFile .nocheckTask [2] [11]) (answering 2) ++
      addedAtOnce 0 (user 1001) (addFile .nocheckTask [1] [11]) (answering 3)

theorem path_shared : ¬ Throughout (next plainConf) (fun w => IndexesAgree w.agent)
    (World.start plainConf none []) crossedConflicts := by
  intro h
  have hlast := (throughout_iff _ _ _ _).mp h crossedConflicts List.prefix_rfl
  have hsecond : (final (next plainConf) (World.start plainConf none [])
      crossedConflicts).agent.tasksMap.lookup 2 = some 1 := by
    decide
  have hthird : (final (next plainConf) (World.start plainConf none [])
      crossedConflicts).agent.tasksMap.lookup 3 = some 2 := by
    decide
  exact absurd (hlast.dataPathDistinct 2 3 1 2 hsecond hthird (by decide)) (by decide)

end Gingko.TaskIndexes
