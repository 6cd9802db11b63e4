import Gingko.TaskKeys

/-!
The ways in which an add request can end. Until its torrent is read it has
used up stored metadata at most. From there the conflict test refuses it, its
creation fails, with or without an older task removed before, or it succeeds.
-/
namespace Gingko.AddOutcomes

open KeyedMaps Base64Codec AgentMessages AgentTasks AgentAdds AgentRequests AgentRuns AgentChanges
  TaskKeys

/-- The end of an add request whose torrent has been read. -/
inductive PlaceCase (env : AddEnv) (held : List TaskRef) (message : AddTask) (ti : TorrentInfo)
    (s : Agent) : Handled → Prop
  | refused (dup : TaskRef) (hdup : findDup held message.task s = some dup)
      (hway : givesWay message.task s dup = false) :
      PlaceCase env held message ti s ⟨s, some Error.dupTaskError.failure, []⟩
  | failed (f : Failure) (hdup : findDup held message.task s = none)
      (hcreate : createTask env message ti = .error f) :
      PlaceCase env held message ti s ⟨s, some f, []⟩
  | failedLate (dup : TaskRef) (f : Failure) (hdup : findDup held message.task s = some dup)
      (hway : givesWay message.task s dup = true) (hcreate : createTask env message ti = .error f) :
      PlaceCase env held message ti s ⟨quitTask s dup, some f, []⟩
  | added (s' : Agent) (t : Task) (torrent : Torrent)
      (hremoved : removeDup held message.task s = (s', none))
      (hcreate : createTask env message ti = .ok (t, torrent)) :
      PlaceCase env held message ti s
        ⟨indexTask held s' t torrent, none, [.task ⟨t.id, none⟩]⟩

section Place

variable (env : AddEnv) (held : List TaskRef) (message : AddTask) (ti : TorrentInfo) (s : Agent)

theorem placeTask_added (s' : Agent) (t : Task) (torrent : Torrent)
    (hremoved : removeDup held message.task s = (s', none))
    (hcreate : createTask env message ti = .ok (t, torrent)) :
    placeTask env held message ti s =
      ⟨indexTask held s' t torrent, none, [.task ⟨t.id, none⟩]⟩ := by
  simp only [placeTask, hremoved, insertTask, hcreate]

theorem placeTask_cases : PlaceCase env held message ti s (placeTask env held message ti s) := by
  cases hdup : findDup held message.task s with
  | none =>
    have hremoved : removeDup held message.task s = (s, none) := by
      simp only [removeDup, hdup]
    cases hcreate : createTask env message ti with
    | error f =>
      have hplace : placeTask env held message ti s = ⟨s, some f, []⟩ := by
        simp only [placeTask, hremoved, insertTask, hcreate]
      rw [hplace]
      exact .failed f hdup hcreate
    | ok created =>
      rw [placeTask_added env held message ti s s created.1 created.2 hremoved hcreate]
      exact .added s created.1 created.2 hremoved hcreate
  | some dup =>
    cases hway : givesWay message.task s dup with
    | false =>
      have hplace : placeTask env held message ti s =
          ⟨s, some Error.dupTaskError.failure, []⟩ := by
        simp [placeTask, removeDup, hdup, hway]
      rw [hplace]
      exact .refused dup hdup hway
    | true =>
      have hremoved : removeDup held message.task s = (quitTask s dup, none) := by
        simp [removeDup, hdup, hway]
      cases hcreate : createTask env message ti with
      | error f =>
        have hplace : placeTask env held message ti s = ⟨quitTask s dup, some f, []⟩ := by
          simp only [placeTask, hremoved, insertTask, hcreate]
        rw [hplace]
        exact .failedLate dup f hdup hway hcreate
      | ok created =>
        rw [placeTask_added env held message ti s _ created.1 created.2 hremoved hcreate]
        exact .added _ created.1 created.2 hremoved hcreate

end Place

/-- The request takes stored metadata, whatever becomes of it then. -/
def UsesMetadata (t : TaskInfo) (s : Agent) : Prop :=
  t.torrentPath = none ∧ t.data = none ∧ ∃ infohash, t.infohash = some infohash ∧
    (if infohash.length = 40 then hexstrToBytes infohash else none).isSome = true ∧
    (takeMeta infohash s.metas).isSome = true

section Read

variable (env : AddEnv) (ec : ErrorCode) (t : TaskInfo) (s : Agent)

theorem takeMeta_length (infohash : ByteString) (metas : List MetadataEntry)
    (found : MetadataEntry × List MetadataEntry) (h : takeMeta infohash metas = some found) :
    found.2.length < metas.length := by
  induction metas generalizing found with
  | nil => contradiction
  | cons entry rest ih =>
    unfold takeMeta at h
    split at h
    · rw [← Option.some.inj h]
      exact Nat.lt_succ_self _
    · obtain ⟨found', hfound', rfl⟩ := Option.map_eq_some_iff.mp h
      have hrest := ih found' hfound'
      simp only [List.length_cons]
      omega

/-- Reading the torrent changes the stored metadata only, and only if it takes some. -/
theorem readTorrent_metas :
    (readTorrent env ec t s).1 = s ∧ ¬ UsesMetadata t s ∨
      (readTorrent env ec t s).1.metas.length < s.metas.length ∧ UsesMetadata t s := by
  unfold readTorrent
  cases hpath : t.torrentPath with
  | some path =>
    refine Or.inl ⟨rfl, ?_⟩
    intro hboth
    obtain ⟨hnone, _⟩ := hboth
    rw [hpath] at hnone
    contradiction
  | none =>
    cases hdata : t.data with
    | some data =>
      refine Or.inl ⟨rfl, ?_⟩
      intro hboth
      obtain ⟨_, hnone, _⟩ := hboth
      rw [hdata] at hnone
      contradiction
    | none =>
      cases hinfohash : t.infohash with
      | none =>
        refine Or.inl ⟨rfl, ?_⟩
        intro hboth
        obtain ⟨_, _, infohash, hsome, _⟩ := hboth
        rw [hinfohash] at hsome
        contradiction
      | some infohash =>
        dsimp only
        unfold readInfohash
        cases hhex : (if infohash.length = 40 then hexstrToBytes infohash else none) with
        | none =>
          refine Or.inl ⟨rfl, ?_⟩
          intro hboth
          obtain ⟨_, _, infohash', hsome, hbytes, _⟩ := hboth
          rw [hinfohash] at hsome
          rw [← Option.some.inj hsome, hhex] at hbytes
          contradiction
        | some bytes =>
          cases htake : takeMeta infohash s.metas with
          | none =>
            refine Or.inl ⟨by simp [getMetaByInfohash, htake], ?_⟩
            intro hboth
            obtain ⟨_, _, infohash', hsome, _, hfound⟩ := hboth
            rw [hinfohash] at hsome
            rw [← Option.some.inj hsome, htake] at hfound
            contradiction
          | some found =>
            refine Or.inr ⟨?_, hpath, hdata, infohash, hinfohash, by rw [hhex]; rfl,
              by rw [htake]; rfl⟩
            simp only [getMetaByInfohash, htake]
            exact takeMeta_length infohash s.metas found htake

end Read

section Metas

variable (s : Agent)

theorem metas_dropTask (held : List TaskRef) (ref : TaskRef) :
    (s.dropTask held ref).metas = s.metas := by
  unfold Agent.dropTask
  split
  · rfl
  · rfl

theorem metas_indexTask (held : List TaskRef) (t : Task) (torrent : Torrent) :
    (indexTask held s t torrent).metas = s.metas := by
  unfold indexTask Agent.addTaskToMap
  dsimp only
  split
  · rfl
  · exact metas_dropTask _ held _

theorem metas_removeDup (held : List TaskRef) (t : TaskInfo) :
    (removeDup held t s).1.metas = s.metas := by
  unfold removeDup
  split
  · rfl
  · split
    · rfl
    · rfl

theorem metas_placeTask (env : AddEnv) (held : List TaskRef) (message : AddTask)
    (ti : TorrentInfo) : (placeTask env held message ti s).agent.metas = s.metas := by
  have hcase := placeTask_cases env held message ti s
  generalize placeTask env held message ti s = h at hcase ⊢
  cases hcase with
  | refused dup hdup hway => rfl
  | failed f hdup hcreate => rfl
  | failedLate dup f hdup hway hcreate => rfl
  | added s' t torrent hremoved hcreate =>
    have hmetas := metas_removeDup s held message.task
    rw [hremoved] at hmetas
    exact (metas_indexTask s' held t torrent).trans hmetas

theorem metas_addTaskAs (env : AddEnv) (held : List TaskRef) (cred : Ucred) (message : AddTask)
    (ec : ErrorCode) : (addTaskAs env held cred message ec s).agent.metas =
      (readTorrent env ec (setCred cred message.task) s).1.metas := by
  unfold addTaskAs
  split
  · rename_i hread
    rw [hread]
  · rename_i hread
    rw [hread]
    exact metas_placeTask _ env held _ _

end Metas

/-- The maps lose an entry when an older task has to go. -/
theorem quitTask_ne (held : List TaskRef) (t : TaskInfo) (s : Agent) (dup : TaskRef)
    (hok : KeysOk s) (hdup : findDup held t s = some dup) : quitTask s dup ≠ s := by
  intro heq
  unfold findDup at hdup
  split at hdup
  · rename_i ref hlook
    rw [lock_eq_some held s ref dup hdup] at heq
    have hgone : (quitTask s ref).infohashMap.lookup (s.tasks ref).infohash = none :=
      AList.lookup_erase _ _
    rw [heq, (hok.byInfohash _ ref hlook).1, hlook] at hgone
    contradiction
  · have hlook := bind_lock_eq_some held s _ dup hdup
    have hgone : (quitTask s dup).dataPathMap.lookup (s.tasks dup).getDataPath = none :=
      AList.lookup_erase _ _
    rw [heq, (hok.byDataPath _ dup hlook).1, hlook] at hgone
    contradiction

end Gingko.AddOutcomes
