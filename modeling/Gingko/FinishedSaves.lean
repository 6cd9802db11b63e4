import Gingko.FinishedContents

/-!
The saves of the finished tasks. A save tests the flag and clears it, collects the list
under the lock, then opens the file and writes it. Each of these is a step of its own,
among the steps of the process and of other saves. A change of the list and of its flag
is one step, since both happen under the lock.
-/
namespace Gingko.FinishedSaves

open GroupTasks GroupAdds GroupRemovals GroupCalls AgentTasks FinishedResumes FinishedContents
open GuardedRuns Interleavings

/-- Where a save is: it has found the flag set, it has cleared it, it holds the list that
it has collected, or it has the file open. -/
inductive SavePlace where
  | idle
  | tested
  | begun
  | collected (resumeData : ResumeDict) (collection : ℕ)
  | writing (resumeData : ResumeDict) (opening : ℕ)

/-- `file` is none without a file, and none inside while the file has no dictionary.
`collections` counts the lists that have been collected, `touches` how often the file has
been opened, written or unlinked. -/
structure SaveShared (T : Type) where
  manager : State T
  changed : Bool
  file : Option (Option ResumeDict)
  collections : ℕ
  touches : ℕ

section Steps

variable {T U : Type}

/-- What the file should have, none for no file. -/
def SaveShared.content (sh : SaveShared T) : Option ResumeDict :=
  generateFinishedListResumeFile sh.manager.shared.group

/-- One step of `GenerateFinishedListResumeFile`. The file can be unlinked or opened if
`works`; `left` is what is in it when it has been touched since it was opened. -/
def saveAdvance (sh : SaveShared T) (works : Bool) (left : Option ResumeDict) :
    SavePlace → SaveShared T × SavePlace
  | .idle => if sh.changed then (sh, .tested) else (sh, .idle)
  | .tested => ({ sh with changed := false }, .begun)
  | .begun =>
    match sh.content with
    | none => ({ sh with
        file := if works then none else sh.file
        collections := sh.collections + 1
        touches := sh.touches + 1 }, .idle)
    | some resumeData => ({ sh with collections := sh.collections + 1 },
        .collected resumeData (sh.collections + 1))
  | .collected resumeData _ =>
    if works then ({ sh with file := some none, touches := sh.touches + 1 },
      .writing resumeData (sh.touches + 1))
    else (sh, .idle)
  | .writing resumeData opening =>
    -- an unlinked file stays away
    ({ sh with
      file := sh.file.map fun _ => if sh.touches = opening then some resumeData else left
      touches := sh.touches + 1 }, .idle)

abbrev SaveState (T U : Type) := System U (SaveShared T) SavePlace

/-- The flag is set from the start, whatever the file has. -/
def SaveState.start (settings : GroupSettings) (file : Option (Option ResumeDict)) :
    SaveState T U :=
  ⟨⟨State.start settings, true, file, 0, 0⟩, fun _ => .idle⟩

inductive SaveEvent (T U : Type) where
  | list (e : GroupEnv × ListEvent T)
  | save (u : U) (works : Bool) (left : Option ResumeDict)

variable [DecidableEq T] [DecidableEq U]

def saveStep (s : SaveState T U) (e : SaveEvent T U) : Option (SaveState T U) :=
  match e with
  | .list e => (listStep s.shared.manager e).map fun manager => { s with
      shared := { s.shared with
        manager := manager
        changed := s.shared.changed || setsChanged s.shared.manager e.2 } }
  | .save u works left => some (s.act u (saveAdvance s.shared works left (s.threads u)))

end Steps

section Property

variable {T U : Type}

/-- The save has yet to collect the list. -/
def SavePlace.Pending : SavePlace → Prop
  | .tested | .begun => True
  | _ => False

/-- The flag is clear, and no save (no other one than `u`) has yet to collect the list. -/
def Settled (s : SaveState T U) : Prop :=
  s.shared.changed = false ∧ ∀ v, ¬ (s.threads v).Pending

def SettledBut (s : SaveState T U) (u : U) : Prop :=
  s.shared.changed = false ∧ ∀ v, v ≠ u → ¬ (s.threads v).Pending

/-- With the flag clear and no save in progress, the file has the list. -/
def FileCurrent (s : SaveState T U) : Prop :=
  s.shared.changed = false → (∀ u, s.threads u = .idle) →
    s.shared.file = s.shared.content.map some

/-- Once the flag is clear and no other save will collect the list, no listed task is
written to, the file can be unlinked and opened, and it is opened only for the last list
that has been collected, by one save at a time. -/
def SavesLast (s : SaveState T U) (e : SaveEvent T U) : Prop :=
  match e with
  | .list e => Settled s → ¬ WritesListed s.shared.manager e.2
  | .save u works _ => SettledBut s u →
    match s.threads u with
    | .begun => s.shared.manager.shared.group.finishedInfohashList = [] →
        works = true ∨ s.shared.file = none
    | .collected _ collection => works = true ∧ collection = s.shared.collections ∧
        ∀ v resumeData opening, s.threads v ≠ .writing resumeData opening
    | _ => True

end Property

section Invariant

variable {T U : Type}

/-- How the list gets into the file once nothing will collect it again: the file has it,
or the save with the last list still holds it, or has the file open, alone. -/
inductive Upheld (s : SaveState T U) : Prop
  | done (hfile : s.shared.file = s.shared.content.map some)
      (hstale : ∀ v resumeData collection, s.threads v = .collected resumeData collection →
        collection ≠ s.shared.collections)
      (hclosed : s.shared.file = none ∨
        ∀ v resumeData opening, s.threads v ≠ .writing resumeData opening)
  | held (u : U) (last : ResumeDict) (hcontent : s.shared.content = some last)
      (hu : s.threads u = .collected last s.shared.collections)
      (hstale : ∀ v, v ≠ u → ∀ resumeData collection,
        s.threads v = .collected resumeData collection → collection ≠ s.shared.collections)
  | opened (u : U) (last : ResumeDict) (hcontent : s.shared.content = some last)
      (hu : s.threads u = .writing last s.shared.touches) (hfile : s.shared.file ≠ none)
      (hstale : ∀ v resumeData collection, s.threads v = .collected resumeData collection →
        collection ≠ s.shared.collections)
      (halone : ∀ v, v ≠ u → ∀ resumeData opening,
        s.threads v ≠ .writing resumeData opening)

structure Tracked (s : SaveState T U) : Prop where
  counted : Counted s.shared.manager.shared.group
  stamped : ∀ v resumeData collection, s.threads v = .collected resumeData collection →
    collection ≤ s.shared.collections
  upheld : Settled s → Upheld s

theorem tracked_start (settings : GroupSettings) (file : Option (Option ResumeDict)) :
    Tracked (SaveState.start settings file : SaveState T U) where
  counted := ⟨fun e he => absurd he List.not_mem_nil, fun infohash ref hlook => by
    rw [SaveState.start, State.start, Group.start, AList.lookup_empty] at hlook
    contradiction⟩
  stamped _ _ _ h := by contradiction
  upheld h := Bool.noConfusion h.1

theorem Tracked.fileCurrent {s : SaveState T U} (h : Tracked s) : FileCurrent s := by
  intro hflag hidle
  have hsettled : Settled s := by
    refine ⟨hflag, fun v => ?_⟩
    rw [hidle v]
    exact not_false
  cases h.upheld hsettled with
  | done hfile hstale hclosed => exact hfile
  | held u last hcontent hu hstale =>
    rw [hidle u] at hu
    contradiction
  | opened u last hcontent hu hfile hstale halone =>
    rw [hidle u] at hu
    contradiction

/-- A step of the process moves no save. -/
theorem tracked_list [DecidableEq T] [DecidableEq U] {s s' : SaveState T U}
    {e : GroupEnv × ListEvent T} (h : Tracked s) (hguard : SavesLast s (.list e))
    (hstep : saveStep s (.list e) = some s') : Tracked s' := by
  obtain ⟨manager, hlist, rfl⟩ := Option.map_eq_some_iff.mp hstep
  refine ⟨counted_listStep h.counted hlist, h.stamped, fun hsettled => ?_⟩
  obtain ⟨hchanged, hpending⟩ := hsettled
  obtain ⟨hflag, hunset⟩ := Bool.or_eq_false_iff.mp hchanged
  have hbefore : Settled s := ⟨hflag, hpending⟩
  have hcontent : generateFinishedListResumeFile manager.shared.group = s.shared.content :=
    resumeFile_listStep h.counted hlist hunset (hguard hbefore)
  cases h.upheld hbefore with
  | done hfile hstale hclosed =>
    refine .done ?_ hstale hclosed
    rw [SaveShared.content, hcontent]
    exact hfile
  | held u last hlast hu hstale => exact .held u last (hcontent.trans hlast) hu hstale
  | opened u last hlast hu hfile hstale halone =>
    exact .opened u last (hcontent.trans hlast) hu hfile hstale halone

end Invariant

section Saves

variable {T U : Type} {s : SaveState T U} {u : U}

theorem finishedList_of_content_none {sh : SaveShared T} (h : sh.content = none) :
    sh.manager.shared.group.finishedInfohashList = [] := by
  unfold SaveShared.content generateFinishedListResumeFile at h
  split at h
  · assumption
  · contradiction

theorem settled_of_but (h : SettledBut s u) (hu : ¬ (s.threads u).Pending) : Settled s := by
  refine ⟨h.1, fun v => ?_⟩
  obtain rfl | hv := eq_or_ne v u
  · exact hu
  · exact h.2 v hv

variable [DecidableEq U]

theorem settledBut_of_act {moved : SaveShared T × SavePlace} (h : Settled (s.act u moved))
    (hflag : moved.1.changed = s.shared.changed) : SettledBut s u := by
  refine ⟨hflag ▸ h.1, fun v hv => ?_⟩
  have hother := h.2 v
  rwa [s.act_other u v moved hv] at hother

theorem not_settled_act {moved : SaveShared T × SavePlace} (hpending : moved.2.Pending) :
    ¬ Settled (s.act u moved) := by
  intro h
  have hown := h.2 u
  rw [s.act_self] at hown
  exact hown hpending

/-- A save that is not where the moved one has got to is another one. -/
theorem other_of_act {moved : SaveShared T × SavePlace} {v : U} {place : SavePlace}
    (hv : (s.act u moved).threads v = place) (hmoved : moved.2 ≠ place) :
    v ≠ u ∧ s.threads v = place := by
  obtain rfl | hne := eq_or_ne v u
  · rw [s.act_self] at hv
    exact absurd hv hmoved
  · rw [s.act_other u v moved hne] at hv
    exact ⟨hne, hv⟩

/-- A save keeps the manager, and new stamps are not below the old ones. -/
theorem Tracked.act (h : Tracked s) (moved : SaveShared T × SavePlace)
    (hmanager : moved.1.manager = s.shared.manager)
    (hmore : s.shared.collections ≤ moved.1.collections)
    (hstamp : ∀ resumeData collection, moved.2 = .collected resumeData collection →
      collection ≤ moved.1.collections)
    (hupheld : Settled (s.act u moved) → Upheld (s.act u moved)) : Tracked (s.act u moved) where
  counted := by
    rw [s.act_shared, hmanager]
    exact h.counted
  stamped := by
    apply s.forall_act u moved fun _ place => ∀ resumeData collection,
      place = .collected resumeData collection → collection ≤ moved.1.collections
    · exact hstamp
    · intro v _ resumeData collection hv
      exact Nat.le_trans (h.stamped v resumeData collection hv) hmore
  upheld := hupheld

theorem tracked_idle (h : Tracked s) (works : Bool) (left : Option ResumeDict)
    (hu : s.threads u = .idle) : Tracked (s.act u (saveAdvance s.shared works left .idle)) := by
  rw [saveAdvance]
  split
  · refine h.act _ rfl (Nat.le_refl _) (fun _ _ hcollected => by contradiction) fun hsettled => ?_
    exact absurd hsettled (not_settled_act trivial)
  · have hsame : s.act u (s.shared, .idle) = s := by
      rw [System.act, ← hu, Function.update_eq_self]
    rw [hsame]
    exact h

theorem tracked_tested (h : Tracked s) (works : Bool) (left : Option ResumeDict) :
    Tracked (s.act u (saveAdvance s.shared works left .tested)) := by
  refine h.act _ rfl (Nat.le_refl _) (fun _ _ hcollected => by contradiction) fun hsettled => ?_
  exact absurd hsettled (not_settled_act trivial)

/-- The list that is collected now is the last one. -/
theorem tracked_begun (h : Tracked s) (works : Bool) (left : Option ResumeDict)
    (hu : s.threads u = .begun) (hguard : SavesLast s (.save u works left)) :
    Tracked (s.act u (saveAdvance s.shared works left .begun)) := by
  have holder : ∀ v resumeData collection,
      s.threads v = .collected resumeData collection → collection ≠ s.shared.collections + 1 :=
    fun v resumeData collection hv => Nat.ne_of_lt
      (Nat.lt_succ_of_le (h.stamped v resumeData collection hv))
  rw [saveAdvance]
  cases hcontent : s.shared.content with
  | none =>
    refine h.act _ rfl (Nat.le_succ _) (fun _ _ hcollected => by contradiction) fun hsettled => ?_
    have hbut : SettledBut s u := settledBut_of_act hsettled rfl
    simp only [SavesLast, hu] at hguard
    have hgone : (if works then none else s.shared.file) = none := by
      obtain hworks | hfile := hguard hbut (finishedList_of_content_none hcontent)
      · rw [if_pos hworks]
      · rw [hfile, ite_self]
    refine .done ?_ ?_ (.inl hgone)
    · show (if works then none else s.shared.file) = s.shared.content.map some
      rw [hgone, hcontent]
      rfl
    · intro v resumeData collection hv
      exact holder v resumeData collection (other_of_act hv nofun).2
  | some last =>
    refine h.act _ rfl (Nat.le_succ _) ?_ fun _ => ?_
    · intro resumeData collection hcollected
      rw [← (SavePlace.collected.inj hcollected).2]
    · refine .held u last hcontent (s.act_self ..) ?_
      intro v hne resumeData collection hv
      rw [s.act_other u v _ hne] at hv
      exact holder v resumeData collection hv

/-- When nothing collects again, only the last list goes into the file. -/
theorem tracked_collected (h : Tracked s) (works : Bool) (left : Option ResumeDict)
    (resumeData : ResumeDict) (collection : ℕ) (hu : s.threads u = .collected resumeData collection)
    (hguard : SavesLast s (.save u works left)) :
    Tracked (s.act u (saveAdvance s.shared works left (.collected resumeData collection))) := by
  have hopens : SettledBut s u → works = true ∧ collection = s.shared.collections ∧
      ∀ v resumeData opening, s.threads v ≠ .writing resumeData opening := by
    simpa only [SavesLast, hu] using hguard
  rw [saveAdvance]
  split
  · refine h.act _ rfl (Nat.le_refl _) (fun _ _ hcollected => by contradiction) fun hsettled => ?_
    have hbut : SettledBut s u := settledBut_of_act hsettled rfl
    obtain ⟨-, rfl, hclosed⟩ := hopens hbut
    have hbefore : Settled s := settled_of_but hbut (by rw [hu]; exact not_false)
    cases h.upheld hbefore with
    | done hfile hstale _ => exact absurd rfl (hstale u resumeData _ hu)
    | opened w last _ hw _ _ _ => exact absurd hw (hclosed w last _)
    | held w last hcontent hw hstale =>
      have hsame : u = w := by
        by_contra hne
        exact hstale u hne resumeData _ hu rfl
      subst hsame
      obtain rfl := (SavePlace.collected.inj (hu.symm.trans hw)).1
      refine .opened u resumeData hcontent (s.act_self ..) (by simp) ?_ ?_
      · intro v other collection hv
        obtain ⟨hne, hbefore⟩ := other_of_act hv nofun
        exact hstale v hne other collection hbefore
      · intro v hne other opening hv
        rw [s.act_other u v _ hne] at hv
        exact hclosed v other opening hv
  · rename_i hfails
    refine h.act _ rfl (Nat.le_refl _) (fun _ _ hcollected => by contradiction) fun hsettled => ?_
    exact absurd (hopens (settledBut_of_act hsettled rfl)).1 hfails

/-- The save that is alone with the file puts the last list into it. -/
theorem tracked_writing (h : Tracked s) (works : Bool) (left : Option ResumeDict)
    (resumeData : ResumeDict) (opening : ℕ) (hu : s.threads u = .writing resumeData opening) :
    Tracked (s.act u (saveAdvance s.shared works left (.writing resumeData opening))) := by
  rw [saveAdvance]
  refine h.act _ rfl (Nat.le_refl _) (fun _ _ hcollected => by contradiction) fun hsettled => ?_
  have hbefore : Settled s := settled_of_but (settledBut_of_act hsettled rfl)
    (by rw [hu]; exact not_false)
  cases h.upheld hbefore with
  | done hfile hstale hclosed =>
    have hgone : s.shared.file = none :=
      hclosed.resolve_right fun hnobody => hnobody u resumeData opening hu
    refine .done ?_ ?_ (.inl (by simp [hgone]))
    · rw [hgone] at hfile
      simpa [SaveShared.content, hgone] using hfile
    · intro v other collection hv
      exact hstale v other collection (other_of_act hv nofun).2
  | held w last hcontent hw hstale =>
    have hne : w ≠ u := by
      rintro rfl
      rw [hu] at hw
      contradiction
    refine .held w last hcontent ((s.act_other u w _ hne).trans hw) ?_
    intro v hv other collection hcollected
    exact hstale v hv other collection (other_of_act hcollected nofun).2
  | opened w last hcontent hw hfile hstale halone =>
    have hsame : u = w := by
      by_contra hne
      exact halone u hne resumeData opening hu
    subst hsame
    obtain ⟨rfl, rfl⟩ := SavePlace.writing.inj (hu.symm.trans hw)
    obtain ⟨old, hold⟩ := Option.ne_none_iff_exists'.mp hfile
    refine .done ?_ ?_ (.inr ?_)
    · show s.shared.file.map _ = s.shared.content.map some
      rw [hold, hcontent, Option.map_some, if_pos rfl, Option.map_some]
    · intro v other collection hv
      exact hstale v other collection (other_of_act hv nofun).2
    · intro v other opening hv
      obtain ⟨hne, hbefore⟩ := other_of_act hv nofun
      exact halone v hne other opening hbefore

end Saves

section Results

variable {T U : Type} [DecidableEq T] [DecidableEq U]

theorem tracked_step {s s' : SaveState T U} {e : SaveEvent T U} (h : Tracked s)
    (hguard : SavesLast s e) (hstep : saveStep s e = some s') : Tracked s' := by
  cases e with
  | list e => exact tracked_list h hguard hstep
  | save u works left =>
    obtain rfl := Option.some.inj hstep
    cases hu : s.threads u with
    | idle => exact tracked_idle h works left hu
    | tested => exact tracked_tested h works left
    | begun => exact tracked_begun h works left hu hguard
    | collected resumeData collection =>
      exact tracked_collected h works left resumeData collection hu hguard
    | writing resumeData opening => exact tracked_writing h works left resumeData opening hu

/-- The file has the list in every state of a run whose saves keep it. -/
theorem finished_list_saved (settings : GroupSettings) (file : Option (Option ResumeDict))
    (es : List (SaveEvent T U)) (s : SaveState T U)
    (hrun : Path saveStep SavesLast (SaveState.start settings file) es s) : FileCurrent s := by
  have htracked : Tracked s := by
    apply hrun.invariant Tracked
    · intro s e s' h hguard hstep
      exact tracked_step h hguard hstep
    · exact tracked_start settings file
  exact htracked.fileCurrent

end Results

section Samples

/-- The only task finishes before the only save begins, which takes five steps if the file
opens and four if not. -/
def sampleSave (works : Bool) : List (SaveEvent Unit Unit) :=
  (sampleStart :: sampleFinish 0).map (fun e => .list (e.1, .process e.2)) ++
    List.replicate (if works then 5 else 4) (.save () works none)

/-- The list is saved while nothing else happens. -/
theorem finished_list_saved_once : ∃ s : SaveState Unit Unit,
    Path saveStep SavesLast (SaveState.start ⟨0, 0, 0⟩ none) (sampleSave true) s ∧
      s.shared.changed = false ∧ finishedKeys s.shared.manager.shared.group = [sampleHash] ∧
      s.shared.file ≠ none ∧ FileCurrent s := by
  have hlist : ∀ (s : SaveState Unit Unit) (e : GroupEnv × ListEvent Unit),
      s.shared.changed = true → SavesLast s (.list e) :=
    fun s e hset hsettled => absurd (hset.symm.trans hsettled.1) (by decide)
  have hrun : ∃ s : SaveState Unit Unit,
      Path saveStep SavesLast (SaveState.start ⟨0, 0, 0⟩ none) (sampleSave true) s ∧
        s.shared.changed = false ∧ finishedKeys s.shared.manager.shared.group = [sampleHash] ∧
        s.shared.file.isSome = true ∧ s.threads () = .idle := by
    refine ⟨_, .cons _ _ _ _ _ rfl (hlist _ _ rfl) <| .cons _ _ _ _ _ rfl (hlist _ _ rfl) <|
      .cons _ _ _ _ _ rfl (hlist _ _ rfl) <| .cons _ _ _ _ _ rfl (hlist _ _ rfl) <|
      .cons _ _ _ _ _ rfl (hlist _ _ rfl) <| .cons _ _ _ _ _ rfl (hlist _ _ rfl) <|
      .cons _ _ _ _ _ rfl (hlist _ _ rfl) <| .cons _ _ _ _ _ rfl (fun _ => trivial) <|
      .cons _ _ _ _ _ rfl (fun _ => trivial) <| .cons _ _ _ _ _ rfl (fun _ _ => .inl rfl) <|
      .cons _ _ _ _ _ rfl (fun _ => ⟨rfl, rfl, fun _ _ _ => nofun⟩) <|
      .cons _ _ _ _ _ rfl (fun _ => trivial) <| .nil _, rfl, rfl, rfl, rfl⟩
  obtain ⟨s, hpath, hflag, hkeys, hfile, -⟩ := hrun
  exact ⟨s, hpath, hflag, hkeys, Option.isSome_iff_ne_none.mp hfile,
    finished_list_saved _ _ _ s hpath⟩

/-- The save that cannot open the file has cleared the flag before. -/
theorem unopened_file_stays_stale : ∃ s : SaveState Unit Unit,
    (sampleSave false).foldlM saveStep (SaveState.start ⟨0, 0, 0⟩ none) = some s ∧
      finishedKeys s.shared.manager.shared.group = [sampleHash] ∧ ¬ FileCurrent s := by
  have hsteps : ∃ s : SaveState Unit Unit,
      (sampleSave false).foldlM saveStep (SaveState.start ⟨0, 0, 0⟩ none) = some s ∧
        finishedKeys s.shared.manager.shared.group = [sampleHash] ∧ s.shared.changed = false ∧
        s.threads () = .idle ∧ s.shared.file = none := ⟨_, rfl, rfl, rfl, rfl, rfl⟩
  obtain ⟨s, hfold, hkeys, hflag, hidle, hfile⟩ := hsteps
  refine ⟨s, hfold, hkeys, fun hcurrent => ?_⟩
  have hfile' := hcurrent hflag fun _ => hidle
  rw [hfile] at hfile'
  have hempty := finishedList_of_content_none (Option.map_eq_none_iff.mp hfile'.symm)
  rw [finishedKeys, hempty] at hkeys
  contradiction

end Samples
end Gingko.FinishedSaves
