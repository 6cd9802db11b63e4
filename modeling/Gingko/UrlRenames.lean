import Gingko.GroupCalls
import Mathlib.Data.Multiset.AddSub

/-!
A task that was added by the url of its torrent gets its infohash later. It is then filed
under the infohash in place of the url, in the map of running tasks or in the list of
finished ones. The two containers here may hold null pointers, as the types allow.
-/
namespace Gingko.UrlRenames

open KeyedMaps Base64Codec AgentTasks GroupTasks GroupCalls

structure Tasks where
  infohashMap : Dict ByteString (Option TaskRef)
  finishedInfohashList : List (ByteString × Option TaskRef)
  finishedInfohashListChanged : Bool

def getFinishedTaskByInfohash (s : Tasks) (infohash : ByteString) : Option TaskRef :=
  if infohash = [] then none
  else (s.finishedInfohashList.find? fun e => e.1 = infohash).bind Prod.snd

/-- `none` is the result -1. -/
def deleteFinishedTaskByInfohash (s : Tasks) (infohash : ByteString) : Option Tasks :=
  if infohash = [] then none
  else (s.finishedInfohashList.find? fun e => e.1 = infohash).map fun e =>
    { s with
      finishedInfohashList := s.finishedInfohashList.erase e
      finishedInfohashListChanged := true }

/-- The task is read from the iterator of the map also when the url was found in the list
alone. `none` is the use of the end iterator. -/
def updateInfohashByTorrentUrl (s : Tasks) (torrentUrl infohash : ByteString) : Option Tasks :=
  if torrentUrl = [] ∨ infohash = [] ∨ infohash.length ≠ 40 then some s
  else
    let itInfohash := s.infohashMap.lookup torrentUrl
    if itInfohash = none ∧ getFinishedTaskByInfohash s torrentUrl = none then some s
    else itInfohash.bind fun task =>
      if itInfohash ≠ none then
        some { s with infohashMap := (insertNew infohash task s.infohashMap).erase torrentUrl }
      else match deleteFinishedTaskByInfohash s torrentUrl with
        | none => some s
        | some deleted => some
          { deleted with
            finishedInfohashList := deleted.finishedInfohashList ++ [(infohash, task)]
            finishedInfohashListChanged := true }

section Cases

variable {s : Tasks} {torrentUrl infohash : ByteString}

/-- What the call does when both arguments are there. -/
theorem update_running (hurl : torrentUrl ≠ []) (hlength : infohash.length = 40)
    {task : Option TaskRef} (hlook : s.infohashMap.lookup torrentUrl = some task) :
    updateInfohashByTorrentUrl s torrentUrl infohash =
      some { s with infohashMap := (insertNew infohash task s.infohashMap).erase torrentUrl } := by
  have hne : infohash ≠ [] := by
    rintro rfl
    cases hlength
  simp [updateInfohashByTorrentUrl, hurl, hne, hlength, hlook]

theorem update_notRunning (hurl : torrentUrl ≠ []) (hlength : infohash.length = 40)
    (hlook : s.infohashMap.lookup torrentUrl = none) :
    updateInfohashByTorrentUrl s torrentUrl infohash =
      if getFinishedTaskByInfohash s torrentUrl = none then some s else none := by
  have hne : infohash ≠ [] := by
    rintro rfl
    cases hlength
  simp [updateInfohashByTorrentUrl, hurl, hne, hlength, hlook]

theorem update_nil : updateInfohashByTorrentUrl s [] infohash = some s := by
  simp [updateInfohashByTorrentUrl]

end Cases

/-- The two models of the call agree on the map, where no pointer of the list is null. -/
theorem updateInfohashByTorrentUrl_map (g : Group) (torrentUrl infohash : ByteString)
    (hurl : torrentUrl ≠ []) (hlength : infohash.length = 40) :
    (updateInfohashByTorrentUrl ⟨g.infohashMap,
      g.finishedInfohashList.map fun e => (e.1, some e.2), false⟩ torrentUrl infohash).map
        Tasks.infohashMap =
      (GroupCalls.updateInfohashByTorrentUrl g torrentUrl infohash).map Group.infohashMap := by
  have hne : infohash ≠ [] := by
    rintro rfl
    cases hlength
  cases hlook : g.infohashMap.lookup torrentUrl with
  | some task =>
    rw [update_running hurl hlength hlook]
    simp [GroupCalls.updateInfohashByTorrentUrl, hurl, hne, hlength, hlook]
  | none =>
    rw [update_notRunning hurl hlength hlook]
    simp only [GroupCalls.updateInfohashByTorrentUrl, getFinishedTaskByInfohash, hurl, hne, hlength,
      hlook, ne_eq, not_true_eq_false, or_self, if_false]
    have hmapped : (g.finishedInfohashList.map fun e => (e.1, some e.2)).find?
        (fun e => e.1 = torrentUrl) = (g.finishedInfohashList.find?
          fun e => e.1 = torrentUrl).map fun e => (e.1, some e.2) := List.find?_map ..
    cases hfind : g.finishedInfohashList.find? fun e => e.1 = torrentUrl with
    | none =>
      have hany : g.finishedInfohashList.any (fun e => e.1 == torrentUrl) = false := by
        simpa using hfind
      simp [hmapped, hfind, hany]
    | some e =>
      have hany : g.finishedInfohashList.any (fun e => e.1 == torrentUrl) = true := by
        refine List.any_eq_true.mpr ⟨e, List.mem_of_find?_eq_some hfind, ?_⟩
        simpa using List.find?_some hfind
      simp [hmapped, hfind, hany]

section Renames

/-- A task object that one of the containers holds. -/
def Tasks.Has (s : Tasks) (ref : TaskRef) : Prop :=
  (∃ k, s.infohashMap.lookup k = some (some ref)) ∨ ∃ k, (k, some ref) ∈ s.finishedInfohashList

/-- The running entry of the url, or else the first finished one, has the infohash for
its key, and all else is as it was. -/
def Rekeys (torrentUrl infohash : ByteString) (s s' : Tasks) : Prop :=
  match s.infohashMap.lookup torrentUrl,
    s.finishedInfohashList.find? fun e => e.1 = torrentUrl with
  | some task, _ =>
    (∀ k, s'.infohashMap.lookup k =
      if k = infohash then some task else if k = torrentUrl then none
      else s.infohashMap.lookup k) ∧
      s'.finishedInfohashList = s.finishedInfohashList
  | none, some e =>
    s'.infohashMap = s.infohashMap ∧
      s'.finishedInfohashList.Perm ((infohash, e.2) :: s.finishedInfohashList.erase e)
  | none, none =>
    s'.infohashMap = s.infohashMap ∧ s'.finishedInfohashList = s.finishedInfohashList

/-- What the call is for. -/
def RenamesOne (s : Tasks) (torrentUrl infohash : ByteString) : Prop :=
  ∃ s', updateInfohashByTorrentUrl s torrentUrl infohash = some s' ∧
    Rekeys torrentUrl infohash s s' ∧ ∀ ref, s.Has ref → s'.Has ref

/-- A running entry whose new key is free, or is of the same task; or no entry at all. A
null entry that is finished is left where it is, so its key would have to be the infohash
already. -/
def Renamable (s : Tasks) (torrentUrl infohash : ByteString) : Prop :=
  match s.infohashMap.lookup torrentUrl,
    s.finishedInfohashList.find? fun e => e.1 = torrentUrl with
  | some task, _ =>
    torrentUrl ≠ [] ∧ torrentUrl ≠ infohash ∧
      (s.infohashMap.lookup infohash = none ∨ s.infohashMap.lookup infohash = some task)
  | none, some e => e.2 = none ∧ torrentUrl = infohash
  | none, none => True

theorem lookup_insertNew (m : Dict ByteString (Option TaskRef)) (infohash k : ByteString)
    (task : Option TaskRef) : (insertNew infohash task m).lookup k =
      if k = infohash then some ((m.lookup infohash).getD task) else m.lookup k := by
  unfold insertNew
  split
  · next hnone =>
    rw [hnone]
    split
    · next heq => rw [heq, AList.lookup_insert, Option.getD_none]
    · next hne => exact AList.lookup_insert_ne hne
  · next other hother =>
    rw [hother]
    split
    · next heq => rw [heq, hother, Option.getD_some]
    · rfl

theorem lookup_renamed (m : Dict ByteString (Option TaskRef)) (torrentUrl infohash k : ByteString)
    (task : Option TaskRef) : ((insertNew infohash task m).erase torrentUrl).lookup k =
      if k = torrentUrl then none
      else if k = infohash then some ((m.lookup infohash).getD task) else m.lookup k := by
  split
  · next heq => rw [heq, AList.lookup_erase]
  · next hne => rw [AList.lookup_erase_ne hne, lookup_insertNew]

section Running

variable {m : Dict ByteString (Option TaskRef)} {torrentUrl infohash : ByteString}
  {task : Option TaskRef}

/-- With another key that is free, or of the same task, only the key of the entry changes. -/
theorem lookup_rekeyed (hother : torrentUrl ≠ infohash)
    (hfree : m.lookup infohash = none ∨ m.lookup infohash = some task) (k : ByteString) :
    ((insertNew infohash task m).erase torrentUrl).lookup k =
      if k = infohash then some task else if k = torrentUrl then none else m.lookup k := by
  have hnew : (m.lookup infohash).getD task = task := by
    obtain hfree | hfree := hfree <;> rw [hfree]
    · exact Option.getD_none
    · exact Option.getD_some
  rw [lookup_renamed, hnew]
  by_cases hk : k = infohash
  · rw [if_neg (fun h => hother (h.symm.trans hk)), if_pos hk, if_pos hk]
  · rw [if_neg hk, if_neg hk]

theorem exists_rekeyed (hother : torrentUrl ≠ infohash)
    (hfree : m.lookup infohash = none ∨ m.lookup infohash = some task)
    (hlook : m.lookup torrentUrl = some task) {k : ByteString} {pointer : Option TaskRef}
    (hk : m.lookup k = some pointer) :
    ∃ k', ((insertNew infohash task m).erase torrentUrl).lookup k' = some pointer := by
  by_cases hkept : k = infohash ∨ k = torrentUrl
  · have hsame : m.lookup k = some task := by
      obtain rfl | rfl := hkept
      · exact hfree.resolve_left (hk ▸ Option.some_ne_none _)
      · exact hlook
    refine ⟨infohash, ?_⟩
    rw [lookup_rekeyed hother hfree, if_pos rfl, ← hsame, hk]
  · obtain ⟨hk₁, hk₂⟩ := not_or.mp hkept
    refine ⟨k, ?_⟩
    rw [lookup_rekeyed hother hfree, if_neg hk₁, if_neg hk₂, hk]

variable {s : Tasks}

/-- An entry under the infohash that was there before stays instead. -/
theorem free_of_renamesOne (hlength : infohash.length = 40)
    (hlook : s.infohashMap.lookup torrentUrl = some task) (h : RenamesOne s torrentUrl infohash) :
    torrentUrl ≠ [] ∧ torrentUrl ≠ infohash ∧
      (s.infohashMap.lookup infohash = none ∨ s.infohashMap.lookup infohash = some task) := by
  obtain ⟨s', hupdate, hrekeys, -⟩ := h
  rw [Rekeys, hlook] at hrekeys
  obtain rfl | hurl := eq_or_ne torrentUrl []
  · have hne : [] ≠ infohash := by
      rintro rfl
      cases hlength
    rw [update_nil, Option.some.injEq] at hupdate
    have hempty := hrekeys.1 []
    rw [← hupdate, hlook, if_neg hne, if_pos rfl] at hempty
    cases hempty
  · rw [update_running hurl hlength hlook, Option.some.injEq] at hupdate
    have hnew := hrekeys.1 infohash
    simp only [← hupdate, lookup_renamed, reduceIte] at hnew
    split at hnew
    · cases hnew
    · next hother =>
      refine ⟨hurl, Ne.symm hother, ?_⟩
      rw [Option.some.injEq] at hnew
      cases hold : s.infohashMap.lookup infohash with
      | none => exact .inl rfl
      | some other =>
        rw [hold, Option.getD_some] at hnew
        exact .inr (congrArg some hnew)

/-- A running entry is renamed as it should be exactly when its new key is another one,
and free or of the same task. -/
theorem renamesOne_running (hlength : infohash.length = 40)
    (hlook : s.infohashMap.lookup torrentUrl = some task) :
    RenamesOne s torrentUrl infohash ↔ torrentUrl ≠ [] ∧ torrentUrl ≠ infohash ∧
      (s.infohashMap.lookup infohash = none ∨ s.infohashMap.lookup infohash = some task) := by
  refine ⟨free_of_renamesOne hlength hlook, ?_⟩
  rintro ⟨hurl, hother, hfree⟩
  refine ⟨_, update_running hurl hlength hlook, ?_, ?_⟩
  · rw [Rekeys, hlook]
    exact ⟨lookup_rekeyed hother hfree, rfl⟩
  · rintro ref (⟨k, hk⟩ | hfinished)
    · exact .inl (exists_rekeyed hother hfree hlook hk)
    · exact .inr hfinished

end Running

theorem renamesOne_finished {s : Tasks} {torrentUrl infohash : ByteString}
    (hlength : infohash.length = 40) {e : ByteString × Option TaskRef}
    (hlook : s.infohashMap.lookup torrentUrl = none)
    (hfind : (s.finishedInfohashList.find? fun e => e.1 = torrentUrl) = some e) :
    RenamesOne s torrentUrl infohash ↔ e.2 = none ∧ torrentUrl = infohash := by
  have hkey : e.1 = torrentUrl := by simpa using List.find?_some hfind
  have hperm := List.perm_cons_erase (List.mem_of_find?_eq_some hfind)
  have hunchanged : Rekeys torrentUrl infohash s s ↔ torrentUrl = infohash := by
    rw [Rekeys, hlook, hfind]
    refine (and_iff_right rfl).trans ⟨fun h => ?_, fun h => ?_⟩
    · have hsame := Multiset.coe_eq_coe.mpr (hperm.symm.trans h)
      rw [← Multiset.cons_coe, ← Multiset.cons_coe, Multiset.cons_inj_left] at hsame
      rw [← hkey, hsame]
    · rwa [← h, ← hkey]
  have hkept : (updateInfohashByTorrentUrl s torrentUrl infohash = some s →
      (RenamesOne s torrentUrl infohash ↔ torrentUrl = infohash)) := by
    intro hupdate
    rw [RenamesOne, hupdate, ← hunchanged]
    constructor
    · rintro ⟨s', heq, hrekeys, -⟩
      cases heq
      exact hrekeys
    · exact fun hrekeys => ⟨s, rfl, hrekeys, fun ref h => h⟩
  obtain rfl | hurl := eq_or_ne torrentUrl []
  · have hne : [] ≠ infohash := by
      rintro rfl
      cases hlength
    rw [hkept update_nil]
    exact iff_of_false hne (fun h => hne h.2)
  · have hupdate := update_notRunning hurl hlength hlook
    have htask : getFinishedTaskByInfohash s torrentUrl = e.2 := by
      rw [getFinishedTaskByInfohash, if_neg hurl, hfind, Option.bind_some]
    rw [htask] at hupdate
    by_cases hnull : e.2 = none
    · rw [if_pos hnull] at hupdate
      rw [hkept hupdate, and_iff_right hnull]
    · rw [if_neg hnull] at hupdate
      refine iff_of_false ?_ (fun h => hnull h.1)
      rintro ⟨s', hs', -⟩
      rw [hupdate] at hs'
      cases hs'

/-- The call does what it is for exactly for a running entry with a new key to have, and
where there is no entry. -/
theorem renamesOne_iff (s : Tasks) (torrentUrl infohash : ByteString)
    (hlength : infohash.length = 40) :
    RenamesOne s torrentUrl infohash ↔ Renamable s torrentUrl infohash := by
  unfold Renamable
  cases hlook : s.infohashMap.lookup torrentUrl with
  | some task => exact renamesOne_running hlength hlook
  | none =>
    cases hfind : s.finishedInfohashList.find? fun e => e.1 = torrentUrl with
    | some e => exact renamesOne_finished hlength hlook hfind
    | none =>
      refine iff_of_true ⟨s, ?_, ?_, fun ref h => h⟩ trivial
      · obtain rfl | hurl := eq_or_ne torrentUrl []
        · exact update_nil
        · rw [update_notRunning hurl hlength hlook, getFinishedTaskByInfohash, if_neg hurl, hfind]
          rfl
      · rw [Rekeys, hlook, hfind]
        exact ⟨rfl, rfl⟩

/-- A running task gets its infohash. -/
theorem renamesOne_iff_sample : RenamesOne
    ⟨(∅ : Dict ByteString (Option TaskRef)).insert [104] (some 0), [], false⟩ [104]
    (List.replicate 40 97) := by
  refine (renamesOne_iff _ _ _ (List.length_replicate)).mpr ?_
  unfold Renamable
  rw [AList.lookup_insert]
  exact ⟨by decide, by decide, .inl rfl⟩

/-- The url of a finished task leads to the end of the map. -/
theorem renamesOne_fails : ¬RenamesOne ⟨∅, [([104], some 0)], false⟩ [104]
    (List.replicate 40 97) := by
  rintro ⟨s', hs', -⟩
  have hupdate : updateInfohashByTorrentUrl ⟨∅, [([104], some 0)], false⟩ [104]
      (List.replicate 40 97) = none := rfl
  rw [hupdate] at hs'
  cases hs'

end Renames
end Gingko.UrlRenames
