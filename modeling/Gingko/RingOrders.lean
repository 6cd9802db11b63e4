import Gingko.TrackerRings

/-!
Rings built from one list of trackers in two orders. A slot that several
trackers hash to belongs to the one listed last, so the two rings answer alike
exactly when each slot has the same last tracker in both orders.
-/
namespace Gingko.RingOrders

open Base64Codec OrderedMaps HashRings TrackerRings ConsistentHashRing

/-- The ring after one call for each name, with the default count of virtual nodes. -/
def fill (s : ConsistentHashRing) (nodes : List ByteString) : ConsistentHashRing :=
  nodes.foldl (fun s node => addNode node defaultReplicas s) s

def filled (nodes : List ByteString) : ConsistentHashRing := fill new nodes

/-- The last listed node with a virtual node on the slot. -/
def lastOn (h : Slot) : List ByteString → Option ByteString
  | [] => none
  | node :: rest =>
      (lastOn h rest).or (if h ∈ slots node defaultReplicas then some node else none)

theorem lookup_fill (nodes : List ByteString) (s : ConsistentHashRing) (h : Slot) :
    (fill s nodes).ring.lookup h = (lastOn h nodes).or (s.ring.lookup h) := by
  induction nodes generalizing s with
  | nil => simp [fill, lastOn]
  | cons node rest ih =>
    have hstep : fill s (node :: rest) = fill (addNode node defaultReplicas s) rest :=
      List.foldl_cons ..
    rw [hstep, ih, lookup_addNode, lastOn]
    by_cases hmem : h ∈ slots node defaultReplicas <;> cases lastOn h rest <;> simp [hmem]

theorem lookup_filled (nodes : List ByteString) (h : Slot) :
    (filled nodes).ring.lookup h = lastOn h nodes := by
  unfold filled
  rw [lookup_fill]
  simp [new]

theorem lastOn_some (h : Slot) (nodes : List ByteString) (node : ByteString)
    (hlast : lastOn h nodes = some node) : node ∈ nodes ∧ h ∈ slots node defaultReplicas := by
  induction nodes with
  | nil => simp [lastOn] at hlast
  | cons first rest ih =>
    unfold lastOn at hlast
    cases hrest : lastOn h rest with
    | some other =>
      rw [hrest, Option.some_or] at hlast
      have hboth := ih (hrest.trans hlast)
      exact ⟨List.mem_cons_of_mem first hboth.1, hboth.2⟩
    | none =>
      rw [hrest, Option.none_or] at hlast
      split at hlast
      · next hmem =>
        obtain rfl : first = node := Option.some.inj hlast
        exact ⟨List.mem_cons_self .., hmem⟩
      · contradiction

theorem lastOn_isSome (h : Slot) (nodes : List ByteString) (node : ByteString)
    (hin : node ∈ nodes) (hmem : h ∈ slots node defaultReplicas) :
    ∃ last, lastOn h nodes = some last := by
  induction nodes with
  | nil => simp at hin
  | cons first rest ih =>
    unfold lastOn
    rcases List.mem_cons.mp hin with rfl | hrest
    · cases lastOn h rest with
      | some last => exact ⟨last, rfl⟩
      | none => exact ⟨node, by rw [Option.none_or, if_pos hmem]⟩
    · obtain ⟨last, hlast⟩ := ih hrest
      exact ⟨last, by rw [hlast, Option.some_or]⟩

theorem lastOn_of_distinct (h : Slot) (nodes : List ByteString) (node : ByteString)
    (hin : node ∈ nodes) (hmem : h ∈ slots node defaultReplicas)
    (halone : ∀ other ∈ nodes, h ∈ slots other defaultReplicas → other = node) :
    lastOn h nodes = some node := by
  obtain ⟨last, hlast⟩ := lastOn_isSome h nodes node hin hmem
  obtain ⟨hlastIn, hlastOn⟩ := lastOn_some h nodes last hlast
  rw [hlast, halone last hlastIn hlastOn]

/-- A virtual node of the last tracker on a slot, taken as a key, tells who holds the slot. -/
theorem lastOn_of_agreement (nodes others : List ByteString) (h : Slot) (node : ByteString)
    (hsame : ∀ key, getNode key (filled nodes) = getNode key (filled others))
    (hin : node ∈ others) (hlast : lastOn h nodes = some node) :
    lastOn h others = some node := by
  have hmem := (lastOn_some h nodes node hlast).2
  obtain ⟨r, _, rfl⟩ := (mem_slots node defaultReplicas h).mp hmem
  obtain ⟨last, hother⟩ := lastOn_isSome (slot node r) others node hin hmem
  have hleft := getNode_vnode node r (filled nodes) node (by rw [lookup_filled, hlast])
  have hright := getNode_vnode node r (filled others) last (by rw [lookup_filled, hother])
  rw [hother, ← hright, ← hsame, hleft]

theorem agreement_of_lastOn (nodes others : List ByteString)
    (hlast : ∀ h, lastOn h nodes = lastOn h others) (key : ByteString) :
    getNode key (filled nodes) = getNode key (filled others) := by
  have hring : (filled nodes).ring = (filled others).ring := by
    apply OrderedMap.ext_lookup
    intro h
    rw [lookup_filled, lookup_filled, hlast h]
  rw [getNode_eq, getNode_eq, hring]

/-- Two orders of one list give the same answers exactly when no slot changes its last tracker. -/
theorem agreement_iff (nodes others : List ByteString) (hperm : nodes.Perm others) :
    (∀ key, getNode key (filled nodes) = getNode key (filled others)) ↔
      ∀ h, lastOn h nodes = lastOn h others := by
  constructor
  · intro hsame h
    cases hlast : lastOn h nodes with
    | some node =>
      have hin := hperm.mem_iff.mp (lastOn_some h nodes node hlast).1
      exact (lastOn_of_agreement nodes others h node hsame hin hlast).symm
    | none =>
      cases hother : lastOn h others with
      | none => rfl
      | some node =>
        have hin := hperm.mem_iff.mpr (lastOn_some h others node hother).1
        have hback := lastOn_of_agreement others nodes h node (fun key => (hsame key).symm)
          hin hother
        rw [hlast] at hback
        contradiction
  · exact agreement_of_lastOn nodes others

theorem agreement_iff_swapped :
    (∀ key, getNode key (filled [[97], [98]]) = getNode key (filled [[98], [97]])) ↔
      ∀ h, lastOn h [[97], [98]] = lastOn h [[98], [97]] :=
  agreement_iff [[97], [98]] [[98], [97]] (List.Perm.swap _ _ _)

/-- Trackers that share no slot are found alike in every order. -/
theorem agreement_of_disjoint (nodes others : List ByteString) (hperm : nodes.Perm others)
    (hdisjoint : ∀ a ∈ nodes, ∀ b ∈ nodes, ∀ h, h ∈ slots a defaultReplicas →
      h ∈ slots b defaultReplicas → a = b) (key : ByteString) :
    getNode key (filled nodes) = getNode key (filled others) := by
  apply agreement_of_lastOn
  intro h
  cases hnode : lastOn h nodes with
  | some node =>
    obtain ⟨hin, hmem⟩ := lastOn_some h nodes node hnode
    refine (lastOn_of_distinct h others node (hperm.mem_iff.mp hin) hmem ?_).symm
    intro other hother hon
    exact hdisjoint other (hperm.mem_iff.mpr hother) node hin h hon hmem
  | none =>
    cases hother : lastOn h others with
    | none => rfl
    | some node =>
      obtain ⟨hin, hmem⟩ := lastOn_some h others node hother
      obtain ⟨last, hsome⟩ := lastOn_isSome h nodes node (hperm.mem_iff.mpr hin) hmem
      rw [hnode] at hsome
      contradiction

section SharedSlot

/-- The text `2.3.4.5 80`, as a tracker list gives host and port. -/
def shortHost : ByteString := [50, 46, 51, 46, 52, 46, 53, 32, 56, 48]

/-- The text `12.3.4.5 801`. -/
def longHost : ByteString := [49, 50, 46, 51, 46, 52, 46, 53, 32, 56, 48, 49]

/-- Both names spell out the same virtual node, and the name listed last gets its slot. -/
theorem order_decides : ¬ ∀ nodes others : List ByteString, nodes.Perm others →
    ∀ key, getNode key (filled nodes) = getNode key (filled others) := by
  intro hall
  have hsame := hall _ _ (List.Perm.swap longHost shortHost [])
  have hshared : slot shortHost 11 = slot longHost 1 := by rfl
  have hshort : slot shortHost 11 ∈ slots shortHost defaultReplicas :=
    (mem_slots _ _ _).mpr ⟨11, by decide, rfl⟩
  have hlong : slot shortHost 11 ∈ slots longHost defaultReplicas :=
    (mem_slots _ _ _).mpr ⟨1, by decide, hshared.symm⟩
  have hkept := lastOn_of_agreement [shortHost, longHost] [longHost, shortHost]
    (slot shortHost 11) longHost hsame (by simp)
  simp only [lastOn, if_pos hshort, if_pos hlong, Option.none_or, Option.some_or] at hkept
  exact absurd (Option.some.inj (hkept trivial)) (by decide)

end SharedSlot
end Gingko.RingOrders
