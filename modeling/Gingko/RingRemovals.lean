import Gingko.TrackerRings

/-!
Which nodes the ring answers with after any history of additions, removals and
clearings. An addition always leaves every slot with a recorded node. A removal
does so exactly when the slots it frees are all those of the node and not all
those of the ring. Adding a new node and removing it again frees every slot
it fell on, those that other nodes held before included.
-/
namespace Gingko.RingRemovals

open Base64Codec KeyedMaps GuardedRuns OrderedMaps HashRings TrackerRings ConsistentHashRing

/-- What a caller expects of the answers of a ring. -/
structure Membership (s : ConsistentHashRing) : Prop where
  recorded : ∀ key, s.ring.isEmpty = false → getNode key s ∈ s.replicas
  found : (∃ node, node ∈ s.replicas) → ∀ key, ∃ h, s.ring.lookup h = some (getNode key s)

/-- The removal frees all slots of the node, and leaves some slot to the other nodes. -/
def FreesExactly (s : ConsistentHashRing) : Event → Prop
  | .removeNode node => ∀ replicas, s.replicas.lookup node = some replicas →
      (∀ h, s.ring.lookup h = some node → h ∈ slots node replicas) ∧
      ((∃ other, other ≠ node ∧ other ∈ s.replicas) →
        ∃ h v, s.ring.lookup h = some v ∧ h ∉ slots node replicas)
  | _ => True

/-- Each slot holds a node one of whose virtual nodes hashes to it. -/
def Hashed (s : ConsistentHashRing) : Prop :=
  ∀ h v, s.ring.lookup h = some v → ∃ r, slot v r = h

section Histories

theorem hashed_new : Hashed new := by
  intro h v hlook
  simp [new] at hlook

theorem hashed_apply (s : ConsistentHashRing) (e : Event) (hs : Hashed s) :
    Hashed (apply s e) := by
  cases e with
  | clear => exact hashed_new
  | addNode node replicas =>
    intro h v hlook
    change (addNode node replicas s).ring.lookup h = some v at hlook
    rw [lookup_addNode] at hlook
    split at hlook
    · next hmem =>
      obtain ⟨r, _, hr⟩ := (mem_slots node replicas h).mp hmem
      exact ⟨r, by rw [← Option.some.inj hlook, hr]⟩
    · exact hs h v hlook
  | removeNode node =>
    show Hashed (removeNode node s)
    cases hrep : s.replicas.lookup node with
    | none => rw [removeNode_none node s hrep]; exact hs
    | some replicas =>
      rw [removeNode_some node s replicas hrep]
      intro h v hlook
      exact hs h v (lookup_of_clear _ _ h v hlook)

theorem ring_nonempty (s : ConsistentHashRing) (h : Slot) (v : ByteString)
    (hlook : s.ring.lookup h = some v) : s.ring.isEmpty = false := by
  rw [Bool.eq_false_iff]
  intro hempty
  rw [s.ring.isEmpty_iff.mp hempty h] at hlook
  contradiction

theorem recorded_of_slot (s : ConsistentHashRing) (hmember : Membership s) (v : ByteString)
    (r : ℕ) (hlook : s.ring.lookup (slot v r) = some v) : v ∈ s.replicas := by
  have hrecorded := hmember.recorded (vnode v r) (ring_nonempty s _ v hlook)
  rwa [getNode_vnode v r s v hlook] at hrecorded

/-- Every slot can be asked for, so the answers are as good as the slots are. -/
theorem membership_iff (s : ConsistentHashRing) (hs : Hashed s) :
    Membership s ↔ (∀ h v, s.ring.lookup h = some v → v ∈ s.replicas) ∧
      ((∃ node, node ∈ s.replicas) → ∃ h v, s.ring.lookup h = some v) := by
  constructor
  · intro hmember
    refine ⟨?_, fun hnode => ?_⟩
    · intro h v hlook
      obtain ⟨r, rfl⟩ := hs h v hlook
      exact recorded_of_slot s hmember v r hlook
    · obtain ⟨h, hlook⟩ := hmember.found hnode []
      exact ⟨h, _, hlook⟩
  · intro hboth
    obtain ⟨hrecorded, hsome⟩ := hboth
    have howned : ∀ key, s.ring.isEmpty = false →
        ∃ h, s.ring.lookup h = some (getNode key s) := by
      intro key hne
      obtain ⟨e, hown⟩ := exists_owner s.ring (position key) hne
      refine ⟨e.1, ?_⟩
      rw [getNode_of_owner key s e hown]
      exact (owner_least s.ring (position key) e hown).1
    refine ⟨fun key hne => ?_, fun hnode key => ?_⟩
    · obtain ⟨h, hlook⟩ := howned key hne
      exact hrecorded h _ hlook
    · obtain ⟨h, v, hlook⟩ := hsome hnode
      exact howned key (ring_nonempty s h v hlook)

theorem membership_new : Membership new := by
  refine (membership_iff new hashed_new).mpr ⟨fun h v hlook => ?_, fun hnode => ?_⟩
  · simp [new] at hlook
  · obtain ⟨node, hnode⟩ := hnode
    simp [new] at hnode

theorem membership_addNode (s : ConsistentHashRing) (node : ByteString) (replicas : ℕ+)
    (hs : Hashed s) (hmember : Membership s) : Membership (addNode node replicas s) := by
  have hslots := ((membership_iff s hs).mp hmember).1
  have hbase : Hashed (addNode node replicas s) := hashed_apply s (.addNode node replicas) hs
  refine (membership_iff _ hbase).mpr ⟨?_, fun _ => ?_⟩
  · intro h v hlook
    rw [lookup_addNode] at hlook
    show v ∈ s.replicas.insert node replicas
    rw [AList.mem_insert]
    split at hlook
    · exact Or.inl (Option.some.inj hlook).symm
    · exact Or.inr (hslots h v hlook)
  · -- the count is positive, so the node takes at least its first slot
    refine ⟨slot node 0, node, ?_⟩
    rw [lookup_addNode, if_pos ((mem_slots node replicas _).mpr ⟨0, replicas.pos, rfl⟩)]

theorem membership_removeNode (s : ConsistentHashRing) (node : ByteString) (hs : Hashed s)
    (hmember : Membership s) :
    Membership (removeNode node s) ↔ FreesExactly s (.removeNode node) := by
  have hbase := hashed_apply s (.removeNode node) hs
  have hslots := ((membership_iff s hs).mp hmember).1
  cases hrep : s.replicas.lookup node with
  | none =>
    rw [removeNode_none node s hrep]
    refine iff_of_true hmember ?_
    intro replicas hsome
    rw [hrep] at hsome
    contradiction
  | some replicas =>
    change Hashed (removeNode node s) at hbase
    rw [removeNode_some node s replicas hrep] at hbase ⊢
    rw [membership_iff _ hbase]
    simp only [lookup_clear, FreesExactly, hrep, Option.some.injEq, forall_eq', AList.mem_erase]
    constructor
    · intro hboth
      obtain ⟨hleft, hothers⟩ := hboth
      refine ⟨fun h hlook => ?_, fun hother => ?_⟩
      · by_contra hnot
        exact (hleft h node (by rw [if_neg hnot, hlook])).1 rfl
      · obtain ⟨h, v, hlook⟩ := hothers hother
        split at hlook
        · contradiction
        · next hnot => exact ⟨h, v, hlook, hnot⟩
    · intro hboth
      obtain ⟨hfreed, hothers⟩ := hboth
      refine ⟨fun h v hlook => ?_, fun hother => ?_⟩
      · split at hlook
        · contradiction
        · next hnot =>
          refine ⟨?_, hslots h v hlook⟩
          intro heq
          obtain rfl := heq
          exact hnot (hfreed h hlook)
      · obtain ⟨h, v, hlook, hnot⟩ := hothers hother
        exact ⟨h, v, by rw [if_neg hnot, hlook]⟩

theorem membership_apply (s : ConsistentHashRing) (e : Event) (hs : Hashed s)
    (hmember : Membership s) : Membership (apply s e) ↔ FreesExactly s e := by
  cases e with
  | addNode node replicas =>
    exact iff_of_true (membership_addNode s node replicas hs hmember) trivial
  | removeNode node => exact membership_removeNode s node hs hmember
  | clear => exact iff_of_true membership_new trivial

end Histories

section Restoring

/-- Each taken slot is followed, past all slots the node falls on, by a slot of the same name.
The empty name is also what an empty ring answers. -/
def SuccessorsAgree (node : ByteString) (replicas : ℕ) (s : ConsistentHashRing) : Prop :=
  ∀ h ∈ slots node replicas, ∀ v, s.ring.lookup h = some v →
    (∃ next, s.ring.lookup next = some v ∧ next ∉ slots node replicas ∧
      ∀ other w, s.ring.lookup other = some w → other ∉ slots node replicas →
        Clockwise h next other) ∨
    v = [] ∧ ∀ other w, s.ring.lookup other = some w → other ∈ slots node replicas

theorem remove_added (s : ConsistentHashRing) (node : ByteString) (replicas : ℕ+)
    (hnew : node ∉ s.replicas) :
    removeNode node (addNode node replicas s) =
      ⟨clear (slots node replicas) s.ring, s.replicas⟩ := by
  have hrep : (addNode node replicas s).replicas.lookup node = some replicas :=
    AList.lookup_insert s.replicas
  rw [removeNode_some node _ replicas hrep, addNode_ring, clear_place]
  have herase : (s.replicas.insert node replicas).erase node = s.replicas :=
    Dict.erase_insert_new s.replicas node replicas (AList.lookup_eq_none.mpr hnew)
  exact congrArg (ConsistentHashRing.mk _) herase

theorem lookup_clear_iff (taken : List Slot) (m : OrderedMap Slot ByteString) (h : Slot)
    (v : ByteString) :
    (clear taken m).lookup h = some v ↔ m.lookup h = some v ∧ h ∉ taken := by
  rw [lookup_clear]
  split
  · next hmem => simp [hmem]
  · next hnot => simp [hnot]

/-- The answer at a taken slot after it is cleared, read off the slots that stay. -/
theorem successor_iff (node : ByteString) (replicas : ℕ) (m : OrderedMap Slot ByteString)
    (h : Slot) (v : ByteString) :
    ((owner (clear (slots node replicas) m) h).map Prod.snd).getD [] = v ↔
      (∃ next, m.lookup next = some v ∧ next ∉ slots node replicas ∧
        ∀ other w, m.lookup other = some w → other ∉ slots node replicas →
          Clockwise h next other) ∨
      v = [] ∧ ∀ other w, m.lookup other = some w → other ∈ slots node replicas := by
  cases hown : owner (clear (slots node replicas) m) h with
  | none =>
    have hempty := (OrderedMap.isEmpty_iff _).mp ((owner_eq_none_iff _ h).mp hown)
    have hall : ∀ other w, m.lookup other = some w → other ∈ slots node replicas := by
      intro other w hlook
      by_contra hnot
      have hkept := (lookup_clear_iff (slots node replicas) m other w).mpr ⟨hlook, hnot⟩
      rw [hempty other] at hkept
      contradiction
    constructor
    · intro hv
      exact Or.inr ⟨hv.symm, hall⟩
    · intro hcase
      obtain ⟨next, hlook, hnot, _⟩ | ⟨hv, _⟩ := hcase
      · exact absurd (hall next v hlook) hnot
      · exact hv.symm
  | some e =>
    obtain ⟨hlook, hfirst⟩ := owner_least _ h e hown
    obtain ⟨hlookM, hnot⟩ := (lookup_clear_iff _ m e.1 e.2).mp hlook
    have hkept : ∀ other w, m.lookup other = some w → other ∉ slots node replicas →
        Clockwise h e.1 other := by
      intro other w hother hnotOther
      exact hfirst other w ((lookup_clear_iff _ m other w).mpr ⟨hother, hnotOther⟩)
    constructor
    · intro hv
      change e.2 = v at hv
      exact Or.inl ⟨e.1, by rw [hlookM, hv], hnot, hkept⟩
    · intro hcase
      obtain ⟨next, hnext, hnotNext, hmin⟩ | ⟨_, hall⟩ := hcase
      · have hkey : e.1 = next := clockwise_antisymm h e.1 next (hkept next v hnext hnotNext)
          (hmin e.1 e.2 hlookM hnot)
        rw [← hkey, hlookM] at hnext
        exact Option.some.inj hnext
      · exact absurd (hall e.1 e.2 hlookM) hnot

theorem restores_iff (s : ConsistentHashRing) (node : ByteString) (replicas : ℕ+)
    (hnew : node ∉ s.replicas) :
    (∀ key, getNode key (removeNode node (addNode node replicas s)) = getNode key s) ↔
      SuccessorsAgree node replicas s := by
  rw [remove_added s node replicas hnew]
  constructor
  · intro hsame h hmem v hlook
    refine (successor_iff node replicas s.ring h v).mp ?_
    obtain ⟨r, _, rfl⟩ := (mem_slots node replicas h).mp hmem
    have hbefore := getNode_vnode node r s v hlook
    rw [← hsame (vnode node r), getNode_eq] at hbefore
    exact hbefore
  · intro hagree key
    rw [getNode_eq, getNode_eq]
    cases hown : owner s.ring (position key) with
    | none =>
      have hempty := s.ring.isEmpty_iff.mp ((owner_eq_none_iff _ _).mp hown)
      have hcleared : owner (clear (slots node replicas) s.ring) (position key) = none := by
        refine (owner_eq_none_iff _ _).mpr ((OrderedMap.isEmpty_iff _).mpr ?_)
        intro h
        rw [lookup_clear, hempty h, ite_self]
      show ((owner (clear (slots node replicas) s.ring) (position key)).map Prod.snd).getD [] = _
      rw [hcleared]
    | some e =>
      show ((owner (clear (slots node replicas) s.ring) (position key)).map Prod.snd).getD [] = _
      by_cases hmem : e.1 ∈ slots node replicas
      · rw [owner_clear_of_mem _ _ _ e hown]
        have hlook := (owner_least s.ring (position key) e hown).1
        exact (successor_iff node replicas s.ring e.1 e.2).mpr (hagree e.1 hmem e.2 hlook)
      · rw [owner_clear_of_notMem _ _ _ e hown hmem]

end Restoring

/-- Answers stay with recorded nodes through exactly those histories whose removals free the
slots of their node, and at any point adding a node and removing it leaves no trace exactly
when the slots it takes are followed by their own names. -/
theorem membership_of_history (es : List Event) :
    (Throughout apply Membership new es ↔ Guarded apply FreesExactly new es) ∧
    ∀ node (replicas : ℕ+), node ∉ (final apply new es).replicas →
      ((∀ key, getNode key (removeNode node (addNode node replicas (final apply new es))) =
          getNode key (final apply new es)) ↔
        SuccessorsAgree node replicas (final apply new es)) :=
  ⟨throughout_iff_guarded apply FreesExactly Hashed Membership hashed_apply membership_apply
      new es hashed_new membership_new,
    fun node replicas hnew => restores_iff _ node replicas hnew⟩

def staying : ByteString := [113, 119, 52, 57, 99]

/-- Its first virtual node falls on the same slot as that of `staying`. -/
def clashing : ByteString := [109, 56, 104, 56, 119]

example : slot clashing 0 = slot staying 0 := by decide +kernel

def single : ℕ+ := ⟨1, Nat.one_pos⟩

def double : ℕ+ := ⟨2, Nat.two_pos⟩

/-- A node is added beside `staying`, and again with more virtual nodes. -/
def addedAgain : ConsistentHashRing :=
  addNode [97] double (addNode staying double (addNode [97] single new))

def removedAgain : List Event :=
  [.addNode [97] single, .addNode staying double, .addNode [97] double, .removeNode [97]]

theorem slots_apart (h : Slot) (hstaying : h ∈ slots staying 2) : h ∉ slots [97] 2 := by
  have hslot : ∀ q < 2, ∀ r < 2, slot [97] q ≠ slot staying r := by decide +kernel
  intro hremoved
  obtain ⟨r, hr, rfl⟩ := (mem_slots _ _ h).mp hstaying
  obtain ⟨q, hq, heq⟩ := (mem_slots _ _ _).mp hremoved
  exact hslot q hq r hr heq

theorem lookup_addedAgain (h : Slot) (v : ByteString) :
    addedAgain.ring.lookup h = some v ↔
      v = [97] ∧ h ∈ slots [97] 2 ∨ v = staying ∧ h ∈ slots staying 2 := by
  have hapart := slots_apart h
  have hfirst : h ∈ slots [97] 1 → h ∈ slots [97] 2 := by
    simp only [mem_slots]
    intro hmem
    obtain ⟨r, hr, heq⟩ := hmem
    exact ⟨r, by omega, heq⟩
  unfold addedAgain
  rw [lookup_addNode, lookup_addNode, lookup_addNode]
  change (if h ∈ slots [97] 2 then some [97] else if h ∈ slots staying 2 then some staying
    else if h ∈ slots [97] 1 then some [97] else none) = some v ↔ _
  grind

theorem lookup_removedAgain (h : Slot) (v : ByteString) :
    (final apply new removedAgain).ring.lookup h = some v ↔
      v = staying ∧ h ∈ slots staying 2 := by
  change (removeNode [97] addedAgain).ring.lookup h = some v ↔ _
  rw [removeNode_some [97] addedAgain double (AList.lookup_insert _), lookup_clear_iff,
    lookup_addedAgain]
  have hapart := slots_apart h
  have hfreed : h ∉ slots [97] 2 ↔ h ∉ slots [97] (double : ℕ) := Iff.rfl
  grind

theorem membership_of_removedAgain :
    Throughout apply Membership new removedAgain ∧
    ∀ key, getNode key (removeNode clashing (addNode clashing single
      (final apply new removedAgain))) = getNode key (final apply new removedAgain) := by
  obtain ⟨hruns, hrestores⟩ := membership_of_history removedAgain
  have hboth : slot staying 0 ∈ slots staying 2 ∧ slot staying 1 ∈ slots staying 2 := by
    decide +kernel
  refine ⟨hruns.mpr ⟨trivial, trivial, trivial, ?_, trivial⟩, (hrestores clashing single ?_).mpr ?_⟩
  · change FreesExactly addedAgain (.removeNode [97])
    intro replicas hrep
    obtain rfl := Option.some.inj ((AList.lookup_insert _).symm.trans hrep)
    refine ⟨fun h hlook => ?_, fun _ => ⟨slot staying 0, staying, ?_, slots_apart _ hboth.1⟩⟩
    · obtain ⟨_, hmem⟩ | ⟨hname, _⟩ := (lookup_addedAgain h [97]).mp hlook
      · exact hmem
      · exact absurd hname (by decide)
    · exact (lookup_addedAgain _ _).mpr (.inr ⟨rfl, hboth.1⟩)
  · decide +kernel
  · -- the slot they meet on is followed by the other one of `staying`
    intro h hmem v hlook
    obtain ⟨rfl, _⟩ := (lookup_removedAgain h v).mp hlook
    have hother : slot staying 1 ∉ slots clashing 1 := by decide +kernel
    have hmeet : slot staying 0 ∈ slots clashing 1 := by decide +kernel
    left
    refine ⟨slot staying 1, (lookup_removedAgain _ _).mpr ⟨rfl, hboth.2⟩, hother, ?_⟩
    intro other w hlookOther hnot
    obtain ⟨_, hslots⟩ := (lookup_removedAgain other w).mp hlookOther
    obtain ⟨r, hr, rfl⟩ := (mem_slots _ _ other).mp hslots
    obtain rfl | rfl : r = 0 ∨ r = 1 := by omega
    · exact absurd hmeet hnot
    · exact Or.inr ⟨Iff.rfl, le_rfl⟩

/-- Added with two virtual nodes, then with one, the node keeps a slot through its removal. -/
theorem removal_leaves_slot : ¬ ∀ es : List Event, Throughout apply Membership new es ∧
    ∀ node (replicas : ℕ+), node ∉ (final apply new es).replicas →
      ∀ key, getNode key (removeNode node (addNode node replicas (final apply new es))) =
        getNode key (final apply new es) := by
  intro hall
  have hrun := (throughout_iff apply Membership new _).mp
    (hall [.addNode [97] 2, .addNode [97] 1, .removeNode [97]]).1 _ List.prefix_rfl
  change Membership (removeNode [97] (addNode [97] 1 (addNode [97] 2 new))) at hrun
  rw [removeNode_some [97] _ 1 (AList.lookup_insert _)] at hrun
  have hapart : slot [97] 1 ≠ slot [97] 0 := by decide +kernel
  have hnot : slot [97] 1 ∉ slots [97] (1 : ℕ+) := by
    rw [mem_slots]
    intro hboth
    obtain ⟨r, hr, heq⟩ := hboth
    obtain rfl : r = 0 := Nat.lt_one_iff.mp hr
    exact hapart heq.symm
  have hlook : (clear (slots [97] (1 : ℕ+)) (addNode [97] 1 (addNode [97] 2 new)).ring).lookup
      (slot [97] 1) = some [97] := by
    rw [lookup_clear, if_neg hnot, lookup_addNode, if_neg hnot, lookup_addNode,
      if_pos ((mem_slots _ _ _).mpr ⟨1, by decide, rfl⟩)]
  exact (AList.mem_erase.mp (recorded_of_slot _ hrun [97] 1 hlook)).1 rfl

end Gingko.RingRemovals
