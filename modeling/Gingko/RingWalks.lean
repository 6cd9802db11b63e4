import Gingko.RingOrders

/-!
Walks around the ring. From the slot of a key the code goes on to the next slot,
from the last one to the first, until it finds another node or is back where it
started. So the second answer is the first other node in clockwise order.
-/
namespace Gingko.RingWalks

open Base64Codec KeyedMaps OrderedMaps HashRings TrackerRings ConsistentHashRing

section Loop

variable {K N : Type*} [DecidableEq N]

/-- An iterator after one step; past the last entry comes the first. -/
def advance (size it : ℕ) : ℕ := if it + 1 = size then 0 else it + 1

/-- The search for another node, from an iterator on until it meets `it`. It is
undefined when it runs out of fuel. -/
def searchOther (entries : List (K × N)) (it : ℕ) (first : N) : ℕ → ℕ → Option (Option (K × N))
  | 0, _ => none
  | fuel + 1, itNext =>
    if itNext = it then some none
    else
      match entries[itNext]? with
      | none => none
      | some e =>
        if e.2 ≠ first then some (some e)
        else searchOther entries it first fuel (advance entries.length itNext)

variable (entries : List (K × N)) (it : ℕ) (first : N)

/-- One step of the search on an entry that is not the start. -/
theorem searchOther_step (fuel itNext : ℕ) (hne : itNext ≠ it) (hlt : itNext < entries.length)
    (rest : List (K × N))
    (hrest : searchOther entries it first fuel (advance entries.length itNext) =
      some (rest.find? (fun e => e.2 ≠ first))) :
    searchOther entries it first (fuel + 1) itNext =
      some ((entries[itNext] :: rest).find? (fun e => e.2 ≠ first)) := by
  rw [searchOther, if_neg hne, List.getElem?_eq_getElem hlt, List.find?_cons]
  by_cases hother : entries[itNext].2 = first
  · simp only [hother, ne_eq, not_true_eq_false, if_false, decide_false]
    rw [hrest]
  · simp [hother]

/-- Behind the wrap the search goes up to the start. -/
theorem searchOther_wrapped (hit : it < entries.length) (fuel itNext : ℕ) (hle : itNext ≤ it)
    (hfuel : it < fuel + itNext) :
    searchOther entries it first fuel itNext =
      some (((entries.take it).drop itNext).find? (fun e => e.2 ≠ first)) := by
  induction fuel generalizing itNext with
  | zero => omega
  | succ fuel ih =>
    by_cases hend : itNext = it
    · subst hend
      simp [searchOther]
    · have hlt : itNext < (entries.take it).length := by
        rw [List.length_take]
        omega
      have hnext : advance entries.length itNext = itNext + 1 := if_neg (by omega)
      rw [List.drop_eq_getElem_cons hlt, List.getElem_take]
      apply searchOther_step entries it first fuel itNext hend (by omega)
      rw [hnext]
      exact ih (itNext + 1) (by omega) (by omega)

/-- In front of the wrap it goes to the end and then on from the beginning. -/
theorem searchOther_ahead (fuel itNext : ℕ) (hlt : it < itNext) (hle : itNext < entries.length)
    (hfuel : entries.length + it < fuel + itNext) :
    searchOther entries it first fuel itNext =
      some ((entries.drop itNext ++ entries.take it).find? (fun e => e.2 ≠ first)) := by
  induction fuel generalizing itNext with
  | zero => omega
  | succ fuel ih =>
    rw [List.drop_eq_getElem_cons hle, List.cons_append]
    apply searchOther_step entries it first fuel itNext (by omega) hle
    by_cases hlast : itNext + 1 = entries.length
    · have hnext : advance entries.length itNext = 0 := if_pos hlast
      rw [hnext, hlast, List.drop_length, List.nil_append]
      have hwrapped := searchOther_wrapped entries it first (by omega) fuel 0 (by omega) (by omega)
      rwa [List.drop_zero] at hwrapped
    · have hnext : advance entries.length itNext = itNext + 1 := if_neg hlast
      rw [hnext]
      exact ih (itNext + 1) (by omega) (by omega) (by omega)

/-- The whole search visits every other entry once, clockwise. -/
theorem searchOther_eq (hit : it < entries.length) (fuel : ℕ) (hfuel : entries.length ≤ fuel) :
    searchOther entries it first fuel (advance entries.length it) =
      some ((entries.drop (it + 1) ++ entries.take it).find? (fun e => e.2 ≠ first)) := by
  by_cases hlast : it + 1 = entries.length
  · have hnext : advance entries.length it = 0 := if_pos hlast
    have hwrapped := searchOther_wrapped entries it first hit fuel 0 (by omega) (by omega)
    rw [hnext, hwrapped, hlast, List.drop_length, List.nil_append, List.drop_zero]
  · have hnext : advance entries.length it = it + 1 := if_neg hlast
    rw [hnext]
    exact searchOther_ahead entries it first fuel (it + 1) (by omega) (by omega) (by omega)

end Loop

section Order

variable {K N : Type*} [LinearOrder K]

/-- The entry in front of which the walk of a position starts. -/
def startIndex (m : OrderedMap K N) (k : K) : ℕ :=
  let it := m.entries.findIdx (fun e => k ≤ e.1)
  if it = m.entries.length then 0 else it

variable (m : OrderedMap K N)

theorem startIndex_lt (k : K) (h : m.isEmpty = false) : startIndex m k < m.entries.length := by
  have hpos : 0 < m.entries.length := by
    unfold OrderedMap.isEmpty at h
    simpa [List.length_pos_iff] using h
  have hle : m.entries.findIdx (fun e => k ≤ e.1) ≤ m.entries.length := List.findIdx_le_length
  simp only [startIndex]
  split <;> omega

/-- It is the entry that owns the position. -/
theorem owner_startIndex (k : K) : owner m k = m.entries[startIndex m k]? := by
  have hle : m.entries.findIdx (fun e => k ≤ e.1) ≤ m.entries.length := List.findIdx_le_length
  simp only [startIndex, owner, OrderedMap.lowerBound, OrderedMap.front,
    List.find?_eq_getElem?_findIdx]
  split
  · rename_i hend
    rw [hend, List.getElem?_eq_none (le_refl _), Option.none_or, List.head?_eq_getElem?]
  · rename_i hend
    rw [List.getElem?_eq_getElem (by omega), Option.some_or]

/-- The other entries in the order of the search are in clockwise order. -/
theorem walk_clockwise (it : ℕ) (hit : it < m.entries.length) :
    (m.entries.drop (it + 1) ++ m.entries.take it).Pairwise
      (fun a b => Clockwise m.entries[it].1 a.1 b.1) := by
  have hsorted := m.sorted
  rw [← List.take_append_drop it m.entries, List.drop_eq_getElem_cons hit] at hsorted
  obtain ⟨hbefore, hfrom, hcross⟩ := List.pairwise_append.mp hsorted
  obtain ⟨hahead, hafter⟩ := List.pairwise_cons.mp hfrom
  have hwrapped : ∀ e ∈ m.entries.take it, e.1 < m.entries[it].1 := fun e he =>
    hcross e he _ (List.mem_cons_self ..)
  refine List.pairwise_append.mpr ⟨?_, ?_, ?_⟩
  · refine hafter.imp_of_mem ?_
    intro a b ha _ hlt
    exact clockwise_of_ge _ a.1 b.1 (le_of_lt (hahead a ha)) (fun _ => le_of_lt hlt)
  · refine hbefore.imp_of_mem ?_
    intro a b ha hb hlt
    exact clockwise_of_wrapped _ a.1 b.1 (hwrapped a ha) (hwrapped b hb) (le_of_lt hlt)
  · intro a ha b hb
    exact Or.inl ⟨le_of_lt (hahead a ha), hwrapped b hb⟩

/-- Another node on the slot met first clockwise from an entry. -/
structure MetNext (first second : K × N) : Prop where
  held : m.lookup second.1 = some second.2
  differs : second.2 ≠ first.2
  least : ∀ slot node, m.lookup slot = some node → node ≠ first.2 →
    Clockwise first.1 second.1 slot

theorem mem_walk (it : ℕ) (hit : it < m.entries.length) (e : K × N) (h : e ∈ m.entries) :
    e = m.entries[it] ∨ e ∈ m.entries.drop (it + 1) ++ m.entries.take it := by
  rw [← List.take_append_drop it m.entries, List.drop_eq_getElem_cons hit] at h
  simp only [List.mem_append, List.mem_cons] at h ⊢
  tauto

theorem mem_entries_of_walk (it : ℕ) (e : K × N)
    (h : e ∈ m.entries.drop (it + 1) ++ m.entries.take it) : e ∈ m.entries := by
  rcases List.mem_append.mp h with hdrop | htake
  · exact List.mem_of_mem_drop hdrop
  · exact List.mem_of_mem_take htake

/-- What the search finds, and when it finds nothing. -/
theorem find_metNext [DecidableEq N] (it : ℕ) (hit : it < m.entries.length) (second : K × N)
    (h : (m.entries.drop (it + 1) ++ m.entries.take it).find?
      (fun e => e.2 ≠ m.entries[it].2) = some second) : MetNext m m.entries[it] second := by
  obtain ⟨hother, before, after, hsplit, hbefore⟩ := List.find?_eq_some_iff_append.mp h
  have hordered := walk_clockwise m it hit
  rw [hsplit] at hordered
  have hlater := (List.pairwise_cons.mp (List.pairwise_append.mp hordered).2.1).1
  refine ⟨?_, of_decide_eq_true hother, ?_⟩
  · apply (m.mem_entries_iff second.1 second.2).mp
    apply mem_entries_of_walk m it
    rw [hsplit]
    simp
  · intro slot node hlook hnode
    have hmem := (m.mem_entries_iff slot node).mpr hlook
    rcases mem_walk m it hit _ hmem with hstart | hwalk
    · exact absurd (congrArg Prod.snd hstart) hnode
    · rw [hsplit, List.mem_append, List.mem_cons] at hwalk
      rcases hwalk with hin | hsecond | hin
      · have hsame := hbefore _ hin
        simp [hnode] at hsame
      · rw [← hsecond]
        exact Or.inr ⟨Iff.rfl, le_refl _⟩
      · exact hlater _ hin

theorem find_none [DecidableEq N] (it : ℕ) (hit : it < m.entries.length)
    (h : (m.entries.drop (it + 1) ++ m.entries.take it).find?
      (fun e => e.2 ≠ m.entries[it].2) = none) (slot : K) (node : N)
    (hlook : m.lookup slot = some node) : node = m.entries[it].2 := by
  have hmem := (m.mem_entries_iff slot node).mpr hlook
  rcases mem_walk m it hit _ hmem with hstart | hwalk
  · exact congrArg Prod.snd hstart
  · have hsame := List.find?_eq_none.mp h _ hwalk
    simpa using hsame

end Order

def getTwoNodes (fuel : ℕ) (data : ByteString) (s : ConsistentHashRing) :
    Option (List ByteString) :=
  if s.ring.isEmpty then some []
  else
    let it := startIndex s.ring (position data)
    match s.ring.entries[it]? with
    | none => none
    | some e =>
      (searchOther s.ring.entries it e.2 fuel (advance s.ring.entries.length it)).map
        (fun other => e.2 :: (other.map Prod.snd).toList)

/-- The names of the nodes in the order in which a map visits them. -/
def nodeNames (s : ConsistentHashRing) : List ByteString :=
  s.replicas.keys.mergeSort (fun a b => decide (a ≤ b))

def getAllNodes (fuel : ℕ) (data : ByteString) (s : ConsistentHashRing) :
    Option (List ByteString) :=
  (getTwoNodes fuel data s).map (fun selected => selected ++ nodeNames s)

theorem nodeNames_perm (s : ConsistentHashRing) : (nodeNames s).Perm s.replicas.keys :=
  List.mergeSort_perm _ _

/-- The slots hold two different names at least. -/
def TwoNames (s : ConsistentHashRing) : Prop :=
  ∃ a b node other, s.ring.lookup a = some node ∧ s.ring.lookup b = some other ∧ node ≠ other

/-- What the two functions return from the slot that owns the key. -/
structure Selection (data : ByteString) (s : ConsistentHashRing) (first : Slot × ByteString)
    (selected : List ByteString) : Prop where
  owned : owner s.ring (position data) = some first
  head : selected.head? = some (getNode data s)
  two : TwoNames s → ∃ second, MetNext s.ring first second ∧ selected = [first.2, second.2]
  one : ¬ TwoNames s → selected = [first.2]
  returned : ∀ fuel, s.ring.entries.length ≤ fuel → getTwoNodes fuel data s = some selected
  all : ∀ fuel, s.ring.entries.length ≤ fuel →
    getAllNodes fuel data s = some (selected ++ nodeNames s)
  listed : (nodeNames s).Perm s.replicas.keys

/-- What the walk finds on either side decides what is selected. -/
theorem selected_of_walk (data : ByteString) (s : ConsistentHashRing) (it : ℕ)
    (hlt : it < s.ring.entries.length)
    (hown : owner s.ring (position data) = some s.ring.entries[it]) :
    ∃ other : Option (Slot × ByteString),
      (s.ring.entries.drop (it + 1) ++ s.ring.entries.take it).find?
        (fun e => e.2 ≠ s.ring.entries[it].2) = other ∧
      (TwoNames s → ∃ second, MetNext s.ring s.ring.entries[it] second ∧ other = some second) ∧
      (¬ TwoNames s → other = none) := by
  refine ⟨_, rfl, ?_, ?_⟩
  · intro htwo
    obtain ⟨a, b, node, other, ha, hb, hne⟩ := htwo
    cases hfind : (s.ring.entries.drop (it + 1) ++ s.ring.entries.take it).find?
        (fun e => e.2 ≠ s.ring.entries[it].2) with
    | none =>
      have hnode := find_none s.ring it hlt hfind a node ha
      have hother := find_none s.ring it hlt hfind b other hb
      exact absurd (hnode.trans hother.symm) hne
    | some second => exact ⟨second, find_metNext s.ring it hlt second hfind, rfl⟩
  · intro hone
    cases hfind : (s.ring.entries.drop (it + 1) ++ s.ring.entries.take it).find?
        (fun e => e.2 ≠ s.ring.entries[it].2) with
    | none => rfl
    | some second =>
      have hmet := find_metNext s.ring it hlt second hfind
      have hfirst := (owner_least s.ring _ _ hown).1
      exact absurd ⟨_, _, _, _, hmet.held, hfirst, hmet.differs⟩ hone

/-- On a ring that is not empty the walk ends within as many steps as there are
slots, with the node of the key and, if the slots hold another name, the node
that is met first clockwise from there. -/
theorem getTwoNodes_spec (data : ByteString) (s : ConsistentHashRing)
    (h : s.ring.isEmpty = false) : ∃ first selected, Selection data s first selected := by
  have hlt := startIndex_lt s.ring (position data) h
  have hown := owner_startIndex s.ring (position data)
  rw [List.getElem?_eq_getElem hlt] at hown
  obtain ⟨other, hfind, htwo, hone⟩ := selected_of_walk data s _ hlt hown
  have hreturned : ∀ fuel, s.ring.entries.length ≤ fuel → getTwoNodes fuel data s =
      some (s.ring.entries[startIndex s.ring (position data)].2 ::
        (other.map Prod.snd).toList) := by
    intro fuel hfuel
    simp only [getTwoNodes, h, List.getElem?_eq_getElem hlt]
    rw [searchOther_eq _ _ _ hlt fuel hfuel, hfind]
    rfl
  refine ⟨_, _, hown, ?_, ?_, ?_, hreturned, ?_, nodeNames_perm s⟩
  · rw [List.head?_cons, getNode_of_owner data s _ hown]
  · intro hnames
    obtain ⟨second, hmet, hother⟩ := htwo hnames
    exact ⟨second, hmet, by rw [hother]; rfl⟩
  · intro hnames
    rw [hone hnames]
    rfl
  · intro fuel hfuel
    rw [getAllNodes, hreturned fuel hfuel]
    rfl

/-- One slot between the two of another node, the later of which owns the key. -/
def threeSlots : ConsistentHashRing := addNode [98] 1 (addNode [97] 2 new)

theorem getTwoNodes_spec_threeSlots :
    threeSlots.ring.isEmpty = false ∧
      ∃ first selected, Selection [97] threeSlots first selected :=
  ⟨by decide +kernel, getTwoNodes_spec [97] threeSlots (by decide +kernel)⟩

end Gingko.RingWalks
