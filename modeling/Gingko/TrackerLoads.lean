import Gingko.CommandTexts
import Gingko.MachineRooms
import Gingko.RingWalks

/-!
The trackers of a client. There are two rings, one in use and a spare one, which
a load clears and fills with the trackers of the area it chooses. The rings
change places only when the spare one has got a tracker. A tracker is kept as
one text of its host and its port, which is read back for every answer.
-/
namespace Gingko.TrackerLoads

open Base64Codec KeyedMaps OrderedMaps HashRings TrackerRings ConsistentHashRing
open RingOrders RingWalks
open TrackerState (cString)
open CommandTexts (cString_of_ne_zero digit_bounds)
open MachineRooms (getLocalMachineRoom trimMachineRoomDigit isDigit)

section Texts

structure Tracker where
  host : ByteString
  port : Int32
  deriving DecidableEq

def space : UInt8 := 32

def minus : UInt8 := 45

def decimal (i : ℤ) : ByteString :=
  if i < 0 then minus :: TrackerRings.toString i.natAbs else TrackerRings.toString i.natAbs

/-- The text of a tracker without the bound of the buffer. -/
def hostPort (tracker : Tracker) : ByteString :=
  cString tracker.host ++ space :: decimal tracker.port.toInt

/-- What the buffer of 256 bytes has room for. -/
def nodeText (tracker : Tracker) : ByteString := (hostPort tracker).take 255

def isSpace (letter : UInt8) : Bool := letter = space || 9 ≤ letter && letter ≤ 13

/-- A word of a stream and the rest behind it; at the end of the stream the word is empty. -/
def readWord (text : ByteString) : ByteString × ByteString :=
  (text.dropWhile isSpace).span (fun letter => !isSpace letter)

def number (digits : ByteString) : ℕ :=
  digits.foldl (fun value letter => 10 * value + (letter.toNat - 48)) 0

/-- A number of 16 bits from a stream: its greatest value where the number does
not fit, and the negative modulo 2 ^ 16. At the end of the stream nothing is
stored. -/
def readPort (text : ByteString) : Option ℕ :=
  match text.dropWhile isSpace with
  | [] => none
  | sign :: rest =>
    let digits := if sign = minus ∨ sign = 43 then rest else sign :: rest
    let value := number (digits.takeWhile isDigit)
    if 65535 < value then some 65535
    else if sign = minus then some ((65536 - value) % 65536)
    else some value

/-- A host and a port; without a number in the text the port is never assigned. -/
abbrev TrackerPair := ByteString × Option ℤ

def readNode (text : ByteString) : TrackerPair :=
  let word := readWord text
  (word.1, (readPort word.2).map Int.ofNat)

def Tracker.pair (tracker : Tracker) : TrackerPair := (tracker.host, some tracker.port.toInt)

end Texts

section Loads

structure TrackerArea where
  machineRoom : List ByteString
  tracker : List Tracker
  deriving DecidableEq

structure TrackerConf where
  area : List TrackerArea
  default_ : TrackerArea

structure ThriftTracker where
  trackersHashring : Bool → ConsistentHashRing
  currentTrackersHashringIndex : Bool
  idc : ByteString

namespace ThriftTracker

def new : ThriftTracker := ⟨fun _ => ConsistentHashRing.new, false, []⟩

def current (s : ThriftTracker) : ConsistentHashRing :=
  s.trackersHashring s.currentTrackersHashringIndex

def spare (s : ThriftTracker) : ConsistentHashRing :=
  s.trackersHashring (!s.currentTrackersHashringIndex)

def setSpare (ring : ConsistentHashRing) (s : ThriftTracker) : ThriftTracker :=
  { s with trackersHashring :=
      Function.update s.trackersHashring (!s.currentTrackersHashringIndex) ring }

def swap (s : ThriftTracker) : ThriftTracker :=
  { s with currentTrackersHashringIndex := !s.currentTrackersHashringIndex }

def loadArea (area : TrackerArea) (s : ThriftTracker) : ThriftTracker :=
  area.tracker.foldl
    (fun s tracker => s.setSpare (addNode (nodeText tracker) defaultReplicas s.spare)) s

end ThriftTracker

open ThriftTracker

/-- The first area with the room, or the default one. -/
def chosenArea (machineRoom : ByteString) (trackerConf : TrackerConf) : TrackerArea :=
  let findArea (area : TrackerArea) := area.machineRoom.any (fun room => machineRoom = room)
  match trackerConf.area.find? findArea with
  | some area => area
  | none => trackerConf.default_

/-- What a load finds: the name of the host, and the configuration if it can be read. -/
structure Load where
  hostname : ByteString
  conf : Option TrackerConf

def loadThriftTrackers (load : Load) (s : ThriftTracker) : ThriftTracker × Bool :=
  let s := s.setSpare ConsistentHashRing.new
  let s := { s with idc := (getLocalMachineRoom load.hostname s.idc).1 }
  let machineRoomWithoutDigit := trimMachineRoomDigit s.idc
  match load.conf with
  | none => (s, false)
  | some trackerConf =>
    let s := s.loadArea (chosenArea machineRoomWithoutDigit trackerConf)
    if s.spare.ring.isEmpty then (s, false) else (s.swap, true)

def getTrackersByInfohash (fuel : ℕ) (infohash : ByteString) (trackers : List TrackerPair)
    (s : ThriftTracker) : Option (List TrackerPair) :=
  (getAllNodes fuel infohash s.current).map
    (fun trackerNodes => trackers ++ trackerNodes.map readNode)

end Loads

section ReadBack

theorem digits_toString (n : ℕ) : MachineRooms.Digits (TrackerRings.toString n) := by
  intro letter hletter
  obtain ⟨c, hc, rfl⟩ := List.mem_map.mp hletter
  obtain ⟨hlow, hhigh, hbyte⟩ := digit_bounds n c hc
  simp only [isDigit, Bool.and_eq_true, decide_eq_true_eq, UInt8.le_iff_toNat_le, hbyte]
  exact ⟨hlow, hhigh⟩

theorem number_letters (letters : List Char)
    (hbyte : ∀ c ∈ letters, (UInt8.ofNat c.toNat).toNat = c.toNat) (value : ℕ) :
    (letters.map (fun c => UInt8.ofNat c.toNat)).foldl
        (fun value letter => 10 * value + (letter.toNat - 48)) value =
      Nat.ofDigitChars 10 letters value := by
  induction letters generalizing value with
  | nil => simp
  | cons c rest ih =>
    rw [List.map_cons, List.foldl_cons, Nat.ofDigitChars_cons, hbyte c (List.mem_cons_self ..),
      ih (fun d hd => hbyte d (List.mem_cons_of_mem c hd))]
    rfl

theorem number_toString (n : ℕ) : number (TrackerRings.toString n) = n := by
  unfold number TrackerRings.toString
  rw [number_letters _ (fun c hc => (digit_bounds n c hc).2.2), Nat.ofDigitChars_ten_toDigits]

theorem isSpace_space : isSpace space = true := by decide

theorem unspaced_digit (letter : UInt8) (h : isDigit letter = true) : isSpace letter = false := by
  simp only [isDigit, isSpace, space, Bool.and_eq_true, decide_eq_true_eq] at *
  grind

theorem readPort_toString (n : ℕ) (hn : n ≤ 65535) :
    readPort (space :: TrackerRings.toString n) = some n := by
  have hdigits := digits_toString n
  have hvalue := number_toString n
  cases hletters : TrackerRings.toString n with
  | nil => exact absurd (List.map_eq_nil_iff.mp hletters) Nat.toDigits_ne_nil
  | cons letter rest =>
    rw [hletters] at hdigits hvalue
    have hletter : isDigit letter = true := hdigits letter (List.mem_cons_self ..)
    have hspace := unspaced_digit letter hletter
    have hsign : letter ≠ minus ∧ letter ≠ 43 := by
      constructor <;> rintro rfl <;> simp [isDigit, minus] at hletter
    have hdrop : (space :: letter :: rest).dropWhile isSpace = letter :: rest := by
      simp [isSpace_space, hspace]
    have hall : (letter :: rest).takeWhile isDigit = letter :: rest :=
      List.takeWhile_eq_self_iff.mpr hdigits
    have hle : ¬ 65535 < n := by omega
    simp only [readPort, hdrop, hsign, hall, hvalue, hle, if_false, or_self]

/-- A host without white space that the buffer has room for, with its port. -/
structure Fitting (tracker : Tracker) : Prop where
  unspaced : ∀ letter ∈ tracker.host, isSpace letter = false
  fits : (tracker.host ++ space :: decimal tracker.port.toInt).length < 256

def PortNumber (tracker : Tracker) : Prop :=
  0 ≤ tracker.port.toInt ∧ tracker.port.toInt ≤ 65535

instance (tracker : Tracker) : Decidable (PortNumber tracker) :=
  inferInstanceAs (Decidable (_ ∧ _))

/-- The trackers whose text is read back as it was. -/
structure Sendable (tracker : Tracker) : Prop extends Fitting tracker where
  nonempty : tracker.host ≠ []
  nonzero : ∀ letter ∈ tracker.host, letter ≠ 0
  port : PortNumber tracker

theorem readWord_append (word rest : ByteString) (hne : word ≠ [])
    (hword : ∀ letter ∈ word, isSpace letter = false) :
    readWord (word ++ space :: rest) = (word, space :: rest) := by
  obtain ⟨first, others, rfl⟩ := List.exists_cons_of_ne_nil hne
  have hfirst : isSpace first = false := hword first (List.mem_cons_self ..)
  have hdrop : (first :: others ++ space :: rest).dropWhile isSpace =
      first :: others ++ space :: rest := by
    simp [hfirst]
  have hall : ∀ letter ∈ first :: others, (!isSpace letter) = true := by
    intro letter hletter
    rw [hword letter hletter]
    rfl
  rw [readWord, hdrop, List.span_eq_takeWhile_dropWhile, List.takeWhile_append_of_pos hall,
    List.dropWhile_append_of_pos hall]
  simp [isSpace_space]

theorem readNode_nodeText (tracker : Tracker) (h : Sendable tracker) :
    readNode (nodeText tracker) = tracker.pair := by
  obtain ⟨hlow, hhigh⟩ := h.port
  have hhost : cString tracker.host = tracker.host :=
    cString_of_ne_zero tracker.host h.nonzero
  have hfits := h.fits
  have htext : nodeText tracker = tracker.host ++
      space :: TrackerRings.toString tracker.port.toInt.natAbs := by
    rw [nodeText, hostPort, hhost, List.take_of_length_le (by omega), decimal, if_neg (by omega)]
  rw [readNode, htext, readWord_append tracker.host _ h.nonempty h.unspaced]
  simp only [readPort_toString _ (by omega : tracker.port.toInt.natAbs ≤ 65535), Tracker.pair]
  simp only [Option.map_some, Prod.mk.injEq, Option.some.injEq, true_and]
  exact Int.natAbs_of_nonneg hlow

end ReadBack

section Filled

theorem mem_replicas_fill (nodes : List ByteString) (s : ConsistentHashRing) (node : ByteString) :
    node ∈ (fill s nodes).replicas ↔ node ∈ nodes ∨ node ∈ s.replicas := by
  induction nodes generalizing s with
  | nil => simp [fill]
  | cons first rest ih =>
    have hstep : fill s (first :: rest) = fill (addNode first defaultReplicas s) rest :=
      List.foldl_cons ..
    rw [hstep, ih]
    simp only [addNode, AList.mem_insert, List.mem_cons]
    tauto

theorem mem_nodeNames_filled (nodes : List ByteString) (node : ByteString) :
    node ∈ nodeNames (filled nodes) ↔ node ∈ nodes := by
  rw [(nodeNames_perm _).mem_iff, ← AList.mem_keys, filled, mem_replicas_fill]
  simp [ConsistentHashRing.new]

theorem mem_of_lookup_filled (nodes : List ByteString) (slot : Slot) (node : ByteString)
    (h : (filled nodes).ring.lookup slot = some node) : node ∈ nodes := by
  rw [lookup_filled] at h
  exact (lastOn_some slot nodes node h).1

theorem filled_isEmpty (nodes : List ByteString) :
    (filled nodes).ring.isEmpty = true ↔ nodes = [] := by
  constructor
  · intro hempty
    by_contra hne
    obtain ⟨node, rest, rfl⟩ := List.exists_cons_of_ne_nil hne
    have hmem : slot node 0 ∈ slots node defaultReplicas :=
      (mem_slots node defaultReplicas _).mpr ⟨0, by decide, rfl⟩
    obtain ⟨last, hlast⟩ := lastOn_isSome (slot node 0) (node :: rest) node
      (List.mem_cons_self ..) hmem
    have hnone := (OrderedMap.isEmpty_iff _).mp hempty (slot node 0)
    rw [lookup_filled, hlast] at hnone
    contradiction
  · rintro rfl
    rfl

/-- Only nodes of the ring are selected. -/
theorem mem_of_selected (nodes : List ByteString) (data : ByteString) (first : Slot × ByteString)
    (selected : List ByteString) (h : Selection data (filled nodes) first selected) :
    ∀ node ∈ selected, node ∈ nodes := by
  have hfirst : first.2 ∈ nodes :=
    mem_of_lookup_filled nodes first.1 first.2 (owner_least _ _ _ h.owned).1
  intro node hnode
  by_cases htwo : TwoNames (filled nodes)
  · obtain ⟨second, hmet, hselected⟩ := h.two htwo
    rw [hselected] at hnode
    rcases List.mem_cons.mp hnode with rfl | hlast
    · exact hfirst
    · rw [List.mem_singleton.mp hlast]
      exact mem_of_lookup_filled nodes second.1 second.2 hmet.held
  · rw [h.one htwo] at hnode
    rw [List.mem_singleton.mp hnode]
    exact hfirst

/-- The nodes of a key are those of the ring, the first of them the one the key
belongs to. -/
theorem getAllNodes_filled (nodes : List ByteString) (data : ByteString) (hne : nodes ≠ []) :
    ∃ names, (∀ fuel, (filled nodes).ring.entries.length ≤ fuel →
        getAllNodes fuel data (filled nodes) = some names) ∧
      (∀ node, node ∈ names ↔ node ∈ nodes) ∧
      names.head? = some (getNode data (filled nodes)) := by
  have hsome : (filled nodes).ring.isEmpty = false := by
    rw [Bool.eq_false_iff]
    intro hempty
    exact hne ((filled_isEmpty nodes).mp hempty)
  obtain ⟨first, selected, h⟩ := getTwoNodes_spec data (filled nodes) hsome
  refine ⟨selected ++ nodeNames (filled nodes), h.all, ?_, ?_⟩
  · intro node
    rw [List.mem_append, mem_nodeNames_filled]
    constructor
    · rintro (hselected | hname)
      · exact mem_of_selected nodes data first selected h node hselected
      · exact hname
    · exact Or.inr
  · obtain ⟨rest, hrest⟩ := List.head?_eq_some_iff.mp h.head
    rw [hrest, List.cons_append, List.head?_cons]

end Filled

section Runs

open ThriftTracker

/-- The area goes into the spare ring only. -/
theorem spare_loadArea (area : TrackerArea) (s : ThriftTracker) :
    (s.loadArea area).spare = fill s.spare (area.tracker.map nodeText) ∧
    (s.loadArea area).current = s.current ∧ (s.loadArea area).idc = s.idc := by
  unfold loadArea
  generalize area.tracker = trackers
  induction trackers generalizing s with
  | nil => exact ⟨rfl, rfl, rfl⟩
  | cons tracker rest ih =>
    obtain ⟨hspare, hcurrent, hidc⟩ :=
      ih (s.setSpare (addNode (nodeText tracker) defaultReplicas s.spare))
    refine ⟨?_, ?_, hidc⟩
    · rw [List.foldl_cons, hspare]
      simp [spare, setSpare, fill]
    · rw [List.foldl_cons, hcurrent]
      simp [current, setSpare]

/-- With the spare ring cleared and the room of the host found. -/
def prepared (load : Load) (s : ThriftTracker) : ThriftTracker :=
  { s.setSpare ConsistentHashRing.new with
    idc := (getLocalMachineRoom load.hostname s.idc).1 }

theorem current_prepared (load : Load) (s : ThriftTracker) :
    (prepared load s).current = s.current := by
  simp [prepared, current, setSpare]

theorem spare_prepared (load : Load) (s : ThriftTracker) :
    (prepared load s).spare = ConsistentHashRing.new := by
  simp [prepared, spare, setSpare]

theorem load_unread (load : Load) (s : ThriftTracker) (h : load.conf = none) :
    loadThriftTrackers load s = (prepared load s, false) := by
  simp only [loadThriftTrackers, h]
  rfl

theorem load_read (load : Load) (s : ThriftTracker) (trackerConf : TrackerConf)
    (h : load.conf = some trackerConf) (area : TrackerArea)
    (harea : chosenArea (trimMachineRoomDigit (prepared load s).idc) trackerConf = area) :
    loadThriftTrackers load s =
      if ((prepared load s).loadArea area).spare.ring.isEmpty then
        ((prepared load s).loadArea area, false)
      else (((prepared load s).loadArea area).swap, true) := by
  subst harea
  simp only [loadThriftTrackers, h]
  rfl

theorem idc_loadThriftTrackers (load : Load) (s : ThriftTracker) :
    (loadThriftTrackers load s).1.idc = (prepared load s).idc := by
  cases hconf : load.conf with
  | none => rw [load_unread load s hconf]
  | some trackerConf =>
    rw [load_read load s trackerConf hconf _ rfl]
    split
    · exact (spare_loadArea _ _).2.2
    · exact (spare_loadArea _ _).2.2

/-- The area that a load found, from the room it left behind. -/
def foundArea (load : Load) (machineRoom : ByteString) : Option TrackerArea :=
  load.conf.map (chosenArea (trimMachineRoomDigit machineRoom))

/-- A load succeeds where the area it chooses has a tracker; then the ring in use
holds just the trackers of this area. Otherwise it is the one from before. -/
theorem load_cases (load : Load) (s : ThriftTracker) :
    ((loadThriftTrackers load s).2 = true ∧
      ∃ area, foundArea load (loadThriftTrackers load s).1.idc = some area ∧ area.tracker ≠ [] ∧
        (loadThriftTrackers load s).1.current = filled (area.tracker.map nodeText)) ∨
    ((loadThriftTrackers load s).2 = false ∧
      (∀ area, foundArea load (loadThriftTrackers load s).1.idc = some area → area.tracker = []) ∧
      (loadThriftTrackers load s).1.current = s.current) := by
  rw [idc_loadThriftTrackers]
  cases hconf : load.conf with
  | none =>
    right
    rw [load_unread load s hconf, foundArea, hconf]
    exact ⟨rfl, fun area h => by contradiction, current_prepared load s⟩
  | some trackerConf =>
    obtain ⟨area, harea⟩ : ∃ area,
        chosenArea (trimMachineRoomDigit (prepared load s).idc) trackerConf = area := ⟨_, rfl⟩
    obtain ⟨hspare, hcurrent, _⟩ := spare_loadArea area (prepared load s)
    have hfilled : ((prepared load s).loadArea area).spare =
        filled (area.tracker.map nodeText) := by
      rw [hspare, spare_prepared]
      rfl
    have hfound : foundArea load (prepared load s).idc = some area := by
      rw [foundArea, hconf, Option.map_some, harea]
    rw [load_read load s trackerConf hconf area harea, hfilled, hfound]
    split
    · next hnone =>
      right
      refine ⟨rfl, ?_, hcurrent.trans (current_prepared load s)⟩
      intro chosen hchosen
      obtain rfl : area = chosen := Option.some.inj hchosen
      exact List.map_eq_nil_iff.mp ((filled_isEmpty _).mp hnone)
    · next hsome =>
      left
      refine ⟨rfl, area, rfl, ?_, hfilled⟩
      intro hnil
      exact hsome ((filled_isEmpty _).mpr (by rw [hnil, List.map_nil]))

/-- The loads one after another. -/
def loadAll (s : ThriftTracker) (loads : List Load) : ThriftTracker :=
  loads.foldl (fun s load => (loadThriftTrackers load s).1) s

/-- On one host the room that is remembered does not depend on which loads fail. -/
theorem idc_loadAll (hostname : ByteString) (loads : List Load)
    (h : ∀ load ∈ loads, load.hostname = hostname) :
    (loadAll new loads).idc = MachineRooms.machineRoomAfter hostname loads.length := by
  induction loads using List.reverseRecOn with
  | nil => rfl
  | append_singleton loads load ih =>
    have hbefore := ih (fun l hl => h l (List.mem_append_left _ hl))
    have hhost := h load (by simp)
    rw [loadAll, List.foldl_append, List.foldl_cons, List.foldl_nil, idc_loadThriftTrackers,
      prepared, List.length_append, List.length_singleton, MachineRooms.machineRoomAfter, hhost]
    exact congrArg (fun room => (getLocalMachineRoom hostname room).1) hbefore

/-- The area that the last load to succeed has chosen. -/
def lastArea (s : ThriftTracker) : List Load → Option TrackerArea
  | [] => none
  | load :: rest =>
    (lastArea (loadThriftTrackers load s).1 rest).or
      (if (loadThriftTrackers load s).2 then foundArea load (loadThriftTrackers load s).1.idc
        else none)

/-- The rings do not decide which area that is. -/
theorem lastArea_cons (load : Load) (rest : List Load) (s : ThriftTracker) :
    lastArea s (load :: rest) = (lastArea (loadThriftTrackers load s).1 rest).or
      ((foundArea load (prepared load s).idc).filter (fun area => !area.tracker.isEmpty)) := by
  rw [lastArea, ← idc_loadThriftTrackers]
  rcases load_cases load s with ⟨hok, area, hfound, htrackers, _⟩ | ⟨hfailed, hempty, _⟩
  · rw [hok, hfound, if_pos rfl, Option.filter_some_pos (by simpa using htrackers)]
  · rw [hfailed, if_neg Bool.false_ne_true]
    cases hfound : foundArea load (loadThriftTrackers load s).1.idc with
    | none => rfl
    | some area => rw [Option.filter_some_neg (by simp [hempty area hfound])]

/-- Failing loads leave the ring of the last one to succeed in use. -/
theorem current_loadAll (loads : List Load) (s : ThriftTracker) :
    (∀ area, lastArea s loads = some area → area.tracker ≠ [] ∧
      (loadAll s loads).current = filled (area.tracker.map nodeText)) ∧
    (lastArea s loads = none → (loadAll s loads).current = s.current) := by
  induction loads generalizing s with
  | nil => exact ⟨fun area h => by simp [lastArea] at h, fun _ => rfl⟩
  | cons load rest ih =>
    obtain ⟨hsome, hnone⟩ := ih (loadThriftTrackers load s).1
    cases hrest : lastArea (loadThriftTrackers load s).1 rest with
    | some later =>
      rw [lastArea, hrest, Option.some_or]
      refine ⟨?_, fun h => by contradiction⟩
      intro area harea
      exact hsome area (hrest.trans harea)
    | none =>
      have hkept := hnone hrest
      rw [lastArea, hrest, Option.none_or]
      rcases load_cases load s with ⟨hok, found, hfound, htrackers, hring⟩ | ⟨hfailed, _, hring⟩
      · rw [hok, if_pos rfl, hfound]
        refine ⟨?_, fun h => by contradiction⟩
        intro area harea
        obtain rfl : found = area := Option.some.inj harea
        exact ⟨htrackers, hkept.trans hring⟩
      · rw [hfailed]
        exact ⟨fun area h => by simp at h, fun _ => hkept.trans hring⟩

end Runs

section Answers

open ThriftTracker

/-- The answer for a key from the trackers of one area: each of them is there
under its own host and port, nothing else is, and the first is the node of the
key. -/
structure Answers (infohash : ByteString) (area : TrackerArea) (s : ThriftTracker)
    (answers : List TrackerPair) : Prop where
  listed : ∀ tracker ∈ area.tracker, tracker.pair ∈ answers
  only : ∀ pair ∈ answers, ∃ tracker ∈ area.tracker, pair = tracker.pair
  first : ∃ tracker ∈ area.tracker, nodeText tracker = getNode infohash s.current ∧
    answers.head? = some tracker.pair
  returned : ∀ fuel, s.current.ring.entries.length ≤ fuel → ∀ trackers,
    getTrackersByInfohash fuel infohash trackers s = some (trackers ++ answers)

theorem answers_of_readBack (infohash : ByteString) (area : TrackerArea) (s : ThriftTracker)
    (hne : area.tracker ≠ []) (hring : s.current = filled (area.tracker.map nodeText))
    (hread : ∀ tracker ∈ area.tracker, readNode (nodeText tracker) = tracker.pair) :
    ∃ answers, Answers infohash area s answers := by
  obtain ⟨names, hall, hmem, hhead⟩ := getAllNodes_filled (area.tracker.map nodeText) infohash
    (fun hnil => hne (List.map_eq_nil_iff.mp hnil))
  rw [← hring] at hall hhead
  refine ⟨names.map readNode, ?_, ?_, ?_, ?_⟩
  · intro tracker htracker
    rw [← hread tracker htracker]
    exact List.mem_map_of_mem ((hmem _).mpr (List.mem_map_of_mem htracker))
  · intro pair hpair
    obtain ⟨node, hnode, rfl⟩ := List.mem_map.mp hpair
    obtain ⟨tracker, htracker, rfl⟩ := List.mem_map.mp ((hmem node).mp hnode)
    exact ⟨tracker, htracker, hread tracker htracker⟩
  · obtain ⟨rest, hrest⟩ := List.head?_eq_some_iff.mp hhead
    obtain ⟨tracker, htracker, htext⟩ :=
      List.mem_map.mp ((hmem (getNode infohash s.current)).mp (by rw [hrest]; simp))
    refine ⟨tracker, htracker, htext, ?_⟩
    rw [hrest, List.map_cons, List.head?_cons, ← htext, hread tracker htracker]
  · intro fuel hfuel trackers
    rw [getTrackersByInfohash, hall fuel hfuel]
    rfl

/-- After any loads of which one has succeeded, the trackers of the area chosen
by the last such load answer. -/
theorem answers_of_lastArea (loads : List Load) (area : TrackerArea)
    (hlast : lastArea new loads = some area)
    (hsendable : ∀ tracker ∈ area.tracker, Sendable tracker) (infohash : ByteString) :
    ∃ answers, Answers infohash area (loadAll new loads) answers := by
  obtain ⟨hne, hring⟩ := (current_loadAll loads new).1 area hlast
  exact answers_of_readBack infohash area _ hne hring
    (fun tracker htracker => readNode_nodeText tracker (hsendable tracker htracker))

/-- A host with two trackers in its own area, an unreadable configuration after
that, and one without trackers. -/
def twoTrackers : TrackerArea :=
  ⟨[[106, 120]], [⟨[97], 8080⟩, ⟨[98], 80⟩]⟩

def threeLoads : List Load :=
  [⟨[119, 46, 106, 120], some ⟨[twoTrackers], ⟨[], [⟨[99], 80⟩]⟩⟩⟩,
    ⟨[119, 46, 106, 120], none⟩,
    ⟨[119, 46, 106, 120], some ⟨[], ⟨[], []⟩⟩⟩]

theorem answers_of_threeLoads : lastArea new threeLoads = some twoTrackers ∧
    (∀ tracker ∈ twoTrackers.tracker, Sendable tracker) ∧
      ∃ answers, Answers [120] twoTrackers (loadAll new threeLoads) answers := by
  have hlast : lastArea new threeLoads = some twoTrackers := by
    simp only [threeLoads, lastArea_cons, idc_loadThriftTrackers, prepared]
    decide
  have hsendable : ∀ tracker ∈ twoTrackers.tracker, Sendable tracker := by
    intro tracker htracker
    rcases List.mem_cons.mp htracker with rfl | hsecond
    · exact ⟨⟨by simp [isSpace, space], by decide⟩, by simp, by simp, by decide⟩
    · rw [List.mem_singleton.mp hsecond]
      exact ⟨⟨by simp [isSpace, space], by decide⟩, by simp, by simp, by decide⟩
  exact ⟨hlast, hsendable, answers_of_lastArea threeLoads twoTrackers hlast hsendable [120]⟩

/-- The answers for trackers that meet a condition. -/
def Answered (ok : Tracker → Prop) : Prop :=
  ∀ loads area, lastArea new loads = some area → (∀ tracker ∈ area.tracker, ok tracker) →
    ∀ infohash, ∃ answers, Answers infohash area (loadAll new loads) answers

/-- Such a condition holds only of trackers whose text is read back as it was. -/
theorem readBack_of_answered (ok : Tracker → Prop) (h : Answered ok) (tracker : Tracker)
    (hok : ok tracker) : readNode (nodeText tracker) = tracker.pair := by
  let area : TrackerArea := ⟨[], [tracker]⟩
  let load : Load := ⟨[], some ⟨[], area⟩⟩
  have hfound : ∀ machineRoom, foundArea load machineRoom = some area := fun _ => rfl
  have hlast : lastArea new [load] = some area := by
    rw [lastArea_cons, hfound]
    rfl
  have hring := ((current_loadAll [load] new).1 area hlast).2
  obtain ⟨answers, hanswers⟩ := h [load] area hlast (by simpa [area] using hok) []
  obtain ⟨names, hall, hmem, _⟩ :=
    getAllNodes_filled (area.tracker.map nodeText) [] (by simp [area])
  rw [← hring] at hall
  have hreturned := hanswers.returned _ (le_refl _) []
  rw [getTrackersByInfohash, hall _ (le_refl _)] at hreturned
  have hsame : names.map readNode = answers := by simpa using hreturned
  have hlisted := hanswers.listed tracker (by simp [area])
  rw [← hsame] at hlisted
  obtain ⟨node, hnode, hread⟩ := List.mem_map.mp hlisted
  obtain rfl : node = nodeText tracker := by simpa [area] using (hmem node).mp hnode
  exact hread

/-- A port of more than 16 bits, an empty host and a host with a zero byte in it
are each read back as something else. -/
theorem misread :
    (¬ Answered fun tracker =>
      Fitting tracker ∧ tracker.host ≠ [] ∧ ∀ letter ∈ tracker.host, letter ≠ 0) ∧
    (¬ Answered fun tracker =>
      Fitting tracker ∧ PortNumber tracker ∧ ∀ letter ∈ tracker.host, letter ≠ 0) ∧
    ¬ Answered fun tracker => Fitting tracker ∧ PortNumber tracker ∧ tracker.host ≠ [] := by
  refine ⟨?_, ?_, ?_⟩
  · intro hanswered
    have hread := readBack_of_answered _ hanswered ⟨[97], 70000⟩
      ⟨⟨by simp [isSpace, space], by decide⟩, by simp, by simp⟩
    exact absurd hread (by decide)
  · intro hanswered
    have hread := readBack_of_answered _ hanswered ⟨[], 80⟩
      ⟨⟨by simp, by decide⟩, by decide, by simp⟩
    exact absurd hread (by decide)
  · intro hanswered
    have hread := readBack_of_answered _ hanswered ⟨[97, 0, 98], 80⟩
      ⟨⟨by simp [isSpace, space], by decide⟩, by decide, by simp⟩
    exact absurd hread (by decide)

end Answers

end Gingko.TrackerLoads
