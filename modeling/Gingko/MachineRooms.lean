import Gingko.Base64Codec
import Mathlib.Data.List.DropRight
import Mathlib.Tactic.Common

/-!
The machine room of a host. It is the last part of the host name once the text
from `.baidu.com` on is gone, and for a virtual machine the part in front of the
first dash. The trackers are configured for rooms without their digits. The
trimming takes two digits or more off the end, but it leaves a single one.
-/
namespace Gingko.MachineRooms

open Base64Codec

section Searches

variable {α : Type*} [DecidableEq α]

/-- Where the last occurrence of a pattern starts. -/
def rfind (pattern : List α) : List α → Option ℕ
  | [] => if pattern = [] then some 0 else none
  | c :: rest =>
    match rfind pattern rest with
    | some index => some (index + 1)
    | none => if pattern.isPrefixOf (c :: rest) then some 0 else none

/-- A pattern occurs in a text with `before` in front of it, and not later. -/
def LastAt (pattern before after text : List α) : Prop :=
  text = before ++ pattern ++ after ∧ ¬ pattern <:+: (pattern ++ after).tail

theorem rfind_none (pattern text : List α) (h : ¬ pattern <:+: text) :
    rfind pattern text = none := by
  induction text with
  | nil =>
    have hne : pattern ≠ [] := by
      rintro rfl
      exact h (List.nil_infix ..)
    exact if_neg hne
  | cons c rest ih =>
    have hrest : ¬ pattern <:+: rest := fun hin => h (List.infix_cons hin)
    have hfirst : ¬ pattern <+: c :: rest := fun hpre => h hpre.isInfix
    rw [rfind, ih hrest]
    simp [List.isPrefixOf_iff_prefix, hfirst]

theorem rfind_lastAt (pattern before after text : List α) (hne : pattern ≠ [])
    (h : LastAt pattern before after text) : rfind pattern text = some before.length := by
  obtain ⟨rfl, hlast⟩ := h
  induction before with
  | nil =>
    obtain ⟨c, rest, rfl⟩ := List.exists_cons_of_ne_nil hne
    have hnone : rfind (c :: rest) (rest ++ after) = none := rfind_none _ _ hlast
    simp only [List.nil_append, List.cons_append, rfind, hnone]
    simp [List.isPrefixOf_iff_prefix]
  | cons c rest ih =>
    simp only [List.cons_append, rfind, ih, List.length_cons]

/-- A text without the letter behind its last occurrence. -/
theorem rfind_letter (c : α) (before after : List α) (h : c ∉ after) :
    rfind [c] (before ++ c :: after) = some before.length := by
  have hin : c ∉ ([c] ++ after).tail := h
  have hlast : LastAt [c] before after (before ++ [c] ++ after) :=
    ⟨rfl, fun hsub => hin (hsub.mem (List.mem_singleton_self c))⟩
  simpa using rfind_lastAt [c] before after _ (by simp) hlast

/-- Every text without a letter, or split at the last one. -/
theorem letter_cases (c : α) (text : List α) :
    c ∉ text ∨ ∃ before after, c ∉ after ∧ text = before ++ c :: after := by
  induction text with
  | nil => exact Or.inl (List.not_mem_nil)
  | cons a rest ih =>
    rcases ih with hnot | ⟨before, after, hnot, rfl⟩
    · by_cases ha : a = c
      · exact Or.inr ⟨[], rest, hnot, by rw [ha, List.nil_append]⟩
      · left
        intro hin
        rcases List.mem_cons.mp hin with hc | hrest
        · exact ha hc.symm
        · exact hnot hrest
    · exact Or.inr ⟨a :: before, after, hnot, rfl⟩

theorem letter_split (c : α) (before before' after after' : List α) (h : c ∉ after)
    (h' : c ∉ after') (heq : before ++ c :: after = before' ++ c :: after') : after = after' := by
  have hfirst := rfind_letter c before after h
  rw [heq, rfind_letter c before' after' h'] at hfirst
  have hlength : before'.length = before.length := Option.some.inj hfirst
  have hboth := List.append_inj heq hlength.symm
  exact (List.cons.inj hboth.2).2

/-- Texts split at their first letter, by its index. -/
theorem findIdx_letter (c : α) (before after : List α) (h : c ∉ before) :
    (before ++ c :: after).findIdx? (fun a => a = c) = some before.length := by
  rw [List.findIdx?_append, List.findIdx?_eq_none_iff.mpr, Option.none_or]
  · simp [List.findIdx?_cons]
  · intro a ha
    simpa using fun hac : a = c => h (hac ▸ ha)

theorem letter_split_first (c : α) (before before' after after' : List α) (h : c ∉ before)
    (h' : c ∉ before') (heq : before ++ c :: after = before' ++ c :: after') :
    before = before' := by
  have hfirst := findIdx_letter c before after h
  rw [heq, findIdx_letter c before' after' h'] at hfirst
  have hlength : before'.length = before.length := Option.some.inj hfirst
  exact (List.append_inj heq hlength.symm).1

end Searches

def domain : ByteString := [46, 98, 97, 105, 100, 117, 46, 99, 111, 109]

/-- The host name without all that follows the last `.baidu.com`. -/
def eraseDomain (hostname : ByteString) : ByteString :=
  match rfind domain hostname with
  | some index => hostname.take index
  | none => hostname

def dot : UInt8 := 46

def dash : UInt8 := 45

def vm : ByteString := [118, 109]

/-- The new text of the argument, and whether it is a room. -/
def getLocalMachineRoom (hostname machineRoom : ByteString) : ByteString × Bool :=
  if hostname.isEmpty then (machineRoom, false)
  else
    let hostname := eraseDomain hostname
    match rfind [dot] hostname with
    | none => (machineRoom, false)
    | some index =>
      let room := hostname.drop (index + 1)
      if room = vm then
        match hostname.findIdx? (fun c => c = dash) with
        | some index => (hostname.take index, true)
        | none => ([], false)
      else (room, true)

def isDigit (letter : UInt8) : Bool := 48 ≤ letter && letter ≤ 57

/-- The index behind the last letter that is no digit. The loop goes backwards
from the end; in front of the first letter the index wraps around to zero. -/
def lettersKept (machineRoom : ByteString) : ℕ → ℕ
  | 0 => 0
  | index + 1 =>
    match machineRoom[index]? with
    | some letter => if isDigit letter then lettersKept machineRoom index else index + 1
    | none => index + 1

def trimMachineRoomDigit (machineRoom : ByteString) : ByteString :=
  let index := lettersKept machineRoom machineRoom.length
  -- of an empty text the bound wraps around, and nothing is erased from it
  if index < machineRoom.length - 1 then machineRoom.take index else machineRoom

section Trims

def Digits (text : ByteString) : Prop := ∀ c ∈ text, isDigit c = true

instance (text : ByteString) : Decidable (Digits text) :=
  decidable_of_iff (text.all isDigit = true) List.all_eq_true

/-- No digit at the end. -/
def Lettered (text : ByteString) : Prop := ∀ c, text.getLast? = some c → isDigit c = false

theorem lettersKept_digits (front digits : ByteString) (hdigits : Digits digits) (n : ℕ)
    (hn : n ≤ digits.length) :
    lettersKept (front ++ digits) (front.length + n) =
      lettersKept (front ++ digits) front.length := by
  induction n with
  | zero => rfl
  | succ n ih =>
    have hlt : n < digits.length := by omega
    have hat : (front ++ digits)[front.length + n]? = some digits[n] := by
      rw [List.getElem?_append_right (by omega), Nat.add_sub_cancel_left,
        List.getElem?_eq_getElem hlt]
    rw [← Nat.add_assoc, lettersKept, hat]
    simp only [hdigits _ (List.getElem_mem hlt), if_true]
    exact ih (by omega)

theorem lettersKept_lettered (front digits : ByteString) (hfront : Lettered front) :
    lettersKept (front ++ digits) front.length = front.length := by
  rcases List.eq_nil_or_concat' front with rfl | ⟨init, c, rfl⟩
  · rfl
  · have hletter : isDigit c = false := hfront c (by simp)
    have hat : (init ++ [c] ++ digits)[init.length]? = some c := by simp
    rw [List.length_append, List.length_singleton, lettersKept, hat]
    simp [hletter]

/-- All of the digits go, unless there is only one. -/
theorem trim_append (front digits : ByteString) (hfront : Lettered front)
    (hdigits : Digits digits) :
    trimMachineRoomDigit (front ++ digits) =
      if digits.length = 1 then front ++ digits else front := by
  have hkept : lettersKept (front ++ digits) (front ++ digits).length = front.length := by
    rw [List.length_append, lettersKept_digits front digits hdigits _ (le_refl _),
      lettersKept_lettered front digits hfront]
  simp only [trimMachineRoomDigit, hkept]
  rw [List.length_append]
  by_cases hone : digits.length = 1
  · rw [if_neg (by omega), if_pos hone]
  · rw [if_neg hone]
    split
    · exact List.take_left
    · have hnil : digits = [] := List.eq_nil_of_length_eq_zero (by omega)
      rw [hnil, List.append_nil]

theorem exists_digits (text : ByteString) :
    ∃ front digits, Lettered front ∧ Digits digits ∧ text = front ++ digits := by
  refine ⟨text.rdropWhile isDigit, text.rtakeWhile isDigit, ?_, ?_,
    List.rdropWhile_append_rtakeWhile.symm⟩
  · intro c hlast
    have hne : text.rdropWhile isDigit ≠ [] := by
      rintro hnil
      simp [hnil] at hlast
    have hnot := List.rdropWhile_last_not isDigit text hne
    rw [List.getLast?_eq_some_getLast hne] at hlast
    rw [Option.some.inj hlast] at hnot
    exact Bool.eq_false_iff.mpr hnot
  · intro c hc
    exact List.mem_rtakeWhile_imp hc

/-- A part of a host name that can name a room: some letters, without a dot and
without a digit at the end. -/
structure Room (text : ByteString) : Prop where
  nonempty : text ≠ []
  lettered : Lettered text
  dotFree : dot ∉ text

/-- A room comes out of the trimming where digits follow it, but not a single one. -/
theorem trim_eq_iff (room text : ByteString) (hroom : Room room) :
    trimMachineRoomDigit text = room ↔
      ∃ digits, Digits digits ∧ digits.length ≠ 1 ∧ text = room ++ digits := by
  constructor
  · intro htrim
    obtain ⟨front, digits, hfront, hdigits, rfl⟩ := exists_digits text
    rw [trim_append front digits hfront hdigits] at htrim
    by_cases hone : digits.length = 1
    · rw [if_pos hone] at htrim
      obtain ⟨c, rfl⟩ := List.length_eq_one_iff.mp hone
      have hletter := hroom.lettered c (by rw [← htrim]; simp)
      rw [hdigits c (List.mem_singleton_self c)] at hletter
      contradiction
    · rw [if_neg hone] at htrim
      exact ⟨digits, hdigits, hone, by rw [htrim]⟩
  · rintro ⟨digits, hdigits, hone, rfl⟩
    rw [trim_append room digits hroom.lettered hdigits, if_neg hone]

end Trims

section Rooms

variable (hostname head machineRoom : ByteString)

theorem eraseDomain_suffix (name : ByteString) : eraseDomain (name ++ domain) = name := by
  have hlast : LastAt domain name [] (name ++ domain) := by
    refine ⟨by simp, ?_⟩
    intro hin
    have hle := hin.length_le
    simp [domain] at hle
  rw [eraseDomain, rfind_lastAt domain name [] _ (by simp [domain]) hlast]
  exact List.take_left

theorem eraseDomain_none (h : ¬ domain <:+: hostname) : eraseDomain hostname = hostname := by
  rw [eraseDomain, rfind_none domain hostname h]

theorem eraseDomain_lastAt (rest : ByteString) (h : LastAt domain head rest hostname) :
    eraseDomain hostname = head := by
  rw [eraseDomain, rfind_lastAt domain head rest hostname (by simp [domain]) h, h.1,
    List.append_assoc]
  exact List.take_left

variable (hne : hostname.isEmpty = false) (herase : eraseDomain hostname = head)
include hne herase

theorem room_undotted (hdot : dot ∉ head) :
    getLocalMachineRoom hostname machineRoom = (machineRoom, false) := by
  have hfind : rfind [dot] head = none := by
    apply rfind_none
    intro hin
    exact hdot (hin.mem (List.mem_singleton_self dot))
  simp [getLocalMachineRoom, hne, herase, hfind]

theorem room_last (before room : ByteString) (hdot : dot ∉ room) (hvm : room ≠ vm)
    (hhead : head = before ++ dot :: room) :
    getLocalMachineRoom hostname machineRoom = (room, true) := by
  have hfind : rfind [dot] head = some before.length := by
    rw [hhead, rfind_letter dot before room hdot]
  have hdrop : head.drop (before.length + 1) = room := by
    rw [hhead]
    simp
  simp [getLocalMachineRoom, hne, herase, hfind, hdrop, hvm]

theorem room_vm (before : ByteString) (hhead : head = before ++ dot :: vm) :
    getLocalMachineRoom hostname machineRoom =
      match head.findIdx? (fun c => c = dash) with
      | some index => (head.take index, true)
      | none => ([], false) := by
  have hfind : rfind [dot] head = some before.length := by
    rw [hhead, rfind_letter dot before vm (by decide)]
  have hdrop : head.drop (before.length + 1) = vm := by
    rw [hhead]
    simp
  simp only [getLocalMachineRoom, hne, herase, hfind, hdrop]
  simp

end Rooms

section Compared

/-- The room a process remembers after some loads, all on one host. -/
def machineRoomAfter (hostname : ByteString) : ℕ → ByteString
  | 0 => []
  | n + 1 => (getLocalMachineRoom hostname (machineRoomAfter hostname n)).1

/-- The text that the load after `n` others compares with the areas. -/
def comparedRoom (hostname : ByteString) (n : ℕ) : ByteString :=
  trimMachineRoomDigit (machineRoomAfter hostname (n + 1))

/-- A name whose last part is the room with no digits or several, or the name of
a virtual machine that has these in front of its first dash. -/
def Names (room head : ByteString) : Prop :=
  ∃ digits, Digits digits ∧ digits.length ≠ 1 ∧
    (room ++ digits ≠ vm ∧ (∃ before, head = before ++ dot :: (room ++ digits)) ∨
      dash ∉ room ++ digits ∧ (∃ before, head = before ++ dot :: vm) ∧
        ∃ after, head = room ++ digits ++ dash :: after)

theorem dot_notMem_digits (digits : ByteString) (h : Digits digits) : dot ∉ digits := by
  intro hin
  have hdigit := h dot hin
  simp [isDigit, dot] at hdigit

variable (hostname head room : ByteString)

theorem dot_notMem_room (digits : ByteString) (hroom : Room room) (hdigits : Digits digits) :
    dot ∉ room ++ digits := by
  intro hin
  rcases List.mem_append.mp hin with hfirst | hlast
  · exact hroom.dotFree hfirst
  · exact dot_notMem_digits digits hdigits hlast

theorem names_last (before last : ByteString) (hroom : Room room) (hdot : dot ∉ last)
    (hvm : last ≠ vm) :
    Names room (before ++ dot :: last) ↔
      ∃ digits, Digits digits ∧ digits.length ≠ 1 ∧ last = room ++ digits := by
  constructor
  · rintro ⟨digits, hdigits, hone, ⟨_, _, hhead⟩ | ⟨_, ⟨_, hhead⟩, _⟩⟩
    · have hfree := dot_notMem_room room digits hroom hdigits
      exact ⟨digits, hdigits, hone, letter_split dot _ _ _ _ hdot hfree hhead⟩
    · exact absurd (letter_split dot _ _ _ _ hdot (by decide) hhead) hvm
  · rintro ⟨digits, hdigits, hone, rfl⟩
    exact ⟨digits, hdigits, hone, Or.inl ⟨hvm, before, rfl⟩⟩

theorem names_vm (before : ByteString) (hroom : Room room) (hhead : head = before ++ dot :: vm) :
    Names room head ↔ ∃ digits, Digits digits ∧ digits.length ≠ 1 ∧ dash ∉ room ++ digits ∧
      ∃ after, head = room ++ digits ++ dash :: after := by
  constructor
  · rintro ⟨digits, hdigits, hone, ⟨hvm, _, hlast⟩ | ⟨hdash, _, hafter⟩⟩
    · have hfree := dot_notMem_room room digits hroom hdigits
      exact absurd (letter_split dot _ _ _ _ hfree (by decide) (hlast.symm.trans hhead)) hvm
    · exact ⟨digits, hdigits, hone, hdash, hafter⟩
  · rintro ⟨digits, hdigits, hone, hdash, hafter⟩
    exact ⟨digits, hdigits, hone, Or.inr ⟨hdash, ⟨before, hhead⟩, hafter⟩⟩

theorem names_undotted (hdot : dot ∉ head) : ¬ Names room head := by
  rintro ⟨_, _, _, ⟨_, _, rfl⟩ | ⟨_, ⟨_, rfl⟩, _⟩⟩ <;> simp at hdot

/-- Which names give the room, by the part of the name that counts. -/
theorem comparedRoom_iff_names (hne : hostname.isEmpty = false)
    (herase : eraseDomain hostname = head) (hroom : Room room) (n : ℕ) :
    comparedRoom hostname n = room ↔ Names room head := by
  have hempty : trimMachineRoomDigit [] ≠ room := fun h => hroom.nonempty h.symm
  unfold comparedRoom
  rcases letter_cases dot head with hdot | ⟨before, last, hdot, hhead⟩
  · have hnothing : ∀ n, machineRoomAfter hostname n = [] := by
      intro n
      induction n with
      | zero => rfl
      | succ n ih => rw [machineRoomAfter, room_undotted hostname head _ hne herase hdot, ih]
    rw [hnothing]
    exact iff_of_false hempty (names_undotted head room hdot)
  · by_cases hvm : last = vm
    · subst hvm
      rw [machineRoomAfter, room_vm hostname head _ hne herase before hhead,
        names_vm head room before hroom hhead]
      by_cases hdash : dash ∈ head
      · obtain ⟨front, after, hfront, hnot⟩ := List.eq_append_cons_of_mem hdash
        rw [hfront, findIdx_letter dash front after hnot]
        simp only [List.take_left]
        rw [trim_eq_iff room front hroom]
        constructor
        · rintro ⟨digits, hdigits, hone, rfl⟩
          exact ⟨digits, hdigits, hone, hnot, after, rfl⟩
        · rintro ⟨digits, hdigits, hone, hfree, other, hsplit⟩
          exact ⟨digits, hdigits, hone, letter_split_first dash _ _ _ _ hnot hfree hsplit⟩
      · rw [List.findIdx?_eq_none_iff.mpr]
        · refine iff_of_false hempty ?_
          rintro ⟨_, _, _, _, _, rfl⟩
          simp at hdash
        · intro c hc
          simpa using fun hcd : c = dash => hdash (hcd ▸ hc)
    · rw [machineRoomAfter, room_last hostname head _ hne herase before last hdot hvm hhead,
        trim_eq_iff room last hroom, hhead, names_last room before last hroom hdot hvm]

theorem comparedRoom_of_name (before digits : ByteString) (hroom : Room room)
    (hdigits : Digits digits) (hvm : room ++ digits ≠ vm) (hne : hostname.isEmpty = false)
    (herase : eraseDomain hostname = before ++ dot :: (room ++ digits)) (n : ℕ) :
    comparedRoom hostname n = room ↔ digits.length ≠ 1 := by
  have hdot := dot_notMem_room room digits hroom hdigits
  rw [comparedRoom_iff_names hostname _ room hne herase hroom n,
    names_last room before _ hroom hdot hvm]
  constructor
  · rintro ⟨_, _, hone, hsame⟩
    rwa [List.append_cancel_left hsame]
  · intro hone
    exact ⟨digits, hdigits, hone, rfl⟩

/-- A load compares with the room of the name exactly when the digits behind it
are not a single one. Where the name has the domain inside, what stands in front
of it is the name that counts. -/
theorem comparedRoom_iff (before digits : ByteString) (hroom : Room room)
    (hdigits : Digits digits) (hvm : room ++ digits ≠ vm) (n : ℕ) :
    (comparedRoom (before ++ dot :: (room ++ digits) ++ domain) n = room ↔ digits.length ≠ 1) ∧
    (¬ domain <:+: before ++ dot :: (room ++ digits) →
      (comparedRoom (before ++ dot :: (room ++ digits)) n = room ↔ digits.length ≠ 1)) ∧
    ∀ head rest, LastAt domain head rest (before ++ dot :: (room ++ digits)) →
      (comparedRoom (before ++ dot :: (room ++ digits)) n = room ↔ Names room head) := by
  refine ⟨?_, ?_, ?_⟩
  · exact comparedRoom_of_name _ room before digits hroom hdigits hvm (by simp)
      (eraseDomain_suffix _) n
  · intro hnone
    exact comparedRoom_of_name _ room before digits hroom hdigits hvm (by simp)
      (eraseDomain_none _ hnone) n
  · intro head rest hlast
    exact comparedRoom_iff_names _ head room (by simp) (eraseDomain_lastAt _ head rest hlast)
      hroom n

/-- The room of `web.jx1`. -/
theorem room_jx : Room [106, 120] :=
  ⟨by decide, by intro c hc; obtain rfl : 120 = c := Option.some.inj hc; rfl, by decide⟩

theorem comparedRoom_iff_jx1 : Room [106, 120] ∧ Digits [49] ∧ [106, 120] ++ [49] ≠ vm ∧
    (comparedRoom ([119, 101, 98] ++ dot :: ([106, 120] ++ [49]) ++ domain) 0 = [106, 120] ↔
      ([49] : ByteString).length ≠ 1) :=
  ⟨room_jx, by decide, by decide,
    (comparedRoom_iff [106, 120] [119, 101, 98] [49] room_jx (by decide) (by decide) 0).1⟩

/-- The room `jx` of `web.jx1.baidu.com` keeps its digit. -/
theorem single_digit_kept : ¬ ∀ before room digits : ByteString, before ≠ [] → Room room →
    Digits digits → room ++ digits ≠ vm → ∀ n,
      comparedRoom (before ++ dot :: (room ++ digits)) n = room ∧
      comparedRoom (before ++ dot :: (room ++ digits) ++ domain) n = room := by
  intro hall
  have hboth := hall [119, 101, 98] [106, 120] [49] (by decide) room_jx (by decide) (by decide) 0
  exact absurd hboth.2 (by decide)

end Compared

end Gingko.MachineRooms
