import Gingko.DecimalTexts
import Mathlib.Data.List.Basic

/-!
The limits on the rates that the command line takes. A text of digits and a unit is
multiplied out in floating point, taken for a 64-bit number, and kept in an int before
it is compared with the bounds. What the int keeps of a value from 2^32 on is its
remainder, which may lie inside the bounds.
-/
namespace Gingko.LimitOptions

open DecimalTexts

section Values

/-- Floating-point numbers as far as they are whole and not negative: the nearest one to
a whole number, which is the number itself below 2^53. -/
structure Doubles where
  nearest : ℕ → ℕ
  exact : ∀ n < 9007199254740992, nearest n = n

def mebi : ℕ := 1048576

/-- The unit that a last letter stands for. -/
def unitOf : Char → Option ℕ
  | 'M' | 'm' => some mebi
  | 'K' | 'k' => some 1024
  | 'G' | 'g' => some (1024 * mebi)
  | 'T' | 't' => some (mebi * mebi)
  | 'B' | 'b' => some 1
  | _ => none

variable (doubles : Doubles)

/-- What is behind the digits is not read. -/
def atof (text : Text) : ℕ := doubles.nearest (digitsValue text)

/-- The bytes as a number of 64 bits, which keeps all that is below 2^63. -/
def readableToBytes (bytesString : Text) (unit : ℕ) : ℤ :=
  let unit := ((bytesString.getLast?).bind unitOf).getD unit
  (doubles.nearest (atof doubles bytesString * unit) : ℤ)

/-- Digits, and at most one letter of a unit behind them. -/
structure LimitText where
  digits : Text
  letter : Option Char
  digits_ne : digits ≠ []
  isDigit : ∀ c ∈ digits, c.isDigit = true
  isUnit : ∀ c ∈ letter, (unitOf c).isSome = true

def LimitText.text (t : LimitText) : Text := t.digits ++ t.letter.toList

/-- The value in bytes, in mebibytes when no unit is given. -/
def LimitText.bytes (t : LimitText) : ℕ :=
  Nat.ofDigitChars 10 t.digits 0 * ((t.letter.bind unitOf).getD mebi)

theorem unitOf_pos (c : Char) (unit : ℕ) (h : unitOf c = some unit) :
    0 < unit ∧ c.isDigit = false := by
  unfold unitOf at h
  split at h
  all_goals cases h
  all_goals exact ⟨by decide, rfl⟩

theorem LimitText.getLast_text (t : LimitText) :
    (t.text.getLast?).bind unitOf = t.letter.bind unitOf := by
  cases hletter : t.letter with
  | none =>
    obtain ⟨init, c, hdigits⟩ := (List.eq_nil_or_concat' t.digits).resolve_left t.digits_ne
    have hdigit : c.isDigit = true := t.isDigit c (by simp [hdigits])
    have hnone : unitOf c = none := by
      by_contra hsome
      obtain ⟨unit, hunit⟩ := Option.ne_none_iff_exists'.mp hsome
      rw [(unitOf_pos c unit hunit).2] at hdigit
      contradiction
    simp [LimitText.text, hletter, hdigits, hnone]
  | some c => simp [LimitText.text, hletter]

/-- Below 2^53 nothing is rounded. -/
theorem readableToBytes_exact (t : LimitText) (hbytes : t.bytes < 9007199254740992) :
    readableToBytes doubles t.text mebi = t.bytes := by
  have hvalue : digitsValue t.text = Nat.ofDigitChars 10 t.digits 0 := by
    apply digitsValue_append t.digits _ t.isDigit
    intro c hc
    have hletter : c ∈ t.letter := by cases hletter : t.letter <;> simp_all
    obtain ⟨unit, hunit⟩ := Option.isSome_iff_exists.mp (t.isUnit c hletter)
    exact (unitOf_pos c unit hunit).2
  have hunit : 0 < (t.letter.bind unitOf).getD mebi := by
    cases hletter : t.letter.bind unitOf with
    | none => decide
    | some unit =>
      obtain ⟨c, -, hc⟩ := Option.bind_eq_some_iff.mp hletter
      exact (unitOf_pos c unit hc).1
  have hdigits : Nat.ofDigitChars 10 t.digits 0 < 9007199254740992 :=
    Nat.lt_of_le_of_lt (Nat.le_mul_of_pos_right _ hunit) hbytes
  simp only [readableToBytes, atof, hvalue, t.getLast_text, doubles.exact _ hdigits]
  rw [← LimitText.bytes, doubles.exact _ hbytes]

end Values

section Options

variable (doubles : Doubles)

/-- The int that a number is stored in. -/
def toInt (n : ℤ) : ℤ := n.bmod 4294967296

/-- The case of a limit option; `none` ends the command. -/
def limitOption (highest : ℕ) (optarg : Text) : Option ℤ :=
  let limit := toInt (readableToBytes doubles optarg mebi)
  if limit < 0 ∨ limit > highest then none else some limit

def processAdd.uploadLimit : Text → Option ℤ := limitOption doubles (1000 * 1024 * 1024)

def processServe.uploadLimit : Text → Option ℤ := limitOption doubles (1000 * 1024 * 1024)

def processDownload.downloadLimit : Text → Option ℤ := limitOption doubles (2000 * 1024 * 1024)

def processDownload.uploadLimit : Text → Option ℤ := limitOption doubles (2000 * 1024 * 1024)

def processSetopt.downloadLimit : Text → Option ℤ := limitOption doubles (1000 * 1024 * 1024)

def processSetopt.uploadLimit : Text → Option ℤ := limitOption doubles (1000 * 1024 * 1024)

/-- A value up to `highest` is taken and stored, and no other. -/
def KeepsLimit (option : Text → Option ℤ) (highest : ℕ) (t : LimitText) : Prop :=
  ((option t.text).isSome = true ↔ t.bytes ≤ highest) ∧
    ∀ limit, option t.text = some limit → limit = t.bytes

/-- What the int holds of the value lies outside the bounds, or the value inside. -/
def Narrows (highest : ℕ) (t : LimitText) : Prop :=
  t.bytes ≤ highest ∨ highest < t.bytes % 4294967296

/-- The option sees the remainder of the value, and nothing else of it. -/
theorem limitOption_text (highest : ℕ) (hhighest : highest < 2147483648) (t : LimitText)
    (hbytes : t.bytes < 9007199254740992) :
    limitOption doubles highest t.text =
      if highest < t.bytes % 4294967296 then none else some ((t.bytes % 4294967296 : ℕ) : ℤ) := by
  simp only [limitOption, readableToBytes_exact doubles t hbytes, toInt]
  generalize t.bytes = value
  have hbmod := Int.bmod_def (value : ℤ) 4294967296
  generalize (value : ℤ).bmod 4294967296 = limit at hbmod
  by_cases hlow : value % 4294967296 ≤ highest
  · have hlimit : limit = (value % 4294967296 : ℕ) := by
      rw [hbmod]
      split <;> omega
    rw [if_neg (by omega), if_neg (by omega), hlimit]
  · have hout : limit < 0 ∨ limit > highest := by
      rw [hbmod]
      split <;> omega
    rw [if_pos hout, if_pos (by omega)]

theorem limitOption_iff (highest : ℕ) (hhighest : highest < 2147483648) (t : LimitText)
    (hbytes : t.bytes < 9007199254740992) :
    KeepsLimit (limitOption doubles highest) highest t ↔ Narrows highest t := by
  rw [KeepsLimit, limitOption_text doubles highest hhighest t hbytes, Narrows]
  by_cases hout : highest < t.bytes % 4294967296
  · have hlarge : ¬t.bytes ≤ highest := by omega
    simp [hout, hlarge]
  · rw [if_neg hout]
    constructor
    · rintro ⟨haccepted, -⟩
      exact .inl (haccepted.mp rfl)
    · intro hnarrows
      have hsmall := hnarrows.resolve_right hout
      refine ⟨iff_of_true rfl hsmall, fun limit hlimit => ?_⟩
      obtain rfl := Option.some.inj hlimit
      rw [Nat.mod_eq_of_lt (by omega)]

/-- Each limit option takes the values inside its bounds and no others, when and only when
the int keeps no value from 2^32 on inside the bounds. -/
theorem limit_options_iff (t : LimitText) (hbytes : t.bytes < 9007199254740992) :
    (∀ option ∈ [processAdd.uploadLimit doubles, processServe.uploadLimit doubles,
        processSetopt.downloadLimit doubles, processSetopt.uploadLimit doubles],
      (KeepsLimit option (1000 * 1024 * 1024) t ↔ Narrows (1000 * 1024 * 1024) t)) ∧
    ∀ option ∈ [processDownload.downloadLimit doubles, processDownload.uploadLimit doubles],
      (KeepsLimit option (2000 * 1024 * 1024) t ↔ Narrows (2000 * 1024 * 1024) t) := by
  have hlow := limitOption_iff doubles (1000 * 1024 * 1024) (by decide) t hbytes
  have hhigh := limitOption_iff doubles (2000 * 1024 * 1024) (by decide) t hbytes
  constructor
  · intro option hoption
    simp only [List.mem_cons, List.not_mem_nil, or_false] at hoption
    obtain rfl | rfl | rfl | rfl := hoption <;> exact hlow
  · intro option hoption
    simp only [List.mem_cons, List.not_mem_nil, or_false] at hoption
    obtain rfl | rfl := hoption <;> exact hhigh

/-- Floating point without rounding. -/
def unrounded : Doubles := ⟨id, fun _ _ => rfl⟩

/-- `4G`. -/
def fourGibi : LimitText :=
  ⟨['4'], some 'G', List.cons_ne_nil _ _, by simp, by simp [unitOf]⟩

theorem limit_options_iff_fourGibi :
    KeepsLimit (processDownload.downloadLimit unrounded) (2000 * 1024 * 1024) fourGibi ↔
      Narrows (2000 * 1024 * 1024) fourGibi :=
  (limit_options_iff unrounded fourGibi (by decide)).2 _ List.mem_cons_self

/-- It is taken as no limit at all. -/
theorem fourGibi_unlimited :
    processDownload.downloadLimit unrounded fourGibi.text = some 0 ∧
      ¬KeepsLimit (processDownload.downloadLimit unrounded) (2000 * 1024 * 1024) fourGibi := by
  have hzero : processDownload.downloadLimit unrounded fourGibi.text = some 0 := by decide
  refine ⟨hzero, fun hkeeps => ?_⟩
  have hbytes := hkeeps.2 0 hzero
  contradiction

end Options
end Gingko.LimitOptions
