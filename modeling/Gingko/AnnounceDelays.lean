import Gingko.LimitOptions
import Mathlib.Order.Lattice

/-!
When a torrent announces itself again. A failed reply counts the failures up, and the
count is the delay in seconds; a reply that succeeds gives a delay for the download rate,
as a part of the limit in hundreds, between the number of peers and the session's longest
interval, and not below what the tracker asks for. The hundredths are reckoned in 64 bits
and kept in 32.
-/
namespace Gingko.AnnounceDelays

open LimitOptions (toInt)

section Clamps

variable {α : Type*} [LinearOrder α]

/-- The clamps in the order in which they are made. -/
theorem clamp_eq (value low high floor : α) :
    (let a := if value < low then low else value
      let b := if a > high then high else a
      if b < floor then floor else b) = max floor (min high (max low value)) := by
  simp only [max_def, min_def]
  grind

/-- Of two values the clamps keep the order, or hide the difference. -/
theorem clamp_le_clamp_iff (value value' low high floor : α) :
    max floor (min high (max low value)) ≤ max floor (min high (max low value')) ↔
      value ≤ value' ∨ high ≤ low ∨ high ≤ floor ∨ value ≤ max low floor ∨ high ≤ value' := by
  simp only [max_le_iff, min_le_iff, le_max_iff, le_min_iff]
  grind

end Clamps

structure SessionSettings where
  minAnnounceInterval : ℤ
  maxAnnounceInterval : ℤ
  downloadRateLimit : ℤ

structure ExAnnounceResponse where
  ret : ℤ
  minInterval : ℤ

/-- What the torrent is when a reply comes, with the peers of the reply added. -/
structure Torrent where
  abort : Bool
  isSeed : Bool
  numPeers : ℤ
  numSeeds : ℤ
  downloadLimit : ℤ
  downloadRate : ℤ

/-- The failures are kept in seven bits. -/
def countFailure (exTrackerFailedCount : ℕ) : ℕ :=
  let count := (exTrackerFailedCount + 1) % 128
  if count > 60 then count / 2 else count

namespace Torrent

variable (t : Torrent) (settings : SessionSettings) (response : ExAnnounceResponse)

def atRate (rate : ℤ) : Torrent := { t with downloadRate := rate }

def limit : ℤ :=
  if t.downloadLimit ≤ 0 then toInt (settings.downloadRateLimit + 1) else t.downloadLimit

def interval1 : ℤ := toInt (t.numPeers + t.numSeeds * 3 + 1)

/-- The part of the limit that is in use, in 64 bits. -/
def quotient : ℤ := (t.downloadRate * 100).tdiv (t.limit settings)

/-- `none` is a division by zero. -/
def interval : Option ℤ :=
  if t.isSeed then some settings.minAnnounceInterval
  else if t.limit settings = 0 then none
  else
    let interval := toInt (t.quotient settings)
    let interval := if interval < t.interval1 then t.interval1 else interval
    let interval :=
      if interval > settings.maxAnnounceInterval then settings.maxAnnounceInterval else interval
    some (if interval < response.minInterval then response.minInterval else interval)

/-- The count of failures after the reply, and the delay if a timer is set. -/
def recvExTrackerAnnounceReply (count : ℕ) : Option (ℕ × Option ℤ) :=
  if t.abort then some (count, none)
  else if response.ret ≠ 0 then some (countFailure count, some (countFailure count))
  else (t.interval settings response).map fun interval => (0, some interval)

end Torrent

/-- The counts of failures that replies, one after the other, can lead to. -/
inductive Reach : ℕ → Prop
  | start : Reach 0
  | reply {count count' : ℕ} {delay : Option ℤ} (t : Torrent) (settings : SessionSettings)
      (response : ExAnnounceResponse) (h : Reach count)
      (hreply : t.recvExTrackerAnnounceReply settings response count = some (count', delay)) :
      Reach count'

theorem countFailure_bounds {count : ℕ} (h : count ≤ 60) :
    1 ≤ countFailure count ∧ countFailure count ≤ 60 := by
  unfold countFailure
  dsimp only
  split <;> omega

theorem Reach.le {count : ℕ} (h : Reach count) : count ≤ 60 := by
  induction h with
  | start => omega
  | reply t settings response _ hreply ih =>
    unfold Torrent.recvExTrackerAnnounceReply at hreply
    split at hreply
    · cases hreply
      exact ih
    · split at hreply
      · cases hreply
        exact (countFailure_bounds ih).2
      · obtain ⟨_, -, heq⟩ := Option.map_eq_some_iff.mp hreply
        cases heq
        omega

/-- What the scheduling is for: `answers` says that no division is by zero, and `ordered`
compares with the reply that comes at another rate. -/
structure Paces (count : ℕ) (t : Torrent) (settings : SessionSettings)
    (response : ExAnnounceResponse) (rate : ℤ) : Prop where
  answers : (t.recvExTrackerAnnounceReply settings response count).isSome
  failed : t.abort = false → response.ret ≠ 0 → ∃ count' delay,
    t.recvExTrackerAnnounceReply settings response count = some (count', some delay) ∧
      1 ≤ delay ∧ delay ≤ 60
  succeeded : t.abort = false → response.ret = 0 → t.isSeed = false → ∃ count' delay,
    t.recvExTrackerAnnounceReply settings response count = some (count', some delay) ∧
      response.minInterval ≤ delay ∧ delay ≤ max settings.maxAnnounceInterval response.minInterval
  ordered : ∀ count₁ count₂ delay₁ delay₂,
    t.recvExTrackerAnnounceReply settings response count = some (count₁, some delay₁) →
    (t.atRate rate).recvExTrackerAnnounceReply settings response count =
      some (count₂, some delay₂) → delay₁ ≤ delay₂

/-- How many times 2^32 are lost of a number that is kept in an int. -/
def turns (n : ℤ) : ℤ := (n + 2147483648) / 4294967296

/-- The quotients are as far apart as the turns they lose, or the clamps hide the
difference. -/
def KeepsOrder (q q' low high floor : ℤ) : Prop :=
  4294967296 * (turns q' - turns q) ≤ q' - q ∨ high ≤ low ∨ high ≤ floor ∨
    q - 4294967296 * turns q ≤ max low floor ∨ high ≤ q' - 4294967296 * turns q'

/-- The two quotients and the three bounds, as the reply is handled at `rate` as well. -/
def KeepsRates (t : Torrent) (settings : SessionSettings) (response : ExAnnounceResponse)
    (rate : ℤ) : Prop :=
  KeepsOrder (t.quotient settings) ((t.atRate rate).quotient settings) t.interval1
    settings.maxAnnounceInterval response.minInterval

theorem toInt_eq (n : ℤ) : toInt n = n - 4294967296 * turns n := by
  rw [toInt, turns, Int.bmod_def]
  split <;> omega

theorem keepsOrder_iff (q q' low high floor : ℤ) :
    max floor (min high (max low (toInt q))) ≤ max floor (min high (max low (toInt q'))) ↔
      KeepsOrder q q' low high floor := by
  rw [clamp_le_clamp_iff, toInt_eq, toInt_eq, KeepsOrder]
  refine or_congr_left ?_
  omega

/-- The rate counts in one place only. -/
theorem recv_atRate (t : Torrent) (settings : SessionSettings) (response : ExAnnounceResponse)
    (count : ℕ) (rate : ℤ) (hother : t.abort = true ∨ response.ret ≠ 0 ∨ t.isSeed = true) :
    (t.atRate rate).recvExTrackerAnnounceReply settings response count =
      t.recvExTrackerAnnounceReply settings response count := by
  obtain h | h | h := hother <;>
    simp [Torrent.recvExTrackerAnnounceReply, Torrent.interval, Torrent.atRate, h]

section Delays

variable (t : Torrent) {settings : SessionSettings} (response : ExAnnounceResponse)
  (hlow : 0 ≤ settings.downloadRateLimit) (hhigh : settings.downloadRateLimit < 2147483647)

include hlow hhigh

theorem limit_pos : 0 < t.limit settings := by
  unfold Torrent.limit
  split
  · rw [toInt_eq, turns]
    omega
  · omega

theorem interval_eq (hseed : t.isSeed = false) :
    t.interval settings response = some (max response.minInterval
      (min settings.maxAnnounceInterval (max t.interval1 (toInt (t.quotient settings))))) := by
  rw [← clamp_eq, Torrent.interval, hseed, if_neg Bool.false_ne_true,
    if_neg (ne_of_gt (limit_pos t hlow hhigh))]

theorem interval_isSome : (t.interval settings response).isSome := by
  cases hseed : t.isSeed with
  | true => rw [Torrent.interval, hseed, if_pos rfl, Option.isSome_some]
  | false => rw [interval_eq t response hlow hhigh hseed, Option.isSome_some]

theorem recv_succeeded (count : ℕ) (habort : t.abort = false) (hret : response.ret = 0)
    (hseed : t.isSeed = false) :
    t.recvExTrackerAnnounceReply settings response count = some (0, some (max response.minInterval
      (min settings.maxAnnounceInterval (max t.interval1 (toInt (t.quotient settings)))))) := by
  rw [Torrent.recvExTrackerAnnounceReply, habort, if_neg Bool.false_ne_true,
    if_neg (not_not.mpr hret), interval_eq t response hlow hhigh hseed, Option.map_some]

theorem recv_isSome (count : ℕ) :
    (t.recvExTrackerAnnounceReply settings response count).isSome := by
  unfold Torrent.recvExTrackerAnnounceReply
  split
  · rfl
  · split
    · rfl
    · rw [Option.isSome_map]
      exact interval_isSome t response hlow hhigh

/-- The scheduling does all it is for after any replies, unless the narrowing to an int
turns the order of two rates around. -/
theorem paces_iff {count : ℕ} (h : Reach count) (rate : ℤ) :
    Paces count t settings response rate ↔
      (t.abort = false → response.ret = 0 → t.isSeed = false →
        KeepsRates t settings response rate) := by
  constructor
  · intro hpaces habort hret hseed
    have hfirst := recv_succeeded t response hlow hhigh count habort hret hseed
    have hsecond := recv_succeeded (t.atRate rate) response hlow hhigh count habort hret hseed
    exact (keepsOrder_iff _ _ _ _ _).mp (hpaces.ordered _ _ _ _ hfirst hsecond)
  · intro hkeeps
    refine ⟨recv_isSome t response hlow hhigh count, ?_, ?_, ?_⟩
    · intro habort hret
      have hbounds := countFailure_bounds h.le
      refine ⟨countFailure count, countFailure count, ?_, by omega, by omega⟩
      rw [Torrent.recvExTrackerAnnounceReply, habort, if_neg Bool.false_ne_true, if_pos hret]
    · intro habort hret hseed
      exact ⟨0, _, recv_succeeded t response hlow hhigh count habort hret hseed, le_max_left _ _,
        max_le (le_max_right _ _) (le_max_of_le_left (min_le_left _ _))⟩
    · intro count₁ count₂ delay₁ delay₂ hfirst hsecond
      by_cases hother : t.abort = true ∨ response.ret ≠ 0 ∨ t.isSeed = true
      · rw [recv_atRate t settings response count rate hother, hfirst] at hsecond
        cases hsecond
        exact le_refl _
      · obtain ⟨habort, hret, hseed⟩ :
            t.abort = false ∧ response.ret = 0 ∧ t.isSeed = false := by
          simpa using hother
        rw [recv_succeeded t response hlow hhigh count habort hret hseed] at hfirst
        rw [recv_succeeded (t.atRate rate) response hlow hhigh count habort hret hseed] at hsecond
        cases hfirst
        cases hsecond
        exact (keepsOrder_iff _ _ _ _ _).mpr (hkeeps habort hret hseed)

end Delays

/-- With a limit of at least a hundred bytes each second no rate of an int is narrowed. -/
theorem keepsRates_of_limit (t : Torrent) {settings : SessionSettings}
    (response : ExAnnounceResponse) {rate : ℤ} (hlimit : 100 ≤ t.limit settings)
    (hnonneg : 0 ≤ t.downloadRate) (hle : t.downloadRate ≤ rate) (hrate : rate < 2147483648) :
    KeepsRates t settings response rate := by
  have hquotient (r : ℤ) (hr : 0 ≤ r) : (t.atRate r).quotient settings =
      r * 100 / t.limit settings :=
    Int.tdiv_eq_ediv_of_nonneg (show 0 ≤ r * 100 by omega)
  have hturns (r : ℤ) (hr : 0 ≤ r) (hr' : r < 2147483648) :
      turns (r * 100 / t.limit settings) = 0 := by
    have hpos : 0 ≤ r * 100 / t.limit settings := Int.ediv_nonneg (by omega) (by omega)
    have hlt : r * 100 / t.limit settings < 2147483648 :=
      Int.ediv_lt_of_lt_mul (by omega) (by omega)
    rw [turns]
    omega
  have hfirst : t.quotient settings = t.downloadRate * 100 / t.limit settings :=
    hquotient t.downloadRate hnonneg
  refine .inl ?_
  rw [hfirst, hquotient rate (by omega), hturns rate (by omega) hrate,
    hturns t.downloadRate hnonneg (by omega), sub_self, mul_zero, sub_nonneg]
  exact Int.ediv_le_ediv (by omega) (by omega)

/-- A reply after one failure, at a tenth of the limit and at a fifth. -/
theorem paces_below_limit : Paces 1 ⟨false, false, 5, 1, 1000000, 100000⟩ ⟨300, 100, 0⟩ ⟨0, 7⟩
    200000 := by
  have hreach : Reach 1 := Reach.start.reply
    ⟨false, false, 0, 0, 0, 0⟩ ⟨300, 100, 0⟩ ⟨-1, 0⟩ rfl
  refine (paces_iff _ _ (by decide) (by decide) hreach 200000).mpr fun _ _ _ => ?_
  exact keepsRates_of_limit _ _ (by decide) (by decide) (by decide) (by decide)

/-- Without a limit, one byte a second more turns the longest delay into the shortest. -/
theorem rate_shortens_delay : ¬Paces 0 ⟨false, false, 0, 0, 0, 21474836⟩ ⟨300, 100, 0⟩ ⟨0, 0⟩
    21474837 := by
  intro h
  exact absurd (h.ordered 0 0 100 1 rfl rfl) (by decide)

end Gingko.AnnounceDelays
