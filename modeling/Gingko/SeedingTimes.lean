import Mathlib.Data.Int.Order.Basic
import Mathlib.Data.Int.Init

/-!
The time a download seeds for when none was given. Two quotients are formed from
counts and rates of 32 bits and totals of 64 bits, and each is cut down to an int
before the smaller one is taken. The exact minimum comes out as long as no sum, no
product and no cut leaves its type.
-/
namespace Gingko.SeedingTimes

section Divisions

/-- The processor traps on a division by zero and on the one that overflows. -/
def divide (n d : Int64) : Option Int64 :=
  if d = 0 ∨ (n = Int64.minValue ∧ d = -1) then none else some (n / d)

theorem divide_eq_some (n d q : Int64) (h : divide n d = some q) :
    d.toInt ≠ 0 ∧ q.toInt = n.toInt.tdiv d.toInt := by
  unfold divide at h
  split at h
  · contradiction
  · next hfine =>
    obtain ⟨hzero, hoverflow⟩ := not_or.mp hfine
    obtain rfl := Option.some.inj h
    refine ⟨fun hd => hzero (Int64.toInt_inj.mp hd), ?_⟩
    by_cases hmin : n = Int64.minValue
    · exact Int64.toInt_div_of_ne_right n d (fun hd => hoverflow ⟨hmin, hd⟩)
    · exact Int64.toInt_div_of_ne_left n d hmin

theorem exists_divide (n d : Int64) (hn : 0 ≤ n.toInt ∨ d.toInt ≠ -1) (hd : d.toInt ≠ 0) :
    ∃ q, divide n d = some q ∧ q.toInt = n.toInt.tdiv d.toInt := by
  have hfine : ¬ (d = 0 ∨ (n = Int64.minValue ∧ d = -1)) := by
    rintro (rfl | ⟨rfl, rfl⟩)
    · exact hd rfl
    · obtain hnonneg | hother := hn
      · exact absurd hnonneg (by decide)
      · exact hother rfl
  have hq : divide n d = some (n / d) := if_neg hfine
  exact ⟨n / d, hq, (divide_eq_some n d _ hq).2⟩

theorem succ_exact_iff (a : Int32) : (a + 1).toInt = a.toInt + 1 ↔ a.toInt < 2147483647 := by
  have hlow := a.le_toInt
  have hhigh := a.toInt_lt
  have hone : (1 : Int32).toInt = 1 := rfl
  rw [Int32.toInt_add, hone, Int.bmod_def]
  split <;> omega

theorem mul_exact_iff (a b : Int64) (h : 0 ≤ a.toInt * b.toInt) :
    (a * b).toInt = a.toInt * b.toInt ↔ a.toInt * b.toInt < 9223372036854775808 := by
  rw [Int64.toInt_mul]
  generalize a.toInt * b.toInt = product at h ⊢
  rw [Int.bmod_def]
  split <;> omega

theorem narrow_exact_iff (a : Int64) :
    a.toInt32.toInt = a.toInt ↔ -2147483648 ≤ a.toInt ∧ a.toInt < 2147483648 := by
  rw [Int64.toInt_toInt32, Int.bmod_def]
  split <;> omega

/-- The quotient of quotients, for a positive last divisor. -/
theorem quotient_pos (n a b : ℤ) (hn : 0 ≤ n) (ha : 0 < a) (hb : 0 < b) :
    ((n.tdiv a).tdiv b).tdiv 2 = n / (a * b * 2) := by
  have hfirst : 0 ≤ n / a := Int.ediv_nonneg hn (Int.le_of_lt ha)
  have hsecond : 0 ≤ n / a / b := Int.ediv_nonneg hfirst (Int.le_of_lt hb)
  have hab : 0 ≤ a * b := Int.mul_nonneg (Int.le_of_lt ha) (Int.le_of_lt hb)
  rw [Int.tdiv_eq_ediv_of_nonneg hn, Int.tdiv_eq_ediv_of_nonneg hfirst,
    Int.tdiv_eq_ediv_of_nonneg hsecond, Int.ediv_ediv_of_nonneg (Int.le_of_lt ha),
    Int.ediv_ediv_of_nonneg hab]

theorem quotient_neg (n a b : ℤ) (hn : 0 ≤ n) (ha : 0 < a) (hb : b < 0) :
    ((n.tdiv a).tdiv b).tdiv 2 = -(n / (a * -b * 2)) := by
  have h := quotient_pos n a (-b) hn ha (by omega)
  rw [Int.tdiv_neg, Int.neg_tdiv] at h
  omega

end Divisions

section Times

structure TorrentStatus where
  numPeers : Int32
  numSeeds : Int32
  uploadsLimit : Int32
  downloadRate : Int32
  totalPayloadDownload : Int64
  totalDownload : Int64

/-- What is measured is never negative. -/
structure Reported (ts : TorrentStatus) : Prop where
  numPeers : 0 ≤ ts.numPeers.toInt
  numSeeds : 0 ≤ ts.numSeeds.toInt
  downloadRate : 0 ≤ ts.downloadRate.toInt
  totalPayloadDownload : 0 ≤ ts.totalPayloadDownload.toInt
  totalDownload : 0 ≤ ts.totalDownload.toInt

variable (ts : TorrentStatus) (configured : Int32)

def uploadLimit : Int32 := if 0 < ts.uploadsLimit then ts.uploadsLimit else configured

def product : Int64 := (ts.numPeers + 1).toInt64 * ts.totalPayloadDownload

def uploadQuotient : Option Int64 := do
  let perSeed ← divide (product ts) (1 + ts.numSeeds).toInt64
  let perLimit ← divide perSeed (uploadLimit ts configured + 1).toInt64
  divide perLimit 2

def downloadQuotient : Option Int64 := divide ts.totalDownload (ts.downloadRate + 1).toInt64

/-- The time when none was given; `none` when a division traps. -/
def defaultSeedingTime : Option Int32 := do
  let seedingTime := (← uploadQuotient ts configured).toInt32
  let tmp := (← downloadQuotient ts).toInt32
  return if tmp < seedingTime then tmp else seedingTime

inductive Seeding where
  | infinite
  | seconds (seedingTime : Int32)
  deriving DecidableEq

def toSeeding (seedingTime : Int32) : Option Seeding :=
  if seedingTime = -1 then some .infinite
  else if 0 ≤ seedingTime then some (.seconds seedingTime)
  else (defaultSeedingTime ts configured).map .seconds

def Downloader.toSeeding : Int32 → Option Seeding := SeedingTimes.toSeeding ts configured

def GroupTask.toSeeding : Int32 → Option Seeding := SeedingTimes.toSeeding ts configured

/-- The quotients without any bound on the numbers. -/
def exactUpload : ℤ :=
  ((((ts.numPeers.toInt + 1) * ts.totalPayloadDownload.toInt).tdiv (1 + ts.numSeeds.toInt)).tdiv
    ((uploadLimit ts configured).toInt + 1)).tdiv 2

def exactDownload : ℤ := ts.totalDownload.toInt.tdiv (ts.downloadRate.toInt + 1)

/-- The sums and the product are what they would be without bounds. -/
structure SumsExact : Prop where
  numPeers : (ts.numPeers + 1).toInt = ts.numPeers.toInt + 1
  product : (product ts).toInt = (ts.numPeers + 1).toInt * ts.totalPayloadDownload.toInt
  numSeeds : (1 + ts.numSeeds).toInt = 1 + ts.numSeeds.toInt
  limit : (uploadLimit ts configured + 1).toInt = (uploadLimit ts configured).toInt + 1
  downloadRate : (ts.downloadRate + 1).toInt = ts.downloadRate.toInt + 1

/-- So are the quotients after they are cut down to an int. -/
structure NoOverflow : Prop extends SumsExact ts configured where
  seedingTime : ∀ q, uploadQuotient ts configured = some q → q.toInt32.toInt = q.toInt
  tmp : ∀ q, downloadQuotient ts = some q → q.toInt32.toInt = q.toInt

/-- The timer is started with the exact minimum, and nothing overflows on the way. -/
def StartsMinimum (result : Option Seeding) : Prop :=
  ∃ time : Int32, result = some (.seconds time) ∧
    time.toInt = min (exactUpload ts configured) (exactDownload ts) ∧ 0 ≤ time.toInt ∧
    NoOverflow ts configured

/-- The counts and rates have a successor, and the product fits. -/
structure SumsBounded : Prop where
  numPeers : ts.numPeers.toInt < 2147483647
  numSeeds : ts.numSeeds.toInt < 2147483647
  limit : (uploadLimit ts configured).toInt < 2147483647
  downloadRate : ts.downloadRate.toInt < 2147483647
  product : (ts.numPeers.toInt + 1) * ts.totalPayloadDownload.toInt < 9223372036854775808

/-- No limit is minus one, and what is divided is small enough for its divisors. -/
structure Bounded : Prop extends SumsBounded ts configured where
  limit_ne : (uploadLimit ts configured).toInt ≠ -1
  upload : 0 ≤ (uploadLimit ts configured).toInt →
    (ts.numPeers.toInt + 1) * ts.totalPayloadDownload.toInt < 2147483648 *
      ((1 + ts.numSeeds.toInt) * ((uploadLimit ts configured).toInt + 1) * 2)
  negative : (uploadLimit ts configured).toInt < 0 →
    (ts.numPeers.toInt + 1) * ts.totalPayloadDownload.toInt <
      (1 + ts.numSeeds.toInt) * -((uploadLimit ts configured).toInt + 1) * 2
  download : ts.totalDownload.toInt < 2147483648 * (ts.downloadRate.toInt + 1)

section Exact

variable {ts configured}

theorem uploadQuotient_limit (q : Int64) (h : SumsExact ts configured)
    (hq : uploadQuotient ts configured = some q) : (uploadLimit ts configured).toInt ≠ -1 := by
  unfold uploadQuotient at hq
  obtain ⟨perSeed, -, hperSeed⟩ := Option.bind_eq_some_iff.mp hq
  obtain ⟨perLimit, hperLimit, -⟩ := Option.bind_eq_some_iff.mp hperSeed
  have hne := (divide_eq_some _ _ _ hperLimit).1
  rw [Int32.toInt_toInt64, h.limit] at hne
  omega

variable (hr : Reported ts)
include hr

theorem sumsExact_iff : SumsExact ts configured ↔ SumsBounded ts configured := by
  have hpeers := succ_exact_iff ts.numPeers
  have hseeds := succ_exact_iff ts.numSeeds
  have hlimit := succ_exact_iff (uploadLimit ts configured)
  have hrate := succ_exact_iff ts.downloadRate
  rw [Int32.add_comm, Int.add_comm] at hseeds
  have hproduct (hexact : (ts.numPeers + 1).toInt = ts.numPeers.toInt + 1) :
      (product ts).toInt = (ts.numPeers + 1).toInt * ts.totalPayloadDownload.toInt ↔
        (ts.numPeers.toInt + 1) * ts.totalPayloadDownload.toInt < 9223372036854775808 := by
    have hnonneg : 0 ≤ (ts.numPeers.toInt + 1) * ts.totalPayloadDownload.toInt :=
      Int.mul_nonneg (by have := hr.numPeers; omega) hr.totalPayloadDownload
    have hmul := mul_exact_iff (ts.numPeers + 1).toInt64 ts.totalPayloadDownload
    rw [Int32.toInt_toInt64, hexact] at hmul
    rw [product, hexact]
    exact hmul hnonneg
  constructor
  · intro h
    exact ⟨hpeers.mp h.numPeers, hseeds.mp h.numSeeds, hlimit.mp h.limit,
      hrate.mp h.downloadRate, (hproduct h.numPeers).mp h.product⟩
  · intro h
    have hfirst := hpeers.mpr h.numPeers
    exact ⟨hfirst, (hproduct hfirst).mpr h.product, hseeds.mpr h.numSeeds,
      hlimit.mpr h.limit, hrate.mpr h.downloadRate⟩

theorem product_nonneg : 0 ≤ (ts.numPeers.toInt + 1) * ts.totalPayloadDownload.toInt := by
  have hpeers := hr.numPeers
  exact Int.mul_nonneg (by omega) hr.totalPayloadDownload

theorem downloadQuotient_spec (h : SumsExact ts configured) :
    ∃ q, downloadQuotient ts = some q ∧ q.toInt = exactDownload ts := by
  have hrate := hr.downloadRate
  have hdivisor : (ts.downloadRate + 1).toInt64.toInt = ts.downloadRate.toInt + 1 := by
    rw [Int32.toInt_toInt64, h.downloadRate]
  obtain ⟨q, hq, hvalue⟩ := exists_divide ts.totalDownload (ts.downloadRate + 1).toInt64
    (.inl hr.totalDownload) (by omega)
  exact ⟨q, hq, by rw [hvalue, hdivisor, exactDownload]⟩

theorem uploadQuotient_spec (h : SumsExact ts configured)
    (hlimit : (uploadLimit ts configured).toInt ≠ -1) :
    ∃ q, uploadQuotient ts configured = some q ∧ q.toInt = exactUpload ts configured := by
  have hseeds := hr.numSeeds
  have hproduct : (product ts).toInt =
      (ts.numPeers.toInt + 1) * ts.totalPayloadDownload.toInt := by
    rw [h.product, h.numPeers]
  have hnonneg := product_nonneg hr
  have hseedDivisor : (1 + ts.numSeeds).toInt64.toInt = 1 + ts.numSeeds.toInt := by
    rw [Int32.toInt_toInt64, h.numSeeds]
  have hlimitDivisor : (uploadLimit ts configured + 1).toInt64.toInt =
      (uploadLimit ts configured).toInt + 1 := by
    rw [Int32.toInt_toInt64, h.limit]
  obtain ⟨perSeed, hperSeed, hseedValue⟩ :=
    exists_divide (product ts) (1 + ts.numSeeds).toInt64 (.inl (by omega)) (by omega)
  rw [hproduct, hseedDivisor] at hseedValue
  have hperSeedNonneg : 0 ≤ perSeed.toInt := by
    rw [hseedValue]
    exact Int.tdiv_nonneg hnonneg (by omega)
  obtain ⟨perLimit, hperLimit, hlimitValue⟩ :=
    exists_divide perSeed (uploadLimit ts configured + 1).toInt64 (.inl hperSeedNonneg) (by omega)
  have htwo : (2 : Int64).toInt = 2 := rfl
  obtain ⟨half, hhalf, hhalfValue⟩ := exists_divide perLimit 2 (.inr (by omega)) (by omega)
  refine ⟨half, ?_, ?_⟩
  · simp only [uploadQuotient, hperSeed, hperLimit, hhalf, Option.bind_eq_bind, Option.bind_some]
  · rw [hhalfValue, hlimitValue, hseedValue, hlimitDivisor, htwo, exactUpload]

/-- The quotient by the limit is an int from zero on. -/
theorem exactUpload_bounds (hlimit : (uploadLimit ts configured).toInt ≠ -1) :
    0 ≤ exactUpload ts configured ∧ exactUpload ts configured < 2147483648 ↔
      (0 ≤ (uploadLimit ts configured).toInt →
        (ts.numPeers.toInt + 1) * ts.totalPayloadDownload.toInt < 2147483648 *
          ((1 + ts.numSeeds.toInt) * ((uploadLimit ts configured).toInt + 1) * 2)) ∧
      ((uploadLimit ts configured).toInt < 0 →
        (ts.numPeers.toInt + 1) * ts.totalPayloadDownload.toInt <
          (1 + ts.numSeeds.toInt) * -((uploadLimit ts configured).toInt + 1) * 2) := by
  have hnonneg := product_nonneg hr
  have hseeds : 0 < 1 + ts.numSeeds.toInt := by
    have := hr.numSeeds
    omega
  unfold exactUpload
  generalize (ts.numPeers.toInt + 1) * ts.totalPayloadDownload.toInt = n at hnonneg ⊢
  generalize 1 + ts.numSeeds.toInt = a at hseeds ⊢
  generalize (uploadLimit ts configured).toInt = limit at hlimit ⊢
  by_cases hsign : 0 ≤ limit
  · have hdivisor : 0 < a * (limit + 1) * 2 :=
      Int.mul_pos (Int.mul_pos hseeds (by omega)) (by omega)
    have hquotient := Int.ediv_nonneg hnonneg (Int.le_of_lt hdivisor)
    have hlt := Int.ediv_lt_iff_lt_mul hdivisor (a := n) (b := 2147483648)
    rw [quotient_pos n a (limit + 1) hnonneg hseeds (by omega), hlt]
    constructor
    · exact fun h => ⟨fun _ => h.2, fun hneg => by omega⟩
    · exact fun h => ⟨hquotient, h.1 hsign⟩
  · have hdivisor : 0 < a * -(limit + 1) * 2 :=
      Int.mul_pos (Int.mul_pos hseeds (by omega)) (by omega)
    have hquotient := Int.ediv_nonneg hnonneg (Int.le_of_lt hdivisor)
    have hlt := Int.ediv_lt_iff_lt_mul hdivisor (a := n) (b := 1)
    rw [quotient_neg n a (limit + 1) hnonneg hseeds (by omega)]
    constructor
    · exact fun h => ⟨fun hpos => by omega, fun _ => by omega⟩
    · exact fun h => by have := h.2 (by omega); omega

theorem exactDownload_bounds : 0 ≤ exactDownload ts ∧
    (exactDownload ts < 2147483648 ↔
      ts.totalDownload.toInt < 2147483648 * (ts.downloadRate.toInt + 1)) := by
  have hrate : 0 < ts.downloadRate.toInt + 1 := by
    have := hr.downloadRate
    omega
  rw [exactDownload, Int.tdiv_eq_ediv_of_nonneg hr.totalDownload]
  exact ⟨Int.ediv_nonneg hr.totalDownload (Int.le_of_lt hrate), Int.ediv_lt_iff_lt_mul hrate⟩

theorem bounded_of_starts
    (h : StartsMinimum ts configured ((defaultSeedingTime ts configured).map .seconds)) :
    Bounded ts configured := by
  obtain ⟨time, hresult, hmin, hpos, hno⟩ := h
  have hsums := hno.toSumsExact
  obtain ⟨time', htime, -⟩ := Option.map_eq_some_iff.mp hresult
  obtain ⟨upload, hupload, -⟩ := Option.bind_eq_some_iff.mp htime
  have hlimit := uploadQuotient_limit upload hsums hupload
  obtain ⟨q, hq, hvalue⟩ := uploadQuotient_spec hr hsums hlimit
  obtain ⟨r, hrate, hrateValue⟩ := downloadQuotient_spec hr hsums
  have huploadFits := (narrow_exact_iff q).mp (hno.seedingTime q hq)
  have hdownloadFits := (narrow_exact_iff r).mp (hno.tmp r hrate)
  obtain ⟨hnonneg, hdownload⟩ := exactDownload_bounds hr
  obtain ⟨hpositive, hnegative⟩ := (exactUpload_bounds hr hlimit).mp (by omega)
  exact ⟨(sumsExact_iff hr).mp hsums, hlimit, hpositive, hnegative, hdownload.mp (by omega)⟩

theorem starts_of_bounded (h : Bounded ts configured) :
    StartsMinimum ts configured ((defaultSeedingTime ts configured).map .seconds) := by
  have hsums := (sumsExact_iff hr).mpr h.toSumsBounded
  obtain ⟨q, hq, hvalue⟩ := uploadQuotient_spec hr hsums h.limit_ne
  obtain ⟨r, hrate, hrateValue⟩ := downloadQuotient_spec hr hsums
  obtain ⟨hnonneg, hdownload⟩ := exactDownload_bounds hr
  obtain ⟨huploadNonneg, huploadLt⟩ := (exactUpload_bounds hr h.limit_ne).mpr ⟨h.upload, h.negative⟩
  have hdownloadLt := hdownload.mpr h.download
  have huploadFits := (narrow_exact_iff q).mpr (by omega)
  have hdownloadFits := (narrow_exact_iff r).mpr (by omega)
  have htime : defaultSeedingTime ts configured =
      some (if r.toInt32 < q.toInt32 then r.toInt32 else q.toInt32) := by
    simp only [defaultSeedingTime, hq, hrate, Option.bind_eq_bind, Option.bind_some,
      Option.pure_def]
  have hmin : (if r.toInt32 < q.toInt32 then r.toInt32 else q.toInt32).toInt =
      min (exactUpload ts configured) (exactDownload ts) := by
    simp only [Int32.lt_iff_toInt_lt]
    split <;> omega
  refine ⟨_, by rw [htime, Option.map_some], hmin, by omega, hsums, ?_, ?_⟩
  · intro q' hq'
    obtain rfl := Option.some.inj (hq.symm.trans hq')
    exact huploadFits
  · intro r' hr'
    obtain rfl := Option.some.inj (hrate.symm.trans hr')
    exact hdownloadFits

end Exact

theorem toSeeding_default (seedingTime : Int32) (h : seedingTime.toInt < -1) :
    toSeeding ts configured seedingTime = (defaultSeedingTime ts configured).map .seconds := by
  have hinfinite : seedingTime ≠ -1 := by
    rintro rfl
    exact absurd h (by decide)
  have hzero : (0 : Int32).toInt = 0 := rfl
  have hgiven : ¬ 0 ≤ seedingTime := by
    rw [Int32.le_iff_toInt_le, hzero]
    omega
  rw [toSeeding, if_neg hinfinite, if_neg hgiven]

/-- When no time was given, either class starts the timer with the exact minimum, and
without any overflow, exactly when the counts, rates and totals are bounded so. -/
theorem default_seeding_iff (hr : Reported ts) (seedingTime : Int32)
    (hdefault : seedingTime.toInt < -1) :
    (StartsMinimum ts configured (Downloader.toSeeding ts configured seedingTime) ↔
      Bounded ts configured) ∧
    (StartsMinimum ts configured (GroupTask.toSeeding ts configured seedingTime) ↔
      Bounded ts configured) := by
  unfold Downloader.toSeeding GroupTask.toSeeding
  rw [toSeeding_default ts configured seedingTime hdefault]
  exact and_self_iff.mpr ⟨bounded_of_starts hr, starts_of_bounded hr⟩

section Samples

/-- Eight GiB have come in at almost one MiB a second, from one seed among ten peers. -/
def largeDownload : TorrentStatus where
  numPeers := 9
  numSeeds := 1
  uploadsLimit := 0
  downloadRate := 1048575
  totalPayloadDownload := 8589934592
  totalDownload := 8589934592

theorem default_seeding_largeDownload :
    StartsMinimum largeDownload 10485759 (Downloader.toSeeding largeDownload 10485759 (-2)) := by
  have hr : Reported largeDownload := by constructor <;> decide
  have hbounded : Bounded largeDownload 10485759 :=
    ⟨by constructor <;> decide, by decide, by decide, by decide, by decide⟩
  exact (default_seeding_iff largeDownload 10485759 hr (-2) (by decide)).1.mpr hbounded

/-- A single peer without a limit has brought the same. -/
def unlimitedDownload : TorrentStatus :=
  { largeDownload with numPeers := 0, numSeeds := 0 }

/-- Without a limit the time comes out as nothing, and with a limit of minus one the
division traps. -/
theorem default_seeding_fails :
    (¬ ∀ (ts : TorrentStatus) (configured : Int32), Reported ts →
      StartsMinimum ts configured (Downloader.toSeeding ts configured (-2))) ∧
    Downloader.toSeeding unlimitedDownload (-1) (-2) = none := by
  refine ⟨?_, by decide⟩
  intro h
  obtain ⟨time, htime, hmin, -⟩ := h unlimitedDownload 0 (by constructor <;> decide)
  have hzero : Downloader.toSeeding unlimitedDownload 0 (-2) = some (.seconds 0) := by decide
  rw [hzero] at htime
  have heq : (0 : Int32) = time := by simpa using htime
  subst heq
  exact absurd hmin (by decide)

end Samples

end Times
end Gingko.SeedingTimes
