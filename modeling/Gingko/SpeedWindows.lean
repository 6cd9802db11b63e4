import Mathlib.Algebra.Order.Ring.Int
import Mathlib.Data.List.Chain
import Mathlib.Data.List.Infix
import Mathlib.Tactic.Linarith
import Mathlib.Tactic.Ring

/-!
The limit on the rate of a transfer. A window is open from one reset of its start to
the next; the bytes of its calls are gathered, and the call that closes it sleeps for
what the rate asks beyond the time that has passed. The clock of a run counts
nanoseconds and only goes forward, and a sleep lasts at least as long as it was asked.
-/
namespace Gingko.SpeedWindows

section Clock

/-- The time that `gettimeofday` gives, with the microseconds inside one second. -/
structure Timeval where
  sec : ℤ
  usec : ℤ
  usec_nonneg : 0 ≤ usec
  usec_lt : usec < 1000000

def Timeval.micros (t : Timeval) : ℤ := t.sec * 1000000 + t.usec

/-- `now` is the time in nanoseconds. -/
def gettimeofday (now : ℕ) : Timeval :=
  ⟨(now / 1000000000 : ℕ), (now % 1000000000 / 1000 : ℕ), by omega, by omega⟩

theorem gettimeofday_micros (now : ℕ) : (gettimeofday now).micros = (now / 1000 : ℕ) := by
  simp only [Timeval.micros, gettimeofday]
  omega

def timersub (a b : Timeval) : Timeval :=
  have := a.usec_nonneg
  have := a.usec_lt
  have := b.usec_nonneg
  have := b.usec_lt
  if h : a.usec - b.usec < 0 then
    ⟨a.sec - b.sec - 1, a.usec - b.usec + 1000000, by omega, by omega⟩
  else ⟨a.sec - b.sec, a.usec - b.usec, by omega, by omega⟩

theorem timersub_micros (a b : Timeval) : (timersub a b).micros = a.micros - b.micros := by
  unfold timersub
  split <;> simp only [Timeval.micros] <;> omega

def timerisset (t : Timeval) : Prop := t.sec ≠ 0 ∨ t.usec ≠ 0

instance (t : Timeval) : Decidable (timerisset t) := inferInstanceAs (Decidable (_ ∨ _))

def timerGreater (a b : Timeval) : Prop :=
  if a.sec = b.sec then b.usec < a.usec else b.sec < a.sec

instance (a b : Timeval) : Decidable (timerGreater a b) := inferInstanceAs (Decidable (ite _ _ _))

theorem timerGreater_iff (a b : Timeval) : timerGreater a b ↔ b.micros < a.micros := by
  have ha := a.usec_lt
  have hb := b.usec_lt
  have ha' := a.usec_nonneg
  have hb' := b.usec_nonneg
  simp only [timerGreater, Timeval.micros]
  split <;> omega

end Clock

section Sleep

structure Timespec where
  sec : ℤ
  nsec : ℤ

def Timespec.nanos (ts : Timespec) : ℤ := ts.sec * 1000000000 + ts.nsec

/-- How `nanosleep` comes back, with the time by which the sleep was longer than it had
to be. An interrupted sleep gives the rest of its time; any other return ends the loop. -/
inductive Wake where
  | returned (late : ℕ)
  | interrupted (rm : Timespec) (late : ℕ)

/-- The time spent in the loop around `nanosleep`, or `none` when it still sleeps. -/
def sleepLoop : Timespec → List Wake → Option ℕ
  | _, [] => none
  | ts, .returned late :: _ => some (ts.nanos.toNat + late)
  | ts, .interrupted rm late :: rest =>
    (sleepLoop rm rest).map ((ts.nanos - rm.nanos).toNat + late + ·)

theorem sleepLoop_enough (ts : Timespec) (wakes : List Wake) (spent : ℕ)
    (h : sleepLoop ts wakes = some spent) : ts.nanos ≤ spent := by
  induction wakes generalizing ts spent with
  | nil => cases h
  | cons wake rest ih =>
    cases wake with
    | returned late =>
      obtain rfl := Option.some.inj h
      omega
    | interrupted rm late =>
      obtain ⟨more, hmore, rfl⟩ := Option.map_eq_some_iff.mp h
      have := ih rm more hmore
      omega

end Sleep

section Calls

structure SpeedLimit where
  bwStart : Timeval
  lamt : Int32

/-- A call, the time that passes before it, and after its sleep. -/
structure Call where
  amount : Int32
  before : ℕ
  wakes : List Wake
  after : ℕ

def Call.bytes (c : Call) : ℤ := max c.amount.toInt 0

/-- The conversion to `uint64_t`. -/
def toUnsigned (n : Int32) : UInt64 := n.toInt64.toUInt64

def waitlen (lamt limitRate : Int32) : UInt64 := 1000000 * toUnsigned lamt / toUnsigned limitRate

def shouldUseTime (waitlen : UInt64) : Timeval :=
  ⟨(waitlen / 1000000).toNat, (waitlen % 1000000).toNat, Int.natCast_nonneg _, by
    rw [UInt64.toNat_mod]
    exact_mod_cast Nat.mod_lt waitlen.toNat (by decide)⟩

/-- The time that a call spends asleep when it closes a window after `used`. -/
def bandwidthWait (used should : Timeval) (wakes : List Wake) : Option ℕ :=
  if timerGreater should used then
    let rest := timersub should used
    sleepLoop ⟨rest.sec, rest.usec * 1000⟩ wakes
  else some 0

/-- What a call leaves: the window open, or a new one from its second look at the
clock. -/
inductive Outcome where
  | opened (limit : SpeedLimit) (now : ℕ)
  | closed (limit : SpeedLimit) (now : ℕ)

/-- `none` is a call that has not come back from its sleep. -/
def bandwidthLimit (limit : SpeedLimit) (limitRate : Int32) (now : ℕ) (c : Call) :
    Option Outcome :=
  let now := now + c.before
  if c.amount ≤ 0 ∨ limitRate ≤ 0 then some (.opened limit now)
  else
    let lamt := limit.lamt + c.amount
    let used := timersub (gettimeofday now) limit.bwStart
    if ¬timerisset used then some (.opened { limit with lamt := lamt } now)
    else
      (bandwidthWait used (shouldUseTime (waitlen lamt limitRate)) c.wakes).map fun spent =>
        let now := now + spent + c.after
        .closed ⟨gettimeofday now, 0⟩ now

theorem toUnsigned_toNat (n : Int32) (hn : 0 ≤ n.toInt) : ((toUnsigned n).toNat : ℤ) = n.toInt := by
  have hwide : n.toInt64.toInt = n.toInt := Int32.toInt_toInt64 n
  have hle : (0 : Int64) ≤ n.toInt64 := by
    rw [Int64.le_iff_toInt_le, hwide]
    exact hn
  rw [toUnsigned, Int64.toNat_toUInt64_of_le hle, Int64.toNatClampNeg, hwide]
  exact Int.toNat_of_nonneg hn

theorem shouldUseTime_micros (waitlen : UInt64) :
    (shouldUseTime waitlen).micros = waitlen.toNat := by
  simp only [Timeval.micros, shouldUseTime, UInt64.toNat_div, UInt64.toNat_mod]
  have hdivision := Nat.div_add_mod' waitlen.toNat 1000000
  exact_mod_cast hdivision

/-- The time asked for is the quotient rounded down. -/
theorem waitlen_spec (lamt limitRate : Int32) (hlamt : 0 ≤ lamt.toInt)
    (hrate : 0 < limitRate.toInt) :
    lamt.toInt * 1000000 ≤ limitRate.toInt * (waitlen lamt limitRate).toNat + limitRate.toInt := by
  have hlamt' := toUnsigned_toNat lamt hlamt
  have hrate' := toUnsigned_toNat limitRate (Int.le_of_lt hrate)
  have hlt := lamt.toInt_lt
  have hproduct : (1000000 * toUnsigned lamt).toNat = 1000000 * (toUnsigned lamt).toNat := by
    rw [UInt64.toNat_mul]
    exact Nat.mod_eq_of_lt (by simp only [UInt64.toNat_ofNat]; omega)
  have hpos : 0 < (toUnsigned limitRate).toNat := by omega
  rw [waitlen, UInt64.toNat_div, hproduct]
  have hround := Nat.lt_mul_div_succ (1000000 * (toUnsigned lamt).toNat) hpos
  have hround' : (1000000 * (toUnsigned lamt).toNat : ℤ) <
      (toUnsigned limitRate).toNat *
        ((1000000 * (toUnsigned lamt).toNat / (toUnsigned limitRate).toNat : ℕ) + 1) := by
    exact_mod_cast hround
  rw [hlamt', hrate'] at hround'
  linarith

theorem bandwidthWait_enough (used should : Timeval) (wakes : List Wake) (spent : ℕ)
    (h : bandwidthWait used should wakes = some spent) :
    (should.micros - used.micros) * 1000 ≤ spent := by
  unfold bandwidthWait at h
  split at h
  · have hslept := sleepLoop_enough _ wakes spent h
    have hrest := timersub_micros should used
    simp only [Timespec.nanos] at hslept
    simp only [Timeval.micros] at hrest hslept ⊢
    omega
  · next hshort =>
    rw [timerGreater_iff] at hshort
    obtain rfl := Option.some.inj h
    omega

/-- A call that closes its window leaves it open for as long as its bytes ask. -/
theorem bandwidthLimit_closed (limit limit' : SpeedLimit) (limitRate : Int32) (now now' : ℕ)
    (c : Call) (h : bandwidthLimit limit limitRate now c = some (.closed limit' now')) :
    0 < c.amount.toInt ∧ limit'.lamt = 0 ∧
      ((waitlen (limit.lamt + c.amount) limitRate).toNat : ℤ) ≤
        limit'.bwStart.micros - limit.bwStart.micros := by
  unfold bandwidthLimit at h
  simp only at h
  split at h
  · cases h
  · next hpositive =>
    split at h
    · cases h
    · obtain ⟨spent, hspent, hclosed⟩ := Option.map_eq_some_iff.mp h
      cases hclosed
      have henough := bandwidthWait_enough _ _ _ spent hspent
      rw [shouldUseTime_micros, timersub_micros, gettimeofday_micros] at henough
      have hamount : 0 < c.amount.toInt := by
        by_contra hle
        exact hpositive (.inl (Int32.le_iff_toInt_le.mpr (by simpa using hle)))
      refine ⟨hamount, rfl, ?_⟩
      simp only [gettimeofday_micros]
      omega

/-- Any other call gathers its bytes and leaves the start of the window. -/
theorem bandwidthLimit_opened (limit limit' : SpeedLimit) (limitRate : Int32)
    (hrate : 0 < limitRate) (now now' : ℕ) (c : Call)
    (h : bandwidthLimit limit limitRate now c = some (.opened limit' now')) :
    limit'.bwStart = limit.bwStart ∧ limit'.lamt = limit.lamt + Int32.ofInt c.bytes := by
  unfold bandwidthLimit at h
  simp only at h
  have hrate' : ¬limitRate ≤ 0 := by
    rw [Int32.le_iff_toInt_le]
    exact Int.not_le.mpr (Int32.lt_iff_toInt_lt.mp hrate)
  split at h
  · next hnone =>
    cases h
    have hle := Int32.le_iff_toInt_le.mp (hnone.resolve_right hrate')
    refine ⟨rfl, ?_⟩
    rw [Call.bytes, max_eq_right (by simpa using hle)]
    simp
  · next hpositive =>
    split at h
    · cases h
      have hamount : 0 ≤ c.amount.toInt := by
        by_contra hlt
        exact hpositive (.inl (Int32.le_iff_toInt_le.mpr (by
          simpa using Int.le_of_lt (Int.not_le.mp hlt))))
      refine ⟨rfl, ?_⟩
      rw [Call.bytes, max_eq_left hamount, Int32.ofInt_toInt]
    · obtain ⟨_, _, hclosed⟩ := Option.map_eq_some_iff.mp h
      cases hclosed

end Calls

section Runs

/-- A closed window, with all the calls that were made in it. -/
structure Window where
  start : Timeval
  stop : Timeval
  calls : List Call

def bytesOf (calls : List Call) : ℤ := (calls.map Call.bytes).sum

def Window.bytes (w : Window) : ℤ := bytesOf w.calls

def Window.elapsed (w : Window) : ℤ := w.stop.micros - w.start.micros

/-- `gathered` are the calls in the open window. -/
structure Run where
  limit : SpeedLimit
  now : ℕ
  gathered : List Call
  windows : List Window

def Run.start (now : ℕ) : Run := ⟨⟨gettimeofday now, 0⟩, now, [], []⟩

def Run.leave (r : Run) (c : Call) : Outcome → Run
  | .opened limit now => ⟨limit, now, r.gathered ++ [c], r.windows⟩
  | .closed limit now =>
    ⟨limit, now, [], r.windows ++ [⟨r.limit.bwStart, limit.bwStart, r.gathered ++ [c]⟩]⟩

def Run.step (limitRate : Int32) (r : Run) (c : Call) : Option Run :=
  (bandwidthLimit r.limit limitRate r.now c).map (r.leave c)

def Run.run (limitRate : Int32) (r : Run) (calls : List Call) : Option Run :=
  calls.foldlM (Run.step limitRate) r

theorem bytesOf_nonneg (calls : List Call) : 0 ≤ bytesOf calls := by
  induction calls with
  | nil => exact Int.le_refl 0
  | cons c rest ih =>
    rw [bytesOf, List.map_cons, List.sum_cons]
    exact Int.add_nonneg (le_max_right _ _) ih

theorem bytesOf_snoc (calls : List Call) (c : Call) :
    bytesOf (calls ++ [c]) = bytesOf calls + c.bytes := by
  simp [bytesOf]

def Window.Slow (limitRate : Int32) (w : Window) : Prop :=
  w.bytes < 2147483648 →
    w.bytes * 1000000 ≤ limitRate.toInt * w.elapsed + limitRate.toInt

/-- The counter holds the bytes of the open window as long as they fit. -/
structure Run.Inv (limitRate : Int32) (r : Run) : Prop where
  gathers : r.limit.lamt = Int32.ofInt (bytesOf r.gathered)
  slow : ∀ w ∈ r.windows, w.Slow limitRate
  chained : r.windows.IsChain (fun v w => v.stop = w.start)
  last : ∀ w ∈ r.windows.getLast?, w.stop = r.limit.bwStart

theorem Run.inv_start (limitRate : Int32) (now : ℕ) : (Run.start now).Inv limitRate where
  gathers := rfl
  slow := by simp [Run.start]
  chained := .nil
  last := by simp [Run.start]

theorem Run.inv_step (limitRate : Int32) (hrate : 0 < limitRate) (r r' : Run) (c : Call)
    (hinv : r.Inv limitRate) (h : r.step limitRate c = some r') : r'.Inv limitRate := by
  obtain ⟨outcome, houtcome, rfl⟩ := Option.map_eq_some_iff.mp h
  cases outcome with
  | opened limit now =>
    obtain ⟨hstart, hlamt⟩ := bandwidthLimit_opened r.limit limit limitRate hrate r.now now c
      houtcome
    refine ⟨?_, hinv.slow, hinv.chained, ?_⟩
    · rw [Run.leave, hlamt, hinv.gathers, bytesOf_snoc, Int32.ofInt_add]
    · intro w hw
      rw [Run.leave, hstart]
      exact hinv.last w hw
  | closed limit now =>
    obtain ⟨hamount, hlamt, henough⟩ := bandwidthLimit_closed r.limit limit limitRate r.now now c
      houtcome
    refine ⟨hlamt, ?_, ?_, ?_⟩
    · rw [Run.leave, List.forall_mem_append, List.forall_mem_singleton]
      refine ⟨hinv.slow, fun hbytes => ?_⟩
      -- the counter of the closing call is the sum over the window
      have hgathered : r.limit.lamt + c.amount = Int32.ofInt (bytesOf (r.gathered ++ [c])) := by
        rw [bytesOf_snoc, Call.bytes, max_eq_left (Int.le_of_lt hamount), Int32.ofInt_add,
          Int32.ofInt_toInt, hinv.gathers]
      have hnonneg := bytesOf_nonneg (r.gathered ++ [c])
      have hexact : (r.limit.lamt + c.amount).toInt = bytesOf (r.gathered ++ [c]) := by
        rw [hgathered]
        exact Int32.toInt_ofInt_of_le (by omega) hbytes
      have hpos : 0 < limitRate.toInt := Int32.lt_iff_toInt_lt.mp hrate
      have hwait := waitlen_spec (r.limit.lamt + c.amount) limitRate (by omega) hpos
      rw [hexact] at hwait
      have hscaled := Int.mul_le_mul_of_nonneg_left henough (Int.le_of_lt hpos)
      simp only [Window.bytes, Window.elapsed]
      omega
    · rw [Run.leave, List.isChain_append]
      refine ⟨hinv.chained, List.isChain_singleton _, fun v hv w hw => ?_⟩
      obtain rfl := Option.some.inj hw
      exact hinv.last v hv
    · simp [Run.leave]

theorem Run.inv_run (limitRate : Int32) (hrate : 0 < limitRate) (r r' : Run) (calls : List Call)
    (hinv : r.Inv limitRate) (h : r.run limitRate calls = some r') : r'.Inv limitRate := by
  induction calls generalizing r with
  | nil =>
    obtain rfl := Option.some.inj h
    exact hinv
  | cons c rest ih =>
    rw [Run.run, List.foldlM_cons] at h
    obtain ⟨next, hnext, hrest⟩ := Option.bind_eq_some_iff.mp h
    exact ih next (r.inv_step limitRate hrate next c hinv hnext) hrest

/-- Each window lasts at least what its bytes ask less what the rounding gives away. -/
theorem sum_bytes_le (limitRate : Int32) (w : Window) (rest : List Window)
    (hslow : ∀ v ∈ w :: rest, v.Slow limitRate)
    (hchained : (w :: rest).IsChain (fun v w => v.stop = w.start))
    (hbytes : ∀ v ∈ w :: rest, v.bytes < 2147483648) :
    ((w :: rest).map Window.bytes).sum * 1000000 ≤
      limitRate.toInt *
          (((w :: rest).getLast (List.cons_ne_nil w rest)).stop.micros - w.start.micros) +
        limitRate.toInt * (w :: rest).length := by
  induction rest generalizing w with
  | nil =>
    have hwindow := hslow w List.mem_cons_self (hbytes w List.mem_cons_self)
    simpa [Window.elapsed] using hwindow
  | cons v rest ih =>
    have hwindow := hslow w List.mem_cons_self (hbytes w List.mem_cons_self)
    obtain ⟨hjoin, hchained'⟩ := List.isChain_cons_cons.mp hchained
    have hrest := ih v (fun u hu => hslow u (List.mem_cons_of_mem w hu)) hchained'
      (fun u hu => hbytes u (List.mem_cons_of_mem w hu))
    rw [List.getLast_cons (List.cons_ne_nil v rest), List.map_cons, List.sum_cons,
      List.length_cons, Nat.cast_add, Nat.cast_one]
    rw [Window.elapsed, hjoin] at hwindow
    linarith

/-- Over consecutive windows, each with fewer bytes than the counter can hold, the bytes
are at most what the rate allows in the time, and for each window the rounding of its
sleep to a microsecond. -/
theorem windows_rate (limitRate : Int32) (hrate : 0 < limitRate) (begun : ℕ) (calls : List Call)
    (r : Run) (hrun : (Run.start begun).run limitRate calls = some r) (w : Window)
    (rest : List Window) (hpart : w :: rest <:+: r.windows)
    (hbytes : ∀ v ∈ w :: rest, v.bytes < 2147483648) :
    ((w :: rest).map Window.bytes).sum * 1000000 ≤
      limitRate.toInt *
          (((w :: rest).getLast (List.cons_ne_nil w rest)).stop.micros - w.start.micros) +
        limitRate.toInt * (w :: rest).length := by
  have hinv := Run.inv_run limitRate hrate (Run.start begun) r calls
    (Run.inv_start limitRate begun) hrun
  have hchained := List.IsChain.infix hinv.chained hpart
  exact sum_bytes_le limitRate w rest (fun v hv => hinv.slow v (hpart.subset hv)) hchained hbytes

/-- A call before the clock has moved, and one that closes the window. -/
def carriedOver : List Call := [⟨100, 0, [], 0⟩, ⟨50, 1000, [.returned 0], 0⟩]

theorem windows_rate_carriedOver : ∃ r w,
    (Run.start 0).run 1000000 carriedOver = some r ∧ r.windows = [w] ∧ w.bytes = 150 ∧
      ([w].map Window.bytes).sum * 1000000 ≤
        (1000000 : Int32).toInt * (w.stop.micros - w.start.micros) +
          (1000000 : Int32).toInt * [w].length := by
  refine ⟨_, _, rfl, rfl, rfl, ?_⟩
  exact windows_rate 1000000 (by decide) 0 carriedOver _ rfl _ [] List.infix_rfl (by
    rw [List.forall_mem_singleton]
    decide)

end Runs
end Gingko.SpeedWindows
