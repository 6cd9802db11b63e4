import Gingko.AgentRuns

/-!
The upload limit of the agent across a restart. A change of the options stores
the limit in whole megabytes, and the next start reads it back, where minus one
stands for an empty table. Limits are compared as the session keeps them.
-/
namespace Gingko.AgentLimits

open AgentMessages AgentTasks AgentRequests AgentRuns

/-- The row that is used, if any, and the table afterwards. Each statement is tried
three times; an unreadable limit makes the agent insert its configured one. -/
def getAgentOptionFromDb (conf : AgentConfigure) (select insert : ℕ → Bool)
    (rows : List ConfigRow) : Option ConfigRow × List ConfigRow :=
  let found := if select 0 || select 1 || select 2 then rows.head? else none
  let uploadLimit := (found.map ConfigRow.uploadLimit).getD (-1)
  if uploadLimit = -1 then
    let configured : ConfigRow := ⟨conf.uploadLimit, conf.connectionLimit⟩
    (none, if insert 0 || insert 1 || insert 2 then rows ++ [configured] else rows)
  else (found, rows)

/-- The settings of the session after a start. -/
def restartedSettings (conf : AgentConfigure) (select insert : ℕ → Bool)
    (rows : List ConfigRow) : SessionSettings :=
  (startSettings conf (getAgentOptionFromDb conf select insert rows).1).applied

def storedMegabytes (limit : Int32) : Int32 := limit / 1024 / 1024

section Megabytes

theorem toInt_div_nonneg (x : Int32) (h : 0 ≤ x.toInt) : (x / 1024).toInt = x.toInt / 1024 := by
  have hhigh : x.toInt < 2147483648 := x.toInt_lt
  have hthousand : (1024 : Int32).toInt = 1024 := rfl
  rw [Int32.toInt_div, hthousand, Int.tdiv_eq_ediv_of_nonneg h]
  apply Int.bmod_eq_of_le <;> omega

theorem toInt_div_neg (x : Int32) (h : x.toInt < 0) :
    (x / 1024).toInt = -(-x.toInt / 1024) := by
  have hlow : -2147483648 ≤ x.toInt := x.le_toInt
  have hthousand : (1024 : Int32).toInt = 1024 := rfl
  have hquotient : x.toInt.tdiv 1024 = -(-x.toInt / 1024) := by
    rw [← Int.tdiv_eq_ediv_of_nonneg (by omega), Int.neg_tdiv, Int.neg_neg]
  rw [Int32.toInt_div, hthousand, hquotient]
  apply Int.bmod_eq_of_le <;> omega

/-- The division cuts off towards zero. -/
theorem toInt_storedMegabytes (limit : Int32) :
    (0 ≤ limit.toInt → (storedMegabytes limit).toInt = limit.toInt / 1048576) ∧
      (limit.toInt < 0 → (storedMegabytes limit).toInt = -(-limit.toInt / 1048576)) := by
  unfold storedMegabytes
  constructor
  · intro h
    have hinner := toInt_div_nonneg limit h
    rw [toInt_div_nonneg _ (by omega), hinner]
    omega
  · intro h
    have hinner := toInt_div_neg limit h
    by_cases hzero : (limit / 1024).toInt = 0
    · rw [toInt_div_nonneg _ (by omega), hzero]
      omega
    · rw [toInt_div_neg _ (by omega), hinner]
      omega

/-- Every number of megabytes that is stored for a limit multiplies without overflow. -/
theorem toInt_bytes (megabytes : Int32) (hlow : -2048 ≤ megabytes.toInt)
    (hhigh : megabytes.toInt < 2048) :
    (megabytes * 1024 * 1024).toInt = megabytes.toInt * 1048576 := by
  have hthousand : (1024 : Int32).toInt = 1024 := rfl
  have hinner : (megabytes * 1024).toInt = megabytes.toInt * 1024 := by
    rw [Int32.toInt_mul, hthousand]
    apply Int.bmod_eq_of_le <;> omega
  rw [Int32.toInt_mul, hthousand, hinner]
  rw [Int.bmod_eq_of_le (by omega) (by omega)]
  omega

end Megabytes

/-- The limit that a start takes from a number of megabytes. -/
def limitOf (megabytes : Int32) : Int32 :=
  let upload := megabytes * 1024 * 1024
  let capped := if upload > 500 * 1024 * 1024 then 500 * 1024 * 1024 else upload
  if capped < 0 then 0 else capped

theorem restarted_limitOf (conf : AgentConfigure) (row : Option ConfigRow) :
    (startSettings conf row).applied.uploadRateLimit =
      limitOf ((row.map ConfigRow.uploadLimit).getD conf.uploadLimit) := by
  cases row <;> rfl

/-- The cap of Start, in bytes. -/
theorem toInt_cap : (500 * 1024 * 1024 : Int32).toInt = 524288000 := by decide

theorem toInt_limitOf (megabytes : Int32) (hlow : -2048 ≤ megabytes.toInt)
    (hhigh : megabytes.toInt < 2048) :
    (limitOf megabytes).toInt = max 0 (min (megabytes.toInt * 1048576) 524288000) := by
  have hbytes := toInt_bytes megabytes hlow hhigh
  have hzero : (0 : Int32).toInt = 0 := rfl
  simp only [limitOf]
  by_cases hover : megabytes * 1024 * 1024 > 500 * 1024 * 1024
  · rw [if_pos hover, if_neg (by decide), toInt_cap]
    have hlt := Int32.lt_iff_toInt_lt.mp hover
    rw [toInt_cap, hbytes] at hlt
    omega
  · rw [if_neg hover]
    rw [gt_iff_lt, Int32.lt_iff_toInt_lt, toInt_cap, hbytes] at hover
    by_cases hneg : megabytes * 1024 * 1024 < 0
    · rw [if_pos hneg, hzero]
      rw [Int32.lt_iff_toInt_lt, hbytes, hzero] at hneg
      omega
    · rw [if_neg hneg, hbytes]
      rw [Int32.lt_iff_toInt_lt, hbytes, hzero] at hneg
      omega

theorem limitOf_eq_zero_iff (megabytes : Int32) :
    limitOf megabytes = 0 ↔ megabytes * 1024 * 1024 ≤ 0 := by
  simp only [limitOf]
  generalize megabytes * 1024 * 1024 = upload
  by_cases hover : upload > 500 * 1024 * 1024
  · rw [if_pos hover, if_neg (by decide)]
    have hpos : ¬ upload ≤ 0 := by
      intro hle
      exact absurd (Int32.lt_of_lt_of_le hover hle) (by decide)
    exact iff_of_false (by decide) hpos
  · rw [if_neg hover]
    by_cases hneg : upload < 0
    · rw [if_pos hneg]
      exact iff_of_true rfl (Int32.le_of_lt hneg)
    · rw [if_neg hneg]
      constructor
      · intro hzero
        rw [hzero]
        exact Int32.le_refl 0
      · intro hle
        exact Int32.le_antisymm hle (Int32.not_lt.mp hneg)

theorem restarted_after_store (conf : AgentConfigure) (select insert updateConfig : ℕ → Bool)
    (settings : SessionSettings) (rows : List ConfigRow) (hrows : rows ≠ [])
    (hupdate : (updateConfig 0 || updateConfig 1 || updateConfig 2) = true)
    (hselect : (select 0 || select 1 || select 2) = true) :
    (restartedSettings conf select insert
        (storeSettings updateConfig settings rows)).uploadRateLimit =
      if storedMegabytes settings.uploadRateLimit = -1 then limitOf conf.uploadLimit
      else limitOf (storedMegabytes settings.uploadRateLimit) := by
  cases rows with
  | nil => exact absurd rfl hrows
  | cons row rest =>
    have hstored : storeSettings updateConfig settings (row :: rest) =
        ⟨storedMegabytes settings.uploadRateLimit, settings.connectionsLimit⟩ ::
          rest.map (fun _ => ⟨storedMegabytes settings.uploadRateLimit,
            settings.connectionsLimit⟩) := by
      rw [storeSettings, if_pos hupdate]
      rfl
    unfold restartedSettings
    rw [restarted_limitOf, hstored, getAgentOptionFromDb, if_pos hselect]
    by_cases hminus : storedMegabytes settings.uploadRateLimit = -1
    · rw [if_pos hminus]
      simp [hminus]
    · rw [if_neg hminus]
      simp [hminus]

/-- Whole megabytes up to the cap come back. A negative limit is none, and comes
back as none unless minus one is stored for it. -/
def SurvivesRestart (conf : AgentConfigure) (limit : Int32) : Prop :=
  (0 ≤ limit ∧ limit % 1048576 = 0 ∧ limit ≤ 500 * 1024 * 1024) ∨
    (limit < 0 ∧
      (limit ≤ -2097152 ∨ -1048576 < limit ∨ conf.uploadLimit * 1024 * 1024 ≤ 0))

theorem back_iff_nonneg (limit : Int32) (h : 0 ≤ limit.toInt) :
    storedMegabytes limit ≠ -1 ∧ (limitOf (storedMegabytes limit) = limit ↔
      limit % 1048576 = 0 ∧ limit ≤ 500 * 1024 * 1024) := by
  have hhigh : limit.toInt < 2147483648 := limit.toInt_lt
  have hstored := (toInt_storedMegabytes limit).1 h
  have hback := toInt_limitOf (storedMegabytes limit) (by omega) (by omega)
  have hmega : (1048576 : Int32).toInt = 1048576 := rfl
  have hzero : (0 : Int32).toInt = 0 := rfl
  constructor
  · intro hminus
    have hminus : (storedMegabytes limit).toInt = -1 := by
      rw [hminus]
      rfl
    omega
  · rw [← Int32.toInt_inj, ← Int32.toInt_inj, Int32.le_iff_toInt_le, hback, hstored,
      Int32.toInt_mod, hmega, toInt_cap, hzero, Int.tmod_eq_emod_of_nonneg h]
    omega

theorem back_iff_neg (limit configured : Int32) (h : limit.toInt < 0) :
    (if storedMegabytes limit = -1 then limitOf configured
        else limitOf (storedMegabytes limit)) = 0 ↔
      limit ≤ -2097152 ∨ -1048576 < limit ∨ configured * 1024 * 1024 ≤ 0 := by
  have hlow : -2147483648 ≤ limit.toInt := limit.le_toInt
  have hstored := (toInt_storedMegabytes limit).2 h
  have htwo : (-2097152 : Int32).toInt = -2097152 := by decide
  have hone : (-1048576 : Int32).toInt = -1048576 := by decide
  have hminus : storedMegabytes limit = -1 ↔ ¬ (limit ≤ -2097152 ∨ -1048576 < limit) := by
    have hm : (-1 : Int32).toInt = -1 := by decide
    rw [← Int32.toInt_inj, Int32.le_iff_toInt_le, Int32.lt_iff_toInt_lt, hstored, hm, htwo, hone]
    omega
  by_cases hempty : storedMegabytes limit = -1
  · rw [if_pos hempty, limitOf_eq_zero_iff]
    have hnot := hminus.mp hempty
    constructor
    · intro hle
      exact Or.inr (Or.inr hle)
    · intro hcases
      rcases hcases with hle | hlt | hle
      · exact absurd (Or.inl hle) hnot
      · exact absurd (Or.inr hlt) hnot
      · exact hle
  · have hback := toInt_limitOf (storedMegabytes limit) (by omega) (by omega)
    have hzero : limitOf (storedMegabytes limit) = 0 := by
      have hz : (0 : Int32).toInt = 0 := rfl
      rw [← Int32.toInt_inj, hback, hstored, hz]
      omega
    rw [if_neg hempty]
    refine iff_of_true hzero ?_
    rcases not_not.mp (fun hnot => hempty (hminus.mpr hnot)) with hle | hlt
    · exact Or.inl hle
    · exact Or.inr (Or.inl hlt)

theorem agentSetopt_survives_iff (conf : AgentConfigure)
    (select insert updateConfig : ℕ → Bool) (cred : Ucred) (options : AgentOptions)
    (ec : ErrorCode) (s : Agent) (limit : Int32) (hlimit : options.uploadLimit = some limit)
    (hcred : changesAgent conf cred = true) (hrows : s.agentConfig ≠ [])
    (hupdate : (updateConfig 0 || updateConfig 1 || updateConfig 2) = true)
    (hselect : (select 0 || select 1 || select 2) = true) :
    let changed := (agentSetoptAs conf updateConfig cred options ec s).agent
    (restartedSettings conf select insert changed.agentConfig).uploadRateLimit =
        changed.settings.uploadRateLimit ↔ SurvivesRestart conf limit := by
  have hsettings : (changeSettings options s.settings).uploadRateLimit = limit := by
    simp [changeSettings, hlimit]
  have hagent : agentSetoptAs conf updateConfig cred options ec s =
      ⟨{ s with
          settings := (changeSettings options s.settings).applied
          agentConfig := storeSettings updateConfig (changeSettings options s.settings)
            s.agentConfig }, ec, [.base (baseRes ec)]⟩ := by
    rw [agentSetoptAs, if_pos hcred]
  have happlied : (changeSettings options s.settings).applied.uploadRateLimit =
      if limit < 0 then 0 else limit := by
    simp only [SessionSettings.applied, hsettings]
  intro changed
  have hchanged : changed = (agentSetoptAs conf updateConfig cred options ec s).agent := rfl
  rw [hchanged, hagent]
  show (restartedSettings conf select insert (storeSettings updateConfig
    (changeSettings options s.settings) s.agentConfig)).uploadRateLimit =
      (changeSettings options s.settings).applied.uploadRateLimit ↔ _
  rw [restarted_after_store conf select insert updateConfig _ _ hrows hupdate hselect, hsettings,
    happlied]
  have hzero : (0 : Int32).toInt = 0 := rfl
  unfold SurvivesRestart
  by_cases hneg : limit < 0
  · have hint := Int32.lt_iff_toInt_lt.mp hneg
    rw [if_pos hneg, back_iff_neg limit conf.uploadLimit hint]
    have hpos : ¬ 0 ≤ limit := Int32.not_le.mpr hneg
    simp [hneg, hpos]
  · have hle := Int32.not_lt.mp hneg
    have hint := Int32.le_iff_toInt_le.mp hle
    obtain ⟨hminus, hback⟩ := back_iff_nonneg limit hint
    rw [if_neg hneg, if_neg hminus, hback]
    simp [hneg, hle]

section Samples

def plainConfigure : AgentConfigure where
  listenPort := 422
  maxTotalMetaNum := 100
  maxTotalMetaSize := 100
  uploadLimit := 300
  connectionLimit := 50000
  selfUid := 1000

def rootCred : Ucred := ⟨1, 0, 0⟩

/-- The agent after its first start, with the row that the start has inserted. -/
def startedAgent : Agent :=
  Agent.start (startSettings plainConfigure none).applied [⟨300, 50000⟩]

def changedAgent (limit : Int32) : Agent :=
  (agentSetoptAs plainConfigure (fun _ => true) rootCred { uploadLimit := some limit } none
    startedAgent).agent

def limitAfterRestart (limit : Int32) : Int32 :=
  (restartedSettings plainConfigure (fun _ => true) (fun _ => true)
    (changedAgent limit).agentConfig).uploadRateLimit

theorem agentSetopt_survives_iff_megabytes :
    (changedAgent 2097152).settings.uploadRateLimit = 2097152 ∧
      limitAfterRestart 2097152 = (changedAgent 2097152).settings.uploadRateLimit := by
  refine ⟨by decide, ?_⟩
  apply (agentSetopt_survives_iff plainConfigure (fun _ => true) (fun _ => true) (fun _ => true)
    rootCred { uploadLimit := some 2097152 } none startedAgent 2097152 rfl (by decide)
    (List.cons_ne_nil _ _) rfl rfl).mpr
  exact Or.inl (by decide)

/-- A limit below a megabyte is stored as zero, which is no limit after a restart. -/
theorem small_limit_lost :
    changesAgent plainConfigure rootCred = true ∧ startedAgent.agentConfig ≠ [] ∧
      (changedAgent 1000).settings.uploadRateLimit = 1000 ∧ limitAfterRestart 1000 = 0 ∧
      limitAfterRestart 1000 ≠ (changedAgent 1000).settings.uploadRateLimit :=
  ⟨by decide, List.cons_ne_nil _ _, by decide, by decide, by decide⟩

end Samples
end Gingko.AgentLimits
