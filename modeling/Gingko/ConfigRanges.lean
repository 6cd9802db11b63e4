import Gingko.GroupCalls
import Gingko.TrimmedPaths
import Mathlib.Algebra.Order.Ring.Int

/-!
The configuration of a group process. Each of its numbers is put between two bounds when
it is loaded, and some are then multiplied by 1024 or by 1024 twice. Three of them are
limits of the session, which a message can change as well, in bytes.
-/
namespace Gingko.ConfigRanges

open Base64Codec AgentTasks GroupTasks GroupCalls DataPaths TrimmedPaths

inductive Field
  | downloadRateLimit
  | uploadRateLimit
  | connectionLimit
  | maxMetadataSize
  | peersNumWant
  | seedAnnounceInterval
  | minReconnectTime
  | maxQueuedDiskBytes
  | maxOutRequestQueue
  | maxAllowedInRequestQueue
  | wholePiecesThreshold
  | requestQueueTime
  | cacheSize
  | cacheExpiry
  | readCacheLineSize
  | writeCacheLineSize
  | filePoolSize
  | sendBufferWatermark
  | sendBufferLowWatermark
  | sendSocketBufferSize
  | recvSocketBufferSize
  | activeSeeds
  | activeLimit
  | activeDownloads
  | listenPort
  | peerConnectionTimeout
  deriving DecidableEq

/-- The bounds, as they are declared. -/
def kMin : Field → Int32
  | .downloadRateLimit | .uploadRateLimit | .minReconnectTime | .maxQueuedDiskBytes
  | .readCacheLineSize | .writeCacheLineSize | .sendBufferWatermark | .sendBufferLowWatermark
  | .sendSocketBufferSize | .recvSocketBufferSize => 0
  | .peersNumWant | .seedAnnounceInterval => 10
  | .listenPort => 10000
  | _ => 1

def kMax : Field → Int32
  | .downloadRateLimit | .uploadRateLimit => 2000
  | .maxMetadataSize => 50
  | .peersNumWant | .minReconnectTime => 100
  | .wholePiecesThreshold | .requestQueueTime | .peerConnectionTimeout => 128
  | .maxQueuedDiskBytes | .cacheSize | .readCacheLineSize | .writeCacheLineSize
  | .filePoolSize | .sendBufferWatermark => 1024
  | .sendBufferLowWatermark => 10240
  | .listenPort => 65534
  | _ => 32768

/-- How many times a field is multiplied by 1024. -/
def kilos : Field → ℕ
  | .downloadRateLimit | .uploadRateLimit | .maxMetadataSize | .maxQueuedDiskBytes
  | .cacheSize | .sendBufferWatermark => 2
  | .sendBufferLowWatermark | .sendSocketBufferSize | .recvSocketBufferSize => 1
  | _ => 0

/-- The fields in the order in which they are put between their bounds. -/
def clampedFields : List Field :=
  [.downloadRateLimit, .uploadRateLimit, .connectionLimit, .maxMetadataSize, .peersNumWant,
    .seedAnnounceInterval, .minReconnectTime, .maxQueuedDiskBytes, .maxOutRequestQueue,
    .maxAllowedInRequestQueue, .wholePiecesThreshold, .requestQueueTime, .cacheSize,
    .cacheExpiry, .readCacheLineSize, .writeCacheLineSize, .filePoolSize,
    .sendBufferWatermark, .sendBufferLowWatermark, .sendSocketBufferSize,
    .recvSocketBufferSize, .activeSeeds, .activeLimit, .activeDownloads, .listenPort,
    .peerConnectionTimeout]

/-- The fields in the order in which their units are changed. -/
def unitFields : List Field :=
  [.downloadRateLimit, .uploadRateLimit, .maxMetadataSize, .maxQueuedDiskBytes, .cacheSize,
    .sendBufferWatermark, .sendBufferLowWatermark, .sendSocketBufferSize,
    .recvSocketBufferSize]

structure GroupConfig where
  value : Field → Int32
  disableOsCache : Bool
  suggestMode : Bool
  absolutePath : ByteString

/-- `none` is an overflow. -/
def mulInt (a b : Int32) : Option Int32 :=
  if -2147483648 ≤ a.toInt * b.toInt ∧ a.toInt * b.toInt < 2147483648 then
    some (Int32.ofInt (a.toInt * b.toInt))
  else none

def timesKilos : ℕ → Int32 → Option Int32
  | 0, value => some value
  | n + 1, value => (mulInt value 1024).bind (timesKilos n)

/-- Each of the fields is set, one after the other, to what is made of it. -/
def setFields (change : Field → Int32 → Option Int32) :
    List Field → (Field → Int32) → Option (Field → Int32)
  | [], value => some value
  | f :: rest, value => do
    let changed ← change f (value f)
    setFields change rest (Function.update value f changed)

/-- `opened` is whether there is a file to read and `parsed` is what is read from it. The
result is `none` for an overflow and `some none` for the error -1. -/
def loadGroupConfig (cwd confPath : ByteString) (opened : Bool) (parsed : Option GroupConfig) :
    Option (Option GroupConfig) :=
  if confPath = [] then some none
  else if opened = false then some none
  else match parsed with
    | none => some none
    | some config => do
      let clamped ← setFields (fun f value => some (setLimitIntValue (kMin f) (kMax f) value))
        clampedFields config.value
      let value ← setFields (fun f value => timesKilos (kilos f) value) unitFields clamped
      let absolutePath := completeFullPath cwd (parentPath confPath)
      return some { config with value, absolutePath }

/-- The value a field is to have: between its bounds, in its unit. -/
def InRange (f : Field) (value : Int32) : Prop :=
  (kMin f).toInt * 1024 ^ kilos f ≤ value.toInt ∧ value.toInt ≤ (kMax f).toInt * 1024 ^ kilos f

section Loads

/-- Fields that are set once each have what is made of their first values. -/
theorem setFields_some (change : Field → Int32 → Option Int32) {fields : List Field}
    (hnodup : fields.Nodup) (value : Field → Int32)
    (hchange : ∀ f ∈ fields, (change f (value f)).isSome) :
    ∃ value', setFields change fields value = some value' ∧
      (∀ f ∈ fields, change f (value f) = some (value' f)) ∧
      ∀ f ∉ fields, value' f = value f := by
  induction fields generalizing value with
  | nil => exact ⟨value, rfl, fun f h => absurd h List.not_mem_nil, fun f _ => rfl⟩
  | cons f rest ih =>
    obtain ⟨hnot, hrest⟩ := List.nodup_cons.mp hnodup
    obtain ⟨hfirst, hothers⟩ := List.forall_mem_cons.mp hchange
    obtain ⟨changed, hchanged⟩ := Option.isSome_iff_exists.mp hfirst
    have hkept (g : Field) (hg : g ≠ f) : Function.update value f changed g = value g :=
      Function.update_of_ne hg changed value
    have hne (g : Field) (hg : g ∈ rest) : g ≠ f := by
      rintro rfl
      exact hnot hg
    obtain ⟨value', hset, hin, hout⟩ := ih hrest (Function.update value f changed)
      fun g hg => by
        rw [hkept g (hne g hg)]
        exact hothers g hg
    refine ⟨value', ?_, ?_, ?_⟩
    · rw [setFields, hchanged]
      exact hset
    · refine List.forall_mem_cons.mpr ⟨?_, fun g hg => ?_⟩
      · rw [hchanged, hout f hnot, Function.update_self]
      · rw [← hkept g (hne g hg)]
        exact hin g hg
    · intro g hg
      obtain ⟨hgf, hg⟩ := not_or.mp (mt List.mem_cons.mpr hg)
      rw [hout g hg, hkept g hgf]

theorem setLimitIntValue_bounds {min max : Int32} (hle : min.toInt ≤ max.toInt)
    (value : Int32) : min.toInt ≤ (setLimitIntValue min max value).toInt ∧
      (setLimitIntValue min max value).toInt ≤ max.toInt := by
  unfold setLimitIntValue
  split
  · exact ⟨hle, le_refl _⟩
  · next hmax =>
    rw [Int32.lt_iff_toInt_lt] at hmax
    split
    · exact ⟨le_refl _, hle⟩
    · next hmin =>
      rw [Int32.lt_iff_toInt_lt] at hmin
      omega

/-- No product on the way is larger than the last one. -/
theorem timesKilos_some (n : ℕ) (value : Int32) (hnonneg : 0 ≤ value.toInt)
    (hlt : value.toInt * 1024 ^ n < 2147483648) :
    ∃ value', timesKilos n value = some value' ∧ value'.toInt = value.toInt * 1024 ^ n := by
  induction n generalizing value with
  | zero => exact ⟨value, rfl, (mul_one _).symm⟩
  | succ n ih =>
    have hkilo : (1024 : Int32).toInt = 1024 := rfl
    have hpow : (1 : ℤ) ≤ 1024 ^ n := one_le_pow₀ (by omega)
    have hsplit : value.toInt * 1024 ^ (n + 1) = value.toInt * 1024 * 1024 ^ n := by
      rw [pow_succ', mul_assoc]
    rw [hsplit] at hlt ⊢
    have hstep : value.toInt * 1024 ≤ value.toInt * 1024 * 1024 ^ n :=
      le_mul_of_one_le_right (by omega) hpow
    have hproduct : (Int32.ofInt (value.toInt * 1024)).toInt = value.toInt * 1024 :=
      Int32.toInt_ofInt_of_le (by omega) (by omega)
    obtain ⟨value', hrest, hvalue⟩ := ih (Int32.ofInt (value.toInt * 1024))
      (by omega) (by rwa [hproduct])
    refine ⟨value', ?_, by rw [hvalue, hproduct]⟩
    rwa [timesKilos, mulInt, hkilo, if_pos (by omega), Option.bind_some]

theorem kMin_nonneg (f : Field) : 0 ≤ (kMin f).toInt := by
  cases f <;> decide

theorem kMin_le_kMax (f : Field) : (kMin f).toInt ≤ (kMax f).toInt := by
  cases f <;> decide

/-- The highest value of each field is one of 32 bits in its unit. -/
theorem kMax_lt (f : Field) : (kMax f).toInt * 1024 ^ kilos f < 2147483648 := by
  cases f <;> decide

theorem mem_clampedFields (f : Field) : f ∈ clampedFields := by
  cases f <;> decide

theorem kilos_of_notMem {f : Field} (h : f ∉ unitFields) : kilos f = 0 := by
  revert h
  cases f <;> decide

/-- A value between the bounds can be given in its unit. -/
theorem timesKilos_inRange (f : Field) (value : Int32) (hmin : (kMin f).toInt ≤ value.toInt)
    (hmax : value.toInt ≤ (kMax f).toInt) :
    ∃ value', timesKilos (kilos f) value = some value' ∧ InRange f value' := by
  have hpow : (0 : ℤ) ≤ 1024 ^ kilos f := pow_nonneg (by omega) _
  have hlow := mul_le_mul_of_nonneg_right hmin hpow
  have hhigh := mul_le_mul_of_nonneg_right hmax hpow
  obtain ⟨value', hvalue', htoInt⟩ := timesKilos_some (kilos f) value
    (le_trans (kMin_nonneg f) hmin) (lt_of_le_of_lt hhigh (kMax_lt f))
  exact ⟨value', hvalue', htoInt ▸ hlow, htoInt ▸ hhigh⟩

/-- The fields of a configuration, whatever they are, are put in their ranges. -/
theorem setFields_inRange (value : Field → Int32) :
    ∃ clamped value',
      setFields (fun f value => some (setLimitIntValue (kMin f) (kMax f) value)) clampedFields
        value = some clamped ∧
      setFields (fun f value => timesKilos (kilos f) value) unitFields clamped = some value' ∧
      ∀ f, InRange f (value' f) := by
  obtain ⟨clamped, hclamped, hin, -⟩ := setFields_some
    (fun f value => some (setLimitIntValue (kMin f) (kMax f) value))
    (by decide : clampedFields.Nodup) value fun f _ => rfl
  have hscaled (f : Field) : ∃ value', timesKilos (kilos f) (clamped f) = some value' ∧
      InRange f value' := by
    obtain ⟨hmin, hmax⟩ := setLimitIntValue_bounds (kMin_le_kMax f) (value f)
    rw [Option.some.inj (hin f (mem_clampedFields f))] at hmin hmax
    exact timesKilos_inRange f (clamped f) hmin hmax
  obtain ⟨value', hvalue', hunits, hrest⟩ := setFields_some
    (fun f value => timesKilos (kilos f) value) (by decide : unitFields.Nodup) clamped
    fun f _ => by
      obtain ⟨w, hw, -⟩ := hscaled f
      rw [hw, Option.isSome_some]
  refine ⟨clamped, value', hclamped, hvalue', fun f => ?_⟩
  obtain ⟨w, hw, hrange⟩ := hscaled f
  by_cases hf : f ∈ unitFields
  · rw [hunits f hf, Option.some.injEq] at hw
    rwa [hw]
  · rw [kilos_of_notMem hf, timesKilos, Option.some.injEq] at hw
    rwa [hrest f hf, hw]

/-- No load overflows, and each field of what is loaded is in its range. -/
theorem loadGroupConfig_inRange (cwd confPath : ByteString) (opened : Bool)
    (parsed : Option GroupConfig) :
    ∃ loaded, loadGroupConfig cwd confPath opened parsed = some loaded ∧
      ∀ config, loaded = some config → ∀ f, InRange f (config.value f) := by
  have hfailed : ∀ config, (none : Option GroupConfig) = some config →
      ∀ f, InRange f (config.value f) := by
    intro config h
    cases h
  unfold loadGroupConfig
  split
  · exact ⟨none, rfl, hfailed⟩
  · split
    · exact ⟨none, rfl, hfailed⟩
    · split
      · exact ⟨none, rfl, hfailed⟩
      · next config =>
        obtain ⟨clamped, value', hclamped, hvalue', hrange⟩ := setFields_inRange config.value
        rw [hclamped, Option.bind_eq_bind, Option.bind_some, hvalue']
        refine ⟨_, rfl, fun loaded h => ?_⟩
        cases h
        exact hrange

end Loads

section Sessions

inductive IoBufferMode
  | enableOsCache
  | disableOsCache
  deriving DecidableEq

/-- The settings that come from the configuration. -/
structure SessionSettings where
  numWant : Int32
  diskIoReadMode : IoBufferMode
  diskIoWriteMode : IoBufferMode
  maxMetadataSize : Int32
  minAnnounceInterval : Int32
  minReconnectTime : Int32
  peerConnectTimeout : Int32
  uploadRateLimit : Int32
  downloadRateLimit : Int32
  maxQueuedDiskBytes : Int32
  maxOutRequestQueue : Int32
  maxAllowedInRequestQueue : Int32
  wholePiecesThreshold : Int32
  requestQueueTime : Int32
  cacheSize : Int32
  cacheExpiry : Int32
  readCacheLineSize : Int32
  writeCacheLineSize : Int32
  filePoolSize : Int32
  sendBufferWatermark : Int32
  sendBufferLowWatermark : Int32
  sendSocketBufferSize : Int32
  recvSocketBufferSize : Int32
  activeSeeds : Int32
  activeLimit : Int32
  activeDownloads : Int32
  connectionsLimit : Int32
  explicitReadCache : Bool
  suggestReadCache : Bool

/-- What other models of the manager keep of the settings. -/
def SessionSettings.limits (settings : SessionSettings) : GroupSettings where
  downloadRateLimit := settings.downloadRateLimit
  uploadRateLimit := settings.uploadRateLimit
  connectionsLimit := settings.connectionsLimit

/-- `highPerformanceSeed` is what the library starts from. The limit of active torrents is
that of seeds. -/
def setSessionSettings (highPerformanceSeed : SessionSettings) (kGroupConfig : GroupConfig) :
    SessionSettings where
  numWant := kGroupConfig.value .peersNumWant
  diskIoReadMode := if kGroupConfig.disableOsCache then .disableOsCache else .enableOsCache
  diskIoWriteMode := if kGroupConfig.disableOsCache then .disableOsCache else .enableOsCache
  maxMetadataSize := kGroupConfig.value .maxMetadataSize
  minAnnounceInterval := kGroupConfig.value .seedAnnounceInterval
  minReconnectTime := kGroupConfig.value .minReconnectTime
  peerConnectTimeout := kGroupConfig.value .peerConnectionTimeout
  uploadRateLimit := kGroupConfig.value .uploadRateLimit
  downloadRateLimit := kGroupConfig.value .downloadRateLimit
  maxQueuedDiskBytes := kGroupConfig.value .maxQueuedDiskBytes
  maxOutRequestQueue := kGroupConfig.value .maxOutRequestQueue
  maxAllowedInRequestQueue := kGroupConfig.value .maxAllowedInRequestQueue
  wholePiecesThreshold := kGroupConfig.value .wholePiecesThreshold
  requestQueueTime := kGroupConfig.value .requestQueueTime
  cacheSize := kGroupConfig.value .cacheSize
  cacheExpiry := kGroupConfig.value .cacheExpiry
  readCacheLineSize := kGroupConfig.value .readCacheLineSize
  writeCacheLineSize := kGroupConfig.value .writeCacheLineSize
  filePoolSize := kGroupConfig.value .filePoolSize
  sendBufferWatermark := kGroupConfig.value .sendBufferWatermark
  sendBufferLowWatermark := kGroupConfig.value .sendBufferLowWatermark
  sendSocketBufferSize := kGroupConfig.value .sendSocketBufferSize
  recvSocketBufferSize := kGroupConfig.value .recvSocketBufferSize
  activeSeeds := kGroupConfig.value .activeSeeds
  activeLimit := kGroupConfig.value .activeSeeds
  activeDownloads := kGroupConfig.value .activeDownloads
  connectionsLimit := kGroupConfig.value .connectionLimit
  explicitReadCache :=
    if kGroupConfig.suggestMode then true else highPerformanceSeed.explicitReadCache
  suggestReadCache :=
    if kGroupConfig.suggestMode then true else highPerformanceSeed.suggestReadCache

/-- The configuration of the process and the settings of its session. -/
structure Process where
  kGroupConfig : GroupConfig
  settings : SessionSettings

def GroupConfig.set (c : GroupConfig) (f : Field) (value : Int32) : GroupConfig :=
  { c with value := Function.update c.value f value }

/-- One limit of a message: it is stored in the session's settings and the configuration. -/
def setLimit (f : Field) (store : SessionSettings → Int32 → SessionSettings)
    (min max option : Int32) (p : Process) : Process :=
  if 0 < option then
    let limit := setLimitIntValue min max option
    ⟨p.kGroupConfig.set f limit, store p.settings limit⟩
  else p

def setConnectionsLimit (options : TaskOptions) : Process → Process :=
  setLimit .connectionLimit (fun settings limit => { settings with connectionsLimit := limit })
    (kMin .connectionLimit) (kMax .connectionLimit) options.connectionsLimit

def setDownloadLimit (options : TaskOptions) : Process → Process :=
  setLimit .downloadRateLimit (fun settings limit => { settings with downloadRateLimit := limit })
    (kMin .downloadRateLimit * 1024 * 1024) (kMax .downloadRateLimit * 1024 * 1024)
    options.downloadLimit

def setUploadLimit (options : TaskOptions) : Process → Process :=
  setLimit .uploadRateLimit (fun settings limit => { settings with uploadRateLimit := limit })
    (kMin .uploadRateLimit * 1024 * 1024) (kMax .uploadRateLimit * 1024 * 1024)
    options.uploadLimit

/-- Options with an infohash are for one task and leave the session alone. -/
def setTaskOptions (options : TaskOptions) (p : Process) : Process :=
  if options.infohash = [] then
    setUploadLimit options (setDownloadLimit options (setConnectionsLimit options p))
  else p

inductive Event
  | load (cwd confPath : ByteString) (opened : Bool) (parsed : Option GroupConfig)
  | setTaskOptions (options : TaskOptions)

/-- `none` is an overflow. A load that fails leaves everything as it is. -/
def step (highPerformanceSeed : SessionSettings) (p : Process) : Event → Option Process
  | .load cwd confPath opened parsed =>
    (loadGroupConfig cwd confPath opened parsed).map fun loaded =>
      match loaded with
      | none => p
      | some config => ⟨config, setSessionSettings highPerformanceSeed config⟩
  | .setTaskOptions options => some (setTaskOptions options p)

/-- A process starts with a load that goes through. -/
inductive Reach (highPerformanceSeed : SessionSettings) : Process → Prop
  | start {cwd confPath : ByteString} {opened : Bool} {parsed : Option GroupConfig}
      {config : GroupConfig}
      (h : loadGroupConfig cwd confPath opened parsed = some (some config)) :
      Reach highPerformanceSeed ⟨config, setSessionSettings highPerformanceSeed config⟩
  | step {p p' : Process} (e : Event) (h : Reach highPerformanceSeed p)
      (hstep : step highPerformanceSeed p e = some p') : Reach highPerformanceSeed p'

/-- The fields are in their ranges, and the session has the three limits of the
configuration. -/
structure Limited (p : Process) : Prop where
  inRange : ∀ f, InRange f (p.kGroupConfig.value f)
  download : p.settings.downloadRateLimit = p.kGroupConfig.value .downloadRateLimit
  upload : p.settings.uploadRateLimit = p.kGroupConfig.value .uploadRateLimit
  connections : p.settings.connectionsLimit = p.kGroupConfig.value .connectionLimit

@[simp] theorem set_value_self (c : GroupConfig) (f : Field) (value : Int32) :
    (c.set f value).value f = value := by
  simp [GroupConfig.set]

@[simp] theorem set_value_of_ne (c : GroupConfig) {f g : Field} (hne : g ≠ f) (value : Int32) :
    (c.set f value).value g = c.value g := by
  simp [GroupConfig.set, hne]

theorem inRange_set {c : GroupConfig} (h : ∀ f, InRange f (c.value f)) (f : Field)
    {value : Int32} (hvalue : InRange f value) (g : Field) :
    InRange g ((c.set f value).value g) := by
  by_cases heq : g = f
  · subst heq
    rwa [set_value_self]
  · rw [set_value_of_ne c heq]
    exact h g

theorem setLimit_cases (f : Field) (store : SessionSettings → Int32 → SessionSettings)
    (min max option : Int32) (hle : min.toInt ≤ max.toInt) (p : Process) :
    setLimit f store min max option p = p ∨ ∃ limit,
      min.toInt ≤ limit.toInt ∧ limit.toInt ≤ max.toInt ∧
        setLimit f store min max option p =
          ⟨p.kGroupConfig.set f limit, store p.settings limit⟩ := by
  unfold setLimit
  split
  · obtain ⟨hmin, hmax⟩ := setLimitIntValue_bounds hle option
    exact .inr ⟨_, hmin, hmax, rfl⟩
  · exact .inl rfl

theorem limited_loaded (highPerformanceSeed : SessionSettings) {config : GroupConfig}
    (h : ∀ f, InRange f (config.value f)) :
    Limited ⟨config, setSessionSettings highPerformanceSeed config⟩ :=
  ⟨h, rfl, rfl, rfl⟩

theorem Limited.setConnectionsLimit {p : Process} (h : Limited p) (options : TaskOptions) :
    Limited (setConnectionsLimit options p) := by
  unfold ConfigRanges.setConnectionsLimit
  obtain heq | ⟨limit, hmin, hmax, heq⟩ := setLimit_cases .connectionLimit _ _ _
    options.connectionsLimit (kMin_le_kMax .connectionLimit) p <;> rw [heq]
  · exact h
  · have hrange : InRange .connectionLimit limit := ⟨hmin, hmax⟩
    exact ⟨inRange_set h.inRange _ hrange, by simpa using h.download, by simpa using h.upload,
      by simp⟩

/-- The bounds of a message in bytes are those of the configuration in megabytes. -/
theorem Limited.setDownloadLimit {p : Process} (h : Limited p) (options : TaskOptions) :
    Limited (setDownloadLimit options p) := by
  unfold ConfigRanges.setDownloadLimit
  have hle : (kMin .downloadRateLimit * 1024 * 1024).toInt ≤
    (kMax .downloadRateLimit * 1024 * 1024).toInt := by decide
  obtain heq | ⟨limit, hmin, hmax, heq⟩ := setLimit_cases .downloadRateLimit _ _ _
    options.downloadLimit hle p <;> rw [heq]
  · exact h
  · have hrange : InRange .downloadRateLimit limit := ⟨hmin, hmax⟩
    exact ⟨inRange_set h.inRange _ hrange, by simp, by simpa using h.upload,
      by simpa using h.connections⟩

theorem Limited.setUploadLimit {p : Process} (h : Limited p) (options : TaskOptions) :
    Limited (setUploadLimit options p) := by
  unfold ConfigRanges.setUploadLimit
  have hle : (kMin .uploadRateLimit * 1024 * 1024).toInt ≤
    (kMax .uploadRateLimit * 1024 * 1024).toInt := by decide
  obtain heq | ⟨limit, hmin, hmax, heq⟩ := setLimit_cases .uploadRateLimit _ _ _
    options.uploadLimit hle p <;> rw [heq]
  · exact h
  · have hrange : InRange .uploadRateLimit limit := ⟨hmin, hmax⟩
    exact ⟨inRange_set h.inRange _ hrange, by simpa using h.download, by simp,
      by simpa using h.connections⟩

theorem Limited.setTaskOptions {p : Process} (h : Limited p) (options : TaskOptions) :
    Limited (setTaskOptions options p) := by
  unfold ConfigRanges.setTaskOptions
  split
  · exact ((h.setConnectionsLimit options).setDownloadLimit options).setUploadLimit options
  · exact h

/-- No event overflows, and each keeps the limits. -/
theorem Limited.step {p : Process} (h : Limited p) (highPerformanceSeed : SessionSettings)
    (e : Event) : ∃ p', step highPerformanceSeed p e = some p' ∧ Limited p' := by
  cases e with
  | load cwd confPath opened parsed =>
    obtain ⟨loaded, hloaded, hrange⟩ := loadGroupConfig_inRange cwd confPath opened parsed
    rw [ConfigRanges.step, hloaded, Option.map_some]
    refine ⟨_, rfl, ?_⟩
    cases loaded with
    | none => exact h
    | some config => exact limited_loaded highPerformanceSeed (hrange config rfl)
  | setTaskOptions options => exact ⟨_, rfl, h.setTaskOptions options⟩

theorem Reach.limited {highPerformanceSeed : SessionSettings} {p : Process}
    (h : Reach highPerformanceSeed p) : Limited p := by
  induction h with
  | @start cwd confPath opened parsed config hload =>
    obtain ⟨loaded, hloaded, hrange⟩ := loadGroupConfig_inRange cwd confPath opened parsed
    rw [hload, Option.some.injEq] at hloaded
    exact limited_loaded highPerformanceSeed (hrange config hloaded.symm)
  | step e _ hstep ih =>
    obtain ⟨p', hp', hlimited⟩ := ih.step highPerformanceSeed e
    rw [hstep, Option.some.injEq] at hp'
    rwa [hp']

/-- The session's part of the call is that of the manager's other model. -/
theorem setTaskOptions_limits (options : TaskOptions) (p : Process) (h : options.infohash = []) :
    (setTaskOptions options p).settings.limits = sessionLimits options p.settings.limits := by
  simp only [setTaskOptions, if_pos h, setUploadLimit, setDownloadLimit, setConnectionsLimit,
    setLimit, sessionLimits, SessionSettings.limits]
  split <;> split <;> split <;> rfl

/-- In every run of loads and calls, no load overflows, each field stays between its
bounds in its unit, and the limits of the session are those of the configuration. -/
theorem reach_limited (highPerformanceSeed : SessionSettings) {p : Process}
    (h : Reach highPerformanceSeed p) (e : Event) :
    (∀ cwd confPath opened parsed, ∃ loaded,
      loadGroupConfig cwd confPath opened parsed = some loaded ∧
        ∀ config, loaded = some config → ∀ f, InRange f (config.value f)) ∧
      Limited p ∧ ∃ p', step highPerformanceSeed p e = some p' ∧ Limited p' :=
  ⟨loadGroupConfig_inRange, h.limited, h.limited.step highPerformanceSeed e⟩

/-- A configuration whose numbers are all as large as they can be, and the largest limits
of a message. -/
theorem reach_limited_largest :
    let seed : SessionSettings := ⟨0, .enableOsCache, .enableOsCache, 0, 0, 0, 0, 0, 0, 0, 0, 0, 0,
      0, 0, 0, 0, 0, 0, 0, 0, 0, 0, 0, 0, 0, 0, false, false⟩
    ∃ p p', Reach seed p ∧
      step seed p (.setTaskOptions ⟨[], 2147483647, 2147483647, 2147483647⟩) = some p' ∧
      Limited p' ∧ p'.settings.uploadRateLimit = 2097152000 := by
  intro seed
  have hload : ∃ config, loadGroupConfig [slash] [slash, 99] true
      (some ⟨fun _ => 2147483647, false, true, []⟩) = some (some config) := ⟨_, rfl⟩
  obtain ⟨config, hconfig⟩ := hload
  have hreach : Reach seed ⟨config, setSessionSettings seed config⟩ := .start hconfig
  obtain ⟨-, -, p', hstep, hlimited⟩ := reach_limited seed hreach
    (.setTaskOptions ⟨[], 2147483647, 2147483647, 2147483647⟩)
  refine ⟨_, p', hreach, hstep, hlimited, ?_⟩
  cases hstep
  rfl

end Sessions
end Gingko.ConfigRanges
