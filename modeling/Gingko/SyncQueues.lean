import Gingko.TrackerState
import Mathlib.Logic.Relation

/-!
The queue of infohashes whose remote peers are to be fetched. Announces add
entries, and synchronizer threads claim them, fetch their peers outside the lock
and erase them. Each step is one locked section together with what its thread
does before its next section, so a thread waits for the lock with a cleared set.
An entry to be fetched keeps the flag up and some thread out of its sleep; a
claimed entry belongs to one thread.
-/
namespace Gingko.SyncQueues

open KeyedMaps Base64Codec PeerRecords TrackerState

abbrev QueryMap := Dict ByteString Bool

/-- A thread about to enter the claiming section, sleeping on the condition
variable in it, or outside the lock with the infohashes it has claimed. -/
inductive Thread where
  | ready
  | asleep
  | querying (remoteSetdiff : List ByteString)
  deriving DecidableEq

def maxHandleInfoHashs : ℕ := 1

structure Claim where
  infoHashNum : ℕ
  queryMap : QueryMap
  remoteSetdiff : List ByteString

/-- The loop over the entries in the order of the unordered map. -/
def claimLoop : List (Sigma fun _ : ByteString => Bool) → Claim → Claim
  | [], c => c
  | it :: rest, c =>
    if c.infoHashNum = 0 then c
    else if it.2 then claimLoop rest c
    else claimLoop rest ⟨c.infoHashNum - 1, c.queryMap.insert it.1 true, c.remoteSetdiff ++ [it.1]⟩

/-- A section that finds fewer entries than it may take lowers the flag and starts over. -/
def claimSection (order : List (Sigma fun _ : ByteString => Bool)) (queue : InfoHashQueue) :
    InfoHashQueue × Thread :=
  let c := claimLoop order ⟨maxHandleInfoHashs, queue.queryMap, []⟩
  if 0 < c.infoHashNum then (⟨c.queryMap, false⟩, .ready)
  else (⟨c.queryMap, queue.haveQuery⟩, .querying c.remoteSetdiff)

def eraseSection (remoteSetdiff : List ByteString) (queue : InfoHashQueue) : InfoHashQueue :=
  { queue with queryMap := remoteSetdiff.foldl (fun map key => map.erase key) queue.queryMap }

section Sections

theorem claimLoop_zero (order : List (Sigma fun _ : ByteString => Bool)) (c : Claim)
    (h : c.infoHashNum = 0) : claimLoop order c = c := by
  cases order with
  | nil => rfl
  | cons it rest => rw [claimLoop, if_pos h]

/-- A section claims the first entry that is not being fetched, if there is one. -/
theorem claimLoop_one (order : List (Sigma fun _ : ByteString => Bool)) (map : QueryMap) :
    (claimLoop order ⟨1, map, []⟩ = ⟨1, map, []⟩ ∧ ∀ it ∈ order, it.2 = true) ∨
      ∃ key, ⟨key, false⟩ ∈ order ∧ claimLoop order ⟨1, map, []⟩ = ⟨0, map.insert key true, [key]⟩ := by
  induction order with
  | nil => exact Or.inl ⟨rfl, by simp⟩
  | cons it rest ih =>
    obtain ⟨key, querying⟩ := it
    cases querying with
    | true =>
      have hskip : claimLoop (⟨key, true⟩ :: rest) ⟨1, map, []⟩ = claimLoop rest ⟨1, map, []⟩ := rfl
      rw [hskip]
      rcases ih with ⟨hsame, hall⟩ | ⟨first, hmem, hclaim⟩
      · left
        refine ⟨hsame, ?_⟩
        intro it hit
        rcases List.mem_cons.mp hit with heq | hrest
        · rw [heq]
        · exact hall it hrest
      · exact Or.inr ⟨first, List.mem_cons_of_mem _ hmem, hclaim⟩
    | false =>
      right
      refine ⟨key, List.mem_cons_self .., ?_⟩
      exact claimLoop_zero rest ⟨0, map.insert key true, [key]⟩ rfl

/-- What a claiming section does to the queue and its thread. -/
inductive ClaimCase (queue : InfoHashQueue) : InfoHashQueue × Thread → Prop
  | nothingLeft (hall : ∀ key querying, queue.queryMap.lookup key = some querying →
      querying = true) : ClaimCase queue (⟨queue.queryMap, false⟩, .ready)
  | claimed (key : ByteString) (hpending : queue.queryMap.lookup key = some false) :
      ClaimCase queue (⟨queue.queryMap.insert key true, queue.haveQuery⟩, .querying [key])

theorem claimSection_cases (order : List (Sigma fun _ : ByteString => Bool))
    (queue : InfoHashQueue) (horder : order.Perm queue.queryMap.entries) :
    ClaimCase queue (claimSection order queue) := by
  unfold claimSection maxHandleInfoHashs
  rcases claimLoop_one order queue.queryMap with ⟨hsame, hall⟩ | ⟨key, hmem, hclaim⟩
  · rw [hsame]
    refine .nothingLeft ?_
    intro key querying hlook
    exact hall ⟨key, querying⟩ (horder.mem_iff.mpr
      ((Dict.mem_entries_iff queue.queryMap key querying).mpr hlook))
  · rw [hclaim]
    exact .claimed key ((Dict.mem_entries_iff queue.queryMap key false).mp
      (horder.mem_iff.mp hmem))

theorem lookup_eraseSection (remoteSetdiff : List ByteString) (queue : InfoHashQueue)
    (key : ByteString) :
    (eraseSection remoteSetdiff queue).queryMap.lookup key =
      if key ∈ remoteSetdiff then none else queue.queryMap.lookup key := by
  unfold eraseSection
  obtain ⟨map, haveQuery⟩ := queue
  induction remoteSetdiff generalizing map with
  | nil => simp
  | cons first rest ih =>
    show (rest.foldl (fun map key => map.erase key) (map.erase first)).lookup key = _
    rw [ih (map.erase first)]
    by_cases hrest : key ∈ rest
    · simp [hrest]
    · by_cases hkey : key = first
      · subst hkey
        simp
      · simp [hrest, hkey, AList.lookup_erase_ne]

end Sections

variable {T : Type}

structure State (T : Type) where
  queue : InfoHashQueue
  threads : T → Thread

def State.start : State T := ⟨⟨∅, false⟩, fun _ => .ready⟩

/-- The thread has claimed the infohash and not erased it yet. -/
def Holds (s : State T) (t : T) (key : ByteString) : Prop :=
  ∃ remoteSetdiff, s.threads t = .querying remoteSetdiff ∧ key ∈ remoteSetdiff

structure Invariant (s : State T) : Prop where
  raised : ∀ key, s.queue.queryMap.lookup key = some false → s.queue.haveQuery = true
  awake : s.queue.haveQuery = true → Nonempty T → ∃ t : T, s.threads t ≠ .asleep
  held : ∀ key, s.queue.queryMap.lookup key = some true → ∃ t, Holds s t key
  claimed : ∀ t key, Holds s t key → s.queue.queryMap.lookup key = some true
  apart : ∀ t other key, Holds s t key → Holds s other key → t = other

theorem invariant_start : Invariant (State.start : State T) where
  raised key hkey := by simp [State.start] at hkey
  awake hflag := by simp [State.start] at hflag
  held key hkey := by simp [State.start] at hkey
  claimed t key ht := by simp [Holds, State.start] at ht
  apart t other key ht := by simp [Holds, State.start] at ht

/-- Only the holders and the entries being fetched matter for who holds what. -/
theorem invariant_congr (s s' : State T) (h : Invariant s)
    (hholds : ∀ t key, Holds s' t key ↔ Holds s t key)
    (hfetched : ∀ key, s'.queue.queryMap.lookup key = some true ↔
      s.queue.queryMap.lookup key = some true)
    (hraised : ∀ key, s'.queue.queryMap.lookup key = some false → s'.queue.haveQuery = true)
    (hawake : s'.queue.haveQuery = true → Nonempty T → ∃ t : T, s'.threads t ≠ .asleep) :
    Invariant s' where
  raised := hraised
  awake := hawake
  held key hkey := by
    obtain ⟨t, ht⟩ := h.held key ((hfetched key).mp hkey)
    exact ⟨t, (hholds t key).mpr ht⟩
  claimed t key ht := (hfetched key).mpr (h.claimed t key ((hholds t key).mp ht))
  apart t other key ht hother := by
    exact h.apart t other key ((hholds t key).mp ht) ((hholds other key).mp hother)

/-- An entry to be fetched is in nobody's set. -/
theorem not_holds_pending (s : State T) (h : Invariant s) (key : ByteString)
    (hpending : s.queue.queryMap.lookup key = some false) (other : T) : ¬ Holds s other key := by
  intro hother
  have hfetched := h.claimed other key hother
  rw [hpending] at hfetched
  contradiction

section Adding

theorem addNeedInfoHash_querying (input : PeerInfo) (queue : InfoHashQueue)
    (h : queue.queryMap.lookup input.base64InfoHash = some true) :
    addNeedInfoHash input queue = queue := by
  unfold addNeedInfoHash
  rw [h]
  rfl

theorem addNeedInfoHash_haveQuery (input : PeerInfo) (queue : InfoHashQueue)
    (h : queue.queryMap.lookup input.base64InfoHash ≠ some true) :
    (addNeedInfoHash input queue).haveQuery = true := by
  unfold addNeedInfoHash
  cases hlook : queue.queryMap.lookup input.base64InfoHash with
  | none => rfl
  | some querying =>
    cases querying with
    | true => exact absurd hlook h
    | false => rfl

theorem addNeedInfoHash_fetched (input : PeerInfo) (queue : InfoHashQueue) (key : ByteString) :
    (addNeedInfoHash input queue).queryMap.lookup key = some true ↔
      queue.queryMap.lookup key = some true := by
  unfold addNeedInfoHash
  cases hlook : queue.queryMap.lookup input.base64InfoHash with
  | none =>
    by_cases hkey : key = input.base64InfoHash
    · subst hkey
      simp [hlook]
    · simp [AList.lookup_insert_ne hkey]
  | some querying => rfl

/-- An announce raises the flag, and leaves a thread awake to see it. -/
theorem invariant_add (s : State T) (h : Invariant s) (input : PeerInfo)
    (hawake : Nonempty T → ∃ other, s.threads other ≠ .asleep)
    (hquerying : s.queue.queryMap.lookup input.base64InfoHash ≠ some true) :
    Invariant { s with queue := addNeedInfoHash input s.queue } := by
  refine invariant_congr s _ h (fun _ _ => Iff.rfl) ?_ ?_ (fun _ => hawake)
  · exact addNeedInfoHash_fetched input s.queue
  · intro _ _
    exact addNeedInfoHash_haveQuery input s.queue hquerying

end Adding

variable [DecidableEq T]

def State.setThread (s : State T) (t : T) (thread : Thread) : State T :=
  { s with threads := Function.update s.threads t thread }

/-- An announce notifies one sleeper unless its infohash is being fetched. A thread
may also wake up without a notification, and checks the flag again either way. -/
inductive Step : State T → State T → Prop
  | addQuerying (s : State T) (input : PeerInfo)
      (hquerying : s.queue.queryMap.lookup input.base64InfoHash = some true) :
      Step s { s with queue := addNeedInfoHash input s.queue }
  | addNotify (s : State T) (input : PeerInfo) (woken : T)
      (hquerying : s.queue.queryMap.lookup input.base64InfoHash ≠ some true)
      (hasleep : s.threads woken = .asleep) :
      Step s ({ s with queue := addNeedInfoHash input s.queue }.setThread woken .ready)
  | addUnheard (s : State T) (input : PeerInfo)
      (hquerying : s.queue.queryMap.lookup input.base64InfoHash ≠ some true)
      (hnone : ∀ t, s.threads t ≠ .asleep) :
      Step s { s with queue := addNeedInfoHash input s.queue }
  | wakeUp (s : State T) (t : T) (hasleep : s.threads t = .asleep) :
      Step s (s.setThread t .ready)
  | wait (s : State T) (t : T) (hready : s.threads t = .ready) (hflag : s.queue.haveQuery = false) :
      Step s (s.setThread t .asleep)
  | claim (s : State T) (t : T) (order : List (Sigma fun _ : ByteString => Bool))
      (hready : s.threads t = .ready) (hflag : s.queue.haveQuery = true)
      (horder : order.Perm s.queue.queryMap.entries) :
      Step s ({ s with queue := (claimSection order s.queue).1 }.setThread t
        (claimSection order s.queue).2)
  | erase (s : State T) (t : T) (remoteSetdiff : List ByteString)
      (hquerying : s.threads t = .querying remoteSetdiff) :
      Step s ({ s with queue := eraseSection remoteSetdiff s.queue }.setThread t .ready)

section Threads

theorem setThread_threads (s : State T) (t other : T) (thread : Thread) :
    (s.setThread t thread).threads other = if other = t then thread else s.threads other :=
  Function.update_apply ..

theorem holds_setThread (s : State T) (t other : T) (thread : Thread) (key : ByteString) :
    Holds (s.setThread t thread) other key ↔
      if other = t then ∃ remoteSetdiff, thread = .querying remoteSetdiff ∧ key ∈ remoteSetdiff
      else Holds s other key := by
  unfold Holds
  rw [setThread_threads]
  split <;> rfl

/-- A thread that holds nothing before and after its step changes no holders. -/
theorem holds_setThread_idle (s : State T) (t other : T) (thread : Thread) (key : ByteString)
    (hbefore : ∀ held, s.threads t ≠ .querying held) (hafter : ∀ held, thread ≠ .querying held) :
    Holds (s.setThread t thread) other key ↔ Holds s other key := by
  rw [holds_setThread]
  split
  · next heq =>
    subst heq
    apply iff_of_false
    · intro hboth
      obtain ⟨held, hthread, _⟩ := hboth
      exact hafter held hthread
    · intro hboth
      obtain ⟨held, hthread, _⟩ := hboth
      exact hbefore held hthread
  · rfl

end Threads

section Steps

variable (s : State T) (t : T) (h : Invariant s)

include h

theorem invariant_wait (hready : s.threads t = .ready) (hflag : s.queue.haveQuery = false) :
    Invariant (s.setThread t .asleep) := by
  refine invariant_congr s _ h ?_ (fun key => Iff.rfl) h.raised ?_
  · intro other key
    exact holds_setThread_idle s t other .asleep key (by simp [hready]) (by simp)
  · intro hraised
    change s.queue.haveQuery = true at hraised
    rw [hflag] at hraised
    contradiction

theorem invariant_wakeUp (hasleep : s.threads t = .asleep) :
    Invariant (s.setThread t .ready) := by
  refine invariant_congr s _ h ?_ (fun key => Iff.rfl) h.raised ?_
  · intro other key
    exact holds_setThread_idle s t other .ready key (by simp [hasleep]) (by simp)
  · intro _ _
    exact ⟨t, by simp [setThread_threads]⟩

/-- After a claim the thread holds the claimed entry alone, and the others what they did. -/
theorem holds_claimed (key : ByteString) (hpending : s.queue.queryMap.lookup key = some false)
    (queue : InfoHashQueue) (other : T) (k : ByteString)
    (hother : Holds ({ s with queue := queue }.setThread t (.querying [key])) other k) :
    other = t ∧ k = key ∨ k ≠ key ∧ Holds s other k := by
  rw [holds_setThread] at hother
  split at hother
  · next ht =>
    obtain ⟨held, hthread, hmem⟩ := hother
    obtain rfl := Thread.querying.inj hthread
    exact Or.inl ⟨ht, List.mem_singleton.mp hmem⟩
  · refine Or.inr ⟨?_, hother⟩
    intro heq
    obtain rfl := heq
    exact not_holds_pending s h k hpending other hother

theorem invariant_claim (hready : s.threads t = .ready) (hflag : s.queue.haveQuery = true)
    (result : InfoHashQueue × Thread) (hcase : ClaimCase s.queue result) :
    Invariant ({ s with queue := result.1 }.setThread t result.2) := by
  cases hcase with
  | nothingLeft hall =>
    refine invariant_congr s _ h ?_ (fun key => Iff.rfl) ?_ ?_
    · intro other key
      exact holds_setThread_idle { s with queue := _ } t other .ready key (by simp [hready])
        (by simp)
    · intro key hkey
      exact absurd (hall key false hkey) (by simp)
    · intro hlowered
      simp [State.setThread] at hlowered
  | claimed key hpending =>
    have hholds := holds_claimed s t h key hpending
    refine ⟨fun _ _ => hflag, fun _ _ => ⟨t, by simp [setThread_threads]⟩, ?_, ?_, ?_⟩
    · intro k hk
      rcases Dict.lookup_of_insert s.queue.queryMap key k true true hk with ⟨rfl, _⟩ | ⟨_, hold⟩
      · exact ⟨t, (holds_setThread _ t t _ k).mpr (by simp)⟩
      · obtain ⟨other, hother⟩ := h.held k hold
        have hne : other ≠ t := by
          intro heq
          obtain rfl := heq
          obtain ⟨held, hthread, _⟩ := hother
          rw [hready] at hthread
          contradiction
        exact ⟨other, (holds_setThread _ t other _ k).mpr (by rw [if_neg hne]; exact hother)⟩
    · intro other k hother
      show (s.queue.queryMap.insert key true).lookup k = some true
      rcases hholds _ other k hother with ⟨_, rfl⟩ | ⟨hne, hold⟩
      · exact AList.lookup_insert _
      · rw [AList.lookup_insert_ne hne]
        exact h.claimed other k hold
    · intro a b k ha hb
      rcases hholds _ a k ha with ⟨rfl, hk⟩ | ⟨hne, hold⟩
      · rcases hholds _ b k hb with ⟨rfl, _⟩ | ⟨hne, _⟩
        · rfl
        · exact absurd hk hne
      · rcases hholds _ b k hb with ⟨_, hk⟩ | ⟨_, hother⟩
        · exact absurd hk hne
        · exact h.apart a b k hold hother

theorem invariant_erase (remoteSetdiff : List ByteString)
    (hquerying : s.threads t = .querying remoteSetdiff) :
    Invariant ({ s with queue := eraseSection remoteSetdiff s.queue }.setThread t .ready) := by
  have hlook : ∀ k v, (eraseSection remoteSetdiff s.queue).queryMap.lookup k = some v ↔
      k ∉ remoteSetdiff ∧ s.queue.queryMap.lookup k = some v := by
    intro k v
    rw [lookup_eraseSection]
    split
    · next hmem => simp [hmem]
    · next hnot => simp [hnot]
  have hown : ∀ k, Holds s t k ↔ k ∈ remoteSetdiff := by
    intro k
    simp [Holds, hquerying]
  have hholds : ∀ other k, Holds ({ s with queue := eraseSection remoteSetdiff s.queue }.setThread
      t .ready) other k ↔ other ≠ t ∧ Holds s other k := by
    intro other k
    rw [holds_setThread]
    split
    · next ht => simp [ht]
    · next ht =>
      simp only [ne_eq, ht, not_false_eq_true, true_and]
      rfl
  refine ⟨?_, fun _ _ => ⟨t, by simp [setThread_threads]⟩, ?_, ?_, ?_⟩
  · intro k hk
    exact h.raised k ((hlook k false).mp hk).2
  · intro k hk
    obtain ⟨hnot, hold⟩ := (hlook k true).mp hk
    obtain ⟨other, hother⟩ := h.held k hold
    refine ⟨other, (hholds other k).mpr ⟨?_, hother⟩⟩
    intro heq
    obtain rfl := heq
    exact hnot ((hown k).mp hother)
  · intro other k hother
    obtain ⟨hne, hold⟩ := (hholds other k).mp hother
    refine (hlook k true).mpr ⟨?_, h.claimed other k hold⟩
    intro hmem
    exact hne (h.apart other t k hold ((hown k).mpr hmem))
  · intro a b k ha hb
    exact h.apart a b k ((hholds a k).mp ha).2 ((hholds b k).mp hb).2

end Steps

theorem invariant_step (s s' : State T) (hstep : Step s s') (h : Invariant s) : Invariant s' := by
  cases hstep with
  | addQuerying input hquerying =>
    rw [addNeedInfoHash_querying input s.queue hquerying]
    exact h
  | addNotify input woken hquerying hasleep =>
    -- the notified thread may be the only one awake, so it is woken first
    have hwoken := invariant_wakeUp s woken h hasleep
    exact invariant_add (s.setThread woken .ready) hwoken input
      (fun _ => ⟨woken, by simp [setThread_threads]⟩) hquerying
  | addUnheard input hquerying hnone =>
    exact invariant_add s h input (fun ⟨t⟩ => ⟨t, hnone t⟩) hquerying
  | wakeUp t hasleep => exact invariant_wakeUp s t h hasleep
  | wait t hready hflag => exact invariant_wait s t h hready hflag
  | claim t order hready hflag horder =>
    exact invariant_claim s t h hready hflag _ (claimSection_cases order s.queue horder)
  | erase t remoteSetdiff hquerying => exact invariant_erase s t h remoteSetdiff hquerying

section Runs

def Reachable (s : State T) : Prop := Relation.ReflTransGen Step State.start s

theorem invariant_reachable (s : State T) (h : Reachable s) : Invariant s := by
  induction h with
  | refl => exact invariant_start
  | tail _ hstep ih => exact invariant_step _ _ hstep ih

/-- The state after the thread has erased what it claimed. -/
def erased (s : State T) (t : T) (remoteSetdiff : List ByteString) : State T :=
  { s with queue := eraseSection remoteSetdiff s.queue }.setThread t .ready

/-- No other step touches the set of a thread that is fetching. -/
theorem querying_step (s s' : State T) (t : T) (remoteSetdiff : List ByteString)
    (hstep : Step s s') (hthread : s.threads t = .querying remoteSetdiff) :
    s'.threads t = .querying remoteSetdiff ∨ s' = erased s t remoteSetdiff := by
  have hkept : ∀ (queue : InfoHashQueue) (other : T) (thread : Thread),
      s.threads other ≠ .querying remoteSetdiff →
        (({ s with queue := queue } : State T).setThread other thread).threads t =
          .querying remoteSetdiff := by
    intro queue other thread hother
    have hne : t ≠ other := by
      intro heq
      obtain rfl := heq
      exact hother hthread
    rw [setThread_threads, if_neg hne]
    exact hthread
  cases hstep with
  | addQuerying input hquerying => exact Or.inl hthread
  | addNotify input woken hquerying hasleep => exact Or.inl (hkept _ woken _ (by simp [hasleep]))
  | addUnheard input hquerying hnone => exact Or.inl hthread
  | wakeUp other hasleep => exact Or.inl (hkept _ other _ (by simp [hasleep]))
  | wait other hready hflag => exact Or.inl (hkept _ other _ (by simp [hready]))
  | claim other order hready hflag horder => exact Or.inl (hkept _ other _ (by simp [hready]))
  | erase other held hquerying =>
    by_cases hother : t = other
    · subst hother
      rw [hthread] at hquerying
      obtain rfl := Thread.querying.inj hquerying
      exact Or.inr rfl
    · left
      rw [setThread_threads, if_neg hother]
      exact hthread

/-- A thread keeps its set until the section that erases what is in it. -/
theorem querying_run (s s' : State T) (t : T) (remoteSetdiff : List ByteString)
    (hthread : s.threads t = .querying remoteSetdiff) (hrun : Relation.ReflTransGen Step s s') :
    s'.threads t = .querying remoteSetdiff ∨
      ∃ before, Relation.ReflTransGen Step s before ∧
        before.threads t = .querying remoteSetdiff ∧
        Relation.ReflTransGen Step (erased before t remoteSetdiff) s' := by
  induction hrun with
  | refl => exact Or.inl hthread
  | tail hprefix hstep ih =>
    rename_i mid last
    rcases ih with hstill | ⟨before, hbefore, hquerying, hafter⟩
    · rcases querying_step mid last t remoteSetdiff hstep hstill with hkept | rfl
      · exact Or.inl hkept
      · exact Or.inr ⟨mid, hprefix, hstill, .refl⟩
    · exact Or.inr ⟨before, hbefore, hquerying, hafter.tail hstep⟩

/-- What holds of the queue in every reachable state. -/
structure QueueSound (s : State T) : Prop where
  pendingRaised : ∀ key, s.queue.queryMap.lookup key = some false →
    s.queue.haveQuery = true ∧ (Nonempty T → ∃ t : T, s.threads t ≠ .asleep)
  heldOnce : ∀ key, s.queue.queryMap.lookup key = some true → ∃! t, Holds s t key
  erasedBeforeWait : ∀ t key s', Holds s t key → Relation.ReflTransGen Step s s' →
    s'.threads t = .asleep → ∃ before remoteSetdiff, Relation.ReflTransGen Step s before ∧
      before.threads t = .querying remoteSetdiff ∧ key ∈ remoteSetdiff ∧
      Relation.ReflTransGen Step (erased before t remoteSetdiff) s'
  apart : ∀ t other key, Holds s t key → Holds s other key → t = other

theorem queue_sound (s : State T) (h : Reachable s) : QueueSound s := by
  have hinv := invariant_reachable s h
  refine ⟨?_, ?_, ?_, hinv.apart⟩
  · intro key hkey
    have hflag := hinv.raised key hkey
    exact ⟨hflag, hinv.awake hflag⟩
  · intro key hkey
    obtain ⟨t, ht⟩ := hinv.held key hkey
    exact ⟨t, ht, fun other hother => hinv.apart other t key hother ht⟩
  · intro t key s' hboth hrun hasleep
    obtain ⟨remoteSetdiff, hthread, hmem⟩ := hboth
    rcases querying_run s s' t remoteSetdiff hthread hrun with hstill | ⟨before, hbefore, hq, hafter⟩
    · rw [hasleep] at hstill
      contradiction
    · exact ⟨before, remoteSetdiff, hbefore, hq, hmem, hafter⟩

/-- One announce, then one of two threads claims its infohash. -/
theorem queue_sound_claimed :
    let announced : State (Fin 2) :=
      ⟨addNeedInfoHash (requested [1] [2] [3] .download false 50) ⟨∅, false⟩, fun _ => .ready⟩
    let order := announced.queue.queryMap.entries
    QueueSound ({ announced with queue := (claimSection order announced.queue).1 }.setThread 0
      (claimSection order announced.queue).2) := by
  intro announced order
  have hadd : Step State.start announced :=
    .addUnheard State.start _ (by decide) (by simp [State.start])
  have hclaim := Step.claim announced 0 order rfl (by decide) (List.Perm.refl _)
  exact queue_sound _ ((Relation.ReflTransGen.single hadd).tail hclaim)

end Runs
end Gingko.SyncQueues
