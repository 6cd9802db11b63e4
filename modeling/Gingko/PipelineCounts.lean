import Gingko.RedisPipelines

/-!
The counters of the pipeline against the replies that are due. Under the flag
the counter of the charged connection is always exact, as long as no failed read
is taken for a reply; that of the released one is exact until a flush starts and
again once the connections are swapped. Without errors the replies come in the
order of the commands, and two swaps after a command was appended its reply has
been read.
-/
namespace Gingko.PipelineCounts

open Base64Codec GuardedRuns RedisPipelines

variable {T : Type}

/-- What the sender still has to read, by where it is. -/
def Due (sender : Sender) (releaseCommands unread : ℕ) : Prop :=
  match sender with
  | .idle => releaseCommands = unread
  | .tested => releaseCommands = unread
  | .flushing i => releaseCommands = i + unread
  | .swapping => unread = 0

/-- A failed read is noticed: it is not taken for the reply of an earlier round. -/
def Noticed (s : State T) (e : Event T) : Prop :=
  e = .getReply (.failed false) → s.sender = .flushing 0

/-- Both connections exist and are counted. -/
structure Tallied (s : State T) (charge release : RedisContext) : Prop where
  charging : s.manager.chargeContext = some charge
  releasing : s.manager.releaseContext = some release
  charged : s.manager.chargedCommands = charge.length
  due : Due s.sender s.manager.releaseCommands release.length

/-- Under the flag the connections are counted. -/
def Counted (s : State T) : Prop :=
  s.manager.flag = true → ∃ charge release, Tallied s charge release

theorem counted_failFlush (s : State T) : Counted (failFlush s) := by
  intro hflag
  simp [failFlush] at hflag

/-- Moving the sender on changes only what is due. -/
theorem counted_sender (s : State T) (sender : Sender) (h : Counted s)
    (hdue : ∀ unread, s.manager.flag = true → Due s.sender s.manager.releaseCommands unread →
      Due sender s.manager.releaseCommands unread) : Counted { s with sender := sender } := by
  intro hflag
  obtain ⟨charge, release, htally⟩ := h hflag
  exact ⟨charge, release, htally.charging, htally.releasing, htally.charged,
    hdue _ hflag htally.due⟩

/-- A read that brings no good reply. -/
def NoError : Event T → Prop
  | .getReply .errorReply => False
  | .getReply (.failed _) => False
  | _ => True

/-- Until the first connection nothing happens; from then on every command is in
the log of replies or waits for its reply in one of the connections. -/
structure Ordered (s : State T) : Prop where
  before : s.manager.flag = false →
    s.appended = [] ∧ s.read = [] ∧ ∀ t, s.appending t = none
  after : ∀ charge release, s.manager.flag = true → s.manager.chargeContext = some charge →
    s.manager.releaseContext = some release → s.appended = s.read ++ release ++ charge

theorem ordered_start : Ordered (State.start : State T) where
  before _ := ⟨rfl, rfl, fun _ => rfl⟩
  after _ _ h := by simp [State.start] at h

/-- Moving the sender on leaves the order alone. -/
theorem ordered_sender (s : State T) (sender : Sender) (h : Ordered s) :
    Ordered { s with sender := sender } :=
  ⟨h.before, h.after⟩

theorem ordered_reply (s : State T) (command : ByteString) (rest : RedisContext)
    (hset : s.manager.flag = true) (hrelease : s.manager.releaseContext = some (command :: rest))
    (h : Ordered s) : Ordered (takeReply command rest s) where
  before hflag := by
    change s.manager.flag = false at hflag
    rw [hset] at hflag
    contradiction
  after charge release hflag hcharging hreleasing := by
    obtain rfl : rest = release := Option.some.inj hreleasing
    have horder := h.after charge (command :: rest) hflag hcharging hrelease
    show s.appended = s.read ++ [command] ++ rest ++ charge
    rw [horder, List.append_assoc s.read [command], List.singleton_append]

/-- The connections trade places when the released one has been read empty. -/
theorem ordered_swap (s : State T) (hcounted : Counted s) (hset : s.manager.flag = true)
    (hswapping : s.sender = .swapping) (h : Ordered s) : Ordered (swapSection s) := by
  obtain ⟨charge, release, htally⟩ := hcounted hset
  have hempty := htally.due
  rw [hswapping] at hempty
  obtain rfl := List.length_eq_zero_iff.mp hempty
  have horder := h.after charge [] hset htally.charging htally.releasing
  constructor
  · intro hflag
    change s.manager.flag = false at hflag
    rw [hset] at hflag
    contradiction
  · intro charge' release' _ hcharging hreleasing
    obtain rfl := Option.some.inj (htally.releasing.symm.trans hcharging)
    obtain rfl := Option.some.inj (htally.charging.symm.trans hreleasing)
    show s.appended = s.read ++ charge ++ []
    rw [horder, List.append_nil, List.append_nil]

theorem ordered_connect (s : State T) (release charge : Bool) (hbroken : s.manager.flag = false)
    (h : Ordered s) : Ordered (connectSection release charge s) where
  before _ := h.before hbroken
  after charging releasing hflag hcharging hreleasing := by
    have hboth := Bool.and_eq_true_iff.mp (show (release && charge) = true from hflag)
    obtain ⟨rfl, rfl⟩ := hboth
    obtain rfl : [] = charging := Option.some.inj hcharging
    obtain rfl : [] = releasing := Option.some.inj hreleasing
    obtain ⟨happended, hread, _⟩ := h.before hbroken
    show s.appended = s.read ++ [] ++ []
    rw [happended, hread]
    rfl

theorem noticed_of_noError (s : State T) (e : Event T) (h : NoError e) : Noticed s e := by
  intro heq
  obtain rfl := heq
  exact h.elim

/-- A run without errors after the first connection. -/
structure Running (s : State T) : Prop where
  flag : s.manager.flag = true
  vouched : Vouched s
  counted : Counted s
  ordered : Ordered s

/-- How far the replies to the first commands have come after some swaps: with
one their replies are at least due on the released connection. -/
def Advanced (log : List ByteString) : ℕ → State T → Prop
  | 0, s => log <+: s.appended
  | 1, s => ∀ release, s.manager.releaseContext = some release → log <+: s.read ++ release
  | _ + 2, s => log <+: s.read

theorem advanced_swap (log : List ByteString) (n : ℕ) (s : State T) (hrunning : Running s)
    (hswapping : s.sender = .swapping) (h : Advanced log n s) :
    Advanced log (n + 1) (swapSection s) := by
  obtain ⟨charge, release, htally⟩ := hrunning.counted hrunning.flag
  have hempty := htally.due
  rw [hswapping] at hempty
  obtain rfl := List.length_eq_zero_iff.mp hempty
  have horder := hrunning.ordered.after charge [] hrunning.flag htally.charging htally.releasing
  rw [List.append_nil] at horder
  match n with
  | 0 =>
    intro release' hreleasing
    obtain rfl := Option.some.inj (htally.charging.symm.trans hreleasing)
    change log <+: s.appended at h
    rw [horder] at h
    exact h
  | 1 =>
    have hread := h [] htally.releasing
    rw [List.append_nil] at hread
    exact hread
  | _ + 2 => exact h

/-- Without errors the replies read are those of the first commands. -/
theorem read_in_order (s : State T) (hcounted : Counted s) (h : Ordered s) : s.read <+: s.appended := by
  cases hflag : s.manager.flag with
  | false =>
    obtain ⟨happended, hread, _⟩ := h.before hflag
    rw [happended, hread]
  | true =>
    obtain ⟨charge, release, htally⟩ := hcounted hflag
    rw [h.after charge release hflag htally.charging htally.releasing, List.append_assoc]
    exact List.prefix_append ..

variable [DecidableEq T]

theorem counted_step (s s' : State T) (e : Event T) (hstep : StepCase s e s') (hvouched : Vouched s)
    (hnoticed : Noticed s e) (h : Counted s) : Counted s' := by
  cases hstep with
  | testPassed t command hflag =>
    intro _
    obtain ⟨charge, release, htally⟩ := h hflag
    exact ⟨charge, release, htally.charging, htally.releasing, htally.charged, htally.due⟩
  | testFailed t command hflag => exact h
  | append t command unread happending hcharge =>
    intro hflag
    obtain ⟨charge, release, htally⟩ := h hflag
    obtain rfl := Option.some.inj (hcharge.symm.trans htally.charging)
    refine ⟨unread ++ [command], release, rfl, htally.releasing, ?_, htally.due⟩
    show s.manager.chargedCommands + 1 = (unread ++ [command]).length
    rw [htally.charged, List.length_append, List.length_singleton]
  | sendTested hidle hflag =>
    refine counted_sender s .tested h ?_
    intro unread _ hdue
    rw [hidle] at hdue
    exact hdue
  | sendSkipped hidle hflag => exact h
  | lockRelease htested =>
    refine counted_sender s (.flushing 0) h ?_
    intro unread _ hdue
    rw [htested] at hdue
    show s.manager.releaseCommands = 0 + unread
    rw [hdue, Nat.zero_add]
  | reply i command rest hflushing hdue hrelease =>
    intro hflag
    obtain ⟨charge, release, htally⟩ := h hflag
    obtain rfl := Option.some.inj (hrelease.symm.trans htally.releasing)
    have hcount := htally.due
    rw [hflushing] at hcount
    refine ⟨charge, rest, htally.charging, rfl, htally.charged, ?_⟩
    change s.manager.releaseCommands = i + (rest.length + 1) at hcount
    show s.manager.releaseCommands = i + 1 + rest.length
    omega
  | errorReply i command rest hflushing hdue hrelease => exact counted_failFlush _
  | failed i isError hflushing hdue _ => exact counted_failFlush s
  | misread i hflushing hdue hlate =>
    have hfirst := hnoticed rfl
    rw [hflushing] at hfirst
    exact absurd (Sender.flushing.inj hfirst) hlate
  | finishFlush i hflushing hdone =>
    refine counted_sender s .swapping h ?_
    intro unread _ hdue
    rw [hflushing] at hdue
    change s.manager.releaseCommands = i + unread at hdue
    show unread = 0
    omega
  | swap hswapping =>
    intro hflag
    obtain ⟨charge, release, htally⟩ := h hflag
    have hempty := htally.due
    rw [hswapping] at hempty
    change release.length = 0 at hempty
    exact ⟨release, charge, htally.releasing, htally.charging, hempty.symm, htally.charged⟩
  | connectionFine hflag => exact h
  | connectionBroken hflag =>
    intro hset
    rw [show s.manager.flag = false from hflag] at hset
    contradiction
  | connect release charge hfree hreconnecting =>
    intro hflag
    change (release && charge) = true at hflag
    have hrelease : release = true := (Bool.and_eq_true_iff.mp hflag).1
    refine ⟨[], [], by simp [connectSection, hflag], by simp [connectSection, hrelease], rfl, ?_⟩
    have hidle := idle_of_reconnecting s hvouched hreconnecting
    show Due s.sender 0 0
    rw [hidle]
    rfl

/-- A failed read taken for a reply puts the count out, by what is left unread. -/
theorem not_counted_misread (s s' : State T) (hstep : StepCase s (.getReply (.failed false)) s')
    (hvouched : Vouched s) (hlate : s.sender ≠ .flushing 0) (h : Counted s) : ¬ Counted s' := by
  intro h'
  cases hstep with
  | failed i isError hflushing hdue hnoticed =>
    obtain rfl | herror := hnoticed
    · exact hlate hflushing
    · contradiction
  | misread i hflushing hdue _ =>
    have hset := hvouched.sending (by simp [hflushing])
    obtain ⟨charge, release, htally⟩ := h hset
    obtain ⟨charge', release', htally'⟩ := h' hset
    obtain rfl := Option.some.inj (htally.releasing.symm.trans htally'.releasing)
    have hcount := htally.due
    rw [hflushing] at hcount
    change s.manager.releaseCommands = i + release.length at hcount
    have hcount' := htally'.due
    change s.manager.releaseCommands = i + 1 + release.length at hcount'
    omega

theorem ordered_append (s : State T) (t : T) (command : ByteString) (unread : RedisContext)
    (happending : s.appending t = some command) (hcharge : s.manager.chargeContext = some unread)
    (h : Ordered s) : Ordered (appendSection t command unread s) where
  before hflag := by
    have hnone := (h.before hflag).2.2 t
    rw [happending] at hnone
    contradiction
  after charge release hflag hcharging hreleasing := by
    obtain rfl : unread ++ [command] = charge := Option.some.inj hcharging
    have horder := h.after unread release hflag hcharge hreleasing
    show s.appended ++ [command] = s.read ++ release ++ (unread ++ [command])
    rw [horder, List.append_assoc (s.read ++ release)]

theorem ordered_step (s s' : State T) (e : Event T) (hstep : StepCase s e s') (hvouched : Vouched s)
    (hcounted : Counted s) (herror : NoError e) (h : Ordered s) : Ordered s' := by
  cases hstep with
  | testPassed t command hflag =>
    refine ⟨fun hbroken => ?_, h.after⟩
    change s.manager.flag = false at hbroken
    rw [hflag] at hbroken
    contradiction
  | testFailed t command hflag => exact h
  | append t command unread happending hcharge =>
    exact ordered_append s t command unread happending hcharge h
  | sendTested hidle hflag => exact ordered_sender s .tested h
  | sendSkipped hidle hflag => exact h
  | lockRelease htested => exact ordered_sender s (.flushing 0) h
  | reply i command rest hflushing hdue hrelease =>
    have hset := hvouched.sending (by simp [hflushing])
    exact ordered_sender _ (.flushing (i + 1)) (ordered_reply s command rest hset hrelease h)
  | errorReply i command rest hflushing hdue hrelease => exact herror.elim
  | failed i isError hflushing hdue hnoticed => exact herror.elim
  | misread i hflushing hdue hlate => exact herror.elim
  | finishFlush i hflushing hdone => exact ordered_sender s .swapping h
  | swap hswapping =>
    exact ordered_swap s hcounted (hvouched.sending (by simp [hswapping])) hswapping h
  | connectionFine hflag => exact h
  | connectionBroken hflag => exact ⟨h.before, h.after⟩
  | connect release charge hfree hreconnecting =>
    exact ordered_connect s release charge (hvouched.reconnecting hreconnecting) h

section Progress

theorem flag_step (s s' : State T) (e : Event T) (hstep : StepCase s e s') (hvouched : Vouched s)
    (herror : NoError e) (hset : s.manager.flag = true) : s'.manager.flag = true := by
  cases hstep with
  | errorReply i command rest hflushing hdue hrelease => exact herror.elim
  | failed i isError hflushing hdue hnoticed => exact herror.elim
  | connect release charge hfree hreconnecting =>
    rw [hvouched.reconnecting hreconnecting] at hset
    contradiction
  | _ => exact hset

theorem running_step (s s' : State T) (e : Event T) (hstep : StepCase s e s') (herror : NoError e)
    (h : Running s) : Running s' where
  flag := flag_step s s' e hstep h.vouched herror h.flag
  vouched := vouched_step s s' e hstep h.vouched
  counted := counted_step s s' e hstep h.vouched (noticed_of_noError s e herror) h.counted
  ordered := ordered_step s s' e hstep h.vouched h.counted herror h.ordered

/-- Commands are only added, and a reply moves from one list to the next. -/
theorem advanced_other (log : List ByteString) (n : ℕ) (s s' : State T) (e : Event T)
    (hstep : StepCase s e s') (hswap : e ≠ .swap) (hrunning : Running s) (herror : NoError e)
    (h : Advanced log n s) : Advanced log n s' := by
  cases hstep with
  | append t command unread happending hcharge =>
    match n with
    | 0 => exact List.IsPrefix.trans h (List.prefix_append ..)
    | 1 => exact h
    | _ + 2 => exact h
  | reply i command rest hflushing hdue hrelease =>
    match n with
    | 0 => exact h
    | 1 =>
      intro release' hreleasing
      obtain rfl : rest = release' := Option.some.inj hreleasing
      show log <+: s.read ++ [command] ++ rest
      rw [List.append_assoc, List.singleton_append]
      exact h _ hrelease
    | _ + 2 => exact List.IsPrefix.trans h (List.prefix_append ..)
  | errorReply i command rest hflushing hdue hrelease => exact herror.elim
  | failed i isError hflushing hdue hnoticed => exact herror.elim
  | swap hswapping => exact absurd rfl hswap
  | connect release charge hfree hreconnecting =>
    have hbroken := hrunning.vouched.reconnecting hreconnecting
    rw [hrunning.flag] at hbroken
    contradiction
  | _ => match n with
    | 0 => exact h
    | 1 => exact h
    | _ + 2 => exact h

/-- The sender's part of a run without errors. -/
def Sends : Event T → Prop
  | .testSend => True
  | .lockRelease => True
  | .getReply .reply => True
  | .finishFlush => True
  | .swap => True
  | _ => False

/-- The sender never waits for a reply that is not to come. -/
theorem exists_send (s : State T) (h : Running s) :
    ∃ e, Sends e ∧ step s e ≠ none := by
  obtain ⟨charge, release, htally⟩ := h.counted h.flag
  have hdue := htally.due
  cases hsender : s.sender with
  | idle => exact ⟨.testSend, trivial, by simp [step, testSend, hsender, h.flag]⟩
  | tested => exact ⟨.lockRelease, trivial, by simp [step, lockRelease, hsender]⟩
  | flushing i =>
    rw [hsender] at hdue
    change s.manager.releaseCommands = i + release.length at hdue
    cases release with
    | nil =>
      have hdone : ¬ i < s.manager.releaseCommands := by simp [hdue]
      exact ⟨.finishFlush, trivial, by simp [step, finishFlush, hsender, hdone]⟩
    | cons command rest =>
      have hpending : i < s.manager.releaseCommands := by simp [hdue]
      exact ⟨.getReply .reply, trivial,
        by simp [step, getReply, hsender, htally.releasing, hpending]⟩
  | swapping => exact ⟨.swap, trivial, by simp [step, swap, hsender]⟩

theorem advanced_run (log : List ByteString) (n : ℕ) (s s' : State T) (es : List (Event T))
    (hrun : Path step (fun _ _ => True) s es s') (herror : ∀ e ∈ es, NoError e) (h : Running s)
    (hlog : Advanced log n s) : Advanced log (n + es.count .swap) s' := by
  induction hrun generalizing n with
  | nil s => exact hlog
  | cons s t u e es henabled _ hrest ih =>
    have hcase := step_cases s t e henabled
    have hfirst := herror e (List.mem_cons_self ..)
    have hnext := running_step s t e hcase hfirst h
    have htail := fun f hf => herror f (List.mem_cons_of_mem e hf)
    by_cases hswap : e = .swap
    · subst hswap
      have hadvanced : Advanced log (n + 1) t := by
        cases hcase with
        | swap hswapping => exact advanced_swap log n s h hswapping hlog
      have hlast := ih (n + 1) htail hnext hadvanced
      rw [List.count_cons_self, ← Nat.add_assoc, Nat.add_right_comm]
      exact hlast
    · rw [List.count_cons_of_ne hswap]
      exact ih n htail hnext (advanced_other log n s t e hcase hswap h hfirst hlog)

end Progress

section Accounts

variable {es : List (Event T)} {s : State T}

theorem counted_run (hrun : Path step Noticed State.start es s) : Vouched s ∧ Counted s := by
  refine hrun.invariant (fun s => Vouched s ∧ Counted s) ?_
    ⟨vouched_start, fun hflag => by simp [State.start] at hflag⟩
  intro s e t h hnoticed hstep
  have hcase := step_cases s t e hstep
  exact ⟨vouched_step s t e hcase h.1, counted_step s t e hcase h.1 hnoticed h.2⟩

theorem ordered_run (hrun : Path step Noticed State.start es s) (herror : ∀ e ∈ es, NoError e) :
    Vouched s ∧ Counted s ∧ Ordered s := by
  refine hrun.invariant_of_mem (fun s => Vouched s ∧ Counted s ∧ Ordered s) ?_
    ⟨vouched_start, fun hflag => by simp [State.start] at hflag, ordered_start⟩
  intro s e t hmem h hnoticed hstep
  obtain ⟨hvouched, hcounted, hordered⟩ := h
  have hcase := step_cases s t e hstep
  exact ⟨vouched_step s t e hcase hvouched, counted_step s t e hcase hvouched hnoticed hcounted,
    ordered_step s t e hcase hvouched hcounted (herror e hmem) hordered⟩

theorem appended_read (hrunning : Ordered s) (es' : List (Event T)) (s' : State T)
    (hvouched : Vouched s) (hcounted : Counted s) (hrun : Path step (fun _ _ => True) s es' s')
    (herror : ∀ e ∈ es', NoError e) (hswaps : 2 ≤ es'.count .swap) : s.appended <+: s'.read := by
  cases hflag : s.manager.flag with
  | false =>
    rw [(hrunning.before hflag).1]
    exact List.nil_prefix
  | true =>
    have hadvanced := advanced_run s.appended 0 s s' es' hrun herror
      ⟨hflag, hvouched, hcounted, hrunning⟩ List.prefix_rfl
    obtain ⟨n, hn⟩ := Nat.exists_eq_add_of_le hswaps
    rw [Nat.zero_add, hn, Nat.add_comm] at hadvanced
    exact hadvanced

/-- In a run that takes no failed read for a reply the counters of a set flag are
exact unless the sender is between its lock and its swap. Without errors the
replies are read in the order of the commands, the sender is never stuck, and
two swaps later everything appended so far has been read. -/
theorem pipeline_accounts (hrun : Path step Noticed State.start es s) :
    (s.manager.flag = true → ∃ charge release, s.manager.chargeContext = some charge ∧
      s.manager.releaseContext = some release ∧ s.manager.chargedCommands = charge.length ∧
      (s.sender = .idle ∨ s.sender = .tested → s.manager.releaseCommands = release.length)) ∧
    ((∀ e ∈ es, NoError e) → s.read <+: s.appended ∧
      (s.manager.flag = true → ∃ e, Sends e ∧ step s e ≠ none) ∧
      ∀ es' s', Path step (fun _ _ => True) s es' s' → (∀ e ∈ es', NoError e) →
        2 ≤ es'.count .swap → s.appended <+: s'.read) := by
  constructor
  · intro hflag
    obtain ⟨charge, release, htally⟩ := (counted_run hrun).2 hflag
    refine ⟨charge, release, htally.charging, htally.releasing, htally.charged, ?_⟩
    intro hresting
    have hdue := htally.due
    rcases hresting with hsender | hsender
    · rw [hsender] at hdue
      exact hdue
    · rw [hsender] at hdue
      exact hdue
  · intro herror
    obtain ⟨hvouched, hcounted, hordered⟩ := ordered_run hrun herror
    refine ⟨read_in_order s hcounted hordered, ?_, ?_⟩
    · intro hflag
      exact exists_send s ⟨hflag, hvouched, hcounted, hordered⟩
    · intro es' s' hpath hfine hswaps
      exact appended_read hordered es' s' hvouched hcounted hpath hfine hswaps

end Accounts

/-- One command goes through: it is appended, swapped out and answered, and the
sender is about to swap again. -/
def answeredCommand : List (Event Unit) :=
  [.testConnection, .connect true true, .testAppend () [1], .append (), .testSend, .lockRelease,
    .finishFlush, .swap, .testSend, .lockRelease, .getReply .reply, .finishFlush]

theorem answered_noticed (s : State Unit) : ∀ e ∈ answeredCommand, Noticed s e := by
  simp [answeredCommand, Noticed]

theorem pipeline_accounts_answered : ∃ s : State Unit,
    Path step Noticed State.start answeredCommand s ∧ s.read <+: s.appended := by
  have herror : ∀ e ∈ answeredCommand, NoError e := by simp [answeredCommand, NoError]
  have hsteps : ∃ s, answeredCommand.foldlM step State.start = some s := ⟨_, rfl⟩
  obtain ⟨s, hs⟩ := hsteps
  have hrun := path_of_steps State.start s _ answered_noticed hs
  exact ⟨s, hrun, ((pipeline_accounts hrun).2 herror).1⟩

/-- The flush is over and the counter of the released connection is still that of
before it, until the swap. -/
theorem count_before_swap : ∃ s : State Unit,
    Path step Noticed State.start answeredCommand s ∧ s.manager.flag = true ∧
      s.sender = .swapping ∧ s.manager.releaseCommands = 1 ∧ s.manager.releaseContext = some [] :=
  ⟨_, path_of_steps _ _ _ answered_noticed rfl, rfl, rfl, rfl, rfl⟩

end Gingko.PipelineCounts
