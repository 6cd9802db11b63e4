import Gingko.AgentAdds

/-!
How a task gets its id. A script of four statements inserts the row of the task,
reads its id through a callback and commits; it is tried three times with a new
connection in between. The test at the end looks at the id only, and a script
can fail behind the callback. A failing script stops at the failing statement,
and a transaction that is still open is lost with its connection. After a
reconnection that could not open the file the next one waits for ever.
-/
namespace Gingko.TaskRows

open Base64Codec AgentMessages AgentTasks AgentAdds

structure Row where
  id : Int64
  infohash : ByteString
  savePath : ByteString
  uid : UInt32
  gid : UInt32
  cmd : ByteString
  deriving DecidableEq

def rowOf (t : Task) (id : Int64) : Row where
  id := id
  infohash := t.infohash
  savePath := t.getDataPath
  uid := t.cred.uid
  gid := t.cred.gid
  cmd := t.cmd

/-- The committed rows of the file, the rows of the open transaction, if there is
one, and the last id that was given. `reconnecting` stays set after a reconnection that
has not opened the file. -/
structure Connection where
  rows : List Row
  pending : Option (List Row)
  lastRowid : Int64
  reconnecting : Bool
  deriving DecidableEq

inductive Statement where
  | begin
  | insert
  | select
  | commit
  deriving DecidableEq

/-- What happens in one turn of the loop: which statement fails for a reason of its
own, which id the insertion gets, whether an error ends the transaction, and
whether the reconnection opens the file. -/
structure Attempt where
  fails : Statement → Bool
  rowid : Int64
  rowid_pos : 0 < rowid
  rollsBack : Bool
  opens : Bool

section Script

variable (t : Task)

/-- A statement that the database accepts. The callback stores the id. -/
def execStatement (rowid : Int64) (id : Int64) (c : Connection) :
    Statement → Option (Connection × Int64)
  | .begin =>
    match c.pending with
    | none => some ({ c with pending := some [] }, id)
    | some _ => none
  | .insert =>
    match c.pending with
    | none => some ({ c with rows := c.rows ++ [rowOf t rowid], lastRowid := rowid }, id)
    | some rows =>
      some ({ c with pending := some (rows ++ [rowOf t rowid]), lastRowid := rowid }, id)
  | .select => some (c, c.lastRowid)
  | .commit =>
    match c.pending with
    | none => none
    | some rows => some ({ c with rows := c.rows ++ rows, pending := none }, id)

/-- The statements one after the other, up to the first that fails. -/
def execScript (a : Attempt) (id : Int64) (c : Connection) :
    List Statement → (Connection × Int64) × Bool
  | [] => ((c, id), true)
  | statement :: rest =>
    if a.fails statement then ((c, id), false)
    else
      match execStatement t a.rowid id c statement with
      | none => ((c, id), false)
      | some (c', id') => execScript a id' c' rest

def script : List Statement := [.begin, .insert, .select, .commit]

def excute (a : Attempt) (id : Int64) (c : Connection) : (Connection × Int64) × Bool :=
  let done := execScript t a id c script
  if !done.2 && a.rollsBack then (({ done.1.1 with pending := none }, done.1.2), false) else done

/-- A new connection has no transaction; without one the old connection stays, and the
next call of this function waits for ever. -/
def reconnect (a : Attempt) (c : Connection) : Option Connection :=
  if c.reconnecting then none
  else if a.opens then some { c with pending := none }
  else some { c with reconnecting := true }

/-- There is no result if the loop comes to wait for ever. -/
def genTaskIdLoop : List Attempt → Int64 → Connection → Option (Connection × Int64)
  | [], id, c => some (c, id)
  | a :: rest, id, c =>
    let done := excute t a id c
    if !done.2 || decide (done.1.2 < 0) then
      (reconnect a done.1.1).bind (genTaskIdLoop rest done.1.2)
    else some done.1

/-- The id of a new task is minus one; the result tells whether it still is negative. -/
def genTaskId (env : ℕ → Attempt) (c : Connection) : Option ((Connection × Int64) × Bool) :=
  (genTaskIdLoop t [env 0, env 1, env 2] (-1) c).map fun done => (done, decide (0 ≤ done.2))

end Script

/-- There is an open transaction, so the next script fails at its first statement. -/
def Connection.busy (c : Connection) : Bool := c.pending.isSome

namespace Attempt

/-- The script gets behind its callback. -/
def selects (a : Attempt) (busy : Bool) : Bool :=
  !busy && !a.fails .begin && !a.fails .insert && !a.fails .select

def commits (a : Attempt) (busy : Bool) : Bool := a.selects busy && !a.fails .commit

/-- The transaction of a script that fails is still open in the next turn. -/
def busyAfter (a : Attempt) (busy : Bool) : Bool :=
  !a.opens && !a.rollsBack && (busy || !a.fails .begin)

end Attempt

/-- One of the scripts commits. -/
def SomeCommits : Bool → List Attempt → Prop
  | _, [] => False
  | busy, a :: rest => a.commits busy = true ∨ SomeCommits (a.busyAfter busy) rest

/-- None of the scripts gets behind its callback. -/
def NoneSelects : Bool → List Attempt → Prop
  | _, [] => True
  | busy, a :: rest => a.selects busy = false ∧ NoneSelects (a.busyAfter busy) rest

/-- A script fails where a reconnection has failed to open the file before, in this loop or
earlier. -/
def Blocks : Bool → Bool → List Attempt → Prop
  | _, _, [] => False
  | busy, reconnecting, a :: rest =>
    a.commits busy = false ∧ (reconnecting = true ∨ Blocks (a.busyAfter busy) (!a.opens) rest)

section Runs

variable (t : Task) (a : Attempt) (id : Int64) (c : Connection)

theorem excute_commits (h : a.commits c.busy = true) :
    excute t a id c =
      ((⟨c.rows ++ [rowOf t a.rowid], none, a.rowid, c.reconnecting⟩, a.rowid), true) := by
  obtain ⟨rows, pending, lastRowid, reconnecting⟩ := c
  simp only [Attempt.commits, Attempt.selects, Connection.busy, Bool.and_eq_true,
    Bool.not_eq_true', Option.isSome_eq_false_iff, Option.isNone_iff_eq_none] at h
  obtain ⟨⟨⟨⟨rfl, hbegin⟩, hinsert⟩, hselect⟩, hcommit⟩ := h
  simp [excute, script, execScript, execStatement, hbegin, hinsert, hselect, hcommit]

/-- A script that does not commit leaves the file alone. The id is that of the
insertion as soon as the callback has run. -/
theorem script_fails (h : a.commits c.busy = false) :
    ∃ c', execScript t a id c script = ((c', if a.selects c.busy then a.rowid else id), false) ∧
      c'.rows = c.rows ∧ c'.busy = (c.busy || !a.fails .begin) ∧
      c'.reconnecting = c.reconnecting := by
  obtain ⟨rows, pending, lastRowid, reconnecting⟩ := c
  cases hbegin : a.fails .begin with
  | true =>
    refine ⟨⟨rows, pending, lastRowid, reconnecting⟩, ?_, rfl, by simp, rfl⟩
    simp [script, execScript, hbegin, Attempt.selects]
  | false =>
    cases pending with
    | some pending =>
      refine ⟨⟨rows, some pending, lastRowid, reconnecting⟩, ?_, rfl, rfl, rfl⟩
      simp [script, execScript, execStatement, hbegin, Attempt.selects, Connection.busy]
    | none =>
      -- the transaction is open from here on, wherever the script stops
      cases hinsert : a.fails .insert with
      | true =>
        refine ⟨⟨rows, some [], lastRowid, reconnecting⟩, ?_, rfl, rfl, rfl⟩
        simp [script, execScript, execStatement, hbegin, hinsert, Attempt.selects]
      | false =>
        cases hselect : a.fails .select with
        | true =>
          refine ⟨⟨rows, some [rowOf t a.rowid], a.rowid, reconnecting⟩, ?_, rfl, rfl, rfl⟩
          simp [script, execScript, execStatement, hbegin, hinsert, hselect, Attempt.selects]
        | false =>
          have hcommit : a.fails .commit = true := by
            simpa [Attempt.commits, Attempt.selects, Connection.busy, hbegin, hinsert,
              hselect] using h
          refine ⟨⟨rows, some [rowOf t a.rowid], a.rowid, reconnecting⟩, ?_, rfl, rfl, rfl⟩
          simp [script, execScript, execStatement, hbegin, hinsert, hselect, hcommit,
            Attempt.selects, Connection.busy]

theorem excute_fails (h : a.commits c.busy = false) :
    ∃ c', excute t a id c = ((c', if a.selects c.busy then a.rowid else id), false) ∧
      c'.rows = c.rows ∧ c'.busy = (!a.rollsBack && (c.busy || !a.fails .begin)) ∧
      c'.reconnecting = c.reconnecting := by
  obtain ⟨c', hscript, hrows, hbusy, hsame⟩ := script_fails t a id c h
  simp only [excute, hscript, Bool.not_false, Bool.true_and]
  cases hrolls : a.rollsBack with
  | true => exact ⟨{ c' with pending := none }, by simp, hrows, rfl, hsame⟩
  | false => exact ⟨c', by simp, hrows, by simpa using hbusy, hsame⟩

theorem not_neg_of_pos (x : Int64) (h : 0 < x) : ¬ x < 0 := by
  rw [Int64.lt_iff_toInt_lt] at *
  omega

variable (rest : List Attempt)

/-- After a commit the loop is over, and the id is that of the new row. -/
theorem loop_commits (h : a.commits c.busy = true) :
    genTaskIdLoop t (a :: rest) id c =
      some (⟨c.rows ++ [rowOf t a.rowid], none, a.rowid, c.reconnecting⟩, a.rowid) := by
  have hpos := not_neg_of_pos a.rowid a.rowid_pos
  simp [genTaskIdLoop, excute_commits t a id c h, hpos]

/-- A script that fails while no reconnection can come to an end is the last thing done. -/
theorem loop_blocked (h : a.commits c.busy = false) (hreconnecting : c.reconnecting = true) :
    genTaskIdLoop t (a :: rest) id c = none := by
  obtain ⟨c', hexcute, _, _, hsame⟩ := excute_fails t a id c h
  simp [genTaskIdLoop, hexcute, reconnect, hsame, hreconnecting]

theorem loop_goes_on (h : a.commits c.busy = false) (hfree : c.reconnecting = false) :
    ∃ c', genTaskIdLoop t (a :: rest) id c =
        genTaskIdLoop t rest (if a.selects c.busy then a.rowid else id) c' ∧
      c'.rows = c.rows ∧ c'.busy = a.busyAfter c.busy ∧ c'.reconnecting = !a.opens := by
  obtain ⟨c', hexcute, hrows, hbusy, hsame⟩ := excute_fails t a id c h
  rw [hfree] at hsame
  cases hopens : a.opens with
  | true =>
    refine ⟨{ c' with pending := none }, ?_, hrows, ?_, hsame⟩
    · simp [genTaskIdLoop, hexcute, reconnect, hsame, hopens]
    · simp [Connection.busy, Attempt.busyAfter, hopens]
  | false =>
    refine ⟨{ c' with reconnecting := true }, ?_, hrows, ?_, rfl⟩
    · simp [genTaskIdLoop, hexcute, reconnect, hsame, hopens]
    · simpa [Connection.busy, Attempt.busyAfter, hopens] using hbusy

end Runs

section Loops

variable (t : Task) (id : Int64) (c : Connection) (attempts : List Attempt)

theorem loop_none_iff :
    genTaskIdLoop t attempts id c = none ↔ Blocks c.busy c.reconnecting attempts := by
  induction attempts generalizing id c with
  | nil => simp [genTaskIdLoop, Blocks]
  | cons a rest ih =>
    cases hcommits : a.commits c.busy with
    | true => simp [loop_commits t a id c rest hcommits, Blocks, hcommits]
    | false =>
      cases hreconnecting : c.reconnecting with
      | true => simp [loop_blocked t a id c rest hcommits hreconnecting, Blocks, hcommits]
      | false =>
        obtain ⟨c', hloop, _, hbusy, hsame⟩ := loop_goes_on t a id c rest hcommits hreconnecting
        rw [hloop, ih, hbusy, hsame]
        simp [Blocks, hcommits]

/-- A loop that ends with a commit has added the row of its id. -/
theorem loop_some_commits (h : SomeCommits c.busy attempts) (c' : Connection) (id' : Int64)
    (hloop : genTaskIdLoop t attempts id c = some (c', id')) :
    c'.rows = c.rows ++ [rowOf t id'] := by
  induction attempts generalizing id c with
  | nil => exact h.elim
  | cons a rest ih =>
    cases hcommits : a.commits c.busy with
    | true =>
      rw [loop_commits t a id c rest hcommits] at hloop
      obtain ⟨rfl, rfl⟩ := Prod.mk.inj (Option.some.inj hloop)
      rfl
    | false =>
      cases hreconnecting : c.reconnecting with
      | true =>
        rw [loop_blocked t a id c rest hcommits hreconnecting] at hloop
        contradiction
      | false =>
        obtain ⟨d, hnext, hrows, hbusy, _⟩ := loop_goes_on t a id c rest hcommits hreconnecting
        have hrest : SomeCommits d.busy rest := by
          rw [hbusy]
          rcases h with hthis | hrest
          · rw [hcommits] at hthis
            contradiction
          · exact hrest
        rw [hnext] at hloop
        rw [ih _ d hrest hloop, hrows]

/-- Without a commit the file stays as it is, and only a callback changes the id. -/
theorem loop_none_commits (h : ¬ SomeCommits c.busy attempts) (c' : Connection) (id' : Int64)
    (hloop : genTaskIdLoop t attempts id c = some (c', id')) :
    c'.rows = c.rows ∧ (NoneSelects c.busy attempts → id' = id) ∧
      (0 < id ∨ ¬ NoneSelects c.busy attempts → 0 < id') := by
  induction attempts generalizing id c with
  | nil =>
    obtain ⟨rfl, rfl⟩ := Prod.mk.inj (Option.some.inj hloop)
    simp [NoneSelects]
  | cons a rest ih =>
    rw [SomeCommits, not_or, Bool.not_eq_true] at h
    cases hreconnecting : c.reconnecting with
    | true =>
      rw [loop_blocked t a id c rest h.1 hreconnecting] at hloop
      contradiction
    | false =>
      obtain ⟨d, hnext, hrows, hbusy, _⟩ := loop_goes_on t a id c rest h.1 hreconnecting
      have hrest : ¬ SomeCommits d.busy rest := by
        rw [hbusy]
        exact h.2
      rw [hnext] at hloop
      obtain ⟨hsame, hnone, hpos⟩ := ih _ d hrest hloop
      rw [hbusy] at hnone hpos
      rw [NoneSelects]
      refine ⟨hsame.trans hrows, ?_, ?_⟩
      · intro hboth
        obtain ⟨hselects, hothers⟩ := hboth
        rw [hnone hothers, if_neg (by simp [hselects])]
      · intro hany
        apply hpos
        by_cases hselects : a.selects c.busy = true
        · rw [if_pos hselects]
          exact Or.inl a.rowid_pos
        · rw [if_neg hselects]
          rw [Bool.not_eq_true] at hselects
          rcases hany with hid | hnot
          · exact Or.inl hid
          · exact Or.inr (fun hothers => hnot ⟨hselects, hothers⟩)

end Loops

section Answers

variable (t : Task)

/-- What the callers see of the scripts. -/
def answers : List Attempt → Int64 → Connection → List (DbAnswer Int64)
  | [], _, _ => []
  | a :: rest, id, c =>
    let done := excute t a id c
    ⟨done.2, if a.selects c.busy then some a.rowid else none⟩ ::
      match reconnect a done.1.1 with
      | none => []
      | some c' => answers rest done.1.2 c'

/-- The loop over answers of the database sees the ids that the scripts store. -/
theorem loop_answers (attempts : List Attempt) (id : Int64) (c c' : Connection) (id' : Int64)
    (h : genTaskIdLoop t attempts id c = some (c', id')) :
    AgentAdds.genTaskIdLoop (answers t attempts id c) id = id' := by
  induction attempts generalizing id c with
  | nil =>
    obtain ⟨_, rfl⟩ := Prod.mk.inj (Option.some.inj h)
    rfl
  | cons a rest ih =>
    cases hcommits : a.commits c.busy with
    | true =>
      rw [loop_commits t a id c rest hcommits] at h
      obtain ⟨_, rfl⟩ := Prod.mk.inj (Option.some.inj h)
      have hpos := not_neg_of_pos a.rowid a.rowid_pos
      have hselects : a.selects c.busy = true := by
        simp only [Attempt.commits, Bool.and_eq_true] at hcommits
        exact hcommits.1
      simp [answers, AgentAdds.genTaskIdLoop, excute_commits t a id c hcommits, hselects, hpos]
    | false =>
      obtain ⟨d, hexcute, _⟩ := excute_fails t a id c hcommits
      cases hreconnect : reconnect a d with
      | none =>
        simp [genTaskIdLoop, hexcute, hreconnect] at h
      | some e =>
        have hrest : genTaskIdLoop t rest (if a.selects c.busy then a.rowid else id) e =
            some (c', id') := by
          simpa [genTaskIdLoop, hexcute, hreconnect] using h
        have hids := ih _ e hrest
        by_cases hselects : a.selects c.busy = true
        · simpa [answers, AgentAdds.genTaskIdLoop, hexcute, hreconnect, hselects] using hids
        · simpa [answers, AgentAdds.genTaskIdLoop, hexcute, hreconnect, hselects] using hids

end Answers

section Results

variable (t : Task) (env : ℕ → Attempt) (c : Connection)

def attempts : List Attempt := [env 0, env 1, env 2]

/-- An id is reported only for a row that is committed, exactly when a script commits, none
gets behind its callback, or the call never returns. -/
theorem row_committed_iff :
    (∀ done, genTaskId t env c = some done → done.2 = true →
        done.1.1.rows = c.rows ++ [rowOf t done.1.2]) ↔
      Blocks c.busy c.reconnecting (attempts env) ∨ SomeCommits c.busy (attempts env) ∨
        NoneSelects c.busy (attempts env) := by
  cases hloop : genTaskIdLoop t (attempts env) (-1) c with
  | none =>
    have hnone : genTaskId t env c = none := by
      unfold genTaskId
      rw [show [env 0, env 1, env 2] = attempts env from rfl, hloop, Option.map_none]
    rw [hnone]
    exact iff_of_true nofun (Or.inl ((loop_none_iff t (-1) c (attempts env)).mp hloop))
  | some result =>
    obtain ⟨c', id'⟩ := result
    have hsome : genTaskId t env c = some ((c', id'), decide (0 ≤ id')) := by
      unfold genTaskId
      rw [show [env 0, env 1, env 2] = attempts env from rfl, hloop, Option.map_some]
    have hreturns : ¬ Blocks c.busy c.reconnecting (attempts env) := by
      rw [← loop_none_iff t (-1), hloop]
      exact Option.some_ne_none _
    rw [hsome]
    simp only [Option.some.injEq, forall_eq', decide_eq_true_eq, hreturns, false_or]
    by_cases hcommits : SomeCommits c.busy (attempts env)
    · have hrows := loop_some_commits t (-1) c (attempts env) hcommits c' id' hloop
      exact iff_of_true (fun _ => hrows) (Or.inl hcommits)
    · obtain ⟨hrows, hnone, hpos⟩ :=
        loop_none_commits t (-1) c (attempts env) hcommits c' id' hloop
      rw [hrows]
      constructor
      · intro h
        right
        by_contra hselects
        have hnew := h (Int64.le_of_lt (hpos (Or.inr hselects)))
        simp at hnew
      · intro hcase hle
        rcases hcase with hin | hsilent
        · exact absurd hin hcommits
        · rw [hnone hsilent] at hle
          exact absurd hle (by decide)

end Results

section Samples

/-- The first commit finds the file locked, and so do the scripts after it. -/
def lockedCommit : ℕ → Attempt
  | 0 => ⟨fun statement => decide (statement = .commit), 7, by decide, false, true⟩
  | _ => ⟨fun _ => true, 8, by decide, false, true⟩

def emptyFile : Connection := ⟨[], none, 0, false⟩

theorem uncommitted_row_reported :
    ¬ ∀ (t : Task) (env : ℕ → Attempt) (c : Connection) done, genTaskId t env c = some done →
      done.2 = true → ∃ row ∈ done.1.1.rows, row.id = done.1.2 := by
  intro hall
  obtain ⟨row, hmem, _⟩ := hall {} lockedCommit emptyFile ((⟨[], none, 7, false⟩, 7), true)
    (by decide) rfl
  exact absurd hmem List.not_mem_nil

end Samples

end Gingko.TaskRows
