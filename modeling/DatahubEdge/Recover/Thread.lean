import DatahubEdge.Lib.Fold
import DatahubEdge.Sqlite

/-!
# The recovery thread, statement by statement

`recover_proc` publishes the rows of a snapshot it takes with
`sqlite3_get_table`, and after every publish runs the same query again with
`data_callback`, which deletes each row the query now yields.  `SendData`
inserts rows from other threads and the connection comes and goes, so the
thread is a program counter (`Pc`) and the run an arbitrary interleaving of
its statements with those of the others (`Action`).

The deletions of one `sqlite3_exec` are separate steps here: an insert or a
change of the connection may fall between two of them.
-/

namespace DatahubEdge.Recover

open DatahubEdge.Sqlite

/-- `rcov_limit`. -/
def rcovLimit : Nat := 10

/-- What the thread is about to do.  `result` holds the data rows of the last
`sqlite3_get_table` and `i` is the loop counter. -/
inductive Pc where
  /-- `while(option.DataRecover)`, `if(IsConnected)` -/
  | loopHead
  /-- after `nsleep`, before the query -/
  | asleep
  /-- `i < rows` -/
  | forHead (result : List Row) (i : Nat)
  /-- after `mosquitto_publish`, before `sqlite3_exec` -/
  | published (result : List Row) (i : Nat)
  /-- inside `sqlite3_exec`; `data_callback` has yet to see `pending` -/
  | deleting (result : List Row) (i : Nat) (pending : List Row)
  deriving DecidableEq, Repr

/-- What others can observe of a run.  A publish names the id of the table
row its payload was read from. -/
inductive Event where
  | published (id : Option Nat) (payload : CString) (rc : Int)
  | deleted (row : Row)
  deriving DecidableEq, Repr

structure State where
  table : Table
  isConnected : Bool
  pc : Pc
  log : List Event

/-- The next statement of `recover_proc`; `rc` is what `mosquitto_publish`
returns if that is the statement.  A failed publish is only reported. -/
def recoverProc (rc : Int) (s : State) : State :=
  match s.pc with
  | .loopHead => if s.isConnected then { s with pc := .asleep } else s
  | .asleep => { s with pc := .forHead (s.table.select rcovLimit) 0 }
  | .forHead result i =>
      if i < result.length then
        if cell result i = cstr "message" then
          { s with pc := .forHead result (i + 1) }
        else
          { s with
            pc := .published result i
            log := s.log ++ [.published (rowId result i) (cell result i) rc] }
      else { s with pc := .loopHead }
  | .published result i =>
      { s with pc := .deleting result i (s.table.select rcovLimit) }
  | .deleting result i [] => { s with pc := .forHead result (i + 1) }
  | .deleting result i (row :: pending) =>
      { s with
        table := s.table.delete row.id
        pc := .deleting result i pending
        log := s.log ++ [.deleted row] }

/-- A statement of some thread. -/
inductive Action where
  /-- `connect_callback` or `disconnect_callback` -/
  | connection (isConnected : Bool)
  /-- the offline branch of `SendData` -/
  | insert (message : CString)
  /-- the recovery thread -/
  | recover (rc : Int)
  deriving DecidableEq, Repr

def step (s : State) : Action → State
  | .connection b => { s with isConnected := b }
  | .insert m => { s with table := s.table.insert m }
  | .recover rc => recoverProc rc s

/-- A run is the fold of `step` over the actions, in the order they occur. -/
def run (s : State) (as : List Action) : State := as.foldl step s

/-- The thread is created before anything is published. -/
def start (t : Table) (isConnected : Bool) : State :=
  ⟨t, isConnected, .loopHead, []⟩

/-- The row ids handed to `mosquitto_publish`, in order. -/
def publishedIds (log : List Event) : List Nat :=
  log.filterMap fun
    | .published id _ _ => id
    | .deleted _ => none

/-- The payloads handed to `mosquitto_publish`, in order. -/
def publishedPayloads (log : List Event) : List CString :=
  log.filterMap fun
    | .published _ payload _ => some payload
    | .deleted _ => none

@[simp] theorem publishedIds_append (l l' : List Event) :
    publishedIds (l ++ l') = publishedIds l ++ publishedIds l' :=
  List.filterMap_append

@[simp] theorem publishedIds_deleted (row : Row) :
    publishedIds [.deleted row] = [] := rfl

theorem publishedIds_published_succ {result : List Row} {i : Nat} {r : Row}
    (h : result[i]? = some r) (m : CString) (rc : Int) :
    publishedIds [.published (rowId result (i + 1)) m rc] = [r.id] := by
  simp [publishedIds, rowId, h]

@[simp] theorem publishedPayloads_append (l l' : List Event) :
    publishedPayloads (l ++ l') =
      publishedPayloads l ++ publishedPayloads l' :=
  List.filterMap_append

@[simp] theorem publishedPayloads_deleted (row : Row) :
    publishedPayloads [.deleted row] = [] := rfl

@[simp] theorem publishedPayloads_published (id : Option Nat) (m : CString)
    (rc : Int) : publishedPayloads [.published id m rc] = [m] := rfl

/-- What the thread can do, one statement at a time.  At the loop head the
array row 0 is always skipped: it is the header. -/
theorem recoverProc_cases (rc : Int) (s : State) :
    (s.pc = .loopHead ∧ (recoverProc rc s = s ∨
      recoverProc rc s = { s with pc := .asleep })) ∨
    (s.pc = .asleep ∧ recoverProc rc s =
      { s with pc := .forHead (s.table.select rcovLimit) 0 }) ∨
    (∃ result i, s.pc = .forHead result i ∧
      (result.length ≤ i ∧ recoverProc rc s = { s with pc := .loopHead } ∨
       i < result.length ∧
        recoverProc rc s = { s with pc := .forHead result (i + 1) } ∨
       ∃ j row, i = j + 1 ∧ result[j]? = some row ∧ i < result.length ∧
        row.message ≠ cstr "message" ∧ recoverProc rc s =
          { s with
            pc := .published result i
            log := s.log ++
              [.published (rowId result i) row.message rc] })) ∨
    (∃ result i, s.pc = .published result i ∧ recoverProc rc s =
      { s with pc := .deleting result i (s.table.select rcovLimit) }) ∨
    (∃ result i, s.pc = .deleting result i [] ∧ recoverProc rc s =
      { s with pc := .forHead result (i + 1) }) ∨
    (∃ result i row pending, s.pc = .deleting result i (row :: pending) ∧
      recoverProc rc s =
        { s with
          table := s.table.delete row.id
          pc := .deleting result i pending
          log := s.log ++ [.deleted row] }) := by
  cases hpc : s.pc with
  | loopHead =>
      refine .inl ⟨rfl, ?_⟩
      simp only [recoverProc, hpc]
      split
      · exact .inr rfl
      · exact .inl rfl
  | asleep => exact .inr (.inl ⟨rfl, by simp only [recoverProc, hpc]⟩)
  | forHead result i =>
      refine .inr (.inr (.inl ⟨result, i, rfl, ?_⟩))
      simp only [recoverProc, hpc]
      by_cases hi : i < result.length
      · rw [if_pos hi]
        by_cases hm : cell result i = cstr "message"
        · exact .inr (.inl ⟨hi, if_pos hm⟩)
        · rw [if_neg hm]
          cases i with
          | zero =>
              have hne : result ≠ [] := List.ne_nil_of_length_pos hi
              exact absurd (cell_zero hne) hm
          | succ j =>
              have hj : result[j]? = some result[j] :=
                List.getElem?_eq_getElem (Nat.lt_of_succ_lt hi)
              rw [cell_succ hj] at hm ⊢
              exact .inr (.inr ⟨j, _, rfl, hj, hi, hm, rfl⟩)
      · rw [if_neg hi]
        exact .inl ⟨Nat.le_of_not_lt hi, rfl⟩
  | published result i =>
      exact .inr (.inr (.inr (.inl
        ⟨result, i, rfl, by simp only [recoverProc, hpc]⟩)))
  | deleting result i pending =>
      cases pending with
      | nil =>
          exact .inr (.inr (.inr (.inr (.inl
            ⟨result, i, rfl, by simp only [recoverProc, hpc]⟩))))
      | cons row pending =>
          exact .inr (.inr (.inr (.inr (.inr
            ⟨result, i, row, pending, rfl, by simp only [recoverProc, hpc]⟩))))

end DatahubEdge.Recover
