import DatahubEdge.Recover.Thread
import Mathlib.Data.List.Infix

/-!
# Stored rows leave in the order they came

The `archive` of a run is the table as it would be had nothing been deleted.
The deleted rows are always a beginning of it, oldest first, and the table is
the rest: the rows of a query come in id order and `data_callback` deletes the
first of them each time.  The published rows are a sublist of the archive: the
window a snapshot cuts out of it starts behind everything published before,
and after the first `sqlite3_exec` of a pass it lies in the deleted part, so
the next snapshot starts behind it.

## Main results

* `Accounts.recover`, `Accounts.insert` — what one step preserves.
* `stored_rows_in_order` — conservation and order, for every run.
-/

namespace DatahubEdge.Recover

open DatahubEdge.Sqlite
open DatahubEdge.Lib.Fold
open scoped List

/-- The table after an action of the others, without the recovery thread. -/
def archiveStep (t : Table) : Action → Table
  | .connection _ => t
  | .insert message => t.insert message
  | .recover _ => t

/-- The table a run would leave had nothing been deleted. -/
def archive (t : Table) (as : List Action) : Table := as.foldl archiveStep t

/-- The rows handed to `mosquitto_publish`, in order. -/
def publishedRows (log : List Event) : List Row :=
  log.filterMap fun
    | .published id payload _ => id.map fun id => ⟨id, payload⟩
    | .deleted _ => none

/-- The rows deleted, in order. -/
def deletedRows (log : List Event) : List Row :=
  log.filterMap fun
    | .published _ _ _ => none
    | .deleted row => some row

@[simp] theorem publishedRows_append (l l' : List Event) :
    publishedRows (l ++ l') = publishedRows l ++ publishedRows l' :=
  List.filterMap_append

@[simp] theorem deletedRows_append (l l' : List Event) :
    deletedRows (l ++ l') = deletedRows l ++ deletedRows l' :=
  List.filterMap_append

@[simp] theorem publishedRows_deleted (row : Row) :
    publishedRows [.deleted row] = [] := rfl

@[simp] theorem deletedRows_deleted (row : Row) :
    deletedRows [.deleted row] = [row] := rfl

@[simp] theorem deletedRows_published (id : Option Nat) (payload : CString)
    (rc : Int) : deletedRows [.published id payload rc] = [] := rfl

/-- What is published at array row `i + 1` is data row `i`. -/
theorem publishedRows_published_succ {result : List Row} {i : Nat} {row : Row}
    (h : result[i]? = some row) (rc : Int) :
    publishedRows [.published (rowId result (i + 1)) row.message rc] =
      [row] := by
  simp [publishedRows, rowId, h]

/-! ## The invariant -/

/-- A snapshot is a window of the archive, which starts at `first`. -/
structure Window (archived : List Row) (first : Nat) (result : List Row) :
    Prop where
  rows : result <+: archived.drop first
  limit : result.length ≤ rcovLimit

/-- Where the thread stands in the archive, the first `deleted` rows of which
are gone.  Before the first publish of a pass the window starts where the
table starts; after its first `sqlite3_exec` the window is gone. -/
def Cursor (archived : List Row) (deleted : Nat) (published : List Row) :
    Pc → Prop
  | .loopHead => published <+ archived.take deleted
  | .asleep => published <+ archived.take deleted
  | .forHead result i =>
      ∃ first, Window archived first result ∧ i ≤ result.length ∧
        (first = deleted ∧ published <+ archived.take first ∨
          first + result.length ≤ deleted ∧
            published <+ archived.take (first + (i - 1)))
  | .published result i =>
      ∃ first, Window archived first result ∧ i < result.length ∧
        (first = deleted ∨ first + result.length ≤ deleted) ∧
        published <+ archived.take (first + i)
  | .deleting result i pending =>
      ∃ first, Window archived first result ∧ i < result.length ∧
        pending <+: archived.drop deleted ∧
        first + result.length ≤ deleted + pending.length ∧
        published <+ archived.take (first + i)

/-- The archive, seen from the state a run has reached. -/
structure Accounts (archived : Table) (s : State) : Prop where
  seq : archived.seq = s.table.seq
  rows : archived.rows = deletedRows s.log ++ s.table.rows
  payloads : publishedPayloads s.log =
    (publishedRows s.log).map Row.message
  cursor : Cursor archived.rows (deletedRows s.log).length
    (publishedRows s.log) s.pc

theorem accounts_start (t : Table) (b : Bool) : Accounts t (start t b) where
  seq := rfl
  rows := rfl
  payloads := rfl
  cursor := List.nil_sublist _

section Step

variable {archived : Table} {s : State}

/-- The table is what is left of the archive. -/
theorem Accounts.drop (h : Accounts archived s) :
    archived.rows.drop (deletedRows s.log).length = s.table.rows := by
  rw [h.rows]
  exact List.drop_left

/-! ## Steps of the others -/

theorem Window.mono {rows rows' result : List Row} {first : Nat}
    (h : Window rows first result) (hrows : rows <+: rows') :
    Window rows' first result where
  rows := h.rows.trans (hrows.drop first)
  limit := h.limit

/-- An archive that grows keeps the cursor where it is. -/
theorem Cursor.mono {rows rows' published : List Row} {deleted : Nat} {pc : Pc}
    (h : Cursor rows deleted published pc) (hrows : rows <+: rows') :
    Cursor rows' deleted published pc := by
  have htake : ∀ n, published <+ rows.take n → published <+ rows'.take n := by
    intro n hn
    exact hn.trans (hrows.take n).sublist
  cases pc with
  | loopHead => exact htake _ h
  | asleep => exact htake _ h
  | forHead result i =>
      obtain ⟨first, hwindow, hi, ⟨hfirst, hsub⟩ | ⟨hgone, hsub⟩⟩ := h
      · exact ⟨first, hwindow.mono hrows, hi, .inl ⟨hfirst, htake _ hsub⟩⟩
      · exact ⟨first, hwindow.mono hrows, hi, .inr ⟨hgone, htake _ hsub⟩⟩
  | published result i =>
      obtain ⟨first, hwindow, hi, hwhere, hsub⟩ := h
      exact ⟨first, hwindow.mono hrows, hi, hwhere, htake _ hsub⟩
  | deleting result i pending =>
      obtain ⟨first, hwindow, hi, hpending, hgone, hsub⟩ := h
      exact ⟨first, hwindow.mono hrows, hi,
        hpending.trans (hrows.drop deleted), hgone, htake _ hsub⟩

theorem Accounts.insert (h : Accounts archived s) (message : CString) :
    Accounts (archived.insert message)
      { s with table := s.table.insert message } where
  seq := by
    rw [Table.insert_seq, Table.insert_seq, h.seq]
  rows := by
    rw [Table.insert_rows, Table.insert_rows, h.rows, h.seq,
      List.append_assoc]
  payloads := h.payloads
  cursor := h.cursor.mono (List.prefix_append _ _)

/-! ## Steps of the thread -/

/-- The next row of a window goes behind what was published before. -/
theorem Window.publish {rows result published : List Row} {first j : Nat}
    {row : Row} (h : Window rows first result) (hj : result[j]? = some row)
    (hsub : published <+ rows.take (first + j)) :
    published ++ [row] <+ rows.take (first + (j + 1)) := by
  obtain ⟨more, hmore⟩ := h.rows
  have hget : rows[first + j]? = some row := by
    have hlt : j < result.length := (List.getElem?_eq_some_iff.mp hj).1
    rw [← List.getElem?_drop, ← hmore, List.getElem?_append_left hlt]
    exact hj
  rw [← Nat.add_assoc, List.take_add_one, hget]
  exact hsub.append (List.Sublist.refl _)

/-- A new pass cuts its window at the beginning of the table. -/
theorem Accounts.select (h : Accounts archived s) (first : Nat)
    (hfirst : first = (deletedRows s.log).length) :
    Window archived.rows first (s.table.select rcovLimit) := by
  subst hfirst
  constructor
  · rw [h.drop]
    exact List.take_prefix _ _
  · exact List.length_take_le _ _

/-- The second query yields what is left of the window, at least. -/
theorem Accounts.second_select (h : Accounts archived s) {result : List Row}
    {i : Nat} (hpc : s.pc = .published result i) :
    Cursor archived.rows (deletedRows s.log).length (publishedRows s.log)
      (.deleting result i (s.table.select rcovLimit)) := by
  have hcursor := h.cursor
  rw [hpc] at hcursor
  obtain ⟨first, hwindow, hi, hwhere, hsub⟩ := hcursor
  refine ⟨first, hwindow, hi, ?_, ?_, hsub⟩
  · rw [h.drop]
    exact List.take_prefix _ _
  · rcases hwhere with hfirst | hgone
    · have hle := hwindow.rows.length_le
      rw [hfirst, h.drop] at hle
      have hlimit := hwindow.limit
      have hlength : (s.table.select rcovLimit).length =
          min rcovLimit s.table.rows.length := List.length_take
      omega
    · omega

theorem Accounts.delete (h : Accounts archived s) {result pending : List Row}
    {i : Nat} {row : Row} (hpc : s.pc = .deleting result i (row :: pending)) :
    Accounts archived
      { s with
        table := s.table.delete row.id
        pc := .deleting result i pending
        log := s.log ++ [.deleted row] } := by
  have hcursor := h.cursor
  rw [hpc] at hcursor
  obtain ⟨first, hwindow, hi, hpending, hgone, hsub⟩ := hcursor
  rw [h.drop] at hpending
  obtain ⟨rest, hrest⟩ := hpending
  have hrows : s.table.rows = row :: (pending ++ rest) := hrest.symm
  have hdelete : (s.table.delete row.id).rows = pending ++ rest :=
    Table.delete_head hrows
  have harchived : archived.rows =
      (deletedRows s.log ++ [row]) ++ (pending ++ rest) := by
    rw [h.rows, hrows, List.append_assoc, List.singleton_append]
  have hlength : (deletedRows s.log ++ [row]).length =
      (deletedRows s.log).length + 1 := List.length_append
  refine ⟨h.seq, ?_, ?_, first, hwindow, hi, ?_, ?_, ?_⟩
  · show archived.rows = deletedRows (s.log ++ [.deleted row]) ++
      (s.table.delete row.id).rows
    rw [deletedRows_append, deletedRows_deleted, hdelete]
    exact harchived
  · rw [publishedPayloads_append, publishedRows_append,
      publishedPayloads_deleted, publishedRows_deleted, List.append_nil,
      List.append_nil]
    exact h.payloads
  · rw [deletedRows_append, deletedRows_deleted, harchived, List.drop_left]
    exact List.prefix_append _ _
  · rw [deletedRows_append, deletedRows_deleted, hlength]
    rw [List.length_cons] at hgone
    omega
  · rw [publishedRows_append, publishedRows_deleted, List.append_nil]
    exact hsub

theorem Accounts.publish (h : Accounts archived s) {result : List Row}
    {j : Nat} {row : Row} (hpc : s.pc = .forHead result (j + 1))
    (hj : result[j]? = some row) (hlt : j + 1 < result.length) (rc : Int) :
    Accounts archived
      { s with
        pc := .published result (j + 1)
        log := s.log ++
          [.published (rowId result (j + 1)) row.message rc] } := by
  have hcursor := h.cursor
  rw [hpc] at hcursor
  obtain ⟨first, hwindow, _, hwhere⟩ := hcursor
  have hsub : publishedRows s.log <+ archived.rows.take (first + j) := by
    rcases hwhere with ⟨_, hsub⟩ | ⟨_, hsub⟩
    · exact hsub.trans (List.take_sublist_take_left (Nat.le_add_right first j))
    · exact hsub
  have hstart : first = (deletedRows s.log).length ∨
      first + result.length ≤ (deletedRows s.log).length := by
    rcases hwhere with ⟨hfirst, _⟩ | ⟨hgone, _⟩
    · exact .inl hfirst
    · exact .inr hgone
  have hpayload : publishedPayloads
      (s.log ++ [.published (rowId result (j + 1)) row.message rc]) =
      (publishedRows
        (s.log ++ [.published (rowId result (j + 1)) row.message rc])).map
        Row.message := by
    rw [publishedPayloads_append, publishedRows_append,
      publishedRows_published_succ hj, publishedPayloads_published,
      List.map_append, h.payloads]
    rfl
  refine ⟨h.seq, ?_, hpayload, first, hwindow, hlt, ?_, ?_⟩
  · rw [deletedRows_append, deletedRows_published, List.append_nil]
    exact h.rows
  · rw [deletedRows_append, deletedRows_published, List.append_nil]
    exact hstart
  · rw [publishedRows_append, publishedRows_published_succ hj]
    exact hwindow.publish hj hsub

/-- Another statement than a publish or a deletion moves the counter only. -/
theorem Accounts.goto (h : Accounts archived s) {pc : Pc}
    (hcursor : Cursor archived.rows (deletedRows s.log).length
      (publishedRows s.log) pc) : Accounts archived { s with pc := pc } :=
  ⟨h.seq, h.rows, h.payloads, hcursor⟩

theorem Accounts.recover (h : Accounts archived s) (rc : Int) :
    Accounts archived (recoverProc rc s) := by
  have hcursor := h.cursor
  rcases recoverProc_cases rc s with ⟨hpc, hs | hs⟩ | ⟨hpc, hs⟩ |
    ⟨result, i, hpc, hs⟩ | ⟨result, i, hpc, hs⟩ | ⟨result, i, hpc, hs⟩ |
    ⟨result, i, row, pending, hpc, hs⟩ <;> rw [hpc] at hcursor
  · rw [hs]
    exact h
  · rw [hs]
    exact h.goto hcursor
  · rw [hs]
    exact h.goto ⟨_, h.select _ rfl, Nat.zero_le _, .inl ⟨rfl, hcursor⟩⟩
  · obtain ⟨first, hwindow, hi, hwhere⟩ := hcursor
    rcases hs with ⟨_, hs⟩ | ⟨hlt, hs⟩ | ⟨j, row, rfl, hj, hlt, _, hs⟩
    · rw [hs]
      apply h.goto
      rcases hwhere with ⟨hfirst, hsub⟩ | ⟨hgone, hsub⟩
      · show publishedRows s.log <+ _
        rw [← hfirst]
        exact hsub
      · exact hsub.trans (List.take_sublist_take_left (by omega))
    · rw [hs]
      apply h.goto
      refine ⟨first, hwindow, hlt, ?_⟩
      rcases hwhere with hkept | ⟨hgone, hsub⟩
      · exact .inl hkept
      · exact .inr ⟨hgone,
          hsub.trans (List.take_sublist_take_left (by omega))⟩
    · rw [hs]
      exact h.publish hpc hj hlt rc
  · rw [hs]
    exact h.goto (h.second_select hpc)
  · obtain ⟨first, hwindow, hi, _, hgone, hsub⟩ := hcursor
    rw [hs]
    exact h.goto ⟨first, hwindow, hi, .inr ⟨hgone, hsub⟩⟩
  · rw [hs]
    exact h.delete hpc

end Step

/-! ## Runs -/

theorem accounts_step {archived : Table} {s : State} (h : Accounts archived s)
    (a : Action) : Accounts (archiveStep archived a) (step s a) := by
  cases a with
  | connection b => exact ⟨h.seq, h.rows, h.payloads, h.cursor⟩
  | insert message => exact h.insert message
  | recover rc => exact h.recover rc

theorem run_snoc (s : State) (as : List Action) (a : Action) :
    run s (as ++ [a]) = step (run s as) a :=
  List.foldl_append

theorem archive_snoc (t : Table) (as : List Action) (a : Action) :
    archive t (as ++ [a]) = archiveStep (archive t as) a :=
  List.foldl_append

theorem accounts_run (t : Table) (b : Bool) (as : List Action) :
    Accounts (archive t as) (run (start t b) as) := by
  refine foldl_invariant (P := fun pre s => Accounts (archive t pre) s) as
    (accounts_start t b) ?_
  intro pre s a _ h
  rw [archive_snoc]
  exact accounts_step h a

/-- What is published is in the archive, whatever the thread is about to do. -/
theorem Cursor.sublist {rows published : List Row} {deleted : Nat} {pc : Pc}
    (h : Cursor rows deleted published pc) : published <+ rows := by
  cases pc with
  | loopHead => exact h.trans (List.take_sublist _ _)
  | asleep => exact h.trans (List.take_sublist _ _)
  | forHead result i =>
      obtain ⟨_, _, _, ⟨_, hsub⟩ | ⟨_, hsub⟩⟩ := h
      · exact hsub.trans (List.take_sublist _ _)
      · exact hsub.trans (List.take_sublist _ _)
  | published result i =>
      obtain ⟨_, _, _, _, hsub⟩ := h
      exact hsub.trans (List.take_sublist _ _)
  | deleting result i pending =>
      obtain ⟨_, _, _, _, _, hsub⟩ := h
      exact hsub.trans (List.take_sublist _ _)

/-- The messages stored in a run. -/
def inserts (as : List Action) : List CString :=
  as.filterMap fun
    | .connection _ => none
    | .insert message => some message
    | .recover _ => none

theorem inserts_append (as as' : List Action) :
    inserts (as ++ as') = inserts as ++ inserts as' :=
  List.filterMap_append

/-- The archive holds what was there at the start and what was stored. -/
theorem archive_messages (t : Table) (as : List Action) :
    (archive t as).rows.map Row.message =
      t.rows.map Row.message ++ inserts as := by
  induction as using List.reverseRecOn with
  | nil => exact (List.append_nil _).symm
  | append_singleton as a ih =>
      rw [archive_snoc, inserts_append, ← List.append_assoc, ← ih]
      cases a with
      | connection b => exact (List.append_nil _).symm
      | insert message =>
          rw [archiveStep, Table.insert_rows, List.map_append]
          rfl
      | recover rc => exact (List.append_nil _).symm

/-- **Stored rows leave in the order they came.**  In every run, what was ever
in the table is what was deleted, oldest first, and then what still is in the
table; what was handed to `mosquitto_publish` is a part of it in the same
order, each row at most once; and between two passes everything handed over
has left the table. -/
theorem stored_rows_in_order (t : Table) (isConnected : Bool)
    (as : List Action) :
    let s := run (start t isConnected) as
    (archive t as).rows = deletedRows s.log ++ s.table.rows ∧
      publishedRows s.log <+ (archive t as).rows ∧
      publishedPayloads s.log = (publishedRows s.log).map Row.message ∧
      (s.pc = .loopHead → publishedRows s.log <+ deletedRows s.log) := by
  have h := accounts_run t isConnected as
  have hcursor := h.cursor
  refine ⟨h.rows, hcursor.sublist, h.payloads, ?_⟩
  intro hpc
  rw [hpc] at hcursor
  have htake : (archive t as).rows.take
      (deletedRows (run (start t isConnected) as).log).length =
      deletedRows (run (start t isConnected) as).log := by
    rw [h.rows]
    exact List.take_left
  rw [← htake]
  exact hcursor

end DatahubEdge.Recover
