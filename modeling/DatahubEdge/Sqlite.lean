import DatahubEdge.CString

/-!
# The recovery table and the statements run on it

`recover.db3` holds one table, `Data (id INTEGER PRIMARY KEY AUTOINCREMENT,
message TEXT)`.  A `Table` carries what `AUTOINCREMENT` guarantees as fields:
the rows are in strictly increasing id order, and no id exceeds the counter
`seq` that SQLite keeps, so a new row always comes last.

`getTable` is the array `sqlite3_get_table` builds: one header row of column
names, then the data rows, flattened; the row count it returns leaves the
header out.
-/

namespace DatahubEdge.Sqlite

structure Row where
  id : Nat
  message : CString
  deriving DecidableEq, Repr

structure Table where
  rows : List Row
  seq : Nat
  sorted : rows.Pairwise fun r r' => r.id < r'.id
  le_seq : ∀ r ∈ rows, r.id ≤ seq

/-- The ids in use. -/
def Table.ids (t : Table) : List Nat := t.rows.map Row.id

def Table.empty : Table := ⟨[], 0, .nil, by simp⟩

/-- `INSERT INTO Data (message) VALUES(message)`. -/
def Table.insert (t : Table) (message : CString) : Table where
  rows := t.rows ++ [⟨t.seq + 1, message⟩]
  seq := t.seq + 1
  sorted := by
    rw [List.pairwise_append]
    refine ⟨t.sorted, List.pairwise_singleton _ _, ?_⟩
    intro r hr r' hr'
    have hle := t.le_seq r hr
    rw [List.mem_singleton.mp hr']
    exact Nat.lt_succ_of_le hle
  le_seq := by
    intro r hr
    rcases List.mem_append.mp hr with hr | hr
    · exact Nat.le_succ_of_le (t.le_seq r hr)
    · exact Nat.le_of_eq (congrArg Row.id (List.mem_singleton.mp hr))

/-- `DELETE FROM Data WHERE id IN (id)`. -/
def Table.delete (t : Table) (id : Nat) : Table where
  rows := t.rows.filter fun r => r.id != id
  seq := t.seq
  sorted := t.sorted.filter _
  le_seq := fun r hr => t.le_seq r (List.mem_of_mem_filter hr)

/-- `SELECT * FROM Data LIMIT limit`. -/
def Table.select (t : Table) (limit : Nat) : List Row := t.rows.take limit

@[simp] theorem Table.insert_rows (t : Table) (m : CString) :
    (t.insert m).rows = t.rows ++ [⟨t.seq + 1, m⟩] := rfl

@[simp] theorem Table.insert_seq (t : Table) (m : CString) :
    (t.insert m).seq = t.seq + 1 := rfl

@[simp] theorem Table.delete_seq (t : Table) (id : Nat) :
    (t.delete id).seq = t.seq := rfl

theorem Table.mem_delete (t : Table) (id : Nat) (r : Row) :
    r ∈ (t.delete id).rows ↔ r ∈ t.rows ∧ r.id ≠ id := by
  simp [Table.delete]

theorem Table.mem_delete_ids (t : Table) (id i : Nat) :
    i ∈ (t.delete id).ids ↔ i ∈ t.ids ∧ i ≠ id := by
  simp only [Table.ids, List.mem_map, Table.mem_delete]
  constructor
  · rintro ⟨r, ⟨hr, hne⟩, rfl⟩
    exact ⟨⟨r, hr, rfl⟩, hne⟩
  · rintro ⟨⟨r, hr, rfl⟩, hne⟩
    exact ⟨r, ⟨hr, hne⟩, rfl⟩

theorem Table.mem_insert_ids (t : Table) (m : CString) (i : Nat) :
    i ∈ (t.insert m).ids ↔ i ∈ t.ids ∨ i = t.seq + 1 := by
  simp [Table.ids]

/-- Deleting the first row leaves the others. -/
theorem Table.delete_head {t : Table} {r : Row} {rs : List Row}
    (h : t.rows = r :: rs) : (t.delete r.id).rows = rs := by
  have hs := t.sorted
  rw [h, List.pairwise_cons] at hs
  have hrs : ∀ r' ∈ rs, (r'.id != r.id) = true := by
    intro r' hr'
    have := hs.1 r' hr'
    simp only [bne_iff_ne, ne_eq]
    omega
  show t.rows.filter _ = rs
  rw [h, List.filter_cons_of_neg (by simp), List.filter_eq_self.mpr hrs]

/-! ## `sqlite3_get_table` -/

/-- The strings `sqlite3_get_table` returns for a result set. -/
def getTable (result : List Row) : List CString :=
  if result = [] then []
  else cstr "id" :: cstr "message" ::
    result.flatMap fun r => [printNat r.id, r.message]

/-- The column count it returns: no columns are named without a row. -/
def cols (result : List Row) : Nat := if result = [] then 0 else 2

/-- `result[i*cols+1]`. -/
def cell (result : List Row) (i : Nat) : CString :=
  ((getTable result)[i * cols result + 1]?).getD []

/-- The id of the table row that `result[i*cols+1]` was read from, none for
the header. -/
def rowId (result : List Row) : Nat → Option Nat
  | 0 => none
  | i + 1 => (result[i]?).map Row.id

private theorem flatMap_cells_get (l : List Row) (i : Nat) :
    (l.flatMap fun r => [printNat r.id, r.message])[i * 2 + 1]? =
      (l[i]?).map Row.message := by
  induction l generalizing i with
  | nil => simp
  | cons r l ih =>
      cases i with
      | zero => simp
      | succ i =>
          have hi : (i + 1) * 2 + 1 = (i * 2 + 1) + 1 + 1 := by omega
          simp only [List.flatMap_cons, List.cons_append, List.nil_append, hi,
            List.getElem?_cons_succ]
          exact ih i

/-- Row 0 of the array is the header. -/
theorem cell_zero {result : List Row} (h : result ≠ []) :
    cell result 0 = cstr "message" := by
  simp [cell, getTable, h]

/-- Row `i + 1` of the array is data row `i`. -/
theorem cell_succ {result : List Row} {i : Nat} {r : Row}
    (h : result[i]? = some r) : cell result (i + 1) = r.message := by
  have hne : result ≠ [] := by
    rintro rfl
    cases h
  have hi : (i + 1) * 2 + 1 = (i * 2 + 1) + 1 + 1 := by omega
  simp only [cell, getTable, cols, if_neg hne, hi, List.getElem?_cons_succ,
    flatMap_cells_get, h]
  rfl

end DatahubEdge.Sqlite
