import DatahubEdge.Recover.Delivery

/-!
# The backlog never drains into the broker

Left alone with a connection that stays up and publishes that all succeed,
the thread should empty the table by publishing every row once, in order.  It
never does, unless there is nothing to do: a pass over `r` rows publishes
`r - 1` of them at most and deletes all `r` with the first.  The number of
payloads published plus the number of rows left is a budget that no pass
raises, and that every pass which publishes at all lowers.
-/

namespace DatahubEdge.Recover

open DatahubEdge.Sqlite

/-- The table is empty, and its `n` rows were published in id order, each
once. -/
def Drained (t : Table) (s : State) : Prop :=
  s.table.rows = [] ∧
    publishedPayloads s.log = t.rows.map Row.message

/-- Nothing has happened yet. -/
def Untouched (t : Table) (s : State) : Prop := s.log = [] ∧ s.table = t

/-- Payloads published so far. -/
def published (s : State) : Nat := (publishedPayloads s.log).length

/-- Between two passes the budget is the size of the table at the start, and
it has been touched only if something was published. -/
def Spent (t : Table) (s : State) : Prop :=
  Untouched t s ∨ published s + s.table.rows.length < t.rows.length

theorem Spent.le {t : Table} {s : State} (h : Spent t s) :
    published s + s.table.rows.length ≤ t.rows.length := by
  rcases h with ⟨hlog, rfl⟩ | h
  · simp [published, hlog, publishedPayloads]
  · omega

/-- The budget inside a pass.  Once the pass has published, every remaining
iteration may publish one payload more, and one row is lost for good. -/
def Budget (t : Table) (s : State) : Prop :=
  match s.pc with
  | .loopHead => Spent t s
  | .asleep => Spent t s
  | .forHead result i =>
      (result = s.table.select rcovLimit ∧ Spent t s) ∨
        i ≤ result.length ∧
          published s + s.table.rows.length + (result.length - i) <
            t.rows.length
  | .published result i =>
      1 ≤ i ∧ i < result.length ∧
        ((result = s.table.select rcovLimit ∧
            published s + s.table.rows.length ≤ t.rows.length + 1) ∨
          published s + s.table.rows.length + (result.length - i) ≤
            t.rows.length)
  | .deleting result i pending =>
      i < result.length ∧ ∃ rest, s.table.rows = pending ++ rest ∧
        published s + rest.length + (result.length - (i + 1)) < t.rows.length

/-- The rows a query leaves out. -/
private theorem rows_eq_select_append (t : Table) :
    t.rows = t.select rcovLimit ++ t.rows.drop rcovLimit :=
  (List.take_append_drop _ _).symm

theorem published_log (s : State) (table : Table) (pc : Pc)
    (e : List Event) :
    published ⟨table, s.isConnected, pc, s.log ++ e⟩ =
      published s + (publishedPayloads e).length := by
  simp [published]

theorem Budget.recover {t : Table} {s : State} (h : Budget t s) (rc : Int) :
    Budget t (recoverProc rc s) := by
  have h' := h
  rw [Budget] at h'
  rcases recoverProc_cases rc s with ⟨hpc, hs | hs⟩ | ⟨hpc, hs⟩ |
    ⟨result, i, hpc, hs⟩ | ⟨result, i, hpc, hs⟩ | ⟨result, i, hpc, hs⟩ |
    ⟨result, i, row, pending, hpc, hs⟩ <;> rw [hpc] at h'
  · rw [hs]
    exact h
  · rw [hs]
    exact h'
  · rw [hs]
    exact .inl ⟨rfl, h'⟩
  · rcases hs with ⟨hle, hs⟩ | ⟨hlt, hs⟩ | ⟨j, row, rfl, hj, hlt, _, hs⟩ <;>
      rw [hs]
    · rcases h' with ⟨_, hsp⟩ | ⟨_, hb⟩
      · exact hsp
      · refine .inr ?_
        show published s + s.table.rows.length < _
        omega
    · rcases h' with hsp | ⟨_, hb⟩
      · exact .inl hsp
      · refine .inr ⟨hlt, ?_⟩
        show published s + s.table.rows.length + _ < _
        omega
    · refine ⟨Nat.le_add_left 1 j, hlt, ?_⟩
      rw [published_log]
      show (_ ∧ published s + 1 + s.table.rows.length ≤ _) ∨
        published s + 1 + s.table.rows.length + _ ≤ _
      rcases h' with ⟨hres, hsp⟩ | ⟨_, hb⟩
      · have := hsp.le
        exact .inl ⟨hres, by omega⟩
      · exact .inr (by omega)
  · -- the pass has published: its query yields the whole snapshot at least
    obtain ⟨hi, hlt, hb⟩ := h'
    rw [hs]
    refine ⟨hlt, _, rows_eq_select_append s.table, ?_⟩
    have hlen := congrArg List.length (rows_eq_select_append s.table)
    rw [List.length_append] at hlen
    show published s + _ + _ < _
    rcases hb with ⟨rfl, hb⟩ | hb
    · omega
    · omega
  · obtain ⟨hlt, rest, hrows, hb⟩ := h'
    rw [hs]
    refine .inr ⟨hlt, ?_⟩
    show published s + s.table.rows.length + _ < _
    rw [hrows]
    exact hb
  · obtain ⟨hlt, rest, hrows, hb⟩ := h'
    rw [hs]
    refine ⟨hlt, rest, Table.delete_head hrows, ?_⟩
    rw [published_log]
    exact hb

theorem budget_recoverN (t : Table) (n : Nat) :
    Budget t (recoverN n (start t true)) := by
  have hstart : Spent t (start t true) := .inl ⟨rfl, rfl⟩
  refine Lib.Fold.foldl_invariant (P := fun _ s => Budget t s)
    (List.replicate n (Action.recover 0)) hstart ?_
  intro pre s a hv h
  obtain ⟨post, hsplit⟩ := hv.split
  have ha : a = .recover 0 :=
    List.eq_of_mem_replicate (n := n) (by rw [hsplit]; simp)
  rw [ha]
  exact h.recover 0

/-- A table with a row in it is never drained. -/
theorem not_drained {t : Table} (ht : t.rows ≠ []) {n : Nat}
    (hpc : (recoverN n (start t true)).pc = .loopHead) :
    ¬ Drained t (recoverN n (start t true)) := by
  rintro ⟨hrows, hpub⟩
  have hb := budget_recoverN t n
  rw [Budget, hpc] at hb
  rcases hb with ⟨_, htab⟩ | hlt
  · rw [htab] at hrows
    exact ht hrows
  · have hlen := congrArg List.length hpub
    rw [List.length_map] at hlen
    rw [published, hrows, hlen] at hlt
    simp at hlt

/-- **The backlog drains completely and in order only if it is empty.**  A
number of passes is a number of statements after which the thread is back at
its loop head. -/
theorem drained_iff (t : Table) :
    (∃ n, (recoverN n (start t true)).pc = .loopHead ∧
        Drained t (recoverN n (start t true))) ↔
      t.rows = [] := by
  constructor
  · rintro ⟨n, hpc, hd⟩
    by_contra ht
    exact not_drained ht hpc hd
  · intro ht
    exact ⟨0, rfl, ht, by simp [ht, recoverN, run, start, publishedPayloads]⟩

/-- A single stored row is never published, however many passes are made. -/
theorem not_drained_one_row :
    ¬ ∃ n, (recoverN n (start (Table.empty.insert (cstr "a")) true)).pc =
          .loopHead ∧
        Drained (Table.empty.insert (cstr "a"))
          (recoverN n (start (Table.empty.insert (cstr "a")) true)) := by
  rintro ⟨n, hpc, hd⟩
  exact not_drained (by simp) hpc hd

end DatahubEdge.Recover
