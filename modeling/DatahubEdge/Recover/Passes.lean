import DatahubEdge.Recover.InOrder

/-!
# What the thread does with a backlog

Left alone while the connection is up, the thread is deterministic: what
`mosquitto_publish` returns goes into the log and changes nothing else.
`passes` says which rows of a table it hands over and which it leaves.  A pass
over a query of `r` rows hands over all but the last (and but those that read
like the header), and each of these publishes deletes ten rows.

## Main results

* `pass` — one turn of the outer loop.
* `drains` — the thread ends up with what `passes` says, which is nine of every
  ninety rows, and stays there.
-/

namespace DatahubEdge.Recover

open DatahubEdge.Sqlite
open DatahubEdge.Lib.Fold

/-- The rows a pass hands over. -/
def handed (rows : List Row) : List Row :=
  (rows.take rcovLimit).dropLast.filter fun row => row.message ≠ cstr "message"

theorem length_handed_le (rows : List Row) :
    (handed rows).length ≤ min rcovLimit rows.length - 1 := by
  have hle : (handed rows).length ≤
      (rows.take rcovLimit).dropLast.length := List.length_filter_le _ _
  rw [List.length_dropLast, List.length_take] at hle
  exact hle

/-- The rows that are handed over, and those left in the table, once a pass
hands over nothing. -/
def passes (rows : List Row) : List Row × List Row :=
  if handed rows = [] then ([], rows)
  else
    let rest := passes (rows.drop (rcovLimit * (handed rows).length))
    (handed rows ++ rest.1, rest.2)
termination_by rows.length
decreasing_by
  have hpos : 0 < (handed rows).length := List.length_pos_iff.mpr ‹_›
  have hle := length_handed_le rows
  rw [rcovLimit] at hle
  rw [List.length_drop, rcovLimit]
  omega

/-! ## Statements of the thread alone -/

/-- What is left of a state without the results of the publishes. -/
structure View where
  rows : List Row
  pc : Pc
  published : List Row

/-- The statements of the thread alone, with what `mosquitto_publish` returns
at each of them. -/
def alone (rcs : List Int) (s : State) : State := run s (rcs.map .recover)

/-- A state with a connection that looks like `v`. -/
structure Looks (v : View) (s : State) : Prop where
  connected : s.isConnected = true
  rows : s.table.rows = v.rows
  pc : s.pc = v.pc
  published : publishedRows s.log = v.published

/-- From what looks like `v` the thread gets to what looks like `v'` in `n`
statements. -/
def Leads (n : Nat) (v v' : View) : Prop :=
  ∀ s, Looks v s → ∀ rcs : List Int, rcs.length = n → Looks v' (alone rcs s)

theorem alone_append (rcs rcs' : List Int) (s : State) :
    alone (rcs ++ rcs') s = alone rcs' (alone rcs s) := by
  rw [alone, List.map_append]
  exact List.foldl_append

theorem Leads.trans {m n : Nat} {v v' v'' : View} (h : Leads m v v')
    (h' : Leads n v' v'') : Leads (m + n) v v'' := by
  intro s hs rcs hlength
  have hfirst : (rcs.take m).length = m := by
    rw [List.length_take]
    omega
  have hsecond : (rcs.drop m).length = n := by
    rw [List.length_drop]
    omega
  rw [← List.take_append_drop m rcs, alone_append]
  exact h' _ (h s hs _ hfirst) _ hsecond

/-- One statement. -/
theorem leads_one {v v' : View}
    (h : ∀ s rc, Looks v s → Looks v' (recoverProc rc s)) : Leads 1 v v' := by
  intro s hs rcs hlength
  obtain ⟨rc, rfl⟩ := List.length_eq_one_iff.mp hlength
  exact h s rc hs

section Statements

variable {rows published result : List Row} {i j : Nat}

theorem leads_loopHead :
    Leads 1 ⟨rows, .loopHead, published⟩ ⟨rows, .asleep, published⟩ := by
  apply leads_one
  rintro s rc ⟨hconnected, hrows, hpc, hpublished⟩
  rw [recoverProc, hpc]
  dsimp only
  rw [if_pos hconnected]
  exact ⟨hconnected, hrows, rfl, hpublished⟩

theorem leads_asleep :
    Leads 1 ⟨rows, .asleep, published⟩
      ⟨rows, .forHead (rows.take rcovLimit) 0, published⟩ := by
  apply leads_one
  rintro s rc ⟨hconnected, hrows, hpc, hpublished⟩
  rw [recoverProc, hpc]
  refine ⟨hconnected, hrows, ?_, hpublished⟩
  show Pc.forHead (s.table.rows.take rcovLimit) 0 = _
  rw [hrows]

theorem leads_exit (hi : result.length ≤ i) :
    Leads 1 ⟨rows, .forHead result i, published⟩
      ⟨rows, .loopHead, published⟩ := by
  apply leads_one
  rintro s rc ⟨hconnected, hrows, hpc, hpublished⟩
  rw [recoverProc, hpc]
  dsimp only
  rw [if_neg (Nat.not_lt.mpr hi)]
  exact ⟨hconnected, hrows, rfl, hpublished⟩

theorem leads_skip (hi : i < result.length)
    (hcell : cell result i = cstr "message") :
    Leads 1 ⟨rows, .forHead result i, published⟩
      ⟨rows, .forHead result (i + 1), published⟩ := by
  apply leads_one
  rintro s rc ⟨hconnected, hrows, hpc, hpublished⟩
  rw [recoverProc, hpc]
  dsimp only
  rw [if_pos hi, if_pos hcell]
  exact ⟨hconnected, hrows, rfl, hpublished⟩

theorem leads_publish {row : Row} (hi : j + 1 < result.length)
    (hrow : result[j]? = some row) (hne : row.message ≠ cstr "message") :
    Leads 1 ⟨rows, .forHead result (j + 1), published⟩
      ⟨rows, .published result (j + 1), published ++ [row]⟩ := by
  apply leads_one
  rintro s rc ⟨hconnected, hrows, hpc, hpublished⟩
  rw [recoverProc, hpc]
  dsimp only
  rw [if_pos hi, cell_succ hrow, if_neg hne]
  refine ⟨hconnected, hrows, rfl, ?_⟩
  show publishedRows (s.log ++ _) = _
  rw [publishedRows_append, publishedRows_published_succ hrow, hpublished]

theorem leads_select :
    Leads 1 ⟨rows, .published result i, published⟩
      ⟨rows, .deleting result i (rows.take rcovLimit), published⟩ := by
  apply leads_one
  rintro s rc ⟨hconnected, hrows, hpc, hpublished⟩
  rw [recoverProc, hpc]
  refine ⟨hconnected, hrows, ?_, hpublished⟩
  show Pc.deleting result i (s.table.rows.take rcovLimit) = _
  rw [hrows]

/-- `data_callback` deletes the rows the query yields. -/
theorem leads_deleting (pending rest : List Row) :
    Leads (pending.length + 1)
      ⟨pending ++ rest, .deleting result i pending, published⟩
      ⟨rest, .forHead result (i + 1), published⟩ := by
  induction pending with
  | nil =>
      apply leads_one
      rintro s rc ⟨hconnected, hrows, hpc, hpublished⟩
      rw [recoverProc, hpc]
      exact ⟨hconnected, hrows, rfl, hpublished⟩
  | cons row pending ih =>
      have hdelete : Leads 1
          ⟨row :: (pending ++ rest), .deleting result i (row :: pending),
            published⟩
          ⟨pending ++ rest, .deleting result i pending, published⟩ := by
        apply leads_one
        rintro s rc ⟨hconnected, hrows, hpc, hpublished⟩
        rw [recoverProc, hpc]
        refine ⟨hconnected, Table.delete_head hrows, rfl, ?_⟩
        show publishedRows (s.log ++ _) = _
        rw [publishedRows_append, publishedRows_deleted, List.append_nil]
        exact hpublished
      have hall := hdelete.trans ih
      rw [Nat.add_comm] at hall
      exact hall

/-- A publish costs ten rows. -/
theorem leads_exec :
    ∃ n, Leads n ⟨rows, .published result i, published⟩
      ⟨rows.drop rcovLimit, .forHead result (i + 1), published⟩ := by
  have hdelete : Leads ((rows.take rcovLimit).length + 1)
      ⟨rows.take rcovLimit ++ rows.drop rcovLimit,
        .deleting result i (rows.take rcovLimit), published⟩
      ⟨rows.drop rcovLimit, .forHead result (i + 1), published⟩ :=
    leads_deleting _ _
  rw [List.take_append_drop] at hdelete
  exact ⟨_, leads_select.trans hdelete⟩

end Statements

/-! ## Passes -/

/-- The inner loop from array row `j + 1` on.  By induction on the rows it
will still look at. -/
theorem inner_loop {result : List Row} (todo : List Row) :
    ∀ {rows published : List Row} {j : Nat},
      result.dropLast.drop j = todo → j + 1 ≤ result.length →
      ∃ n, Leads n ⟨rows, .forHead result (j + 1), published⟩
        ⟨rows.drop (rcovLimit * (todo.filter fun row =>
            row.message ≠ cstr "message").length), .loopHead,
          published ++ todo.filter fun row =>
            row.message ≠ cstr "message"⟩ := by
  induction todo with
  | nil =>
      intro rows published j htodo hj
      have hend : result.length ≤ j + 1 := by
        have hlength := congrArg List.length htodo
        rw [List.length_drop, List.length_dropLast, List.length_nil] at hlength
        omega
      refine ⟨1, ?_⟩
      rw [List.filter_nil, List.length_nil, Nat.mul_zero, List.drop_zero,
        List.append_nil]
      exact leads_exit hend
  | cons row todo ih =>
      intro rows published j htodo hj
      have hget : result.dropLast[j]? = some row := by
        rw [← List.head?_drop, htodo]
        rfl
      rw [List.getElem?_dropLast] at hget
      have hlt : j < result.length - 1 := by
        by_contra hge
        rw [if_neg hge] at hget
        cases hget
      rw [if_pos hlt] at hget
      have hrest : result.dropLast.drop (j + 1) = todo := by
        rw [← List.drop_drop, htodo]
        rfl
      have hi : j + 1 < result.length := by omega
      by_cases hrow : row.message = cstr "message"
      · have hcell : cell result (j + 1) = cstr "message" := by
          rw [cell_succ hget, hrow]
        obtain ⟨n, hn⟩ := @ih rows published (j + 1) hrest hi
        refine ⟨1 + n, ?_⟩
        rw [List.filter_cons_of_neg (by simp [hrow])]
        exact (leads_skip hi hcell).trans hn
      · obtain ⟨m, hm⟩ := @leads_exec rows (published ++ [row]) result (j + 1)
        obtain ⟨n, hn⟩ := @ih (rows.drop rcovLimit) (published ++ [row]) (j + 1)
          hrest hi
        refine ⟨1 + (m + n), ?_⟩
        rw [List.filter_cons_of_pos (by simp [hrow]), List.length_cons,
          Nat.mul_succ, Nat.add_comm (rcovLimit * _), ← List.drop_drop]
        rw [List.append_assoc, List.singleton_append] at hn
        exact (leads_publish hi hget hrow).trans (hm.trans hn)

/-- A pass hands over what `handed` says, and deletes ten rows for each of
these. -/
theorem pass (rows published : List Row) :
    ∃ n, Leads n ⟨rows, .loopHead, published⟩
      ⟨rows.drop (rcovLimit * (handed rows).length), .loopHead,
        published ++ handed rows⟩ := by
  have hquery : Leads 2 ⟨rows, .loopHead, published⟩
      ⟨rows, .forHead (rows.take rcovLimit) 0, published⟩ :=
    leads_loopHead.trans leads_asleep
  by_cases hempty : rows.take rcovLimit = []
  · have hhanded : handed rows = [] := by
      rw [handed, hempty]
      rfl
    refine ⟨2 + 1, hquery.trans ?_⟩
    rw [hhanded, List.length_nil, Nat.mul_zero, List.drop_zero,
      List.append_nil]
    apply leads_exit
    rw [hempty]
    exact Nat.le_refl 0
  · have hlength : 0 < (rows.take rcovLimit).length :=
      List.length_pos_iff.mpr hempty
    obtain ⟨n, hn⟩ := @inner_loop (rows.take rcovLimit) _ rows published 0
      List.drop_zero hlength
    exact ⟨2 + (1 + n), hquery.trans
      ((leads_skip hlength (cell_zero hempty)).trans hn)⟩

theorem all_passes (rows published : List Row) :
    ∃ n, Leads n ⟨rows, .loopHead, published⟩
      ⟨(passes rows).2, .loopHead, published ++ (passes rows).1⟩ := by
  induction rows using passes.induct generalizing published with
  | case1 rows hnone =>
      refine ⟨0, ?_⟩
      rw [passes, if_pos hnone, List.append_nil]
      intro s hs rcs hlength
      rw [List.length_eq_zero_iff.mp hlength]
      exact hs
  | case2 rows hsome ih =>
      obtain ⟨m, hm⟩ := pass rows published
      obtain ⟨n, hn⟩ := ih (published ++ handed rows)
      rw [passes, if_neg hsome]
      rw [List.append_assoc] at hn
      exact ⟨m + n, hm.trans hn⟩

/-! ## Nothing more to hand over -/

/-- In the rows that are left a pass finds nothing to hand over. -/
theorem handed_passes (rows : List Row) : handed (passes rows).2 = [] := by
  induction rows using passes.induct with
  | case1 rows hnone =>
      rw [passes, if_pos hnone]
      exact hnone
  | case2 rows hsome ih =>
      rw [passes, if_neg hsome]
      exact ih

/-- The thread looks for something to hand over, and finds nothing. -/
def Searching (rows : List Row) : Pc → Prop
  | .loopHead => True
  | .asleep => True
  | .forHead result _ => result = rows.take rcovLimit
  | .published _ _ => False
  | .deleting _ _ _ => False

/-- With nothing to hand over the thread goes on searching. -/
theorem Searching.recover {rows published : List Row} {pc : Pc} {s : State}
    (hnone : handed rows = []) (hpc : Searching rows pc)
    (h : Looks ⟨rows, pc, published⟩ s) (rc : Int) :
    ∃ pc', Searching rows pc' ∧
      Looks ⟨rows, pc', published⟩ (recoverProc rc s) := by
  obtain ⟨hconnected, hrows, hspc, hpublished⟩ := id h
  dsimp only at hspc
  rcases recoverProc_cases rc s with ⟨_, hs | hs⟩ | ⟨_, hs⟩ |
    ⟨result, i, hpc', hs⟩ | ⟨result, i, hpc', _⟩ | ⟨result, i, hpc', _⟩ |
    ⟨result, i, row, pending, hpc', _⟩
  · rw [hs]
    exact ⟨pc, hpc, h⟩
  · rw [hs]
    exact ⟨.asleep, trivial, hconnected, hrows, rfl, hpublished⟩
  · rw [hs]
    refine ⟨.forHead (s.table.select rcovLimit) 0, ?_, hconnected, hrows, rfl,
      hpublished⟩
    show s.table.rows.take rcovLimit = _
    rw [hrows]
  · rw [← hspc, hpc'] at hpc
    have hresult : result = rows.take rcovLimit := hpc
    rcases hs with ⟨_, hs⟩ | ⟨_, hs⟩ | ⟨j, row, rfl, hj, hlt, hne, _⟩
    · rw [hs]
      exact ⟨.loopHead, trivial, hconnected, hrows, rfl, hpublished⟩
    · rw [hs]
      exact ⟨.forHead result (i + 1), hresult, hconnected, hrows, rfl,
        hpublished⟩
    · -- a row to hand over is one the filter keeps
      have hmem : row ∈ result.dropLast := by
        apply List.mem_iff_getElem?.mpr
        refine ⟨j, ?_⟩
        rw [List.getElem?_dropLast, if_pos (by omega)]
        exact hj
      have hin : row ∈ handed rows := by
        rw [handed, ← hresult, List.mem_filter]
        exact ⟨hmem, by simp [hne]⟩
      rw [hnone] at hin
      cases hin
  · rw [← hspc, hpc'] at hpc
    exact hpc.elim
  · rw [← hspc, hpc'] at hpc
    exact hpc.elim
  · rw [← hspc, hpc'] at hpc
    exact hpc.elim

theorem searching_alone {rows published : List Row}
    (hnone : handed rows = []) (rcs : List Int) :
    ∀ {pc : Pc} {s : State}, Searching rows pc →
      Looks ⟨rows, pc, published⟩ s →
      ∃ pc', Searching rows pc' ∧
        Looks ⟨rows, pc', published⟩ (alone rcs s) := by
  induction rcs with
  | nil =>
      intro pc s hpc h
      exact ⟨pc, hpc, h⟩
  | cons rc rcs ih =>
      intro pc s hpc h
      obtain ⟨pc', hpc', h'⟩ := Searching.recover hnone hpc h rc
      exact ih hpc' h'

/-! ## The whole backlog -/

theorem alone_passes (t : Table) :
    ∃ n, ∀ rcs : List Int, n ≤ rcs.length →
      publishedRows (alone rcs (start t true)).log = (passes t.rows).1 ∧
        (alone rcs (start t true)).table.rows = (passes t.rows).2 := by
  obtain ⟨n, hn⟩ := all_passes t.rows []
  refine ⟨n, ?_⟩
  intro rcs hlength
  have hstart : Looks ⟨t.rows, .loopHead, []⟩ (start t true) :=
    ⟨rfl, rfl, rfl, rfl⟩
  have hfirst : (rcs.take n).length = n := by
    rw [List.length_take]
    omega
  obtain ⟨_, _, hdone⟩ := searching_alone (handed_passes t.rows) (rcs.drop n)
    (show Searching (passes t.rows).2 .loopHead from trivial)
    (hn _ hstart _ hfirst)
  rw [← alone_append, List.take_append_drop] at hdone
  exact ⟨hdone.published, hdone.rows⟩

/-- Without rows that read like the header a pass hands over all rows of its
query but the last. -/
theorem length_handed {rows : List Row}
    (h : ∀ row ∈ rows, row.message ≠ cstr "message") :
    (handed rows).length = min rcovLimit rows.length - 1 := by
  have hkept : handed rows = (rows.take rcovLimit).dropLast := by
    apply List.filter_eq_self.mpr
    intro row hrow
    have hmem : row ∈ rows :=
      List.mem_of_mem_take (List.mem_of_mem_dropLast hrow)
    simpa using h row hmem
  rw [hkept, List.length_dropLast, List.length_take]

/-- Of ninety rows nine are handed over, and of fewer at most nine. -/
theorem length_passes {rows : List Row}
    (h : ∀ row ∈ rows, row.message ≠ cstr "message") :
    (passes rows).1.length =
        9 * (rows.length / 90) + min 9 (rows.length % 90 - 1) ∧
      (passes rows).2.length = if rows.length % 90 = 1 then 1 else 0 := by
  have hlimit : rcovLimit = 10 := rfl
  induction rows using passes.induct with
  | case1 rows hnone =>
      have hlength := length_handed h
      rw [hnone, List.length_nil, hlimit] at hlength
      rw [passes, if_pos hnone]
      show 0 = _ ∧ rows.length = _
      split
      · omega
      · omega
  | case2 rows hsome ih =>
      have hlength := length_handed h
      have hpos : 0 < (handed rows).length := List.length_pos_iff.mpr hsome
      obtain ⟨hover, hleft⟩ := ih fun row hrow =>
        h row (List.mem_of_mem_drop hrow)
      rw [List.length_drop, hlimit] at hover hleft
      rw [hlimit] at hlength
      rw [passes, if_neg hsome, List.length_append, hlimit, hover, hleft]
      constructor
      · omega
      · split
        · rw [if_pos (by omega)]
        · rw [if_neg (by omega)]

/-- **What becomes of a backlog.**  Left alone with a connection, the thread
reaches the rows `passes` hands over and those it leaves, whatever the
publishes return, and then changes nothing any more.  If none reads like the
header, these are nine of every ninety rows and at most nine of what is left
over, and one row stays behind only as the last of `90 * k + 1`. -/
theorem drains (t : Table) :
    ∃ n, ∀ rcs : List Int, n ≤ rcs.length →
      let s := alone rcs (start t true)
      publishedRows s.log = (passes t.rows).1 ∧
        s.table.rows = (passes t.rows).2 ∧
        ((∀ row ∈ t.rows, row.message ≠ cstr "message") →
          (publishedRows s.log).length =
              9 * (t.rows.length / 90) + min 9 (t.rows.length % 90 - 1) ∧
            s.table.rows.length = if t.rows.length % 90 = 1 then 1 else 0) := by
  obtain ⟨n, hn⟩ := alone_passes t
  refine ⟨n, ?_⟩
  intro rcs hlength
  obtain ⟨hpublished, hrows⟩ := hn rcs hlength
  refine ⟨hpublished, hrows, ?_⟩
  intro hheader
  rw [hpublished, hrows]
  exact length_passes hheader

end DatahubEdge.Recover
