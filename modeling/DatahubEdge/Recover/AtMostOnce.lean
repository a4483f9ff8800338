import DatahubEdge.Recover.Thread

/-!
# No stored row is published twice

The rows a pass publishes come from a snapshot, the rows it deletes from a
second query.  The invariant relates the two: as long as the pass has
published nothing, the snapshot is a prefix of the table, because other
threads only append; and once its first `sqlite3_exec` has run to the end, no
row of the snapshot is left in the table, because that query yields at least
the snapshot's rows.  Outside of a pass, the table and the published rows
are disjoint.
-/

namespace DatahubEdge.Recover

open DatahubEdge.Sqlite
open DatahubEdge.Lib.Fold

/-- What the thread remembers of its snapshot.  `next` is the index of the
first data row the pass may still publish. -/
structure Snapshot (t : Table) (ids : List Nat) (result : List Row)
    (next : Nat) : Prop where
  sorted : result.Pairwise fun r r' => r.id < r'.id
  le_seq : ∀ r ∈ result, r.id ≤ t.seq
  limit : result.length ≤ rcovLimit
  pending : ∀ r ∈ result.drop next, r.id ∉ ids

/-- The relation between the table, the ids published so far and the program
counter. -/
def Placed (t : Table) (ids : List Nat) : Pc → Prop
  | .loopHead => ∀ i ∈ t.ids, i ∉ ids
  | .asleep => ∀ i ∈ t.ids, i ∉ ids
  | .forHead result i =>
      Snapshot t ids result (i - 1) ∧
        ((result <+: t.rows ∧ ∀ i ∈ t.ids, i ∉ ids) ∨
          ∀ i ∈ t.ids, i ∉ ids ∧ i ∉ result.map Row.id)
  | .published result i =>
      Snapshot t ids result i ∧
        ((result <+: t.rows ∧ ∀ i ∈ t.ids, i ∈ ids → i ∈ result.map Row.id) ∨
          ∀ i ∈ t.ids, i ∉ ids ∧ i ∉ result.map Row.id)
  | .deleting result i pending =>
      Snapshot t ids result i ∧
        ∀ i ∈ t.ids, i ∈ ids ∨ i ∈ result.map Row.id → i ∈ pending.map Row.id

structure Inv (s : State) : Prop where
  nodup : (publishedIds s.log).Nodup
  le_seq : ∀ i ∈ publishedIds s.log, i ≤ s.table.seq
  placed : Placed s.table (publishedIds s.log) s.pc

/-! ## Initial state and the steps of other threads -/

theorem inv_start (t : Table) (b : Bool) : Inv (start t b) where
  nodup := List.nodup_nil
  le_seq := by simp [start, publishedIds]
  placed := by simp [start, publishedIds, Placed]

private theorem Snapshot.insert {t : Table} {ids : List Nat}
    {result : List Row} {next : Nat} (h : Snapshot t ids result next)
    (m : CString) : Snapshot (t.insert m) ids result next where
  sorted := h.sorted
  le_seq := fun r hr => Nat.le_succ_of_le (h.le_seq r hr)
  limit := h.limit
  pending := h.pending

private theorem Snapshot.id_le {t : Table} {ids : List Nat}
    {result : List Row} {next : Nat} (h : Snapshot t ids result next)
    {i : Nat} (hi : i ∈ result.map Row.id) : i ≤ t.seq := by
  obtain ⟨r, hr, rfl⟩ := List.mem_map.mp hi
  exact h.le_seq r hr

/-- An inserted row has an id nobody has seen. -/
theorem Placed.insert {t : Table} {ids : List Nat} {pc : Pc}
    (hle : ∀ i ∈ ids, i ≤ t.seq) (h : Placed t ids pc) (m : CString) :
    Placed (t.insert m) ids pc := by
  have hnew : t.seq + 1 ∉ ids := fun hn => by
    have := hle _ hn
    omega
  have hclean : (∀ i ∈ t.ids, i ∉ ids) →
      ∀ i ∈ (t.insert m).ids, i ∉ ids := by
    intro h i hi
    rcases (t.mem_insert_ids m i).mp hi with hi | rfl
    · exact h i hi
    · exact hnew
  have hgone : ∀ {result : List Row} {next : Nat},
      Snapshot t ids result next →
      (∀ i ∈ t.ids, i ∉ ids ∧ i ∉ result.map Row.id) →
      ∀ i ∈ (t.insert m).ids, i ∉ ids ∧ i ∉ result.map Row.id := by
    intro result next hs h i hi
    rcases (t.mem_insert_ids m i).mp hi with hi | rfl
    · exact h i hi
    · refine ⟨hnew, fun hn => ?_⟩
      have := hs.id_le hn
      omega
  have hpre : ∀ {result : List Row}, result <+: t.rows →
      result <+: (t.insert m).rows := by
    intro result hp
    exact hp.trans (List.prefix_append _ _)
  cases pc with
  | loopHead => exact hclean h
  | asleep => exact hclean h
  | forHead result i =>
      obtain ⟨hs, ⟨hp, hc⟩ | hg⟩ := h
      · exact ⟨hs.insert m, .inl ⟨hpre hp, hclean hc⟩⟩
      · exact ⟨hs.insert m, .inr (hgone hs hg)⟩
  | published result i =>
      obtain ⟨hs, ⟨hp, hc⟩ | hg⟩ := h
      · refine ⟨hs.insert m, .inl ⟨hpre hp, ?_⟩⟩
        intro j hj hids
        rcases (t.mem_insert_ids m j).mp hj with hj | rfl
        · exact hc j hj hids
        · exact absurd hids hnew
      · exact ⟨hs.insert m, .inr (hgone hs hg)⟩
  | deleting result i pending =>
      obtain ⟨hs, hc⟩ := h
      refine ⟨hs.insert m, ?_⟩
      intro j hj hor
      rcases (t.mem_insert_ids m j).mp hj with hj | rfl
      · exact hc j hj hor
      · rcases hor with hids | hres
        · exact absurd hids hnew
        · have := hs.id_le hres
          omega

/-! ## The steps of the thread -/

/-- A fresh snapshot is a prefix of the table. -/
theorem snapshot_select {t : Table} {ids : List Nat}
    (h : ∀ i ∈ t.ids, i ∉ ids) (next : Nat) :
    Snapshot t ids (t.select rcovLimit) next where
  sorted := t.sorted.sublist (List.take_sublist _ _)
  le_seq := fun r hr => t.le_seq r (List.mem_of_mem_take hr)
  limit := List.length_take_le _ _
  pending := by
    intro r hr
    have hrows : r ∈ t.rows := List.mem_of_mem_take (List.mem_of_mem_drop hr)
    exact h r.id (List.mem_map_of_mem hrows)

/-- The query yields every row of a snapshot that is still a prefix of the
table. -/
theorem mem_select_of_prefix {t : Table} {result : List Row}
    (hlen : result.length ≤ rcovLimit) (hp : result <+: t.rows) {i : Nat}
    (hi : i ∈ result.map Row.id) :
    i ∈ (t.select rcovLimit).map Row.id := by
  obtain ⟨r, hr, rfl⟩ := List.mem_map.mp hi
  have hle : result <+: t.rows.take rcovLimit := List.prefix_take_iff.mpr
    ⟨hp, hlen⟩
  exact List.mem_map_of_mem (hle.subset hr)

private theorem drop_pred_cons {result : List Row} {j : Nat} {row : Row}
    (h : result[j]? = some row) :
    result.drop j = row :: result.drop (j + 1) := by
  obtain ⟨hj, rfl⟩ := List.getElem?_eq_some_iff.mp h
  exact List.drop_eq_getElem_cons hj

/-- Rows further on in a snapshot have other ids. -/
theorem Snapshot.ne_of_mem_drop {t : Table} {ids : List Nat}
    {result : List Row} {next : Nat} (h : Snapshot t ids result next)
    {j : Nat} {row : Row} (hj : result[j]? = some row) :
    ∀ r ∈ result.drop (j + 1), r.id ≠ row.id := by
  intro r hr
  have hs := h.sorted.sublist (List.drop_sublist j result)
  rw [drop_pred_cons hj, List.pairwise_cons] at hs
  have := hs.1 r hr
  omega

private theorem Snapshot.mono {t : Table} {ids : List Nat}
    {result : List Row} {m n : Nat} (h : Snapshot t ids result m)
    (hmn : m ≤ n) : Snapshot t ids result n where
  sorted := h.sorted
  le_seq := h.le_seq
  limit := h.limit
  pending := by
    intro r hr
    obtain ⟨k, rfl⟩ := Nat.exists_eq_add_of_le hmn
    rw [← List.drop_drop] at hr
    exact h.pending r (List.mem_of_mem_drop hr)

/-- Publishing data row `j` hands over an id that was not handed over before
and is still waiting for its deletion. -/
theorem Inv.publish {s : State} {result : List Row} {j : Nat} {row : Row}
    (h : Inv s) (hpc : s.pc = .forHead result (j + 1))
    (hj : result[j]? = some row) (rc : Int) :
    Inv { s with
      pc := .published result (j + 1)
      log := s.log ++
        [.published (rowId result (j + 1)) row.message rc] } := by
  have hplaced := h.placed
  rw [hpc] at hplaced
  obtain ⟨hsnap, hrel⟩ := hplaced
  have hdrop := drop_pred_cons hj
  have hmem : row ∈ result := List.mem_of_getElem? hj
  have hrow : row.id ∉ publishedIds s.log :=
    hsnap.pending row (by simp [hdrop])
  have hids : publishedIds (s.log ++
      [.published (rowId result (j + 1)) row.message rc]) =
        publishedIds s.log ++ [row.id] := by
    rw [publishedIds_append, publishedIds_published_succ hj]
  refine ⟨?_, ?_, ?_⟩
  · show (publishedIds (s.log ++ [_])).Nodup
    rw [hids, List.nodup_append]
    refine ⟨h.nodup, by simp, ?_⟩
    intro k hk k' hk' hkk
    rw [List.mem_singleton.mp hk'] at hkk
    exact hrow (hkk ▸ hk)
  · intro k hk
    rw [show publishedIds _ = _ from hids] at hk
    rcases List.mem_append.mp hk with hk | hk
    · exact h.le_seq k hk
    · rw [List.mem_singleton.mp hk]
      exact hsnap.le_seq row hmem
  · show Placed s.table (publishedIds (s.log ++ [_]))
      (.published result (j + 1))
    rw [hids]
    refine ⟨⟨hsnap.sorted, hsnap.le_seq, hsnap.limit, ?_⟩, ?_⟩
    · intro r hr hin
      rcases List.mem_append.mp hin with hin | hin
      · exact hsnap.pending r (by simp [hdrop, hr]) hin
      · exact hsnap.ne_of_mem_drop hj r hr (List.mem_singleton.mp hin)
    · rcases hrel with ⟨hp, hc⟩ | hg
      · refine .inl ⟨hp, ?_⟩
        intro k hk hin
        rcases List.mem_append.mp hin with hin | hin
        · exact absurd hin (hc k hk)
        · rw [List.mem_singleton.mp hin]
          exact List.mem_map_of_mem hmem
      · refine .inr fun k hk => ⟨?_, (hg k hk).2⟩
        intro hin
        rcases List.mem_append.mp hin with hin | hin
        · exact (hg k hk).1 hin
        · rw [List.mem_singleton.mp hin] at hk
          exact (hg row.id hk).2 (List.mem_map_of_mem hmem)

/-- The second query yields every row that was published or is in the
snapshot, and is still in the table. -/
theorem Placed.select {t : Table} {ids : List Nat} {result : List Row}
    {i : Nat} (h : Placed t ids (.published result i)) :
    Placed t ids (.deleting result i (t.select rcovLimit)) := by
  obtain ⟨hsnap, hrel⟩ := h
  refine ⟨hsnap, ?_⟩
  intro k hk hor
  rcases hrel with ⟨hp, hc⟩ | hg
  · have hres : k ∈ result.map Row.id := hor.elim (hc k hk) id
    exact mem_select_of_prefix hsnap.limit hp hres
  · exact absurd hor (by simpa using hg k hk)

theorem Placed.deleteRow {t : Table} {ids : List Nat} {result : List Row}
    {i : Nat} {row : Row} {pending : List Row}
    (h : Placed t ids (.deleting result i (row :: pending))) :
    Placed (t.delete row.id) ids (.deleting result i pending) := by
  obtain ⟨hsnap, hdel⟩ := h
  refine ⟨⟨hsnap.sorted, hsnap.le_seq, hsnap.limit, hsnap.pending⟩, ?_⟩
  intro k hk hor
  obtain ⟨hk, hne⟩ := (t.mem_delete_ids row.id k).mp hk
  have hpend := hdel k hk hor
  rw [List.map_cons, List.mem_cons] at hpend
  exact hpend.resolve_left hne

theorem Placed.execDone {t : Table} {ids : List Nat} {result : List Row}
    {i : Nat} (h : Placed t ids (.deleting result i [])) :
    Placed t ids (.forHead result (i + 1)) := by
  obtain ⟨hsnap, hdel⟩ := h
  refine ⟨hsnap.mono (by omega), .inr ?_⟩
  intro k hk
  simpa [not_or] using hdel k hk

theorem Placed.passDone {t : Table} {ids : List Nat} {result : List Row}
    {i : Nat} (h : Placed t ids (.forHead result i)) :
    Placed t ids .loopHead := by
  rcases h.2 with ⟨_, hc⟩ | hg
  · exact hc
  · exact fun k hk => (hg k hk).1

theorem inv_recover (rc : Int) {s : State} (h : Inv s) :
    Inv (recoverProc rc s) := by
  obtain ⟨hnodup, hle, hplaced⟩ := id h
  rcases recoverProc_cases rc s with ⟨hpc, hs | hs⟩ | ⟨hpc, hs⟩ |
    ⟨result, i, hpc, hs⟩ | ⟨result, i, hpc, hs⟩ | ⟨result, i, hpc, hs⟩ |
    ⟨result, i, row, pending, hpc, hs⟩ <;> rw [hpc] at hplaced
  · rw [hs]
    exact h
  · rw [hs]
    exact ⟨hnodup, hle, hplaced⟩
  · rw [hs]
    exact ⟨hnodup, hle, snapshot_select hplaced _,
      .inl ⟨List.take_prefix _ _, hplaced⟩⟩
  · rcases hs with ⟨_, hs⟩ | ⟨_, hs⟩ | ⟨j, row, rfl, hj, _, _, hs⟩ <;> rw [hs]
    · exact ⟨hnodup, hle, hplaced.passDone⟩
    · exact ⟨hnodup, hle,
        hplaced.1.mono (Nat.sub_le_sub_right (Nat.le_succ i) 1), hplaced.2⟩
    · exact h.publish hpc hj rc
  · rw [hs]
    exact ⟨hnodup, hle, hplaced.select⟩
  · rw [hs]
    exact ⟨hnodup, hle, hplaced.execDone⟩
  · rw [hs]
    have hids : publishedIds (s.log ++ [.deleted row]) =
        publishedIds s.log := by simp
    exact ⟨hids.symm ▸ hnodup, hids.symm ▸ hle, hids.symm ▸ hplaced.deleteRow⟩

theorem inv_step {s : State} (h : Inv s) (a : Action) : Inv (step s a) := by
  cases a with
  | connection b => exact ⟨h.nodup, h.le_seq, h.placed⟩
  | insert m =>
      exact ⟨h.nodup, fun i hi => Nat.le_succ_of_le (h.le_seq i hi),
        h.placed.insert h.le_seq m⟩
  | recover rc => exact inv_recover rc h

theorem inv_run (t : Table) (b : Bool) (as : List Action) :
    Inv (run (start t b) as) :=
  foldl_invariant (P := fun _ s => Inv s) as (inv_start t b)
    fun _ _ a _ h => inv_step h a

/-- **Recovery never publishes a stored row twice**, whatever the table, the
inserts, the connection and the publish results of the run. -/
theorem published_at_most_once (t : Table) (isConnected : Bool)
    (as : List Action) :
    (publishedIds (run (start t isConnected) as).log).Nodup :=
  (inv_run t isConnected as).nodup

end DatahubEdge.Recover
