import DatahubEdge.Recover.AtMostOnce

/-!
# Which runs delete only what was delivered

The rows `data_callback` deletes are those of a second query, not the row
just published, and the result of the publish is not looked at.  So the first
`sqlite3_exec` of a pass already deletes rows that were never handed to
`mosquitto_publish`: a pass loses rows as soon as it publishes anything.
What remains is the passes that publish nothing, because array row 0 is the
header and the loop stops one row short of the last.
-/

namespace DatahubEdge.Recover

open DatahubEdge.Sqlite
open DatahubEdge.Lib.Fold

/-- Every deleted row had its own message published with return code 0
before. -/
def Delivered (log : List Event) : Prop :=
  ∀ pre row post, log = pre ++ .deleted row :: post →
    .published (some row.id) row.message 0 ∈ pre

/-- The query yields no row that the loop would publish: at most one row, or
rows that read like the header. -/
def NothingToPublish (t : Table) : Prop :=
  ∀ row ∈ (t.select rcovLimit).dropLast, row.message = cstr "message"

/-! ## Runs that never publish -/

/-- The thread has published nothing and its snapshot gives it no reason to. -/
def Idle (s : State) : Prop :=
  s.log = [] ∧
    match s.pc with
    | .loopHead => True
    | .asleep => True
    | .forHead result _ =>
        ∀ row ∈ result.dropLast, row.message = cstr "message"
    | .published _ _ => False
    | .deleting _ _ _ => False

private theorem mem_dropLast_of_getElem? {result : List Row} {j : Nat}
    {row : Row} (h : result[j]? = some row) (hj : j + 1 < result.length) :
    row ∈ result.dropLast := by
  refine List.mem_iff_getElem?.mpr ⟨j, ?_⟩
  rw [List.getElem?_dropLast, if_pos (by omega)]
  exact h

theorem Idle.recover {s : State} (h : Idle s) (rc : Int)
    (hsel : s.pc = .asleep → NothingToPublish s.table) :
    Idle (recoverProc rc s) := by
  obtain ⟨hlog, hpc'⟩ := id h
  rcases recoverProc_cases rc s with ⟨hpc, hs | hs⟩ | ⟨hpc, hs⟩ |
    ⟨result, i, hpc, hs⟩ | ⟨result, i, hpc, hs⟩ | ⟨result, i, hpc, hs⟩ |
    ⟨result, i, row, pending, hpc, hs⟩ <;> rw [hpc] at hpc'
  · rw [hs]
    exact h
  · rw [hs]
    exact ⟨hlog, trivial⟩
  · rw [hs]
    exact ⟨hlog, hsel hpc⟩
  · rcases hs with ⟨_, hs⟩ | ⟨_, hs⟩ | ⟨j, row, rfl, hj, hlt, hne, hs⟩
    · rw [hs]
      exact ⟨hlog, trivial⟩
    · rw [hs]
      exact ⟨hlog, hpc'⟩
    · exact absurd (hpc' row (mem_dropLast_of_getElem? hj hlt)) hne
  · exact hpc'.elim
  · exact hpc'.elim
  · exact hpc'.elim

theorem Idle.step {s : State} (h : Idle s) (a : Action)
    (hsel : ∀ rc, a = .recover rc → s.pc = .asleep →
      NothingToPublish s.table) : Idle (step s a) := by
  cases a with
  | connection b => exact h
  | insert m => exact h
  | recover rc => exact h.recover rc (hsel rc rfl)

/-- A run whose queries find nothing to publish deletes nothing. -/
theorem idle_run (t : Table) (b : Bool) (as : List Action)
    (hsel : ∀ pre s rc, VisitsTotal step (start t b) as pre s (.recover rc) →
      s.pc = .asleep → NothingToPublish s.table) :
    Idle (run (start t b) as) := by
  refine foldl_invariant (P := fun _ s => Idle s) as ⟨rfl, trivial⟩ ?_
  intro pre s a hv h
  refine h.step a ?_
  rintro rc rfl
  exact hsel pre s rc hv

/-! ## Passes that publish -/

/-- `n` statements of the thread alone, every publish succeeding. -/
def recoverN (n : Nat) (s : State) : State :=
  run s (List.replicate n (.recover 0))

theorem recoverN_succ (n : Nat) (s : State) :
    recoverN (n + 1) s = recoverN n (recoverProc 0 s) := rfl

/-- Left alone, the loop reaches the first row that does not read like the
header and publishes it. -/
theorem exists_publish {s : State} {result : List Row} {i k : Nat}
    (hpc : s.pc = .forHead result i) (hik : i ≤ k) (hk : k < result.length)
    (hne : cell result k ≠ cstr "message") :
    ∃ n j m, recoverN n s =
      { s with
        pc := .published result j
        log := s.log ++ [.published (rowId result j) m 0] } := by
  induction hd : k - i generalizing s i with
  | zero =>
      have : i = k := by omega
      subst this
      refine ⟨1, i, cell result i, ?_⟩
      rw [recoverN_succ]
      simp only [recoverProc, hpc, if_pos hk, if_neg hne]
      rfl
  | succ d ih =>
      have hi : i < result.length := by omega
      by_cases hm : cell result i = cstr "message"
      · have hstep : recoverProc 0 s =
            { s with pc := .forHead result (i + 1) } := by
          simp only [recoverProc, hpc, if_pos hi, if_pos hm]
        obtain ⟨n, j, m, hn⟩ := ih (s := { s with pc := .forHead result (i + 1) })
          (i := i + 1) rfl (by omega) (by omega)
        refine ⟨n + 1, j, m, ?_⟩
        rw [recoverN_succ, hstep]
        exact hn
      · refine ⟨1, i, cell result i, ?_⟩
        rw [recoverN_succ]
        simp only [recoverProc, hpc, if_pos hi, if_neg hm]
        rfl

/-- A query that yields a row to publish yields two rows at least. -/
private theorem select_two {t : Table} (h : ¬ NothingToPublish t) :
    ∃ r₀ r₁ rest k, t.select rcovLimit = r₀ :: r₁ :: rest ∧
      k < (t.select rcovLimit).length ∧
      cell (t.select rcovLimit) k ≠ cstr "message" := by
  simp only [NothingToPublish, not_forall] at h
  obtain ⟨row, hrow, hne⟩ := h
  obtain ⟨j, hj⟩ := List.mem_iff_getElem?.mp hrow
  rw [List.getElem?_dropLast] at hj
  split at hj
  · rename_i hlt
    have hcell := cell_succ hj
    cases hres : t.select rcovLimit with
    | nil =>
        rw [hres] at hlt
        simp at hlt
    | cons r₀ rs =>
        cases rs with
        | nil =>
            rw [hres] at hlt
            simp at hlt
        | cons r₁ rest =>
            rw [hres] at hcell hlt
            refine ⟨r₀, r₁, rest, j + 1, rfl, by omega, ?_⟩
            rw [hcell]
            exact hne
  · cases hj

private theorem mem_log_id {log : List Event} {id : Nat} {m : CString}
    {rc : Int} (h : .published (some id) m rc ∈ log) :
    id ∈ publishedIds log :=
  List.mem_filterMap.mpr ⟨_, h, rfl⟩

/-- One publish cannot account for the deletion of two new rows. -/
private theorem eq_of_delivered {log : List Event} {id : Option Nat}
    {m : CString} {r₀ r₁ : Row}
    (hd : Delivered
      (log ++ [.published id m 0, .deleted r₀, .deleted r₁]))
    (h₀ : r₀.id ∉ publishedIds log) (h₁ : r₁.id ∉ publishedIds log) :
    r₀.id = r₁.id := by
  have hd₀ := hd (log ++ [.published id m 0]) r₀ [.deleted r₁] (by simp)
  have hd₁ := hd (log ++ [.published id m 0, .deleted r₀]) r₁ [] (by simp)
  have hid₀ : some r₀.id = id := by
    rcases List.mem_append.mp hd₀ with h | h
    · exact absurd (mem_log_id h) h₀
    · simp only [List.mem_singleton, Event.published.injEq] at h
      exact h.1
  have hid₁ : some r₁.id = id := by
    rcases List.mem_append.mp hd₁ with h | h
    · exact absurd (mem_log_id h) h₁
    · simp only [List.mem_cons, List.not_mem_nil, or_false,
        Event.published.injEq, reduceCtorEq] at h
      exact h.1
  exact Option.some.inj (hid₀.trans hid₁.symm)

/-- From a query that finds a row to publish, the thread alone loses a row,
even if every publish succeeds: its first `sqlite3_exec` deletes two rows and
only one was published. -/
theorem not_delivered_of_select {s : State} (hinv : Inv s)
    (hpc : s.pc = .asleep) (hsel : ¬ NothingToPublish s.table) :
    ∃ n, ¬ Delivered (recoverN n s).log := by
  obtain ⟨r₀, r₁, rest, k, hres, hk, hne⟩ := select_two hsel
  have hclean := hinv.placed
  rw [hpc] at hclean
  have htake : s.table.rows.take rcovLimit = r₀ :: r₁ :: rest := hres
  have hstep : recoverProc 0 s =
      { s with pc := .forHead (s.table.select rcovLimit) 0 } := by
    simp only [recoverProc, hpc]
  obtain ⟨n, j, m, hn⟩ := exists_publish
    (s := { s with pc := .forHead (s.table.select rcovLimit) 0 })
    rfl (Nat.zero_le k) hk hne
  refine ⟨1 + n + 3, ?_⟩
  have hlog : (recoverN (1 + n + 3) s).log = s.log ++
      [.published (rowId (s.table.select rcovLimit) j) m 0, .deleted r₀,
        .deleted r₁] := by
    have hsplit : recoverN (1 + n + 3) s =
        recoverN 3 (recoverN n (recoverProc 0 s)) := by
      simp only [recoverN, run, List.replicate_add, List.foldl_append]
      rfl
    rw [hsplit, hstep, hn]
    simp [recoverN, run, step, recoverProc, hres, List.replicate]
  have hrow : ∀ r ∈ r₀ :: r₁ :: rest, r.id ∉ publishedIds s.log := by
    intro r hr
    rw [← htake] at hr
    exact hclean r.id (List.mem_map_of_mem (List.mem_of_mem_take hr))
  have hsorted := s.table.sorted.sublist (List.take_sublist rcovLimit _)
  rw [htake, List.pairwise_cons] at hsorted
  have hlt := hsorted.1 r₁ (by simp)
  rw [hlog]
  intro hd
  have := eq_of_delivered hd (hrow r₀ (by simp)) (hrow r₁ (by simp))
  omega

/-- **What store-and-forward guarantees.**  A run in which every query finds
nothing to publish deletes only delivered rows, and in any run a query that
does find something leads the thread, left alone, to delete a row that was
not delivered. -/
theorem delivered_when_nothing_to_publish (t : Table) (isConnected : Bool)
    (as : List Action) :
    ((∀ pre s rc,
        VisitsTotal step (start t isConnected) as pre s (.recover rc) →
        s.pc = .asleep → NothingToPublish s.table) →
      Delivered (run (start t isConnected) as).log) ∧
    ((run (start t isConnected) as).pc = .asleep →
      ¬ NothingToPublish (run (start t isConnected) as).table →
      ∃ n, ¬ Delivered (recoverN n (run (start t isConnected) as)).log) := by
  constructor
  · intro hsel
    have hlog := (idle_run t isConnected as hsel).1
    intro pre row post h
    rw [hlog] at h
    simp at h
  · exact not_delivered_of_select (inv_run t isConnected as)

/-- A table of two rows, as two offline `SendData` calls leave it. -/
def twoRows : Table := (Table.empty.insert (cstr "a")).insert (cstr "b")

/-- One pass over two rows publishes the first and deletes both. -/
theorem not_delivered_two_rows :
    ¬ Delivered
      (run (start twoRows true) (List.replicate 7 (.recover 0))).log := by
  have hlog : (run (start twoRows true) (List.replicate 7 (.recover 0))).log =
      [.published (some 1) (cstr "a") 0, .deleted ⟨1, cstr "a"⟩] ++
        .deleted ⟨2, cstr "b"⟩ :: [] := by rfl
  intro hd
  have := hd _ _ _ hlog
  simp at this

theorem delivered_one_row :
    Delivered (run (start (Table.empty.insert (cstr "a")) true)
      [.recover 0, .recover 0]).log := by
  refine (delivered_when_nothing_to_publish _ _ _).1 ?_
  intro pre s rc hv hpc
  obtain ⟨post, hsplit⟩ := hv.split
  rcases pre with _ | ⟨a, _ | ⟨a', pre⟩⟩
  · rw [← hv.reach] at hpc
    cases hpc
  · cases hsplit
    rw [← hv.reach]
    intro row hrow
    cases hrow
  · simp at hsplit

end DatahubEdge.Recover
