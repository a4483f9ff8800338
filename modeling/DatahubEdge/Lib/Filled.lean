import Mathlib.Logic.Function.Basic
import Mathlib.Data.List.Basic

/-!
# Buffers filled from the left

A buffer fresh from the allocator has no set cell.  A loop that writes one
cell after the other leaves a prefix that is set; a loop that writes at
computed positions sets these and no others.

## Main results

* `set_filled` — writing the next cell.
* `filled_of_le` — a buffer filled to its end.
* `get_foldl_set_of_mem`, `get_foldl_set_of_ne` — the cells set by a loop over
  computed positions.
-/

namespace DatahubEdge.Lib.Filled

universe u

variable {α : Type u}

/-- `n` cells, the first `j` of them set to the values of `f`. -/
def filled (f : Nat → α) (j n : Nat) : List (Option α) :=
  (List.range n).map (fun p => if p < j then some (f p) else none)

@[simp] theorem length_filled (f : Nat → α) (j n : Nat) :
    (filled f j n).length = n := by
  simp [filled]

@[simp] theorem filled_zero (f : Nat → α) (n : Nat) :
    filled f 0 n = List.replicate n none := by
  simp [filled]

/-- Writing the next cell. -/
theorem set_filled (f : Nat → α) (j n : Nat) :
    (filled f j n).set j (some (f j)) = filled f (j + 1) n := by
  apply List.ext_getElem
  · simp
  · intro p h₁ h₂
    simp only [filled, List.getElem_set, List.getElem_map,
      List.getElem_range]
    by_cases hpj : j = p
    · rw [if_pos hpj, if_pos (by omega), hpj]
    · rw [if_neg hpj]
      by_cases hlt : p < j
      · rw [if_pos hlt, if_pos (by omega)]
      · rw [if_neg hlt, if_neg (by omega)]

/-- Overwriting a cell of a buffer that is set. -/
theorem set_filled_self (f : Nat → α) (p n : Nat) (v : α) :
    (filled f n n).set p (some v) = filled (Function.update f p v) n n := by
  apply List.ext_getElem
  · simp
  · intro q h₁ h₂
    have hq : q < n := by simpa using h₂
    simp only [filled, List.getElem_set, List.getElem_map,
      List.getElem_range, if_pos hq]
    by_cases hpq : p = q
    · rw [if_pos hpq, hpq, Function.update_self]
    · rw [if_neg hpq, Function.update_of_ne (Ne.symm hpq)]

/-- A buffer filled to its end. -/
theorem filled_of_le (f : Nat → α) {j n : Nat} (h : n ≤ j) :
    filled f j n = (List.range n).map (fun p => some (f p)) := by
  apply List.map_congr_left
  intro p hp
  rw [List.mem_range] at hp
  rw [if_pos (by omega)]

/-! ## Computed positions -/

section Positions

variable {ι : Type} {pos : ι → Nat} {v : ι → α} {l : List ι}

/-- A position that is not written keeps its cell. -/
theorem get_foldl_set_of_ne {q : Nat} (h : ∀ i ∈ l, pos i ≠ q)
    (buf : List (Option α)) :
    (l.foldl (fun buf i => buf.set (pos i) (some (v i))) buf)[q]? =
      buf[q]? := by
  induction l generalizing buf with
  | nil => rfl
  | cons i l ih =>
      have hi : pos i ≠ q := h i List.mem_cons_self
      have hl : ∀ j ∈ l, pos j ≠ q := fun j hj => h j (List.mem_cons_of_mem i hj)
      rw [List.foldl_cons, ih hl, List.getElem?_set_ne hi]

/-- A position that is written once holds what is written. -/
theorem get_foldl_set_of_mem (h : (l.map pos).Nodup) {i : ι} (hi : i ∈ l)
    {buf : List (Option α)} (hlt : pos i < buf.length) :
    (l.foldl (fun buf i => buf.set (pos i) (some (v i))) buf)[pos i]? =
      some (some (v i)) := by
  induction l generalizing buf with
  | nil => cases hi
  | cons j l ih =>
      rw [List.map_cons, List.nodup_cons] at h
      rw [List.foldl_cons]
      by_cases hmem : i ∈ l
      · apply ih h.2 hmem
        rw [List.length_set]
        exact hlt
      · have hij : i = j := (List.mem_cons.mp hi).resolve_right hmem
        have hne : ∀ k ∈ l, pos k ≠ pos i := by
          intro k hk heq
          apply h.1
          rw [← hij, ← heq]
          exact List.mem_map_of_mem hk
        rw [get_foldl_set_of_ne hne, hij, List.getElem?_set_self]
        rw [← hij]
        exact hlt

end Positions

end DatahubEdge.Lib.Filled
