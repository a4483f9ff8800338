import Mathlib.Data.List.Basic

/-!
# The latest value written under a key

A history is the list of the writes of a run, oldest first.  `latest k h` is
the value of the last write to `k` in `h`, so that `fun k => latest k h` is
the map the writes of `h` describe.
-/

namespace DatahubEdge.Lib.Latest

universe u v

variable {κ : Type u} {α : Type v} [DecidableEq κ]

/-- The value last written under `k`. -/
def latest (k : κ) : List (κ × α) → Option α
  | [] => none
  | e :: es => (latest k es).or (if e.1 = k then some e.2 else none)

@[simp] theorem latest_nil (k : κ) : latest k ([] : List (κ × α)) = none := rfl

/-- Later writes take precedence. -/
theorem latest_append (k : κ) (h h' : List (κ × α)) :
    latest k (h ++ h') = (latest k h').or (latest k h) := by
  induction h with
  | nil => simp
  | cons e h ih => simp [latest, ih, Option.or_assoc]

theorem latest_eq_none_iff (k : κ) (h : List (κ × α)) :
    latest k h = none ↔ ∀ v, (k, v) ∉ h := by
  induction h with
  | nil => simp
  | cons e h ih =>
      obtain ⟨k', v'⟩ := e
      by_cases hk : k' = k
      · subst hk
        simp only [latest, if_true, Option.or_eq_none_iff]
        constructor
        · rintro ⟨_, h⟩
          cases h
        · intro h
          exact absurd List.mem_cons_self (h v')
      · have hk' : k ≠ k' := fun h => hk h.symm
        simp [latest, hk, hk', ih]

/-- The latest value of a key was written under it. -/
theorem mem_of_latest {k : κ} {v : α} {h : List (κ × α)}
    (hl : latest k h = some v) : (k, v) ∈ h := by
  induction h with
  | nil => cases hl
  | cons e h ih =>
      obtain ⟨k', v'⟩ := e
      rw [latest, Option.or_eq_some_iff] at hl
      rcases hl with hl | ⟨_, hl⟩
      · exact List.mem_cons_of_mem _ (ih hl)
      · by_cases hk : k' = k
        · rw [if_pos hk] at hl
          cases hl
          simp [hk]
        · rw [if_neg hk] at hl
          cases hl

/-- Writes to other keys do not count. -/
theorem latest_append_of_forall_ne {k : κ} {h h' : List (κ × α)}
    (hne : ∀ v, (k, v) ∉ h') : latest k (h ++ h') = latest k h := by
  rw [latest_append, (latest_eq_none_iff k h').mpr hne]
  rfl

/-- If every write to `k` in `h'` writes `v`, and there is one, `v` is the
latest value. -/
theorem latest_append_of_mem {k : κ} {v : α} {h h' : List (κ × α)}
    (hm : (k, v) ∈ h') (hu : ∀ v', (k, v') ∈ h' → v' = v) :
    latest k (h ++ h') = some v := by
  have hs : latest k h' ≠ none := by
    intro hn
    exact (latest_eq_none_iff k h').mp hn v hm
  obtain ⟨v', hv'⟩ := Option.ne_none_iff_exists'.mp hs
  rw [latest_append, hv', hu v' (mem_of_latest hv')]
  rfl

end DatahubEdge.Lib.Latest
