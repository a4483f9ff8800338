import Mathlib.Init

/-!
# Loops with a condition

A `while` loop whose body may fail, run with fuel.  A loop that runs out of
fuel ends in a state in which its condition still holds; with a measure the
body decreases, fuel of at least the measure excludes that.

## Main results

* `loop_invariant` — what the body preserves holds after the loop.
* `loop_exit` — with enough fuel the condition is false after the loop.
* `loop_states` — the run of a loop whose states are known turn by turn.
-/

namespace DatahubEdge.Lib.While

universe u v

variable {σ : Type u} {ε : Type v}

section Loop

variable (cond : σ → Bool) (body : σ → Except ε σ)

/-- `while (cond) body`, at most `fuel` times. -/
def loop : Nat → σ → Except ε σ
  | 0, s => .ok s
  | fuel + 1, s =>
      if cond s then
        match body s with
        | .error e => .error e
        | .ok s' => loop fuel s'
      else .ok s

end Loop

variable {cond : σ → Bool} {body : σ → Except ε σ} {s t : σ} {fuel : Nat}

theorem loop_of_cond (hc : cond s = true) {s' : σ} (hb : body s = .ok s') :
    loop cond body (fuel + 1) s = loop cond body fuel s' := by
  rw [loop, if_pos hc, hb]

theorem loop_of_not_cond (hc : cond s = false) :
    loop cond body fuel s = .ok s := by
  cases fuel with
  | zero => rfl
  | succ fuel =>
      rw [loop, if_neg]
      rw [hc]
      decide

/-- A turn of a loop that ends. -/
theorem loop_succ_ok (hc : cond s = true)
    (h : loop cond body (fuel + 1) s = .ok t) :
    ∃ s', body s = .ok s' ∧ loop cond body fuel s' = .ok t := by
  rw [loop, if_pos hc] at h
  cases hb : body s with
  | error e =>
      rw [hb] at h
      cases h
  | ok s' =>
      rw [hb] at h
      exact ⟨s', rfl, h⟩

/-- The invariant rule. -/
theorem loop_invariant {I : σ → Prop}
    (hstep : ∀ s s', I s → cond s = true → body s = .ok s' → I s')
    (hs : I s) (h : loop cond body fuel s = .ok t) : I t := by
  induction fuel generalizing s with
  | zero =>
      cases h
      exact hs
  | succ fuel ih =>
      by_cases hc : cond s = true
      · obtain ⟨s', hb, hrest⟩ := loop_succ_ok hc h
        exact ih (hstep s s' hs hc hb) hrest
      · rw [loop_of_not_cond (Bool.not_eq_true _ ▸ hc)] at h
        cases h
        exact hs

/-- With fuel for the measure the loop is left by its condition. -/
theorem loop_exit {I : σ → Prop} {m : σ → Nat}
    (hstep : ∀ s s', I s → cond s = true → body s = .ok s' →
      I s' ∧ m s' < m s)
    (hzero : ∀ s, I s → m s = 0 → cond s = false)
    (hs : I s) (hfuel : m s ≤ fuel)
    (h : loop cond body fuel s = .ok t) :
    cond t = false := by
  induction fuel generalizing s with
  | zero =>
      have hm : m s = 0 := by omega
      cases h
      exact hzero t hs hm
  | succ fuel ih =>
      by_cases hc : cond s = true
      · obtain ⟨s', hb, hrest⟩ := loop_succ_ok hc h
        have hs' := hstep s s' hs hc hb
        exact ih hs'.1 (by omega) hrest
      · have hfalse : cond s = false := Bool.not_eq_true _ ▸ hc
        rw [loop_of_not_cond hfalse] at h
        cases h
        exact hfalse

/-- A loop whose states are known turn by turn. -/
theorem loop_states {n : Nat} (st : Nat → σ)
    (hcond : ∀ k, k < n → cond (st k) = true)
    (hbody : ∀ k, k < n → body (st k) = .ok (st (k + 1)))
    (hend : cond (st n) = false) (hfuel : n ≤ fuel) :
    loop cond body fuel (st 0) = .ok (st n) := by
  induction n generalizing st fuel with
  | zero => exact loop_of_not_cond hend
  | succ n ih =>
      cases fuel with
      | zero => omega
      | succ fuel =>
          rw [loop_of_cond (hcond 0 (by omega)) (hbody 0 (by omega))]
          apply ih (fun k => st (k + 1))
          · intro k hk
            exact hcond (k + 1) (by omega)
          · intro k hk
            exact hbody (k + 1) (by omega)
          · exact hend
          · omega

end DatahubEdge.Lib.While
