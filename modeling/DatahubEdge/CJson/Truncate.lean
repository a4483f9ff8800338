import Mathlib.Data.Rat.Floor
import Mathlib.Tactic.Linarith
import DatahubEdge.CJson.Tree

/-!
# The `int` of a parsed number

`parse_number` stores a number twice, as a `double` and as an `int`.

## Main results

* `saturatedInt_of_nonneg`, `saturatedInt_of_nonpos` — in the range of `int`
  the fraction is cut off.
* `sub_saturatedInt_lt_one`, `neg_one_lt_sub_saturatedInt` — there the two
  differ by less than one.
-/

namespace DatahubEdge

variable {x : Rat}

private theorem tdiv_of_nonneg (h : 0 ≤ x) : x.num.tdiv x.den = ⌊x⌋ := by
  rw [Rat.floor_def', Int.tdiv_eq_ediv_of_nonneg (Rat.num_nonneg.mpr h)]

private theorem tdiv_of_nonpos (h : x ≤ 0) : x.num.tdiv x.den = ⌈x⌉ := by
  have hnum : 0 ≤ -x.num := by
    have := Rat.num_nonpos.mpr h
    omega
  rw [Rat.ceil_def', ← Int.tdiv_eq_ediv_of_nonneg hnum, Int.neg_tdiv, neg_neg]

/-- From 0 up to `INT_MAX` a number loses its fraction. -/
theorem saturatedInt_of_nonneg (h : 0 ≤ x) (hhi : x < intMax + 1) :
    saturatedInt x = ⌊x⌋ := by
  unfold saturatedInt
  split
  · rename_i hmax
    exact (Int.floor_eq_iff.mpr ⟨hmax, hhi⟩).symm
  · split
    · rename_i hmin
      have hneg : (intMin : Rat) < 0 := by norm_num [intMin]
      linarith
    · exact tdiv_of_nonneg h

/-- From `INT_MIN` up to 0 a number loses its fraction toward zero. -/
theorem saturatedInt_of_nonpos (h : x ≤ 0) (hlo : (intMin : Rat) - 1 < x) :
    saturatedInt x = ⌈x⌉ := by
  unfold saturatedInt
  split
  · rename_i hmax
    have hpos : (0 : Rat) < intMax := by norm_num [intMax]
    linarith
  · split
    · rename_i hmin
      exact (Int.ceil_eq_iff.mpr ⟨hlo, hmin⟩).symm
    · exact tdiv_of_nonpos h

/-- At and beyond the ends of `int` the value is the end. -/
theorem saturatedInt_of_le (h : x ≤ intMin) : saturatedInt x = intMin := by
  have hlt : x < intMax := by
    have : (intMin : Rat) < intMax := by norm_num [intMin, intMax]
    linarith
  rw [saturatedInt, if_neg (not_le.mpr hlt), if_pos h]

theorem saturatedInt_of_ge (h : (intMax : Rat) ≤ x) :
    saturatedInt x = intMax := by
  rw [saturatedInt, if_pos h]

theorem saturatedInt_mem (x : Rat) :
    intMin ≤ saturatedInt x ∧ saturatedInt x ≤ intMax := by
  by_cases hhi : (intMax : Rat) ≤ x
  · rw [saturatedInt_of_ge hhi]
    decide
  by_cases hlo : x ≤ (intMin : Rat)
  · rw [saturatedInt_of_le hlo]
    decide
  rw [not_le] at hhi hlo
  rcases le_total 0 x with h | h
  · rw [saturatedInt_of_nonneg h (by linarith)]
    have h0 : 0 ≤ ⌊x⌋ := Int.floor_nonneg.mpr h
    have h1 : ⌊x⌋ < intMax := Int.floor_lt.mpr hhi
    have h2 : intMin ≤ 0 := by decide
    omega
  · rw [saturatedInt_of_nonpos h (by linarith)]
    have h0 : ⌈x⌉ ≤ 0 := Int.ceil_le.mpr (by exact_mod_cast h)
    have h1 : intMin < ⌈x⌉ := Int.lt_ceil.mpr hlo
    have h2 : 0 ≤ intMax := by decide
    omega

/-- Below `INT_MAX + 1` less than one is cut off. -/
theorem sub_saturatedInt_lt_one (h : x < intMax + 1) :
    x - saturatedInt x < 1 := by
  rcases le_total 0 x with h0 | h0
  · rw [saturatedInt_of_nonneg h0 h]
    have := Int.lt_floor_add_one x
    linarith
  · by_cases hlo : (intMin : Rat) - 1 < x
    · rw [saturatedInt_of_nonpos h0 hlo]
      have := Int.le_ceil x
      linarith
    · rw [not_lt] at hlo
      rw [saturatedInt_of_le (by linarith)]
      linarith

/-- Above `INT_MIN - 1` less than one is added. -/
theorem neg_one_lt_sub_saturatedInt (h : (intMin : Rat) - 1 < x) :
    -1 < x - saturatedInt x := by
  rcases le_total 0 x with h0 | h0
  · by_cases hhi : x < intMax + 1
    · rw [saturatedInt_of_nonneg h0 hhi]
      have := Int.floor_le x
      linarith
    · rw [not_lt] at hhi
      rw [saturatedInt_of_ge (by linarith)]
      linarith
  · rw [saturatedInt_of_nonpos h0 h]
    have := Int.ceil_lt_add_one x
    linarith

end DatahubEdge
