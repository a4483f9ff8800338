import Mathlib.Data.List.Basic

/-!
# Parsers that return the rest of their input

A parser takes a value off the front of a list of tokens and returns it with
the tokens that remain.  The loop over the separated items of a list is given
fuel to run at all; since every separator it passes is a token less, a fuel
above the length of the input is as good as any other.

## Main results

* `sepBy_fuel` — the loop does not depend on its fuel, once there is enough.
* `Shrinks.sepBy` — the loop returns no more tokens than it was given.
-/

namespace DatahubEdge.Lib.Parsing

universe u v

variable {τ : Type u} {α : Type v}

/-- A value off the front of a list of tokens, and the tokens that remain. -/
abbrev Parser (τ : Type u) (α : Type v) := List τ → Option (α × List τ)

/-- The parser returns no more tokens than it was given. -/
def Shrinks (p : Parser τ α) : Prop :=
  ∀ text value rest, p text = some (value, rest) → rest.length ≤ text.length

variable [DecidableEq τ] (skip : List τ → List τ) (item : Parser τ α)
  (sep close : τ)

/-- Items with a separator between two of them, up to a closing token.  The
tokens `skip` drops may stand around every item. -/
def sepBy : Nat → Parser τ (List α)
  | 0, _ => none
  | fuel + 1, text =>
      match item (skip text) with
      | none => none
      | some (value, rest) =>
          match skip rest with
          | [] => none
          | t :: rest =>
              if t = sep then
                (sepBy fuel rest).map fun r => (value :: r.1, r.2)
              else if t = close then some ([value], rest)
              else none

variable {skip item sep close}

/-- The text ends behind an item. -/
theorem sepBy_end {fuel : Nat} {text rest : List τ} {value : α}
    (h : item (skip text) = some (value, rest)) (hrest : skip rest = []) :
    sepBy skip item sep close (fuel + 1) text = none := by
  simp only [sepBy, h, hrest]

/-- A token stands behind an item. -/
theorem sepBy_item {fuel : Nat} {text rest rest' : List τ} {value : α} {t : τ}
    (h : item (skip text) = some (value, rest)) (hrest : skip rest = t :: rest') :
    sepBy skip item sep close (fuel + 1) text =
      if t = sep then
        (sepBy skip item sep close fuel rest').map fun r => (value :: r.1, r.2)
      else if t = close then some ([value], rest')
      else none := by
  simp only [sepBy, h, hrest]

omit [DecidableEq τ] in
/-- What follows an item is shorter than the input by a token at least. -/
private theorem rest_length (hskip : ∀ text, (skip text).length ≤ text.length)
    (hitem : Shrinks item) {text rest rest' : List τ} {value : α} {t : τ}
    (h : item (skip text) = some (value, rest)) (hrest : skip rest = t :: rest') :
    rest'.length < text.length := by
  have h1 := hskip text
  have h2 := hitem _ _ _ h
  have h3 := hskip rest
  rw [hrest, List.length_cons] at h3
  omega

theorem sepBy_fuel_eq (hskip : ∀ text, (skip text).length ≤ text.length)
    (hitem : Shrinks item) :
    ∀ (fuel fuel' : Nat) (text : List τ), text.length < fuel →
      text.length < fuel' →
      sepBy skip item sep close fuel text =
        sepBy skip item sep close fuel' text := by
  intro fuel
  induction fuel with
  | zero =>
      intro fuel' text h
      omega
  | succ fuel ih =>
      intro fuel' text h h'
      cases fuel' with
      | zero => omega
      | succ fuel' =>
          simp only [sepBy]
          cases hv : item (skip text) with
          | none => rfl
          | some p =>
              obtain ⟨value, rest⟩ := p
              dsimp only
              cases hrest : skip rest with
              | nil => rfl
              | cons t rest' =>
                  have hlen := rest_length hskip hitem hv hrest
                  dsimp only
                  rw [ih fuel' rest' (by omega) (by omega)]

/-- A fuel above the length of the input is enough. -/
theorem sepBy_fuel (hskip : ∀ text, (skip text).length ≤ text.length)
    (hitem : Shrinks item) {fuel : Nat} {text : List τ}
    (h : text.length < fuel) :
    sepBy skip item sep close fuel text =
      sepBy skip item sep close (text.length + 1) text :=
  sepBy_fuel_eq hskip hitem fuel (text.length + 1) text h (by omega)

theorem Shrinks.sepBy (hskip : ∀ text, (skip text).length ≤ text.length)
    (hitem : Shrinks item) (fuel : Nat) :
    Shrinks (sepBy skip item sep close fuel) := by
  induction fuel with
  | zero =>
      intro text value rest h
      cases h
  | succ fuel ih =>
      intro text values final h
      simp only [Parsing.sepBy] at h
      cases hv : item (skip text) with
      | none =>
          rw [hv] at h
          cases h
      | some p =>
          obtain ⟨value, rest⟩ := p
          rw [hv] at h
          dsimp only at h
          cases hrest : skip rest with
          | nil =>
              rw [hrest] at h
              cases h
          | cons t rest' =>
              have hlen := rest_length hskip hitem hv hrest
              rw [hrest] at h
              dsimp only at h
              split at h
              · obtain ⟨r, hr, heq⟩ := Option.map_eq_some_iff.mp h
                cases heq
                have := ih rest' r.1 r.2 hr
                omega
              · split at h
                · cases h
                  omega
                · cases h

end DatahubEdge.Lib.Parsing
