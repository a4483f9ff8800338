import Mathlib.Algebra.Group.Nat.Defs

/-!
# Regrouping octets into sextets

Three octets and four sextets are the digits of the same number below `2^24`,
in base 256 and in base 64.  Sequences of octets and sextets are functions of
the position; group `k` holds the octets `3k, 3k+1, 3k+2` and the sextets
`4k, …, 4k+3`.

## Main results

* `octet_sextet` — octets regrouped into sextets and back.
* `sextet_pad_two`, `sextet_pad_one` — the sextets of a group whose last
  octets are zero fill.
-/

namespace DatahubEdge.Lib.Sextets

/-- The number of three octets. -/
def octets3 (a b c : Nat) : Nat := a * 65536 + b * 256 + c

/-- The number of four sextets. -/
def sextets4 (a b c d : Nat) : Nat := a * 262144 + b * 4096 + c * 64 + d

/-- Sextet `p` of a sequence of octets. -/
def sextet (octet : Nat → Nat) (p : Nat) : Nat :=
  octets3 (octet (3 * (p / 4))) (octet (3 * (p / 4) + 1))
    (octet (3 * (p / 4) + 2)) / 64 ^ (3 - p % 4) % 64

/-- Octet `p` of a sequence of sextets. -/
def octet (sextet : Nat → Nat) (p : Nat) : Nat :=
  sextets4 (sextet (4 * (p / 3))) (sextet (4 * (p / 3) + 1))
    (sextet (4 * (p / 3) + 2)) (sextet (4 * (p / 3) + 3)) /
      256 ^ (2 - p % 3) % 256

theorem sextet_lt (f : Nat → Nat) (p : Nat) : sextet f p < 64 :=
  Nat.mod_lt _ (by decide)

section Groups

variable (f g : Nat → Nat) (k : Nat)

theorem sextet_zero : sextet f (4 * k) =
    octets3 (f (3 * k)) (f (3 * k + 1)) (f (3 * k + 2)) / 262144 % 64 := by
  have hdiv : 4 * k / 4 = k := by omega
  have hmod : 4 * k % 4 = 0 := by omega
  have hpow : 64 ^ (3 - 0) = 262144 := rfl
  rw [sextet, hdiv, hmod, hpow]

theorem sextet_one : sextet f (4 * k + 1) =
    octets3 (f (3 * k)) (f (3 * k + 1)) (f (3 * k + 2)) / 4096 % 64 := by
  have hdiv : (4 * k + 1) / 4 = k := by omega
  have hmod : (4 * k + 1) % 4 = 1 := by omega
  have hpow : 64 ^ (3 - 1) = 4096 := rfl
  rw [sextet, hdiv, hmod, hpow]

theorem sextet_two : sextet f (4 * k + 2) =
    octets3 (f (3 * k)) (f (3 * k + 1)) (f (3 * k + 2)) / 64 % 64 := by
  have hdiv : (4 * k + 2) / 4 = k := by omega
  have hmod : (4 * k + 2) % 4 = 2 := by omega
  have hpow : 64 ^ (3 - 2) = 64 := rfl
  rw [sextet, hdiv, hmod, hpow]

theorem sextet_three : sextet f (4 * k + 3) =
    octets3 (f (3 * k)) (f (3 * k + 1)) (f (3 * k + 2)) % 64 := by
  have hdiv : (4 * k + 3) / 4 = k := by omega
  have hmod : (4 * k + 3) % 4 = 3 := by omega
  have hpow : 64 ^ (3 - 3) = 1 := rfl
  rw [sextet, hdiv, hmod, hpow, Nat.div_one]

theorem octet_zero : octet g (3 * k) =
    sextets4 (g (4 * k)) (g (4 * k + 1)) (g (4 * k + 2)) (g (4 * k + 3)) /
      65536 % 256 := by
  have hdiv : 3 * k / 3 = k := by omega
  have hmod : 3 * k % 3 = 0 := by omega
  have hpow : 256 ^ (2 - 0) = 65536 := rfl
  rw [octet, hdiv, hmod, hpow]

theorem octet_one : octet g (3 * k + 1) =
    sextets4 (g (4 * k)) (g (4 * k + 1)) (g (4 * k + 2)) (g (4 * k + 3)) /
      256 % 256 := by
  have hdiv : (3 * k + 1) / 3 = k := by omega
  have hmod : (3 * k + 1) % 3 = 1 := by omega
  have hpow : 256 ^ (2 - 1) = 256 := rfl
  rw [octet, hdiv, hmod, hpow]

theorem octet_two : octet g (3 * k + 2) =
    sextets4 (g (4 * k)) (g (4 * k + 1)) (g (4 * k + 2)) (g (4 * k + 3)) %
      256 := by
  have hdiv : (3 * k + 2) / 3 = k := by omega
  have hmod : (3 * k + 2) % 3 = 2 := by omega
  have hpow : 256 ^ (2 - 2) = 1 := rfl
  rw [octet, hdiv, hmod, hpow, Nat.div_one]

end Groups

/-- Group `k` is the same number on both sides. -/
theorem sextets4_sextet {f : Nat → Nat} (hf : ∀ p, f p < 256) (k : Nat) :
    sextets4 (sextet f (4 * k)) (sextet f (4 * k + 1))
        (sextet f (4 * k + 2)) (sextet f (4 * k + 3)) =
      octets3 (f (3 * k)) (f (3 * k + 1)) (f (3 * k + 2)) := by
  rw [sextet_zero, sextet_one, sextet_two, sextet_three]
  have ha := hf (3 * k)
  have hb := hf (3 * k + 1)
  have hc := hf (3 * k + 2)
  unfold sextets4 octets3
  omega

/-- Octets regrouped into sextets and back. -/
theorem octet_sextet {f : Nat → Nat} (hf : ∀ p, f p < 256) (p : Nat) :
    octet (sextet f) p = f p := by
  have ha := hf (3 * (p / 3))
  have hb := hf (3 * (p / 3) + 1)
  have hc := hf (3 * (p / 3) + 2)
  have hmod : p % 3 = 0 ∨ p % 3 = 1 ∨ p % 3 = 2 := by omega
  rcases hmod with h | h | h
  · have hp : p = 3 * (p / 3) := by omega
    rw [hp, octet_zero, sextets4_sextet hf, octets3]
    omega
  · have hp : p = 3 * (p / 3) + 1 := by omega
    rw [hp, octet_one, sextets4_sextet hf, octets3]
    omega
  · have hp : p = 3 * (p / 3) + 2 := by omega
    rw [hp, octet_two, sextets4_sextet hf, octets3]
    omega

/-- A group of one octet: its last two sextets are zero. -/
theorem sextet_pad_two {f : Nat → Nat} {k : Nat} (hb : f (3 * k + 1) = 0)
    (hc : f (3 * k + 2) = 0) :
    sextet f (4 * k + 2) = 0 ∧ sextet f (4 * k + 3) = 0 := by
  rw [sextet_two, sextet_three, hb, hc, octets3]
  omega

/-- A group of two octets: its last sextet is zero. -/
theorem sextet_pad_one {f : Nat → Nat} {k : Nat} (hc : f (3 * k + 2) = 0) :
    sextet f (4 * k + 3) = 0 := by
  rw [sextet_three, hc, octets3]
  omega

end DatahubEdge.Lib.Sextets
