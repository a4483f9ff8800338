import Mathlib.Data.List.GetD
import DatahubEdge.Lib.Sextets
import DatahubEdge.Base64.Codec

/-!
# What `base64_encode` computes

The loop fills the buffer with the characters of the sextets of the data,
continued with zeros; the end is then overwritten with `=`.

## Main results

* `encodeBlock_ok` — one turn of the loop.
* `pad_filled` — the padding.
* `base64Encode_ok` — the result of a call.
-/

namespace DatahubEdge.Base64

open Lib.While Lib.Filled Lib.Sextets Lib.Fold

/-- The octet at a position, zero past the end. -/
def octetAt (data : List UInt8) (p : Nat) : Nat := (data.getD p 0).toNat

/-- The character at a position before the padding. -/
def encodeChar (data : List UInt8) (p : Nat) : UInt8 :=
  encodingTable.getD (sextet (octetAt data) p) 0

/-- `*output_length`. -/
def encodedLength (data : List UInt8) : Nat := 4 * ((data.length + 2) / 3)

/-- The number of characters overwritten with `=`. -/
def padding (data : List UInt8) : Nat := modTable.getD (data.length % 3) 0

/-- A text of length `n` with its last `count` characters overwritten. -/
def padded (f : Nat → UInt8) (n count p : Nat) : UInt8 :=
  if n - count ≤ p ∧ p < n then 61 else f p

/-- The character at a position of the result. -/
def encodedChar (data : List UInt8) : Nat → UInt8 :=
  padded (encodeChar data) (encodedLength data) (padding data)

/-- The text returned. -/
def encodedText (data : List UInt8) : List UInt8 :=
  (List.range (encodedLength data)).map (encodedChar data)

theorem octetAt_lt (data : List UInt8) (p : Nat) : octetAt data p < 256 :=
  (data.getD p 0).toNat_lt

theorem octetAt_of_le {data : List UInt8} {p : Nat} (h : data.length ≤ p) :
    octetAt data p = 0 := by
  rw [octetAt, List.getD_eq_default data 0 h]
  rfl

/-- The padding by the residue of the length. -/
theorem padding_cases (data : List UInt8) :
    data.length % 3 = 0 ∧ padding data = 0 ∨
      data.length % 3 = 1 ∧ padding data = 2 ∨
      data.length % 3 = 2 ∧ padding data = 1 := by
  have hmod : data.length % 3 = 0 ∨ data.length % 3 = 1 ∨
      data.length % 3 = 2 := by omega
  rcases hmod with h | h | h
  · exact Or.inl ⟨h, by rw [padding, h]; rfl⟩
  · exact Or.inr (Or.inl ⟨h, by rw [padding, h]; rfl⟩)
  · exact Or.inr (Or.inr ⟨h, by rw [padding, h]; rfl⟩)

theorem padding_le (data : List UInt8) :
    padding data ≤ encodedLength data := by
  unfold encodedLength
  have hpad := padding_cases data
  omega

/-! ## One group -/

/-- Reading the next octet moves the counter up to the end. -/
theorem nextOctet_ok {data : List UInt8}
    (hint : (data.length : Int) ≤ intMax) (q : Nat) :
    nextOctet data (min q data.length) =
      .ok (UInt32.ofNat (octetAt data q), min (q + 1) data.length) := by
  by_cases hq : q < data.length
  · have hmin : min q data.length = q := by omega
    have hmin' : min (q + 1) data.length = q + 1 := by omega
    have hget : readByte data q = .ok data[q] :=
      readByte_of_get (List.getElem?_eq_getElem hq)
    rw [nextOctet, hmin, hmin', if_pos hq, hget, ok_bind,
      incr_of_lt (by omega), ok_bind, octetAt, List.getD_eq_getElem data 0 hq]
    rw [← toUInt32_eq]
    rfl
  · have hmin : min q data.length = data.length := by omega
    have hmin' : min (q + 1) data.length = data.length := by omega
    rw [nextOctet, hmin, hmin', if_neg (Nat.lt_irrefl _),
      octetAt_of_le (by omega)]
    rfl

/-- The number of a group, built with shifts of 32-bit words. -/
theorem toNat_octets {a b c : Nat} (ha : a < 256) (hb : b < 256)
    (hc : c < 256) :
    ((UInt32.ofNat a <<< 0x10) + (UInt32.ofNat b <<< 0x08) +
        UInt32.ofNat c).toNat = octets3 a b c := by
  have h₂ : (UInt32.ofNat a <<< 0x10).toNat =
      a % 2 ^ 32 * 2 ^ 16 % 2 ^ 32 :=
    toNat_ofNat_shiftLeft _ _
  have h₁ : (UInt32.ofNat b <<< 0x08).toNat =
      b % 2 ^ 32 * 2 ^ 8 % 2 ^ 32 :=
    toNat_ofNat_shiftLeft _ _
  rw [UInt32.toNat_add, UInt32.toNat_add, h₂, h₁, UInt32.toNat_ofNat', octets3]
  omega

/-- The sextet `(n >> k) & 0x3F`. -/
theorem toNat_shiftRight_and (n k : UInt32) :
    ((n >>> k) &&& 0x3F).toNat = n.toNat / 2 ^ (k.toNat % 32) % 64 := by
  rw [UInt32.toNat_and, UInt32.toNat_shiftRight, Nat.shiftRight_eq_div_pow]
  exact Nat.and_two_pow_sub_one_eq_mod _ 6

/-- Writing the character of a sextet. -/
theorem putChar_filled {data : List UInt8} {i q n : Nat} {v : UInt32}
    (hv : v.toNat = sextet (octetAt data) q) (hq : q < n)
    (hint : (n : Int) ≤ intMax) :
    putChar v { i, j := q, buf := filled (encodeChar data) q n } =
      .ok { i, j := q + 1, buf := filled (encodeChar data) (q + 1) n } := by
  have hlt : sextet (octetAt data) q < encodingTable.length := by
    rw [length_encodingTable]
    exact sextet_lt _ q
  have hchar : encodingTable[sextet (octetAt data) q] = encodeChar data q := by
    rw [encodeChar, List.getD_eq_getElem encodingTable 0 hlt]
  rw [putChar, hv, List.getElem?_eq_getElem hlt, hchar]
  exact put_filled (encodeChar data) hq (by omega)

/-- The four characters of a group. -/
theorem putChars_filled {data : List UInt8} {i q n : Nat} {t : UInt32}
    (h₃ : t.toNat / 262144 % 64 = sextet (octetAt data) q)
    (h₂ : t.toNat / 4096 % 64 = sextet (octetAt data) (q + 1))
    (h₁ : t.toNat / 64 % 64 = sextet (octetAt data) (q + 2))
    (h₀ : t.toNat % 64 = sextet (octetAt data) (q + 3))
    (hq : q + 3 < n) (hint : (n : Int) ≤ intMax) :
    (putChar ((t >>> (3 * 6)) &&& 0x3F)
        { i, j := q, buf := filled (encodeChar data) q n } >>= fun s =>
      putChar ((t >>> (2 * 6)) &&& 0x3F) s >>= fun s =>
      putChar ((t >>> (1 * 6)) &&& 0x3F) s >>= fun s =>
      putChar ((t >>> (0 * 6)) &&& 0x3F) s) =
      .ok { i, j := q + 4, buf := filled (encodeChar data) (q + 4) n } := by
  have hv₃ : ((t >>> (3 * 6)) &&& 0x3F).toNat = sextet (octetAt data) q := by
    rw [toNat_shiftRight_and]
    exact h₃
  have hv₂ : ((t >>> (2 * 6)) &&& 0x3F).toNat =
      sextet (octetAt data) (q + 1) := by
    rw [toNat_shiftRight_and]
    exact h₂
  have hv₁ : ((t >>> (1 * 6)) &&& 0x3F).toNat =
      sextet (octetAt data) (q + 2) := by
    rw [toNat_shiftRight_and]
    exact h₁
  have hv₀ : ((t >>> (0 * 6)) &&& 0x3F).toNat =
      sextet (octetAt data) (q + 3) := by
    rw [toNat_shiftRight_and, ← h₀]
    show t.toNat / 1 % 64 = _
    rw [Nat.div_one]
  rw [putChar_filled hv₃ (by omega) hint, ok_bind,
    putChar_filled hv₂ (by omega) hint, ok_bind,
    putChar_filled hv₁ (by omega) hint, ok_bind, putChar_filled hv₀ hq hint]

/-- The state after `k` turns. -/
def encodeState (data : List UInt8) (k : Nat) : Cursor where
  i := min (3 * k) data.length
  j := 4 * k
  buf := filled (encodeChar data) (4 * k) (encodedLength data)

/-- One turn of the loop. -/
theorem encodeBlock_ok {data : List UInt8} {k : Nat}
    (hint : (encodedLength data : Int) ≤ intMax)
    (hk : 3 * k < data.length) :
    encodeBlock data (encodeState data k) =
      .ok (encodeState data (k + 1)) := by
  have hj : 4 * k + 3 < encodedLength data := by
    unfold encodedLength
    omega
  have hdata : (data.length : Int) ≤ intMax := by
    unfold encodedLength at hint
    omega
  have hoctet := nextOctet_ok hdata
  have hlt := octetAt_lt data
  have htriple := toNat_octets (hlt (3 * k)) (hlt (3 * k + 1))
    (hlt (3 * k + 2))
  rw [encodeBlock, encodeState]
  simp only [hoctet, ok_bind]
  apply putChars_filled _ _ _ _ hj hint
  · rw [htriple, sextet_zero]
  · rw [htriple, sextet_one]
  · rw [htriple, sextet_two]
  · rw [htriple, sextet_three]

/-- The loop. -/
theorem encodeLoop_ok {data : List UInt8}
    (hint : (encodedLength data : Int) ≤ intMax) :
    loop (fun s => decide (s.i < data.length)) (encodeBlock data) data.length
        { i := 0, j := 0, buf := malloc (encodedLength data) } =
      .ok (encodeState data ((data.length + 2) / 3)) := by
  have hstart : encodeState data 0 =
      { i := 0, j := 0, buf := malloc (encodedLength data) } := by
    show Cursor.mk (min 0 data.length) 0
      (filled (encodeChar data) 0 (encodedLength data)) = _
    rw [Nat.zero_min, filled_zero, malloc]
  rw [← hstart]
  apply loop_states (encodeState data)
  · intro k hk
    have hi : min (3 * k) data.length < data.length := by omega
    exact decide_eq_true hi
  · intro k hk
    exact encodeBlock_ok hint (by omega)
  · have hi : ¬ min (3 * ((data.length + 2) / 3)) data.length <
        data.length := by omega
    exact decide_eq_false hi
  · omega

/-! ## The padding -/

theorem padded_zero (f : Nat → UInt8) (n : Nat) : padded f n 0 = f := by
  funext p
  rw [padded, if_neg (by omega)]

/-- One more character overwritten. -/
theorem update_padded (f : Nat → UInt8) {n count : Nat} (h : count < n) :
    Function.update (padded f n count) (n - 1 - count) 61 =
      padded f n (count + 1) := by
  funext p
  by_cases hp : p = n - 1 - count
  · rw [hp, Function.update_self, padded, if_pos (by omega)]
  · rw [Function.update_of_ne hp, padded, padded]
    by_cases hin : n - count ≤ p ∧ p < n
    · rw [if_pos hin, if_pos (by omega)]
    · rw [if_neg hin, if_neg (by omega)]

/-- The end of a full buffer overwritten with `=`. -/
theorem pad_filled (f : Nat → UInt8) {n count : Nat} (hcount : count ≤ n)
    (hint : (n : Int) ≤ intMax) :
    pad n count (filled f n n) = .ok (filled (padded f n count) n n) := by
  unfold pad
  induction count with
  | zero =>
      rw [padded_zero]
      rfl
  | succ count ih =>
      have hsub : sizeSub (sizeSub n 1) count = n - 1 - count := by
        rw [sizeSub_of_le (by omega) hint,
          sizeSub_of_le (by omega) (by omega)]
      have hstore : store (filled (padded f n count) n n) (n - 1 - count) 61 =
          .ok (filled (padded f n (count + 1)) n n) := by
        rw [store, if_pos (by rw [length_filled]; omega), set_filled_self,
          update_padded f (by omega)]
      rw [List.range_succ, List.foldlM_append, ih (by omega), ok_bind,
        List.foldlM_cons, hsub, hstore]
      rfl

/-! ## The call -/

theorem length_encodedText (data : List UInt8) :
    (encodedText data).length = encodedLength data := by
  rw [encodedText, List.length_map, List.length_range]

theorem base64Encode_ok {data : List UInt8}
    (hint : (encodedLength data : Int) ≤ intMax) :
    base64Encode data true =
      .ok {
        outputLength := some (encodedText data).length
        data := some ((encodedText data).map some) } := by
  have hlen : sizeT (4 * (sizeT (data.length + 2) / 3)) =
      encodedLength data := by
    have hinner : sizeT (data.length + 2) = data.length + 2 := by
      unfold encodedLength intMax at hint
      unfold sizeT
      omega
    rw [hinner]
    exact sizeT_of_lt hint
  rw [base64Encode, hlen, if_pos rfl, encodeLoop_ok hint, ok_bind]
  show (pad (encodedLength data) (padding data) (filled (encodeChar data)
    (encodedLength data) (encodedLength data)) >>= _) = _
  rw [pad_filled (encodeChar data) (padding_le data) hint, ok_bind,
    filled_of_le _ (Nat.le_refl _), length_encodedText, encodedText,
    List.map_map]
  rfl

end DatahubEdge.Base64
