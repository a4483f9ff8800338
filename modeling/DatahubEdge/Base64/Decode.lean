import Mathlib.Data.List.GetD
import DatahubEdge.Lib.Sextets
import DatahubEdge.Base64.Codec

/-!
# What `base64_decode` computes

A character that can be read is `=`, taken as zero, or one of the alphabet,
taken as its position.  On a text of such characters the loop fills the buffer
with the octets of the positions.

## Main results

* `nextSextet_inv` — what a successful read tells about the character.
* `decodeBlock_ok` — one turn of the loop.
* `base64Decode_ok` — the result of a call.
-/

namespace DatahubEdge.Base64

open Lib.While Lib.Filled Lib.Sextets Lib.Fold

/-- A character the decoder can read with this table. -/
def Readable (table : DecodingTable) (c : UInt8) : Prop :=
  c = 61 ∨ c ∈ encodingTable ∧ table = .built

/-- The value taken for a character. -/
def decodeChar (c : UInt8) : Nat :=
  if c = 61 then 0 else encodingTable.idxOf c

/-- The value at a position of the text. -/
def sextetAt (data : List UInt8) (p : Nat) : Nat :=
  decodeChar (data.getD p 61)

/-- The byte at a position of the result. -/
def plain (data : List UInt8) (p : Nat) : UInt8 :=
  UInt8.ofNat (octet (sextetAt data) p)

/-- `*output_length`. -/
def decodedLength (data : List UInt8) : Nat :=
  data.length / 4 * 3 -
    (if data.getD (data.length - 1) 0 = 61 then 1 else 0) -
    (if data.getD (data.length - 2) 0 = 61 then 1 else 0)

theorem decodeChar_lt {table : DecodingTable} {c : UInt8}
    (h : Readable table c) : decodeChar c < 64 := by
  unfold decodeChar
  by_cases heq : c = 61
  · rw [if_pos heq]
    decide
  · rw [if_neg heq, ← length_encodingTable]
    have hmem : c ∈ encodingTable := (h.resolve_left heq).1
    exact List.idxOf_lt_length_of_mem hmem

theorem sextetAt_lt {table : DecodingTable} {data : List UInt8}
    (h : ∀ c ∈ data, Readable table c) (p : Nat) : sextetAt data p < 64 := by
  by_cases hp : p < data.length
  · rw [sextetAt, List.getD_eq_getElem data 61 hp]
    exact decodeChar_lt (h _ (List.getElem_mem hp))
  · rw [sextetAt, List.getD_eq_default data 61 (by omega)]
    decide

/-! ## Reading a sextet -/

section Sextet

variable {table : DecodingTable} {data : List UInt8} {i : Nat}

theorem nextSextet_ok (hi : i < data.length)
    (hread : Readable table data[i]) (hint : (i : Int) < intMax) :
    nextSextet table data i = .ok (UInt32.ofNat (sextetAt data i), i + 1) := by
  have hget : readByte data i = .ok data[i] :=
    readByte_of_get (List.getElem?_eq_getElem hi)
  rw [nextSextet, hget, ok_bind, incr_of_lt hint, ok_bind, sextetAt,
    List.getD_eq_getElem data 61 hi, decodeChar]
  by_cases heq : data[i] = 61
  · rw [if_pos heq, if_pos heq]
    rfl
  · obtain ⟨hmem, htable⟩ := hread.resolve_left heq
    have hlt := List.idxOf_lt_length_of_mem hmem
    rw [length_encodingTable] at hlt
    rw [if_neg heq, if_neg heq, htable, DecodingTable.entry_of_mem hmem,
      ok_bind]
    have hconv : (UInt8.ofNat (encodingTable.idxOf data[i])).toUInt32 =
        UInt32.ofNat (encodingTable.idxOf data[i]) := by
      rw [toUInt32_eq, UInt8.toNat_ofNat', Nat.mod_eq_of_lt (by omega)]
    rw [hconv]
    rfl

/-- What a successful read tells about the character and the counter. -/
theorem nextSextet_inv {v : UInt32} {i' : Nat}
    (h : nextSextet table data i = .ok (v, i')) :
    i' = i + 1 ∧ (i' : Int) ≤ intMax ∧
      ∃ c, data[i]? = some c ∧ Readable table c := by
  obtain ⟨c, hc, h⟩ := bind_eq_ok h
  obtain ⟨i'', hi, h⟩ := bind_eq_ok h
  have hget := get_of_readByte hc
  have hincr := incr_ok hi
  by_cases heq : c = 61
  · rw [if_pos heq] at h
    cases h
    exact ⟨hincr.1, hincr.2, c, hget, Or.inl heq⟩
  · rw [if_neg heq] at h
    obtain ⟨w, hw, h⟩ := bind_eq_ok h
    cases h
    have hmem := DecodingTable.mem_of_entry hw
    exact ⟨hincr.1, hincr.2, c, hget, Or.inr ⟨hmem.2, hmem.1⟩⟩

end Sextet

/-! ## One group -/

/-- The number of a group, built with shifts of 32-bit words. -/
theorem toNat_triple {a b c d : Nat} (ha : a < 64) (hb : b < 64)
    (hc : c < 64) (hd : d < 64) :
    ((UInt32.ofNat a <<< (3 * 6)) + (UInt32.ofNat b <<< (2 * 6)) +
        (UInt32.ofNat c <<< (1 * 6)) +
        (UInt32.ofNat d <<< (0 * 6))).toNat = sextets4 a b c d := by
  have h₃ : (UInt32.ofNat a <<< (3 * 6)).toNat =
      a % 2 ^ 32 * 2 ^ 18 % 2 ^ 32 :=
    toNat_ofNat_shiftLeft _ _
  have h₂ : (UInt32.ofNat b <<< (2 * 6)).toNat =
      b % 2 ^ 32 * 2 ^ 12 % 2 ^ 32 :=
    toNat_ofNat_shiftLeft _ _
  have h₁ : (UInt32.ofNat c <<< (1 * 6)).toNat =
      c % 2 ^ 32 * 2 ^ 6 % 2 ^ 32 :=
    toNat_ofNat_shiftLeft _ _
  have h₀ : (UInt32.ofNat d <<< (0 * 6)).toNat =
      d % 2 ^ 32 * 2 ^ 0 % 2 ^ 32 :=
    toNat_ofNat_shiftLeft _ _
  rw [UInt32.toNat_add, UInt32.toNat_add, UInt32.toNat_add, h₃, h₂, h₁, h₀,
    sextets4]
  omega

/-- The byte `(n >> k) & 0xFF`. -/
theorem toUInt8_shiftRight_and (n k : UInt32) :
    ((n >>> k) &&& 0xFF).toUInt8 =
      UInt8.ofNat (n.toNat / 2 ^ (k.toNat % 32) % 256) := by
  apply UInt8.toNat_inj.mp
  have hand : ((n >>> k) &&& 0xFF).toNat =
      n.toNat / 2 ^ (k.toNat % 32) % 256 := by
    rw [UInt32.toNat_and, UInt32.toNat_shiftRight, Nat.shiftRight_eq_div_pow]
    exact Nat.and_two_pow_sub_one_eq_mod _ 8
  rw [UInt32.toNat_toUInt8, hand, UInt8.toNat_ofNat']

/-- A step of the truncation by the running counter `j`. -/
theorem putOctet_filled (f : Nat → UInt8) {i q n : Nat} {v : UInt32}
    (hv : v.toUInt8 = f q) (hint : (n : Int) ≤ intMax) :
    putOctet n v { i, j := min q n, buf := filled f (min q n) n } =
      .ok { i, j := min (q + 1) n, buf := filled f (min (q + 1) n) n } := by
  by_cases hq : q < n
  · have hmin : min q n = q := by omega
    have hmin' : min (q + 1) n = q + 1 := by omega
    rw [putOctet, hmin, hmin', if_pos hq, hv]
    exact put_filled f hq (by omega)
  · have hmin : min q n = n := by omega
    have hmin' : min (q + 1) n = n := by omega
    rw [hmin, hmin']
    exact if_neg (Nat.lt_irrefl n)

/-- The three octets of a group. -/
theorem putOctets_filled (f : Nat → UInt8) {i q n : Nat} {t : UInt32}
    (h₂ : UInt8.ofNat (t.toNat / 65536 % 256) = f q)
    (h₁ : UInt8.ofNat (t.toNat / 256 % 256) = f (q + 1))
    (h₀ : UInt8.ofNat (t.toNat % 256) = f (q + 2))
    (hint : (n : Int) ≤ intMax) :
    (putOctet n ((t >>> (2 * 8)) &&& 0xFF)
        { i, j := min q n, buf := filled f (min q n) n } >>= fun s =>
      putOctet n ((t >>> (1 * 8)) &&& 0xFF) s >>= fun s =>
      putOctet n ((t >>> (0 * 8)) &&& 0xFF) s) =
      .ok { i, j := min (q + 3) n, buf := filled f (min (q + 3) n) n } := by
  have hv₂ : ((t >>> (2 * 8)) &&& 0xFF).toUInt8 = f q := by
    rw [toUInt8_shiftRight_and]
    exact h₂
  have hv₁ : ((t >>> (1 * 8)) &&& 0xFF).toUInt8 = f (q + 1) := by
    rw [toUInt8_shiftRight_and]
    exact h₁
  have hv₀ : ((t >>> (0 * 8)) &&& 0xFF).toUInt8 = f (q + 2) := by
    rw [toUInt8_shiftRight_and, ← h₀]
    show UInt8.ofNat (t.toNat / 1 % 256) = _
    rw [Nat.div_one]
  rw [putOctet_filled f hv₂ hint, ok_bind, putOctet_filled f hv₁ hint,
    ok_bind, putOctet_filled f hv₀ hint]

/-- The state after `k` turns. -/
def decodeState (data : List UInt8) (outputLength k : Nat) : Cursor where
  i := 4 * k
  j := min (3 * k) outputLength
  buf := filled (plain data) (min (3 * k) outputLength) outputLength

/-- One turn of the loop. -/
theorem decodeBlock_ok {table : DecodingTable} {data : List UInt8}
    {n k : Nat} (hread : ∀ c ∈ data, Readable table c)
    (hdata : (data.length : Int) ≤ intMax) (hn : (n : Int) ≤ intMax)
    (hk : 4 * k + 4 ≤ data.length) :
    decodeBlock table data n (decodeState data n k) =
      .ok (decodeState data n (k + 1)) := by
  have hsextet : ∀ p, p < data.length → nextSextet table data p =
      .ok (UInt32.ofNat (sextetAt data p), p + 1) := by
    intro p hp
    exact nextSextet_ok hp (hread _ (List.getElem_mem hp)) (by omega)
  have hlt := sextetAt_lt hread
  have htriple := toNat_triple (hlt (4 * k)) (hlt (4 * k + 1))
    (hlt (4 * k + 2)) (hlt (4 * k + 3))
  rw [decodeBlock, decodeState]
  simp only [hsextet (4 * k) (by omega), hsextet (4 * k + 1) (by omega),
    hsextet (4 * k + 1 + 1) (by omega),
    hsextet (4 * k + 1 + 1 + 1) (by omega), ok_bind]
  apply putOctets_filled (plain data) _ _ _ hn
  · rw [htriple, plain, octet_zero]
  · rw [htriple, plain, octet_one]
  · rw [htriple, plain, octet_two]

/-- The loop. -/
theorem decodeLoop_ok {table : DecodingTable} {data : List UInt8} {n : Nat}
    (hread : ∀ c ∈ data, Readable table c)
    (hdata : (data.length : Int) ≤ intMax) (hn : (n : Int) ≤ intMax)
    (hmod : data.length % 4 = 0) :
    loop (fun s => decide (s.i < data.length)) (decodeBlock table data n)
        data.length { i := 0, j := 0, buf := malloc n } =
      .ok (decodeState data n (data.length / 4)) := by
  have hstart : decodeState data n 0 = { i := 0, j := 0, buf := malloc n } := by
    show Cursor.mk 0 (min 0 n) (filled (plain data) (min 0 n) n) = _
    rw [Nat.zero_min, filled_zero, malloc]
  rw [← hstart]
  apply loop_states (decodeState data n)
  · intro k hk
    have hi : 4 * k < data.length := by omega
    exact decide_eq_true hi
  · intro k hk
    exact decodeBlock_ok hread hdata hn (by omega)
  · have hi : ¬ 4 * (data.length / 4) < data.length := by omega
    exact decide_eq_false hi
  · omega

/-! ## The call -/

theorem dropPadding_ok {data : List UInt8} {pos n : Nat}
    (hpos : pos < data.length) (hn : 0 < n) (hint : (n : Int) ≤ intMax) :
    dropPadding data pos n =
      .ok (n - if data.getD pos 0 = 61 then 1 else 0) := by
  have hget : readByte data pos = .ok data[pos] :=
    readByte_of_get (List.getElem?_eq_getElem hpos)
  rw [dropPadding, hget, ok_bind, List.getD_eq_getElem data 0 hpos]
  by_cases heq : data[pos] = 61
  · rw [if_pos heq, if_pos heq, sizeSub_of_le hn hint]
    rfl
  · rw [if_neg heq, if_neg heq]
    rfl

theorem decodedLength_le (data : List UInt8) :
    decodedLength data ≤ data.length / 4 * 3 := by
  unfold decodedLength
  omega

/-- The result on a text of readable characters. -/
theorem base64Decode_ok {table table' : DecodingTable} {mallocTable : Bool}
    {data : List UInt8} (htable : table.orBuild mallocTable = .ok table')
    (hmod : data.length % 4 = 0) (hne : data ≠ [])
    (hint : (data.length : Int) ≤ intMax)
    (hread : ∀ c ∈ data, Readable table' c) :
    base64Decode table data mallocTable true =
      .ok (table', {
        outputLength := some (decodedLength data)
        data := some ((List.range (decodedLength data)).map
          (fun p => some (plain data p))) }) := by
  have hpos : 0 < data.length := List.length_pos_iff.mpr hne
  have h₁ : sizeSub data.length 1 = data.length - 1 :=
    sizeSub_of_le (by omega) hint
  have h₂ : sizeSub data.length 2 = data.length - 2 :=
    sizeSub_of_le (by omega) hint
  have hlast : dropPadding data (data.length - 1) (data.length / 4 * 3) = _ :=
    dropPadding_ok (by omega) (by omega) (by omega)
  have hprev : dropPadding data (data.length - 2) (data.length / 4 * 3 -
      if data.getD (data.length - 1) 0 = 61 then 1 else 0) = _ :=
    dropPadding_ok (by omega) (by split <;> omega) (by split <;> omega)
  have hle := decodedLength_le data
  have hint' : (decodedLength data : Int) ≤ intMax := by omega
  have hloop := decodeLoop_ok hread hint hint' hmod
  rw [decodedLength] at hloop
  rw [base64Decode, htable, ok_bind, if_neg (by omega), h₁, h₂]
  dsimp only
  rw [hlast, ok_bind, hprev, ok_bind, if_pos rfl, hloop, ok_bind,
    ← decodedLength]
  show Except.ok (table', Output.mk _ (some
    (filled (plain data) (min (3 * (data.length / 4)) (decodedLength data))
      (decodedLength data)))) = _
  rw [filled_of_le (plain data) (by omega)]

end DatahubEdge.Base64
