import DatahubEdge.Base64.Encode
import DatahubEdge.Base64.Decode

/-!
# Decoding what was encoded

The sextets the decoder takes from an encoded text are those of the data: a
character of the alphabet gives back its position, and a `=` stands where the
sextet is zero.  The regrouping then gives back the octets.

## Main results

* `base64Decode_base64Encode` — decoding what was encoded.
-/

namespace DatahubEdge.Base64

open Lib.Sextets

variable {data : List UInt8}

/-! ## The characters of an encoded text -/

theorem encodeChar_mem (data : List UInt8) (p : Nat) :
    encodeChar data p ∈ encodingTable := by
  have hlt : sextet (octetAt data) p < encodingTable.length := by
    rw [length_encodingTable]
    exact sextet_lt _ p
  rw [encodeChar, List.getD_eq_getElem encodingTable 0 hlt]
  exact List.getElem_mem hlt

theorem encodeChar_ne (data : List UInt8) (p : Nat) :
    encodeChar data p ≠ 61 := by
  intro h
  apply equals_not_mem
  rw [← h]
  exact encodeChar_mem data p

theorem decodeChar_encodeChar (data : List UInt8) (p : Nat) :
    decodeChar (encodeChar data p) = sextet (octetAt data) p := by
  have hlt : sextet (octetAt data) p < encodingTable.length := by
    rw [length_encodingTable]
    exact sextet_lt _ p
  rw [decodeChar, if_neg (encodeChar_ne data p), encodeChar,
    List.getD_eq_getElem encodingTable 0 hlt]
  exact encodingTable_nodup.idxOf_getElem _ hlt

theorem encodedChar_eq_iff (data : List UInt8) (p : Nat) :
    encodedChar data p = 61 ↔
      encodedLength data - padding data ≤ p ∧ p < encodedLength data := by
  rw [encodedChar, padded]
  by_cases hp : encodedLength data - padding data ≤ p ∧ p < encodedLength data
  · rw [if_pos hp]
    exact iff_of_true rfl hp
  · rw [if_neg hp]
    exact iff_of_false (encodeChar_ne data p) hp

theorem readable_encodedText :
    ∀ c ∈ encodedText data, Readable .built c := by
  intro c hc
  rw [encodedText, List.mem_map] at hc
  obtain ⟨p, -, rfl⟩ := hc
  rw [encodedChar, padded]
  split
  · exact Or.inl rfl
  · exact Or.inr ⟨encodeChar_mem data p, rfl⟩

theorem getD_encodedText {p : Nat} (hp : p < encodedLength data) (d : UInt8) :
    (encodedText data).getD p d = encodedChar data p := by
  have hlt : p < (encodedText data).length := by
    rw [length_encodedText]
    exact hp
  rw [List.getD_eq_getElem _ d hlt]
  simp only [encodedText, List.getElem_map, List.getElem_range]

/-! ## The sextets -/

/-- A sextet whose character is overwritten is zero. -/
theorem sextet_of_padded {p : Nat}
    (h : encodedLength data - padding data ≤ p ∧ p < encodedLength data) :
    sextet (octetAt data) p = 0 := by
  unfold encodedLength at h
  have hpad := padding_cases data
  rcases hpad with ⟨-, hcount⟩ | ⟨hmod, hcount⟩ | ⟨hmod, hcount⟩
  · omega
  · have hb : octetAt data (3 * (data.length / 3) + 1) = 0 :=
      octetAt_of_le (by omega)
    have hc : octetAt data (3 * (data.length / 3) + 2) = 0 :=
      octetAt_of_le (by omega)
    have hzero := sextet_pad_two hb hc
    have hp : p = 4 * (data.length / 3) + 2 ∨
        p = 4 * (data.length / 3) + 3 := by omega
    rcases hp with rfl | rfl
    · exact hzero.1
    · exact hzero.2
  · have hc : octetAt data (3 * (data.length / 3) + 2) = 0 :=
      octetAt_of_le (by omega)
    have hp : p = 4 * (data.length / 3) + 3 := by omega
    rw [hp]
    exact sextet_pad_one hc

theorem sextetAt_encodedText {p : Nat} (hp : p < encodedLength data) :
    sextetAt (encodedText data) p = sextet (octetAt data) p := by
  rw [sextetAt, getD_encodedText hp]
  by_cases hin : encodedLength data - padding data ≤ p ∧
      p < encodedLength data
  · rw [(encodedChar_eq_iff data p).mpr hin, sextet_of_padded hin]
    rfl
  · rw [encodedChar, padded, if_neg hin, decodeChar_encodeChar]

/-! ## The octets -/

/-- The octets of the encoded text are those of the data. -/
theorem plain_encodedText {p : Nat} (hp : p < data.length) :
    plain (encodedText data) p = data[p] := by
  have hlast : 4 * (p / 3) + 3 < encodedLength data := by
    unfold encodedLength
    omega
  have hoctet : octet (sextetAt (encodedText data)) p =
      octet (sextet (octetAt data)) p := by
    rw [octet, octet, sextetAt_encodedText (by omega),
      sextetAt_encodedText (by omega), sextetAt_encodedText (by omega),
      sextetAt_encodedText hlast]
  rw [plain, hoctet, octet_sextet (octetAt_lt data), octetAt,
    List.getD_eq_getElem data 0 hp, UInt8.ofNat_toNat]

theorem decodedLength_encodedText (hne : data ≠ []) :
    decodedLength (encodedText data) = data.length := by
  have hpos : 0 < data.length := List.length_pos_iff.mpr hne
  have hpad := padding_cases data
  have hlen : encodedLength data = 4 * ((data.length + 2) / 3) := rfl
  rw [decodedLength, length_encodedText, getD_encodedText (by omega),
    getD_encodedText (by omega)]
  have hlast := encodedChar_eq_iff data (encodedLength data - 1)
  have hprev := encodedChar_eq_iff data (encodedLength data - 2)
  simp only [hlast, hprev]
  split <;> split <;> omega

theorem map_plain_encodedText :
    (List.range data.length).map
        (fun p => some (plain (encodedText data) p)) = data.map some := by
  apply List.ext_getElem
  · rw [List.length_map, List.length_range, List.length_map]
  · intro p h₁ h₂
    have hp : p < data.length := by
      rw [List.length_map] at h₂
      exact h₂
    rw [List.getElem_map, List.getElem_range, List.getElem_map,
      plain_encodedText hp]

theorem orBuild_of_ne {table : DecodingTable} (h : table ≠ .freed) :
    table.orBuild true = .ok .built := by
  cases table with
  | null => rfl
  | built => rfl
  | freed => exact absurd rfl h

/-- Decoding what was encoded, with or without a table from an earlier
call. -/
theorem base64Decode_base64Encode {x : List UInt8} (hne : x ≠ [])
    (hint : (4 * ((x.length + 2) / 3) : Nat) ≤ intMax) :
    ∃ encoded, base64Encode x true =
        .ok {
          outputLength := some encoded.length
          data := some (encoded.map some) } ∧
      ∀ table, table ≠ DecodingTable.freed →
        base64Decode table encoded true true =
          .ok (.built, {
            outputLength := some x.length
            data := some (x.map some) }) := by
  have hpos : 0 < x.length := List.length_pos_iff.mpr hne
  have hlen := length_encodedText x
  unfold encodedLength at hlen
  refine ⟨encodedText x, base64Encode_ok hint, ?_⟩
  intro table htable
  have hdecode := base64Decode_ok (orBuild_of_ne htable)
    (by omega : (encodedText x).length % 4 = 0)
    (List.length_pos_iff.mp (by omega)) (by omega) readable_encodedText
  rw [decodedLength_encodedText hne, map_plain_encodedText] at hdecode
  exact hdecode

/-- Two groups, the second with one character of padding. -/
theorem base64Decode_base64Encode_Mango :
    ∃ encoded, base64Encode [77, 97, 110, 103, 111] true =
        .ok {
          outputLength := some encoded.length
          data := some (encoded.map some) } ∧
      ∀ table, table ≠ DecodingTable.freed →
        base64Decode table encoded true true =
          .ok (.built, {
            outputLength := some [(77 : UInt8), 97, 110, 103, 111].length
            data := some ([77, 97, 110, 103, 111].map some) }) :=
  base64Decode_base64Encode (by decide) (by decide)

end DatahubEdge.Base64
