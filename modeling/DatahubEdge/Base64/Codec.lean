import Mathlib.Algebra.Group.Nat.Defs
import Mathlib.Data.List.GetD
import Mathlib.Data.List.Nodup
import DatahubEdge.Lib.Fold
import DatahubEdge.Lib.While
import DatahubEdge.Lib.Filled
import DatahubEdge.CJson.Tree

/-!
# The base64 codec

`base64_encode` and `base64_decode`.  Buffers from `malloc` are lists of cells
that are set or not; every access checks its position, and the `int` counters
check their range.  Whether an allocation succeeds is a parameter.
-/

namespace DatahubEdge.Base64

open Lib.While Lib.Filled

/-- What an execution must not do. -/
inductive Fault where
  | readOutside
  | writeOutside
  | tableIndex
  | unsetEntry
  | intOverflow
  | nullDeref
  | useAfterFree
  | doubleFree
  deriving DecidableEq

/-- An allocated array of bytes. -/
abbrev Buffer := List (Option UInt8)

/-! ## Memory and counters -/

/-- `malloc(size)`, once it succeeds. -/
def malloc (size : Nat) : Buffer := List.replicate size none

/-- `data[pos]`, read. -/
def readByte (data : List UInt8) (pos : Nat) : Except Fault UInt8 :=
  match data[pos]? with
  | some c => .ok c
  | none => .error .readOutside

/-- `buf[pos] = v`. -/
def store (buf : Buffer) (pos : Nat) (v : UInt8) : Except Fault Buffer :=
  if pos < buf.length then .ok (buf.set pos (some v))
  else .error .writeOutside

/-- `i++` on an `int`. -/
def incr (i : Nat) : Except Fault Nat :=
  if (i : Int) < intMax then .ok (i + 1) else .error .intOverflow

/-- A value of `size_t`. -/
def sizeT (n : Nat) : Nat := n % 2 ^ 64

/-- `n - k` in `size_t`. -/
def sizeSub (n k : Nat) : Nat := sizeT (n + 2 ^ 64 - k)

theorem readByte_of_get {data : List UInt8} {pos : Nat} {c : UInt8}
    (h : data[pos]? = some c) : readByte data pos = .ok c := by
  rw [readByte, h]

theorem get_of_readByte {data : List UInt8} {pos : Nat} {c : UInt8}
    (h : readByte data pos = .ok c) : data[pos]? = some c := by
  unfold readByte at h
  split at h
  · rename_i hget
    cases h
    exact hget
  · cases h

theorem incr_of_lt {i : Nat} (h : (i : Int) < intMax) :
    incr i = .ok (i + 1) := by
  rw [incr, if_pos h]

theorem incr_ok {i i' : Nat} (h : incr i = .ok i') :
    i' = i + 1 ∧ (i' : Int) ≤ intMax := by
  unfold incr at h
  split at h
  · cases h
    omega
  · cases h

theorem sizeT_of_lt {n : Nat} (h : (n : Int) ≤ intMax) : sizeT n = n := by
  unfold intMax at h
  unfold sizeT
  omega

theorem sizeSub_of_le {n k : Nat} (hk : k ≤ n) (hn : (n : Int) ≤ intMax) :
    sizeSub n k = n - k := by
  unfold intMax at hn
  unfold sizeSub sizeT
  omega

/-- A shift of a 32-bit word. -/
theorem toNat_ofNat_shiftLeft (a : Nat) (k : UInt32) :
    (UInt32.ofNat a <<< k).toNat =
      a % 2 ^ 32 * 2 ^ (k.toNat % 32) % 2 ^ 32 := by
  rw [UInt32.toNat_shiftLeft, UInt32.toNat_ofNat', Nat.shiftLeft_eq]

theorem toUInt32_eq (c : UInt8) : c.toUInt32 = UInt32.ofNat c.toNat := by
  apply UInt32.toNat_inj.mp
  have hlt := c.toNat_lt
  rw [UInt8.toNat_toUInt32, UInt32.toNat_ofNat']
  omega

/-! ## The tables -/

def encodingTable : List UInt8 :=
  cstr "ABCDEFGHIJKLMNOPQRSTUVWXYZabcdefghijklmnopqrstuvwxyz0123456789+/"

def modTable : List Nat := [0, 2, 1]

/-- The array `build_decoding_table` leaves in `decoding_table`. -/
def buildDecodingTable : Buffer :=
  (List.range 64).foldl
    (fun table i =>
      table.set (encodingTable.getD i 0).toNat (some (UInt8.ofNat i)))
    (malloc 256)

theorem encodingTable_eq : encodingTable =
    (List.range 26).map (fun i => UInt8.ofNat (65 + i)) ++
      (List.range 26).map (fun i => UInt8.ofNat (97 + i)) ++
      (List.range 10).map (fun i => UInt8.ofNat (48 + i)) ++ [43, 47] := by
  decide

theorem length_encodingTable : encodingTable.length = 64 := by
  rw [encodingTable_eq]
  rfl

theorem encodingTable_nodup : encodingTable.Nodup := by
  rw [encodingTable_eq]
  decide

theorem equals_not_mem : (61 : UInt8) ∉ encodingTable := by
  rw [encodingTable_eq]
  decide

theorem lt_of_mem_encodingTable : ∀ c ∈ encodingTable, c < 128 := by
  rw [encodingTable_eq]
  decide +kernel

/-- The characters that are read while the table is built. -/
theorem map_getD_encodingTable :
    (List.range 64).map (fun i => encodingTable.getD i 0) =
      encodingTable := by
  rw [encodingTable_eq]
  decide

/-- No entry is written twice. -/
theorem positions_nodup :
    ((List.range 64).map
      (fun i => (encodingTable.getD i 0).toNat)).Nodup := by
  have hmap : (List.range 64).map (fun i => (encodingTable.getD i 0).toNat) =
      encodingTable.map UInt8.toNat := by
    conv => rhs; rw [← map_getD_encodingTable]
    rw [List.map_map]
    rfl
  rw [hmap]
  exact encodingTable_nodup.map (fun a b h => UInt8.toNat_inj.mp h)

/-- The entry of a character of the alphabet is its position. -/
theorem get_buildDecodingTable_of_mem {c : UInt8} (h : c ∈ encodingTable) :
    buildDecodingTable[c.toNat]? =
      some (some (UInt8.ofNat (encodingTable.idxOf c))) := by
  have hlt : encodingTable.idxOf c < encodingTable.length :=
    List.idxOf_lt_length_of_mem h
  have hmem : encodingTable.idxOf c ∈ List.range 64 := by
    rw [List.mem_range, ← length_encodingTable]
    exact hlt
  have hget : encodingTable.getD (encodingTable.idxOf c) 0 = c := by
    rw [List.getD_eq_getElem encodingTable 0 hlt, List.getElem_idxOf]
  have hpos : (encodingTable.getD (encodingTable.idxOf c) 0).toNat <
      (malloc 256).length := by
    rw [malloc, List.length_replicate]
    exact UInt8.toNat_lt _
  have hread := get_foldl_set_of_mem (v := fun i => UInt8.ofNat i)
    positions_nodup hmem hpos
  rw [hget] at hread
  exact hread

/-- No other entry is set. -/
theorem get_buildDecodingTable_of_not_mem {c : UInt8}
    (h : c ∉ encodingTable) : buildDecodingTable[c.toNat]? = some none := by
  have hne : ∀ i ∈ List.range 64,
      (encodingTable.getD i 0).toNat ≠ c.toNat := by
    intro i hi heq
    apply h
    rw [← UInt8.toNat_inj.mp heq, ← map_getD_encodingTable]
    exact List.mem_map_of_mem hi
  have hread := get_foldl_set_of_ne (v := fun i => UInt8.ofNat i) hne
    (malloc 256)
  have hmalloc : (malloc 256)[c.toNat]? = some none :=
    List.getElem?_replicate_of_lt c.toNat_lt
  rw [hmalloc] at hread
  exact hread

/-- The pointer `decoding_table`.  Where it is not NULL its array is the one
`build_decoding_table` made. -/
inductive DecodingTable where
  | null
  | built
  | freed
  deriving DecidableEq

namespace DecodingTable

/-- `if (decoding_table == NULL) build_decoding_table();`, the result of whose
`malloc` is not checked. -/
def orBuild (mallocTable : Bool) : DecodingTable → Except Fault DecodingTable
  | .null => if mallocTable then .ok .built else .error .nullDeref
  | table => .ok table

/-- `decoding_table[c]`, with `c` a signed `char`. -/
def entry (table : DecodingTable) (c : UInt8) : Except Fault UInt8 :=
  match table with
  | .null => .error .nullDeref
  | .freed => .error .useAfterFree
  | .built =>
      if 128 ≤ c then .error .tableIndex
      else
        match buildDecodingTable[c.toNat]? with
        | some (some v) => .ok v
        | _ => .error .unsetEntry

theorem entry_of_mem {c : UInt8} (h : c ∈ encodingTable) :
    built.entry c = .ok (UInt8.ofNat (encodingTable.idxOf c)) := by
  have hlt := lt_of_mem_encodingTable c h
  rw [entry, if_neg (UInt8.not_le.mpr hlt), get_buildDecodingTable_of_mem h]

/-- An access that is allowed is to an array made before, at a character of
the alphabet. -/
theorem mem_of_entry {table : DecodingTable} {c v : UInt8}
    (h : table.entry c = .ok v) : table = .built ∧ c ∈ encodingTable := by
  cases table with
  | null => cases h
  | freed => cases h
  | built =>
      by_contra hmem
      have hread := get_buildDecodingTable_of_not_mem
        (fun hc => hmem ⟨rfl, hc⟩)
      rw [entry, hread] at h
      by_cases hge : 128 ≤ c
      · rw [if_pos hge] at h
        cases h
      · rw [if_neg hge] at h
        cases h

/-- `base64_cleanup`, which leaves the pointer as it is. -/
def base64Cleanup : DecodingTable → Except Fault DecodingTable
  | .null => .ok .null
  | .built => .ok .freed
  | .freed => .error .doubleFree

end DecodingTable

/-! ## The functions -/

/-- The counters `i` and `j` and the array that is filled. -/
structure Cursor where
  i : Nat
  j : Nat
  buf : Buffer
  deriving DecidableEq

/-- What a call writes to `*output_length` and the array it returns, if any. -/
structure Output where
  outputLength : Option Nat
  data : Option Buffer
  deriving DecidableEq

/-- `buf[j++] = v`. -/
def put (v : UInt8) (s : Cursor) : Except Fault Cursor := do
  let buf ← store s.buf s.j v
  let j ← incr s.j
  return { s with j, buf }

/-- Writing the next byte of a buffer that is filled from the left. -/
theorem put_filled (f : Nat → UInt8) {i j n : Nat} (hj : j < n)
    (hint : (j : Int) < intMax) :
    put (f j) { i, j, buf := filled f j n } =
      .ok { i, j := j + 1, buf := filled f (j + 1) n } := by
  have hstore : store (filled f j n) j (f j) = .ok (filled f (j + 1) n) := by
    rw [store, if_pos (by rw [length_filled]; exact hj), set_filled]
  have hincr : incr j = .ok (j + 1) := incr_of_lt hint
  simp only [put, hstore, hincr, Lib.Fold.ok_bind]
  rfl

section Encode

variable (data : List UInt8)

/-- `i < input_length ? (unsigned char)data[i++] : 0`. -/
def nextOctet (i : Nat) : Except Fault (UInt32 × Nat) :=
  if i < data.length then do
    let c ← readByte data i
    let i' ← incr i
    return (c.toUInt32, i')
  else .ok (0, i)

/-- `encoded_data[j++] = encoding_table[n]`. -/
def putChar (n : UInt32) (s : Cursor) : Except Fault Cursor :=
  match encodingTable[n.toNat]? with
  | some c => put c s
  | none => .error .tableIndex

/-- One turn of the loop of `base64_encode`. -/
def encodeBlock (s : Cursor) : Except Fault Cursor := do
  let (octetA, i) ← nextOctet data s.i
  let (octetB, i) ← nextOctet data i
  let (octetC, i) ← nextOctet data i
  let triple := (octetA <<< 0x10) + (octetB <<< 0x08) + octetC
  let s ← putChar ((triple >>> (3 * 6)) &&& 0x3F) { s with i }
  let s ← putChar ((triple >>> (2 * 6)) &&& 0x3F) s
  let s ← putChar ((triple >>> (1 * 6)) &&& 0x3F) s
  putChar ((triple >>> (0 * 6)) &&& 0x3F) s

/-- The loop that overwrites the end with `=`. -/
def pad (outputLength count : Nat) (buf : Buffer) : Except Fault Buffer :=
  (List.range count).foldlM
    (fun buf i => store buf (sizeSub (sizeSub outputLength 1) i) 61) buf

def base64Encode (mallocData : Bool) : Except Fault Output :=
  let outputLength := sizeT (4 * (sizeT (data.length + 2) / 3))
  if mallocData then do
    let s ← loop (fun s => decide (s.i < data.length)) (encodeBlock data)
      data.length { i := 0, j := 0, buf := malloc outputLength }
    let buf ← pad outputLength (modTable.getD (data.length % 3) 0) s.buf
    return { outputLength := some outputLength, data := some buf }
  else .ok { outputLength := some outputLength, data := none }

end Encode

section Decode

variable (table : DecodingTable) (data : List UInt8)

/-- `data[i] == '=' ? 0 & i++ : decoding_table[data[i++]]`. -/
def nextSextet (i : Nat) : Except Fault (UInt32 × Nat) := do
  let c ← readByte data i
  let i' ← incr i
  if c = 61 then return (0, i')
  else
    let v ← table.entry c
    return (v.toUInt32, i')

/-- `if (j < *output_length) decoded_data[j++] = n;` -/
def putOctet (outputLength : Nat) (n : UInt32) (s : Cursor) :
    Except Fault Cursor :=
  if s.j < outputLength then put n.toUInt8 s else .ok s

/-- One turn of the loop of `base64_decode`. -/
def decodeBlock (outputLength : Nat) (s : Cursor) : Except Fault Cursor := do
  let (sextetA, i) ← nextSextet table data s.i
  let (sextetB, i) ← nextSextet table data i
  let (sextetC, i) ← nextSextet table data i
  let (sextetD, i) ← nextSextet table data i
  let triple := (sextetA <<< (3 * 6)) + (sextetB <<< (2 * 6)) +
    (sextetC <<< (1 * 6)) + (sextetD <<< (0 * 6))
  let s ← putOctet outputLength ((triple >>> (2 * 8)) &&& 0xFF) { s with i }
  let s ← putOctet outputLength ((triple >>> (1 * 8)) &&& 0xFF) s
  putOctet outputLength ((triple >>> (0 * 8)) &&& 0xFF) s

/-- `if (data[pos] == '=') (*output_length)--;` -/
def dropPadding (pos outputLength : Nat) : Except Fault Nat := do
  let c ← readByte data pos
  return if c = 61 then sizeSub outputLength 1 else outputLength

def base64Decode (mallocTable mallocData : Bool) :
    Except Fault (DecodingTable × Output) := do
  let table ← table.orBuild mallocTable
  if data.length % 4 ≠ 0 then
    return (table, { outputLength := none, data := none })
  else
    let outputLength := data.length / 4 * 3
    let outputLength ← dropPadding data (sizeSub data.length 1) outputLength
    let outputLength ← dropPadding data (sizeSub data.length 2) outputLength
    if mallocData then
      let s ← loop (fun s => decide (s.i < data.length))
        (decodeBlock table data outputLength) data.length
        { i := 0, j := 0, buf := malloc outputLength }
      return (table, { outputLength := some outputLength, data := some s.buf })
    else return (table, { outputLength := some outputLength, data := none })

end Decode

end DatahubEdge.Base64
