import DatahubEdge.Base64.Decode

/-!
# When `base64_decode` is safe

The function checks the length of its input modulo four and nothing else: the
end of an empty input is read outside of it, a character outside the alphabet
reads an entry that is not set or not there, and the counter `i` is an `int`.

## Main results

* `decodeBlock_inv` — what a turn that succeeds tells about its characters.
* `base64Decode_after_cleanup` — what can be decoded after `base64_cleanup`.
* `base64Decode_safe_iff` — the inputs on which a call is safe.
-/

namespace DatahubEdge.Base64

open Lib.While Lib.Fold

/-- The call returns NULL, or a buffer all of whose bytes it has set, without
a fault. -/
def Safe : Except Fault (DecodingTable × Output) → Prop
  | .error _ => False
  | .ok (_, out) =>
      ∀ buf, out.data = some buf →
        ∃ n, out.outputLength = some n ∧
          ∀ p, p < n → ∃ v, buf[p]? = some (some v)

variable {table : DecodingTable} {data : List UInt8}

/-! ## What a loop that ends tells -/

theorem put_inv {v : UInt8} {s s' : Cursor} (h : put v s = .ok s') :
    s'.i = s.i := by
  obtain ⟨buf, -, h⟩ := bind_eq_ok h
  obtain ⟨j, -, h⟩ := bind_eq_ok h
  cases h
  rfl

theorem putOctet_inv {n : Nat} {v : UInt32} {s s' : Cursor}
    (h : putOctet n v s = .ok s') : s'.i = s.i := by
  unfold putOctet at h
  by_cases hj : s.j < n
  · rw [if_pos hj] at h
    exact put_inv h
  · rw [if_neg hj] at h
    cases h
    rfl

/-- The characters before a position have been read. -/
def ReadUpTo (table : DecodingTable) (data : List UInt8) (i : Nat) : Prop :=
  (i : Int) ≤ intMax ∧
    ∀ p, p < i → ∃ c, data[p]? = some c ∧ Readable table c

theorem nextSextet_readUpTo {i i' : Nat} {v : UInt32}
    (h : nextSextet table data i = .ok (v, i'))
    (hread : ReadUpTo table data i) : ReadUpTo table data i' := by
  obtain ⟨hi, hint, hc⟩ := nextSextet_inv h
  refine ⟨hint, ?_⟩
  intro p hp
  by_cases heq : p = i
  · rw [heq]
    exact hc
  · exact hread.2 p (by omega)

/-- What a turn that succeeds tells about its characters. -/
theorem decodeBlock_inv {n : Nat} {s s' : Cursor}
    (h : decodeBlock table data n s = .ok s')
    (hread : ReadUpTo table data s.i) :
    ReadUpTo table data s'.i ∧ s'.i = s.i + 4 := by
  obtain ⟨⟨a, i₁⟩, ha, h⟩ := bind_eq_ok h
  obtain ⟨⟨b, i₂⟩, hb, h⟩ := bind_eq_ok h
  obtain ⟨⟨c, i₃⟩, hc, h⟩ := bind_eq_ok h
  obtain ⟨⟨d, i₄⟩, hd, h⟩ := bind_eq_ok h
  obtain ⟨s₁, h₁, h⟩ := bind_eq_ok h
  obtain ⟨s₂, h₂, h₃⟩ := bind_eq_ok h
  have hi : s'.i = i₄ := by
    rw [putOctet_inv h₃, putOctet_inv h₂, putOctet_inv h₁]
  have hfour : i₄ = s.i + 4 := by
    rw [(nextSextet_inv hd).1, (nextSextet_inv hc).1, (nextSextet_inv hb).1,
      (nextSextet_inv ha).1]
  have hread₄ : ReadUpTo table data i₄ :=
    nextSextet_readUpTo hd (nextSextet_readUpTo hc
      (nextSextet_readUpTo hb (nextSextet_readUpTo ha hread)))
  rw [hi]
  exact ⟨hread₄, hfour⟩

/-- A loop that ends has read the whole text. -/
theorem decodeLoop_inv {n : Nat} {buf : Buffer} {t : Cursor}
    (h : loop (fun s => decide (s.i < data.length))
      (decodeBlock table data n) data.length { i := 0, j := 0, buf } =
        .ok t) :
    (data.length : Int) ≤ intMax ∧ ∀ c ∈ data, Readable table c := by
  have hstart : ReadUpTo table data 0 :=
    ⟨by decide, fun p hp => absurd hp (Nat.not_lt_zero p)⟩
  have hread : ReadUpTo table data t.i := by
    apply loop_invariant (I := fun s => ReadUpTo table data s.i) _ hstart h
    intro s s' hs hcond hbody
    exact (decodeBlock_inv hbody hs).1
  have hexit : decide (t.i < data.length) = false := by
    apply loop_exit (I := fun s => ReadUpTo table data s.i)
      (m := fun s => data.length - s.i) _ _ hstart _ h
    · intro s s' hs hcond hbody
      have hlt := of_decide_eq_true hcond
      have hstep := decodeBlock_inv hbody hs
      exact ⟨hstep.1, by omega⟩
    · intro s hs hzero
      exact decide_eq_false (by omega)
    · exact Nat.sub_le _ _
  have hlen : data.length ≤ t.i := by
    have hge := of_decide_eq_false hexit
    omega
  refine ⟨by have hint := hread.1; omega, ?_⟩
  intro c hc
  obtain ⟨p, hp, rfl⟩ := List.getElem_of_mem hc
  obtain ⟨c', hget, hc'⟩ := hread.2 p (by omega)
  rw [List.getElem?_eq_getElem hp] at hget
  cases hget
  exact hc'

/-! ## The call -/

theorem sizeSub_lt {n k : Nat} (hk : 0 < k) (hle : k ≤ n) :
    sizeSub n k < n := by
  unfold sizeSub sizeT
  omega

theorem dropPadding_total {pos : Nat} (hpos : pos < data.length) (n : Nat) :
    ∃ n', dropPadding data pos n = .ok n' := by
  have hget : readByte data pos = .ok data[pos] :=
    readByte_of_get (List.getElem?_eq_getElem hpos)
  rw [dropPadding, hget, ok_bind]
  exact ⟨_, rfl⟩

/-- Where the length test fails nothing is read. -/
theorem base64Decode_of_mod {table' : DecodingTable}
    {mallocTable mallocData : Bool}
    (htable : table.orBuild mallocTable = .ok table')
    (hmod : data.length % 4 ≠ 0) :
    base64Decode table data mallocTable mallocData =
      .ok (table', { outputLength := none, data := none }) := by
  rw [base64Decode, htable, ok_bind, if_pos hmod]
  rfl

/-- Where the buffer is not allocated only the end is read. -/
theorem base64Decode_of_not_malloc {table' : DecodingTable}
    {mallocTable : Bool} (htable : table.orBuild mallocTable = .ok table')
    (hmod : data.length % 4 = 0) (hne : data ≠ []) :
    ∃ n, base64Decode table data mallocTable false =
      .ok (table', { outputLength := some n, data := none }) := by
  have hpos : 0 < data.length := List.length_pos_iff.mpr hne
  have hlast : sizeSub data.length 1 < data.length :=
    sizeSub_lt (by decide) (by omega)
  have hprev : sizeSub data.length 2 < data.length :=
    sizeSub_lt (by decide) (by omega)
  obtain ⟨n₁, h₁⟩ := dropPadding_total hlast (data.length / 4 * 3)
  obtain ⟨n₂, h₂⟩ := dropPadding_total hprev n₁
  refine ⟨n₂, ?_⟩
  rw [base64Decode, htable, ok_bind, if_neg (by omega)]
  dsimp only
  rw [h₁, ok_bind, h₂, ok_bind]
  rfl

/-- What a call that does not fault tells about a text whose length passes
the test. -/
theorem base64Decode_inv {table' : DecodingTable}
    {mallocTable mallocData : Bool} {r : DecodingTable × Output}
    (htable : table.orBuild mallocTable = .ok table')
    (hmod : data.length % 4 = 0)
    (h : base64Decode table data mallocTable mallocData = .ok r) :
    data ≠ [] ∧ (mallocData = false ∨
      (data.length : Int) ≤ intMax ∧ ∀ c ∈ data, Readable table' c) := by
  rw [base64Decode, htable, ok_bind, if_neg (by omega)] at h
  dsimp only at h
  obtain ⟨n₁, h₁, h⟩ := bind_eq_ok h
  obtain ⟨n₂, h₂, h⟩ := bind_eq_ok h
  have hne : data ≠ [] := by
    intro hnil
    rw [hnil] at h₁
    cases h₁
  refine ⟨hne, ?_⟩
  cases mallocData with
  | false => exact Or.inl rfl
  | true =>
      rw [if_pos rfl] at h
      obtain ⟨s, hs, -⟩ := bind_eq_ok h
      exact Or.inr (decodeLoop_inv hs)

/-- `base64_cleanup` leaves the pointer to the released array: after it a
text that is decoded has no character to look up. -/
theorem base64Decode_after_cleanup {table' : DecodingTable}
    {mallocTable : Bool} {r : DecodingTable × Output}
    (hcleanup : DecodingTable.built.base64Cleanup = .ok table')
    (hmod : data.length % 4 = 0)
    (h : base64Decode table' data mallocTable true = .ok r) :
    ∀ c ∈ data, c = 61 := by
  cases hcleanup
  obtain ⟨-, hread⟩ := base64Decode_inv (rfl :
    DecodingTable.freed.orBuild mallocTable = .ok .freed) hmod h
  intro c hc
  by_contra hne
  obtain ⟨-, hchars⟩ := hread.resolve_left (by decide)
  have htable := ((hchars c hc).resolve_left hne).2
  cases htable

/-- The decoding table a call uses. -/
theorem orBuild_eq_ok_iff {table' : DecodingTable} {mallocTable : Bool} :
    table.orBuild mallocTable = .ok table' ↔
      (table = .null → mallocTable = true) ∧
        table' = if table = .freed then .freed else .built := by
  cases table <;> cases mallocTable <;> cases table' <;> decide

theorem readable_iff {c : UInt8} :
    Readable (if table = .freed then .freed else .built) c ↔
      c = 61 ∨ c ∈ encodingTable ∧ table ≠ .freed := by
  unfold Readable
  by_cases hfreed : table = .freed
  · simp [hfreed]
  · simp [hfreed]

theorem safe_of_data_none {table' : DecodingTable} {n : Option Nat} :
    Safe (.ok (table', { outputLength := n, data := none })) := by
  intro buf hbuf
  cases hbuf

/-- A buffer given by a function is set in all its cells. -/
theorem safe_of_range {table' : DecodingTable} {n : Nat} {f : Nat → UInt8} :
    Safe (.ok (table', {
      outputLength := some n
      data := some ((List.range n).map (fun p => some (f p))) })) := by
  intro buf hbuf
  cases hbuf
  refine ⟨n, rfl, ?_⟩
  intro p hp
  rw [List.getElem?_map, List.getElem?_range hp]
  exact ⟨f p, rfl⟩

/-- The inputs on which a call is safe. -/
theorem base64Decode_safe_iff (table : DecodingTable) (data : List UInt8)
    (mallocTable mallocData : Bool) :
    Safe (base64Decode table data mallocTable mallocData) ↔
      (table = .null → mallocTable = true) ∧
        (data.length % 4 ≠ 0 ∨
          data ≠ [] ∧ (mallocData = false ∨
            (data.length : Int) ≤ intMax ∧
              ∀ c ∈ data, c = 61 ∨
                c ∈ encodingTable ∧ table ≠ .freed)) := by
  constructor
  · intro hsafe
    cases hcall : base64Decode table data mallocTable mallocData with
    | error e =>
        rw [hcall] at hsafe
        exact hsafe.elim
    | ok r =>
        obtain ⟨table', htable, -⟩ := bind_eq_ok hcall
        obtain ⟨hmalloc, rfl⟩ := orBuild_eq_ok_iff.mp htable
        refine ⟨hmalloc, ?_⟩
        by_cases hmod : data.length % 4 = 0
        · obtain ⟨hne, hread⟩ := base64Decode_inv htable hmod hcall
          simp only [readable_iff] at hread
          exact Or.inr ⟨hne, hread⟩
        · exact Or.inl hmod
  · rintro ⟨hmalloc, hdata⟩
    have htable := orBuild_eq_ok_iff.mpr ⟨hmalloc, rfl⟩
    by_cases hmod : data.length % 4 = 0
    · obtain ⟨hne, hread⟩ := hdata.resolve_left (fun h => h hmod)
      cases mallocData with
      | false =>
          obtain ⟨n, hcall⟩ := base64Decode_of_not_malloc htable hmod hne
          rw [hcall]
          exact safe_of_data_none
      | true =>
          obtain ⟨hint, hchars⟩ := hread.resolve_left (by decide)
          rw [base64Decode_ok htable hmod hne hint
            (fun c hc => readable_iff.mpr (hchars c hc))]
          exact safe_of_range
    · rw [base64Decode_of_mod htable hmod]
      exact safe_of_data_none

/-- The empty input: `data[input_length - 1]` is read. -/
theorem not_base64Decode_safe :
    ¬ ∀ data, Safe (base64Decode .built data true true) := by
  intro h
  exact h []

end DatahubEdge.Base64
