import DatahubEdge.CJson.Grammar
import DatahubEdge.Lib.Buffer

/-!
# `parse_string` in memory

The first loop of `parse_string` looks for the closing quotation mark and
counts the backslashes that take a byte along, the allocation is the distance
less that count, and the second loop writes into it.  A `\u` with digits that
are not hexadecimal stands for a zero byte and takes four bytes along
unseen, so that the second loop can lose the pairs of the first one and read
the closing quotation mark as an escape.

The bytes of a code point are written last to first; here they are written in
order.

## Main results

* `parseStringBuffer_meets` — nothing is written or read outside of the
  allocation, and the result is that of `parseString`, unless the allocation
  is denied.
-/

namespace DatahubEdge

open Lib.Buffer

/-! ## The two loops -/

/-- The first loop, from `input_end` and `skipped_bytes` on. -/
def scanString : CString → Nat → Nat → Option (Nat × Nat)
  | [], _, _ => none
  | c :: rest, inputEnd, skippedBytes =>
      if c = 34 then some (inputEnd, skippedBytes)
      else if c = 92 then
        match rest with
        | [] => none
        | _ :: rest => scanString rest (inputEnd + 2) (skippedBytes + 1)
      else scanString rest (inputEnd + 1) skippedBytes

/-- The second loop on the bytes up to `input_end`, with the output and the
position of `output_pointer` in it. -/
def writeString (output : Cells UInt8) (pos : Nat) :
    CString → Run (Cells UInt8 × Nat)
  | [] => .ok (output, pos)
  | c :: rest =>
      if c ≠ 92 then do
        let output ← store output pos c
        writeString output (pos + 1) rest
      else
        match rest with
        | [] => do
            -- the byte after the last one is the closing quotation mark
            let output ← store output pos 34
            return (output, pos + 1)
        | e :: rest =>
            if e ≠ 117 then
              match escapedByte e with
              | none => giveUp
              | some b => do
                  let output ← store output pos b
                  writeString output (pos + 1) rest
            else
              match rest with
              | h₁ :: h₂ :: h₃ :: h₄ :: rest =>
                  let first := parseHex4 h₁ h₂ h₃ h₄
                  if 0xDC00 ≤ first ∧ first ≤ 0xDFFF then giveUp
                  else if 0xD800 ≤ first ∧ first ≤ 0xDBFF then
                    match rest with
                    | s :: u :: l₁ :: l₂ :: l₃ :: l₄ :: rest =>
                        let second := parseHex4 l₁ l₂ l₃ l₄
                        if s = 92 ∧ u = 117 ∧ 0xDC00 ≤ second ∧
                            second ≤ 0xDFFF then do
                          let bytes := utf8 (0x10000 + first % 1024 * 1024 +
                            second % 1024)
                          let output ← storeAll output pos bytes
                          writeString output (pos + bytes.length) rest
                        else giveUp
                    | _ => giveUp
                  else do
                    let bytes := utf8 first
                    let output ← storeAll output pos bytes
                    writeString output (pos + bytes.length) rest
              | _ => giveUp

/-- `parse_string` on the bytes after the opening quotation mark.  The
allocator grants `malloc` sizes. -/
def parseStringBuffer (malloc : Nat → Bool) (text : CString) :
    Run (CString × CString) :=
  match scanString text 0 0 with
  | none => giveUp
  | some (inputEnd, skippedBytes) =>
      let allocationLength := inputEnd + 1 - skippedBytes
      do
        request (fun _ => malloc) 0 (allocationLength + 1)
        let (output, pos) ← writeString (fresh (allocationLength + 1)) 0
          (text.take inputEnd)
        let output ← store output pos 0
        let valuestring ← readUntil 0 output
        return (valuestring, text.drop (inputEnd + 1))

/-! ## The size of the allocation -/

/-- The backslashes that take a byte along. -/
def skips : CString → Nat
  | [] => 0
  | c :: rest =>
      if c = 92 then
        match rest with
        | [] => 0
        | _ :: rest => skips rest + 1
      else skips rest

/-- The cells the output of some bytes may take. -/
def room (body : CString) : Nat := body.length - skips body

private theorem skips_cons_ne {c : UInt8} (rest : CString) (h : c ≠ 92) :
    skips (c :: rest) = skips rest := by
  rw [skips.eq_def]
  simp only [if_neg h]

private theorem skips_escape (e : UInt8) (rest : CString) :
    skips (92 :: e :: rest) = skips rest + 1 := by
  rw [skips.eq_def]
  simp only [if_true]

/-- Starting the count a byte later changes it by one at most. -/
theorem skips_tail (c : UInt8) (rest : CString) :
    skips rest ≤ skips (c :: rest) ∧ skips (c :: rest) ≤ skips rest + 1 := by
  induction rest generalizing c with
  | nil =>
      by_cases hc : c = 92
      · subst hc
        decide
      · rw [skips_cons_ne [] hc]
        omega
  | cons d rest ih =>
      by_cases hc : c = 92
      · subst hc
        have hd := ih d
        rw [skips_escape]
        omega
      · rw [skips_cons_ne (d :: rest) hc]
        omega

theorem skips_le_length (body : CString) : skips body ≤ body.length := by
  fun_induction skips body with
  | case1 => exact Nat.le_refl 0
  | case2 => exact Nat.zero_le _
  | case3 e rest ih =>
      simp only [List.length_cons]
      omega
  | case4 c rest hc ih =>
      rw [List.length_cons]
      omega

/-- A byte that is no backslash takes a cell. -/
private theorem room_cons_ne {c : UInt8} (rest : CString) (h : c ≠ 92) :
    room (c :: rest) = room rest + 1 := by
  have := skips_le_length rest
  rw [room, room, skips_cons_ne rest h, List.length_cons]
  omega

/-- So do a backslash and the byte it takes along. -/
private theorem room_escape (e : UInt8) (rest : CString) :
    room (92 :: e :: rest) = room rest + 1 := by
  have := skips_le_length rest
  rw [room, room, skips_escape, List.length_cons, List.length_cons]
  omega

/-- Four bytes that are passed unseen still leave a cell for a zero byte. -/
private theorem room_unicode (h₁ h₂ h₃ h₄ : UInt8) (rest : CString) :
    room rest + 1 ≤ room (92 :: 117 :: h₁ :: h₂ :: h₃ :: h₄ :: rest) := by
  have h1 := (skips_tail h₁ (h₂ :: h₃ :: h₄ :: rest)).2
  have h2 := (skips_tail h₂ (h₃ :: h₄ :: rest)).2
  have h3 := (skips_tail h₃ (h₄ :: rest)).2
  have h4 := (skips_tail h₄ rest).2
  have hle := skips_le_length (h₁ :: h₂ :: h₃ :: h₄ :: rest)
  rw [room_escape, room, room]
  simp only [List.length_cons] at hle ⊢
  omega

/-- Four hexadecimal digits leave room for four more. -/
private theorem room_hex {h₁ h₂ h₃ h₄ : UInt8} (rest : CString)
    (hne : h₁ ≠ 92 ∧ h₂ ≠ 92 ∧ h₃ ≠ 92 ∧ h₄ ≠ 92) :
    room (92 :: 117 :: h₁ :: h₂ :: h₃ :: h₄ :: rest) = room rest + 5 := by
  rw [room_escape, room_cons_ne _ hne.1, room_cons_ne _ hne.2.1,
    room_cons_ne _ hne.2.2.1, room_cons_ne _ hne.2.2.2]

/-- Digits with a value are hexadecimal. -/
private theorem hex_of_ne_zero {h₁ h₂ h₃ h₄ : UInt8}
    (h : parseHex4 h₁ h₂ h₃ h₄ ≠ 0) :
    h₁ ≠ 92 ∧ h₂ ≠ 92 ∧ h₃ ≠ 92 ∧ h₄ ≠ 92 := by
  have hslash : hexValue 92 = none := by decide
  refine ⟨?_, ?_, ?_, ?_⟩
  · rintro rfl
    simp [parseHex4, hslash] at h
  · rintro rfl
    simp [parseHex4, hslash] at h
  · rintro rfl
    simp [parseHex4, hslash] at h
  · rintro rfl
    simp [parseHex4, hslash] at h

theorem length_utf8 (codepoint : Nat) :
    (utf8 codepoint).length ≤ 4 ∧
      (codepoint < 0x80 → (utf8 codepoint).length = 1) := by
  unfold utf8
  split
  · simp
  split
  · simp
    omega
  split
  · simp
    omega
  · simp
    omega

/-! ## The second loop -/

/-- The second loop gives up on what cannot be unescaped. -/
def Rejected (body : CString) : Refusal → Prop :=
  fun why => why = .givenUp ∧ unescape body = none

/-- What the second loop leaves of an output that held `written`: behind it
the unescaped bytes. -/
def Unescaped (body : CString) (output : Cells UInt8) (written : CString)
    (r : Cells UInt8 × Nat) : Prop :=
  ∃ out, unescape body = some out ∧ Holds r.1 (written ++ out) ∧
    r.2 = (written ++ out).length ∧ r.1.length = output.length ∧
    r.2 < output.length

/-- The bytes of an escape, or a byte that is none, and then the rest. -/
private theorem unit_meets {body rest bytes : CString}
    (hbody : unescape body = (unescape rest).map (bytes ++ ·))
    (hroom : bytes.length + room rest ≤ room body)
    (ih : ∀ {output : Cells UInt8} {written : CString}, Holds output written →
      written.length + room rest < output.length →
      Meets (Rejected rest) (Unescaped rest output written)
        (writeString output written.length rest))
    {output : Cells UInt8} {written : CString} (hholds : Holds output written)
    (hfits : written.length + room body < output.length) :
    Meets (Rejected body) (Unescaped body output written) (do
      let output ← storeAll output written.length bytes
      writeString output (written.length + bytes.length) rest) := by
  refine (storeAll_meets _ _ hholds (by omega)).bind ?_
  rintro output' ⟨hholds', hlength⟩
  rw [← List.length_append]
  have hrest := ih hholds' (by
    rw [List.length_append, hlength]
    omega)
  have hnone : Rejected body = Rejected rest := by
    unfold Rejected
    rw [hbody, Option.map_eq_none_iff]
  rw [hnone]
  refine hrest.mono ?_
  rintro r ⟨out, hout, hholds'', hpos, hsize, hlt⟩
  rw [List.append_assoc] at hholds'' hpos
  refine ⟨bytes ++ out, ?_, hholds'', hpos, hsize.trans hlength, by omega⟩
  rw [hbody, hout]
  rfl

private theorem refused_meets {body : CString} {output : Cells UInt8}
    {written : CString} (h : unescape body = none) :
    Meets (Rejected body) (Unescaped body output written)
      giveUp := meets_giveUp ⟨rfl, h⟩

/-- The second loop stays inside of the allocation and unescapes the bytes. -/
theorem writeString_meets (body : CString) :
    ∀ {output : Cells UInt8} {written : CString}, Holds output written →
      written.length + room body < output.length →
      Meets (Rejected body) (Unescaped body output written)
        (writeString output written.length body) := by
  have hslash : ∀ {c : UInt8}, ¬ c ≠ 92 → c = 92 := not_not.mp
  induction body using unescape.induct with
  | case1 =>
      intro output written hholds hfits
      rw [writeString]
      refine ⟨[], by rw [unescape], by rwa [List.append_nil], by simp, rfl, ?_⟩
      exact Nat.lt_of_le_of_lt (Nat.le_add_right _ _) hfits
  | case2 c rest hc ih =>
      intro output written hholds hfits
      have hbody : unescape (c :: rest) = (unescape rest).map ([c] ++ ·) := by
        rw [unescape.eq_def]
        simp only [if_pos hc]
        rfl
      have hmeets := unit_meets hbody (by
          rw [room_cons_ne rest hc, List.length_singleton]
          omega) ih hholds hfits
      rw [storeAll_singleton] at hmeets
      rw [writeString.eq_def]
      simp only [if_pos hc]
      exact hmeets
  | case3 c hc =>
      intro output written hholds hfits
      obtain rfl := hslash hc
      have hone : written.length + 1 < output.length := hfits
      rw [writeString.eq_def]
      refine (store_meets _ 34 hholds (by omega)).bind ?_
      rintro output' ⟨hholds', hlength⟩
      refine ⟨[34], ?_, hholds', by simp, hlength, hone⟩
      rw [unescape.eq_def]
      rfl
  | case4 c hc e rest he hescaped =>
      intro output written hholds hfits
      obtain rfl := hslash hc
      have hnone : unescape (92 :: e :: rest) = none := by
        rw [unescape.eq_def]
        simp only [hc, if_false, if_pos he, hescaped]
      rw [writeString.eq_def]
      simp only [hc, if_false, if_pos he, hescaped]
      exact refused_meets hnone
  | case5 c hc e rest he b hescaped ih =>
      intro output written hholds hfits
      obtain rfl := hslash hc
      have hbody : unescape (92 :: e :: rest) =
          (unescape rest).map ([b] ++ ·) := by
        rw [unescape.eq_def]
        simp only [hc, if_false, if_pos he, hescaped]
        rfl
      have hmeets := unit_meets hbody (by
          rw [room_escape, List.length_singleton]
          omega) ih hholds hfits
      rw [storeAll_singleton] at hmeets
      rw [writeString.eq_def]
      simp only [hc, if_false, if_pos he, hescaped]
      exact hmeets
  | case6 c hc e he h₁ h₂ h₃ h₄ rest first =>
      rename_i hlow
      dsimp only [first] at hlow
      intro output written hholds hfits
      obtain rfl := hslash hc
      have hnone : unescape (92 :: e :: h₁ :: h₂ :: h₃ :: h₄ :: rest) =
          none := by
        rw [unescape.eq_def]
        simp only [hc, he, if_false, if_pos hlow]
      rw [writeString.eq_def]
      simp only [hc, he, if_false, if_pos hlow]
      exact refused_meets hnone
  | case7 c hc e he h₁ h₂ h₃ h₄ first hlow hhigh s u l₁ l₂ l₃ l₄ rest second =>
      rename_i hpair ih
      dsimp only [first, second] at hlow hhigh hpair
      intro output written hholds hfits
      obtain rfl := hslash hc
      obtain rfl := not_not.mp he
      obtain ⟨rfl, rfl, hsecond⟩ := hpair
      have hfirst : parseHex4 h₁ h₂ h₃ h₄ ≠ 0 := by omega
      have hsecond' : parseHex4 l₁ l₂ l₃ l₄ ≠ 0 := by omega
      have hbytes := (length_utf8 (0x10000 +
        parseHex4 h₁ h₂ h₃ h₄ % 1024 * 1024 +
        parseHex4 l₁ l₂ l₃ l₄ % 1024)).1
      have hbody : unescape (92 :: 117 :: h₁ :: h₂ :: h₃ :: h₄ :: 92 :: 117 ::
          l₁ :: l₂ :: l₃ :: l₄ :: rest) =
          (unescape rest).map (utf8 (0x10000 +
            parseHex4 h₁ h₂ h₃ h₄ % 1024 * 1024 +
            parseHex4 l₁ l₂ l₃ l₄ % 1024) ++ ·) := by
        rw [unescape.eq_def]
        simp only [hc, he, if_false, if_neg hlow, if_pos hhigh, true_and,
          if_pos hsecond]
      rw [writeString.eq_def]
      simp only [hc, he, if_false, if_neg hlow, if_pos hhigh, true_and,
        if_pos hsecond]
      refine unit_meets hbody ?_ ih hholds hfits
      rw [room_hex _ (hex_of_ne_zero hfirst),
        room_hex _ (hex_of_ne_zero hsecond')]
      omega
  | case8 c hc e he h₁ h₂ h₃ h₄ first hlow hhigh s u l₁ l₂ l₃ l₄ rest =>
      rename_i second hpair
      dsimp only [first, second] at hlow hhigh hpair
      intro output written hholds hfits
      obtain rfl := hslash hc
      have hnone : unescape (92 :: e :: h₁ :: h₂ :: h₃ :: h₄ :: s :: u :: l₁ ::
          l₂ :: l₃ :: l₄ :: rest) = none := by
        rw [unescape.eq_def]
        simp only [hc, he, if_false, if_neg hlow, if_pos hhigh, if_neg hpair]
      rw [writeString.eq_def]
      simp only [hc, he, if_false, if_neg hlow, if_pos hhigh, if_neg hpair]
      exact refused_meets hnone
  | case9 c hc e he h₁ h₂ h₃ h₄ rest first hlow hhigh =>
      rename_i hshort
      dsimp only [first] at hlow hhigh
      intro output written hholds hfits
      obtain rfl := hslash hc
      have hnone : unescape (92 :: e :: h₁ :: h₂ :: h₃ :: h₄ :: rest) =
          none := by
        rw [unescape.eq_def]
        simp only [hc, he, if_false, if_neg hlow, if_pos hhigh]
      rw [writeString.eq_def]
      simp only [hc, he, if_false, if_neg hlow, if_pos hhigh]
      exact refused_meets hnone
  | case10 c hc e he h₁ h₂ h₃ h₄ rest first hlow hhigh =>
      rename_i ih
      dsimp only [first] at hlow hhigh
      intro output written hholds hfits
      obtain rfl := hslash hc
      obtain rfl := not_not.mp he
      have hbody : unescape (92 :: 117 :: h₁ :: h₂ :: h₃ :: h₄ :: rest) =
          (unescape rest).map (utf8 (parseHex4 h₁ h₂ h₃ h₄) ++ ·) := by
        rw [unescape.eq_def]
        simp only [hc, he, if_false, if_neg hlow, if_neg hhigh]
      have hbytes := length_utf8 (parseHex4 h₁ h₂ h₃ h₄)
      rw [writeString.eq_def]
      simp only [hc, he, if_false, if_neg hlow, if_neg hhigh]
      refine unit_meets hbody ?_ ih hholds hfits
      by_cases hfirst : parseHex4 h₁ h₂ h₃ h₄ = 0
      · have hroom := room_unicode h₁ h₂ h₃ h₄ rest
        have hlength := hbytes.2 (by omega)
        omega
      · rw [room_hex _ (hex_of_ne_zero hfirst)]
        omega
  | case11 c hc e rest he hshort =>
      intro output written hholds hfits
      obtain rfl := hslash hc
      have hnone : unescape (92 :: e :: rest) = none := by
        rw [unescape.eq_def]
        simp only [hc, he, if_false]
      rw [writeString.eq_def]
      simp only [hc, he, if_false]
      exact refused_meets hnone

/-! ## The whole function -/

/-- The first loop finds the closing quotation mark and counts the pairs. -/
theorem scanString_eq (text : CString) (inputEnd skippedBytes : Nat) :
    scanString text inputEnd skippedBytes =
      (closeQuote text).map fun r =>
        (inputEnd + r.1.length, skippedBytes + skips r.1) := by
  fun_induction closeQuote text generalizing inputEnd skippedBytes with
  | case1 => rfl
  | case2 rest =>
      rw [scanString.eq_def]
      rfl
  | case3 hne =>
      rw [scanString.eq_def]
      rfl
  | case4 e rest hne ih =>
      rw [scanString.eq_def]
      simp only [if_neg hne, if_true, ih, Option.map_map]
      refine Option.map_congr fun r _ => Prod.ext ?_ ?_
      · simp only [Function.comp, List.length_cons]
        omega
      · simp only [Function.comp, skips_escape]
        omega
  | case5 c rest hquote hslash ih =>
      rw [scanString.eq_def]
      simp only [if_neg hquote, if_neg hslash, ih, Option.map_map]
      refine Option.map_congr fun r _ => Prod.ext ?_ ?_
      · simp only [Function.comp, List.length_cons]
        omega
      · simp only [Function.comp, skips_cons_ne _ hslash]

/-- The size `parse_string` asks the allocator for: one byte for every byte
of the literal with its first quotation mark but the backslashes that take a
byte along, and one for the terminator. -/
def stringRequest (text : CString) : Option Nat :=
  (closeQuote text).map fun r => r.1.length + 1 - skips r.1 + 1

/-- Why `parse_string` may refuse a text: it starts with no literal, or the
allocation for the literal was denied. -/
def StringExcuse (malloc : Nat → Bool) (text : CString) : Refusal → Prop
  | .givenUp => parseString text = none
  | .denied _ size => stringRequest text = some size ∧ malloc size = false

/-- `parse_string` makes no access outside of its allocation and reads no cell
nothing was written to.  It fails only if the text is no literal or the
allocation it asks for is denied, and otherwise returns the string of the
literal. -/
theorem parseStringBuffer_meets (malloc : Nat → Bool) (text : CString) :
    Meets (StringExcuse malloc text) (fun r => parseString text = some r)
      (parseStringBuffer malloc text) := by
  unfold parseStringBuffer
  rw [scanString_eq]
  cases hclose : closeQuote text with
  | none =>
      refine meets_giveUp ?_
      show parseString text = none
      unfold parseString
      rw [hclose]
      rfl
  | some r =>
      obtain ⟨body, rest⟩ := r
      have htext := (quoted_of_closeQuote hclose).1
      have hskips := skips_le_length body
      simp only [Option.map_some, Nat.zero_add]
      refine meets_request ?_ ?_
      · intro hdenied
        refine ⟨?_, hdenied⟩
        rw [stringRequest, hclose]
        rfl
      have htake : text.take body.length = body := by rw [htext, List.take_left]
      have hdrop : text.drop (body.length + 1) = rest := by
        rw [htext, ← List.drop_drop, List.drop_left]
        rfl
      have hparse : parseString text = (unescape body).map fun output =>
          (output.takeWhile fun c => c ≠ 0, rest) := by
        unfold parseString
        rw [hclose]
        dsimp only [bind, Option.bind]
        cases unescape body with
        | none => rfl
        | some output => rfl
      have hwrite := writeString_meets body
        (holds_nil (fresh (body.length + 1 - skips body + 1))) (by
          rw [fresh, List.length_replicate, List.length_nil, room]
          omega)
      have hexcuse : ∀ why, Rejected body why →
          StringExcuse malloc text why := by
        rintro why ⟨rfl, hnone⟩
        show parseString text = none
        rw [hparse, hnone]
        rfl
      rw [htake, hdrop, hparse]
      refine (hwrite.weaken hexcuse).bind ?_
      rintro ⟨output, pos⟩ ⟨out, hout, hholds, hpos, hlength, hlt⟩
      dsimp only at hholds hpos hlength hlt ⊢
      rw [List.nil_append] at hholds hpos
      rw [hpos] at hlt ⊢
      refine (store_meets _ _ hholds (by omega)).bind ?_
      rintro output' ⟨hholds', _⟩
      rw [readUntil_holds hholds', hout]
      rfl

-- The closing quotation mark is written, behind the zero byte of `\u123\`.
example : parseStringBuffer (fun _ => true) (cstr "a\\u123\\\\\"") =
    .ok (cstr "a", []) := by
  decide +kernel

end DatahubEdge
