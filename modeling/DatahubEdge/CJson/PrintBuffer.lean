import Mathlib.Data.List.TakeWhile
import DatahubEdge.CJson.Format
import DatahubEdge.Lib.Buffer

/-!
# Printing into a buffer

The printer of `cJSON.c` asks `ensure` for room before every piece of text,
writes the piece behind `offset` and moves `offset` on, at once or by way of
`update_offset`, which takes the length of what was written up to its
terminator.  A buffer that is too small is reallocated to twice the size that
is needed, unless it belongs to the caller.

The allocator is a parameter: it grants or denies a size, and may do so
differently from call to call.  A run that ends because a request was denied
names that request.

## Main results

* `ensure_meets` — there is room after `ensure`, or a reason to refuse.
* `emit_ready`, `emit_printed` — a piece of text is appended.
* `updateOffset_terminated` — `offset` arrives at the end of the text.
-/

namespace DatahubEdge.Printing

open Lib.Buffer

/-! ## The printer -/

/-- `INT_MAX` as a size. -/
def sizeLimit : Nat := 2147483647

/-- A `printbuffer`; `calls` counts the allocations so far. -/
structure PrintBuffer where
  buffer : Cells UInt8
  length : Nat
  offset : Nat
  depth : Nat
  calls : Nat

section Printer

variable (alloc : Nat → Nat → Bool) (noalloc format : Bool)
  (printNumberText : Rat → CString)

/-- `ensure`. -/
def ensure (p : PrintBuffer) (needed : Nat) : Run PrintBuffer :=
  if 0 < p.length ∧ p.length ≤ p.offset then giveUp
  else if sizeLimit < needed then giveUp
  else
    let needed := needed + p.offset + 1
    if needed ≤ p.length then .ok p
    else if noalloc then giveUp
    else if sizeLimit / 2 < needed ∧ sizeLimit < needed then giveUp
    else do
      let newsize := if sizeLimit / 2 < needed then sizeLimit else needed * 2
      request alloc p.calls newsize
      return { p with
        buffer := resize p.buffer newsize
        length := newsize
        calls := p.calls + 1 }

/-- The pattern of every piece of text: room for `needed` bytes, the bytes
from `offset` on, and `offset` moved by `advance`. -/
def emit (p : PrintBuffer) (needed : Nat) (bytes : CString) (advance : Nat) :
    Run PrintBuffer := do
  let p ← ensure alloc noalloc p needed
  let buffer ← storeAll p.buffer p.offset bytes
  return { p with buffer := buffer, offset := p.offset + advance }

/-- `update_offset`. -/
def updateOffset (p : PrintBuffer) : Run PrintBuffer := do
  let written ← readUntil 0 (p.buffer.drop p.offset)
  return { p with offset := p.offset + written.length }

/-- `print_number`: the text goes through a buffer of 26 bytes. -/
def printNumber (p : PrintBuffer) (valuedouble : Rat) : Run PrintBuffer := do
  let number := printNumberText valuedouble
  let _ ← storeAll (fresh 26) 0 (number ++ [0])
  if 25 < number.length then giveUp
  else emit alloc noalloc p (number.length + 1) (number ++ [0]) number.length

/-- The count of bytes by which escaping makes a string longer. -/
def escapeCharacters : CString → Nat
  | [] => 0
  | c :: input =>
      (if c ∈ [34, 92, 8, 12, 10, 13, 9] then 1
        else if c < 32 then 5 else 0) + escapeCharacters input

/-- The letter of a short escape sequence. -/
def escapeLetter (c : UInt8) : Option UInt8 :=
  if c = 92 then some 92
  else if c = 34 then some 34
  else if c = 8 then some 98
  else if c = 12 then some 102
  else if c = 10 then some 110
  else if c = 13 then some 114
  else if c = 9 then some 116
  else none

/-- The loop of `print_string_ptr` that copies the string, with the position
of `output_pointer`. -/
def copyString (buffer : Cells UInt8) (pos : Nat) :
    CString → Run (Cells UInt8)
  | [] => .ok buffer
  | c :: input =>
      if 31 < c ∧ c ≠ 34 ∧ c ≠ 92 then do
        let buffer ← store buffer pos c
        copyString buffer (pos + 1) input
      else do
        let buffer ← store buffer pos 92
        match escapeLetter c with
        | some letter => do
            let buffer ← store buffer (pos + 1) letter
            copyString buffer (pos + 2) input
        | none => do
            -- `sprintf` writes a terminator behind the digits
            let buffer ← storeAll buffer (pos + 1)
              [117, 48, 48, 48 + c / 16, hexDigit (c % 16), 0]
            copyString buffer (pos + 6) input

/-- `print_string_ptr`. -/
def printStringPtr (p : PrintBuffer) (input : CString) :
    Run PrintBuffer := do
  let outputLength := input.length + escapeCharacters input
  let p ← ensure alloc noalloc p (outputLength + 3)
  if escapeCharacters input = 0 then do
    let buffer ← storeAll p.buffer p.offset (34 :: (input ++ [34, 0]))
    return { p with buffer := buffer }
  else do
    let buffer ← store p.buffer p.offset 34
    let buffer ← copyString buffer (p.offset + 1) input
    let buffer ← store buffer (p.offset + outputLength + 1) 34
    let buffer ← store buffer (p.offset + outputLength + 2) 0
    return { p with buffer := buffer }

/-- The tabs in front of a member. -/
def indent (p : PrintBuffer) : Run PrintBuffer :=
  if format then
    emit alloc noalloc p p.depth (List.replicate p.depth 9) p.depth
  else .ok p

mutual

/-- `print_value`. -/
def printValue (p : PrintBuffer) : CJson → Run PrintBuffer
  | .null => emit alloc noalloc p 5 (cstr "null" ++ [0]) 0
  | .bool false => emit alloc noalloc p 6 (cstr "false" ++ [0]) 0
  | .bool true => emit alloc noalloc p 5 (cstr "true" ++ [0]) 0
  | .number valuedouble =>
      printNumber alloc noalloc printNumberText p valuedouble
  | .string valuestring => printStringPtr alloc noalloc p valuestring
  | .array child => do
      -- `print_array`
      let p ← emit alloc noalloc p 1 [91] 1
      let p ← printArray { p with depth := p.depth + 1 } child
      let p ← emit alloc noalloc p 2 [93, 0] 0
      return { p with depth := p.depth - 1 }
  | .object child => do
      -- `print_object`
      let opening := 123 :: formatted format [10]
      let p ← emit alloc noalloc p (opening.length + 1) opening opening.length
      let p ← printObject { p with depth := p.depth + 1 } child
      let p ← emit alloc noalloc p (if format then p.depth + 1 else 2)
        (formatted format (List.replicate (p.depth - 1) 9) ++ [125, 0]) 0
      return { p with depth := p.depth - 1 }

/-- The loop of `print_array`. -/
def printArray (p : PrintBuffer) : List CJson → Run PrintBuffer
  | [] => .ok p
  | [currentElement] => do
      let p ← printValue p currentElement
      updateOffset p
  | currentElement :: next => do
      let p ← printValue p currentElement
      let p ← updateOffset p
      let separator := 44 :: formatted format [32]
      let p ← emit alloc noalloc p (separator.length + 1) (separator ++ [0])
        separator.length
      printArray p next

/-- The loop of `print_object`. -/
def printObject (p : PrintBuffer) :
    List (CString × CJson) → Run PrintBuffer
  | [] => .ok p
  | [(string, currentItem)] => do
      let p ← printMember p string currentItem
      let ending := formatted format [10]
      emit alloc noalloc p (ending.length + 1) (ending ++ [0]) ending.length
  | (string, currentItem) :: next => do
      let p ← printMember p string currentItem
      let ending := 44 :: formatted format [10]
      let p ← emit alloc noalloc p (ending.length + 1) (ending ++ [0])
        ending.length
      printObject p next

/-- A turn of the loop of `print_object`, up to the value. -/
def printMember (p : PrintBuffer) (string : CString) (currentItem : CJson) :
    Run PrintBuffer := do
  let p ← indent alloc noalloc format p
  let p ← printStringPtr alloc noalloc p string
  let p ← updateOffset p
  let colon := 58 :: formatted format [9]
  let p ← emit alloc noalloc p colon.length colon colon.length
  let p ← printValue p currentItem
  updateOffset p

end

end Printer

section Entry

variable (alloc : Nat → Nat → Bool) (format : Bool)
  (printNumberText : Rat → CString)

/-- A buffer no byte was written to. -/
def emptyBuffer (length calls : Nat) : PrintBuffer where
  buffer := fresh length
  length := length
  offset := 0
  depth := 0
  calls := calls

/-- `print`, behind `cJSON_Print` and `cJSON_PrintUnformatted`: the memory the
result points to. -/
def print (item : CJson) : Run (Cells UInt8) := do
  request alloc 0 256
  let p ← printValue alloc false format printNumberText (emptyBuffer 256 1)
    item
  let p ← updateOffset p
  request alloc p.calls (p.offset + 1)
  return resize p.buffer (p.offset + 1)

/-- `cJSON_PrintBuffered`. -/
def printBuffered (item : CJson) (prebuffer : Int) : Run (Cells UInt8) :=
  if prebuffer < 0 then giveUp
  else do
    request alloc 0 prebuffer.toNat
    let p ← printValue alloc false format printNumberText
      (emptyBuffer prebuffer.toNat 1) item
    return p.buffer

/-- `cJSON_PrintPreallocated` into `len` bytes of the caller: what is in them
when it returns true. -/
def printPreallocated (item : CJson) (len : Int) : Run (Cells UInt8) :=
  if len < 0 then giveUp
  else do
    let p ← printValue alloc true format printNumberText
      (emptyBuffer len.toNat 0) item
    return p.buffer

end Entry

/-! ## What a buffer holds -/

section Correct

variable {alloc : Nat → Nat → Bool} {noalloc format : Bool}
  {printNumberText : Rat → CString} {capacity : Nat}

/-- Why the printer may refuse a text that takes `room` bytes: the size does
not fit an `int`, the caller's buffer is too small, or the allocator denied
what the printer asked for, which is its first buffer or at most twice the
size of the text. -/
def Excuse (alloc : Nat → Nat → Bool) (noalloc : Bool) (capacity room : Nat) :
    Refusal → Prop
  | .givenUp => sizeLimit < room ∨ noalloc = true ∧ capacity < room
  | .denied calls size => noalloc = false ∧ alloc calls size = false ∧
      size ≤ max capacity (2 * room)

/-- The buffer holds the text, `offset` is its end and there is a cell left
for a terminator. -/
structure Ready (noalloc : Bool) (capacity depth : Nat) (text : CString)
    (p : PrintBuffer) : Prop where
  holds : Holds p.buffer text
  offset : p.offset = text.length
  size : p.buffer.length = p.length
  fits : 0 < p.length → p.offset < p.length
  depth : p.depth = depth
  fixed : noalloc = true → p.length = capacity

/-- The buffer holds the text with a terminator, and `offset` is somewhere in
the text, with no zero byte behind it. -/
structure Printed (noalloc : Bool) (capacity depth : Nat) (text : CString)
    (p : PrintBuffer) : Prop where
  holds : Holds p.buffer (text ++ [0])
  offset : ∃ done more, text = done ++ more ∧ p.offset = done.length ∧
    0 ∉ more
  size : p.buffer.length = p.length
  depth : p.depth = depth
  fixed : noalloc = true → p.length = capacity

variable {depth room : Nat} {text : CString} {p : PrintBuffer}

/-- `ensure` finds or makes room. -/
theorem ensure_meets {needed : Nat} (h : Ready noalloc capacity depth text p)
    (hroom : text.length + needed + 1 ≤ room) :
    Meets (Excuse alloc noalloc capacity room)
      (fun p' => Ready noalloc capacity depth text p' ∧
        text.length + needed + 1 ≤ p'.length)
      (ensure alloc noalloc p needed) := by
  have hoffset := h.offset
  unfold ensure
  by_cases hvalid : 0 < p.length ∧ p.length ≤ p.offset
  · have := h.fits hvalid.1
    omega
  rw [if_neg hvalid]
  by_cases hlimit : sizeLimit < needed
  · rw [if_pos hlimit]
    exact meets_giveUp (.inl (by omega))
  rw [if_neg hlimit]
  dsimp only
  by_cases henough : needed + p.offset + 1 ≤ p.length
  · rw [if_pos henough]
    exact ⟨h, by omega⟩
  rw [if_neg henough]
  by_cases hno : noalloc = true
  · rw [if_pos hno]
    have hfixed := h.fixed hno
    exact meets_giveUp (.inr ⟨hno, by omega⟩)
  rw [if_neg hno]
  by_cases hbig : sizeLimit / 2 < needed + p.offset + 1 ∧
      sizeLimit < needed + p.offset + 1
  · rw [if_pos hbig]
    exact meets_giveUp (.inl (by omega))
  rw [if_neg hbig]
  generalize hsize : (if sizeLimit / 2 < needed + p.offset + 1 then sizeLimit
    else (needed + p.offset + 1) * 2) = newsize
  have hnew : needed + p.offset + 1 ≤ newsize ∧
      newsize ≤ 2 * (needed + p.offset + 1) := by
    split at hsize
    · omega
    · omega
  refine meets_request ?_ ?_
  · intro hdenied
    rw [Bool.not_eq_true] at hno
    exact ⟨hno, hdenied, Nat.le_trans (by omega) (Nat.le_max_right _ _)⟩
  · refine ⟨⟨?_, hoffset, length_resize .., ?_, h.depth, ?_⟩, ?_⟩
    · exact h.holds.resize (by omega)
    · intro _
      show p.offset < newsize
      omega
    · intro hno'
      exact absurd hno' hno
    · show text.length + needed + 1 ≤ newsize
      omega

/-- Bytes that fit are written behind the text. -/
theorem write_meets {excuse : Refusal → Prop} {bytes : CString}
    (h : Ready noalloc capacity depth text p)
    (hfits : text.length + bytes.length ≤ p.length) :
    Meets excuse (fun buffer => Holds buffer (text ++ bytes) ∧
      buffer.length = p.length) (storeAll p.buffer p.offset bytes) := by
  rw [h.offset, ← h.size]
  exact storeAll_meets _ _ h.holds (by rw [h.size]; exact hfits)

/-- A piece of text, and more that is overwritten later. -/
theorem emit_ready (alloc : Nat → Nat → Bool) (room needed : Nat)
    (piece more : CString) (h : Ready noalloc capacity depth text p)
    (hneeded : (piece ++ more).length ≤ needed + 1)
    (hpiece : piece.length ≤ needed)
    (hroom : text.length + needed + 1 ≤ room) :
    Meets (Excuse alloc noalloc capacity room)
      (Ready noalloc capacity depth (text ++ piece))
      (emit alloc noalloc p needed (piece ++ more) piece.length) := by
  unfold emit
  refine (ensure_meets h hroom).bind ?_
  rintro p' ⟨h', hlength⟩
  refine (write_meets h' (by omega)).bind ?_
  rintro buffer ⟨hholds, hsize⟩
  rw [← List.append_assoc] at hholds
  have hoffset := h'.offset
  refine ⟨hholds.left, ?_, hsize, ?_, h'.depth, h'.fixed⟩
  · show p'.offset + piece.length = (text ++ piece).length
    rw [List.length_append, hoffset]
  · intro _
    show p'.offset + piece.length < p'.length
    omega

/-- A piece of text with its terminator, where `offset` stays or moves to the
end of the piece. -/
theorem emit_printed (alloc : Nat → Nat → Bool) (room needed advance : Nat)
    (piece : CString) (h : Ready noalloc capacity depth text p) (hzero : 0 ∉ piece)
    (hneeded : piece.length ≤ needed)
    (hadvance : advance = 0 ∨ advance = piece.length)
    (hroom : text.length + needed + 1 ≤ room) :
    Meets (Excuse alloc noalloc capacity room)
      (Printed noalloc capacity depth (text ++ piece))
      (emit alloc noalloc p needed (piece ++ [0]) advance) := by
  unfold emit
  refine (ensure_meets h hroom).bind ?_
  rintro p' ⟨h', hlength⟩
  refine (write_meets h' (by
    rw [List.length_append, List.length_singleton]
    omega)).bind ?_
  rintro buffer ⟨hholds, hsize⟩
  rw [← List.append_assoc] at hholds
  have hoffset := h'.offset
  refine ⟨hholds, ?_, hsize, h'.depth, h'.fixed⟩
  rcases hadvance with rfl | rfl
  · exact ⟨text, piece, rfl, hoffset, hzero⟩
  · refine ⟨text ++ piece, [], (List.append_nil _).symm, ?_, List.not_mem_nil⟩
    show p'.offset + piece.length = (text ++ piece).length
    rw [List.length_append, hoffset]

/-- `update_offset` moves to the end of what was printed and writes nothing. -/
theorem updateOffset_terminated {excuse : Refusal → Prop}
    (h : Printed noalloc capacity depth text p) :
    Meets excuse (fun p' => Ready noalloc capacity depth text p' ∧
      Holds p'.buffer (text ++ [0])) (updateOffset p) := by
  obtain ⟨done, more, rfl, hoffset, hzero⟩ := h.offset
  have hread : readUntil 0 (p.buffer.drop p.offset) = .ok more := by
    have hholds := h.holds
    rw [List.append_assoc] at hholds
    rw [hoffset, readUntil_drop hholds, List.takeWhile_eq_self_iff.mpr]
    intro c hc
    have hne : c ≠ 0 := by
      rintro rfl
      exact hzero hc
    simpa using hne
  have hlength := h.holds.length_le
  rw [List.length_append, List.length_singleton, h.size] at hlength
  unfold updateOffset
  rw [hread]
  refine ⟨⟨h.holds.left, ?_, h.size, ?_, h.depth, h.fixed⟩, h.holds⟩
  · show p.offset + more.length = (done ++ more).length
    rw [List.length_append, hoffset]
  · intro _
    show p.offset + more.length < p.length
    rw [List.length_append] at hlength
    omega

theorem updateOffset_meets {excuse : Refusal → Prop}
    (h : Printed noalloc capacity depth text p) :
    Meets excuse (Ready noalloc capacity depth text) (updateOffset p) :=
  (updateOffset_terminated h).mono fun _ h' => h'.1

end Correct

end DatahubEdge.Printing
