import DatahubEdge.CJson.PrintBuffer
import Mathlib.Tactic.SplitIfs

/-!
# What the printer leaves in its buffer

By recursion on the tree: each function of the printer appends the text of its
part of the tree, and the text stays within the room `ensure` has made.  No
part is written twice or left out, however often the buffer moves.

## Main results

* `copyString_meets` — the loop that escapes a string writes as many bytes as
  the loop before it has counted.
* `print_meets` — `print` returns the text and its terminator, or has a reason
  to return NULL.
* `printPreallocated_meets`, `printBuffered_meets` — the same in a buffer of
  the caller and in one of a given size.
-/

namespace DatahubEdge.Printing

open Lib.Buffer

section Correct

variable {alloc : Nat → Nat → Bool} {noalloc format : Bool}
  {printNumberText : Rat → CString} {capacity : Nat}
  {depth room : Nat} {text : CString} {p : PrintBuffer}

/-! ## Strings -/

/-- What the loop writes for a byte. -/
private theorem escapeByte_eq (c : UInt8) :
    escapeByte c = if 31 < c ∧ c ≠ 34 ∧ c ≠ 92 then [c]
      else 92 :: match escapeLetter c with
        | some letter => [letter]
        | none => [117, 48, 48, 48 + c / 16, hexDigit (c % 16)] := by
  unfold escapeByte escapeLetter
  by_cases hplain : 31 < c ∧ c ≠ 34 ∧ c ≠ 92
  · rw [if_pos hplain, if_pos hplain]
  · rw [if_neg hplain, if_neg hplain]
    split_ifs <;> rfl

/-- The short escape sequences are those the first loop counts as one byte,
and no letter of them is zero. -/
private theorem escapeLetter_spec (c : UInt8) :
    (c ∈ [34, 92, 8, 12, 10, 13, 9] ↔ (escapeLetter c).isSome = true) ∧
      escapeLetter c ≠ some 0 := by
  unfold escapeLetter
  split_ifs with h₁ h₂ h₃ h₄ h₅ h₆ h₇
  · subst h₁
    decide
  · subst h₂
    decide
  · subst h₃
    decide
  · subst h₄
    decide
  · subst h₅
    decide
  · subst h₆
    decide
  · subst h₇
    decide
  · simp [h₁, h₂, h₃, h₄, h₅, h₆, h₇]

/-- The digits of a long escape sequence. -/
private theorem hexDigits_ne_zero (c : UInt8) :
    48 + c / 16 ≠ 0 ∧ hexDigit (c % 16) ≠ 0 := by
  have hall : ∀ c : Fin 256, 48 + UInt8.ofFin c / 16 ≠ 0 ∧
      hexDigit (UInt8.ofFin c % 16) ≠ 0 := by decide +kernel
  exact hall c.toFin

/-- What escaping a byte adds is what the first loop counts for it. -/
private theorem length_escapeByte (c : UInt8) :
    (escapeByte c).length =
      (if c ∈ [34, 92, 8, 12, 10, 13, 9] then 1
        else if c < 32 then 5 else 0) + 1 := by
  have hletter := (escapeLetter_spec c).1
  rw [escapeByte_eq]
  by_cases hplain : 31 < c ∧ c ≠ 34 ∧ c ≠ 92
  · have hhigh : ¬ c < 32 := by
      have hgreater := hplain.1
      rw [UInt8.lt_iff_toNat_lt] at hgreater ⊢
      have h31 : (31 : UInt8).toNat = 31 := rfl
      have h32 : (32 : UInt8).toNat = 32 := rfl
      omega
    have hnone : c ∉ [34, 92, 8, 12, 10, 13, 9] := by
      intro hc
      simp only [List.mem_cons, List.not_mem_nil, or_false] at hc
      rcases hc with rfl | rfl | rfl | rfl | rfl | rfl | rfl
      · exact hplain.2.1 rfl
      · exact hplain.2.2 rfl
      · exact hhigh (by decide)
      · exact hhigh (by decide)
      · exact hhigh (by decide)
      · exact hhigh (by decide)
      · exact hhigh (by decide)
    rw [if_pos hplain, if_neg hnone, if_neg hhigh]
    rfl
  · rw [if_neg hplain]
    cases hescape : escapeLetter c with
    | some letter =>
        rw [hescape] at hletter
        rw [if_pos (hletter.mpr rfl)]
        rfl
    | none =>
        rw [hescape] at hletter
        have hnone : c ∉ [34, 92, 8, 12, 10, 13, 9] := by
          intro hc
          cases hletter.mp hc
        have hlow : c < 32 := by
          rw [not_and_or, not_and_or, not_not, not_not] at hplain
          rcases hplain with hplain | rfl | rfl
          · rw [UInt8.lt_iff_toNat_lt] at hplain ⊢
            have h31 : (31 : UInt8).toNat = 31 := rfl
            have h32 : (32 : UInt8).toNat = 32 := rfl
            omega
          · exact absurd (by decide) hnone
          · exact absurd (by decide) hnone
        rw [if_neg hnone, if_pos hlow]
        rfl

/-- No byte of an escape sequence is zero. -/
private theorem zero_not_mem_escapeByte (c : UInt8) : 0 ∉ escapeByte c := by
  rw [escapeByte_eq]
  by_cases hplain : 31 < c ∧ c ≠ 34 ∧ c ≠ 92
  · rw [if_pos hplain]
    intro hzero
    rw [← List.mem_singleton.mp hzero] at hplain
    exact absurd hplain.1 (by decide)
  · rw [if_neg hplain]
    have hletter := (escapeLetter_spec c).2
    cases hescape : escapeLetter c with
    | some letter =>
        rw [hescape] at hletter
        simp only [List.mem_cons, List.not_mem_nil, or_false, not_or]
        refine ⟨by decide, fun hzero => hletter ?_⟩
        rw [hzero]
    | none =>
        have hdigits := hexDigits_ne_zero c
        simp only [List.mem_cons, List.not_mem_nil, or_false, not_or]
        exact ⟨by decide, by decide, by decide, by decide, hdigits.1.symm,
          hdigits.2.symm⟩

/-- The first loop counts what escaping adds. -/
theorem length_flatMap_escapeByte (input : CString) :
    (input.flatMap escapeByte).length =
      input.length + escapeCharacters input := by
  induction input with
  | nil => rfl
  | cons c input ih =>
      have hc := length_escapeByte c
      rw [List.flatMap_cons, List.length_append, ih, escapeCharacters,
        List.length_cons]
      omega

/-- Without anything to escape the string is copied. -/
theorem flatMap_escapeByte_eq {input : CString}
    (h : escapeCharacters input = 0) : input.flatMap escapeByte = input := by
  induction input with
  | nil => rfl
  | cons c input ih =>
      rw [escapeCharacters] at h
      have hlength := length_escapeByte c
      have hone : (escapeByte c).length = 1 := by omega
      have hplain := escapeByte_eq c
      split at hplain
      · rw [List.flatMap_cons, hplain, ih (by omega)]
        rfl
      · rw [hplain] at hone
        split at hone
        · simp at hone
        · simp at hone

theorem zero_not_mem_printStringPtr (input : CString) :
    0 ∉ DatahubEdge.printStringPtr input := by
  simp only [DatahubEdge.printStringPtr, List.cons_append, List.mem_cons,
    List.mem_append, List.mem_flatMap, List.not_mem_nil, or_false, not_or]
  refine ⟨by decide, ?_, by decide⟩
  rintro ⟨c, _, hc⟩
  exact zero_not_mem_escapeByte c hc

/-- The loop writes the escaped string, and at most a terminator behind it. -/
theorem copyString_meets (excuse : Refusal → Prop) (input : CString) :
    ∀ {buffer : Cells UInt8} {text : CString}, Holds buffer text →
      text.length + (input.flatMap escapeByte).length < buffer.length →
      Meets excuse (fun final =>
          Holds final (text ++ input.flatMap escapeByte) ∧
            final.length = buffer.length)
        (copyString buffer text.length input) := by
  induction input with
  | nil =>
      intro buffer text hholds _
      rw [List.flatMap_nil, List.append_nil]
      exact ⟨hholds, rfl⟩
  | cons c input ih =>
      intro buffer text hholds hfits
      have hspec := escapeByte_eq c
      rw [List.flatMap_cons, List.length_append] at hfits
      rw [List.flatMap_cons]
      unfold copyString
      by_cases hplain : 31 < c ∧ c ≠ 34 ∧ c ≠ 92
      · rw [if_pos hplain] at hspec ⊢
        rw [hspec] at hfits ⊢
        rw [List.length_singleton] at hfits
        refine (store_meets _ _ hholds (by omega)).bind ?_
        rintro buffer' ⟨hholds', hsize⟩
        have hnext := ih hholds' (by
          rw [List.length_append, List.length_singleton]
          omega)
        rw [List.length_append, List.length_singleton] at hnext
        refine hnext.mono ?_
        rintro final ⟨hdone, hsize'⟩
        rw [List.append_assoc] at hdone
        exact ⟨hdone, hsize'.trans hsize⟩
      · rw [if_neg hplain] at hspec ⊢
        rw [hspec] at hfits ⊢
        refine (store_meets _ _ hholds (by
          rw [List.length_cons] at hfits
          omega)).bind ?_
        rintro buffer' ⟨hholds', hsize⟩
        have hone : (text ++ [92]).length = text.length + 1 := by simp
        cases hletter : escapeLetter c with
        | some letter =>
            rw [hletter] at hfits
            simp only [List.length_cons, List.length_nil] at hfits
            have hstore := store_meets excuse letter hholds' (by omega)
            rw [hone] at hstore
            refine hstore.bind ?_
            rintro buffer'' ⟨hholds'', hsize'⟩
            have hnext := ih hholds'' (by
              simp only [List.length_append, List.length_singleton]
              omega)
            rw [List.length_append, hone, List.length_singleton] at hnext
            refine hnext.mono ?_
            rintro final ⟨hdone, hsize''⟩
            refine ⟨?_, by omega⟩
            simpa using hdone
        | none =>
            rw [hletter] at hfits
            simp only [List.length_cons, List.length_nil] at hfits
            have hstore := storeAll_meets excuse
              ([117, 48, 48, 48 + c / 16, hexDigit (c % 16)] ++ [0]) hholds' (by
                simp only [List.length_append, List.length_cons,
                  List.length_nil]
                omega)
            rw [hone] at hstore
            refine hstore.bind ?_
            rintro buffer'' ⟨hholds'', hsize'⟩
            rw [← List.append_assoc] at hholds''
            have hnext := ih hholds''.left (by
              simp only [List.length_append, List.length_cons,
                List.length_nil]
              omega)
            have hsix : (text ++ [92] ++ [117, 48, 48, 48 + c / 16,
                hexDigit (c % 16)]).length = text.length + 6 := by simp
            rw [hsix] at hnext
            refine hnext.mono ?_
            rintro final ⟨hdone, hsize''⟩
            refine ⟨?_, by omega⟩
            simpa using hdone

/-- `print_string_ptr` writes the escaped string between quotation marks. -/
theorem printStringPtr_meets {input : CString}
    (h : Ready noalloc capacity depth text p)
    (hroom : (text ++ DatahubEdge.printStringPtr input).length + 2 ≤ room) :
    Meets (Excuse alloc noalloc capacity room)
      (Printed noalloc capacity depth
        (text ++ DatahubEdge.printStringPtr input))
      (printStringPtr alloc noalloc p input) := by
  have hflat := length_flatMap_escapeByte input
  have htext : DatahubEdge.printStringPtr input =
      34 :: (input.flatMap escapeByte ++ [34]) := rfl
  have hlength : (DatahubEdge.printStringPtr input).length =
      input.length + escapeCharacters input + 2 := by
    rw [htext, List.length_cons, List.length_append, List.length_singleton]
    omega
  rw [List.length_append, hlength] at hroom
  have hzero := zero_not_mem_printStringPtr input
  unfold printStringPtr
  refine (ensure_meets h (by omega)).bind ?_
  rintro p' ⟨h', hfits⟩
  have hoffset := h'.offset
  by_cases hplain : escapeCharacters input = 0
  · rw [if_pos hplain]
    have hcopy : 34 :: (input ++ [34, 0]) =
        DatahubEdge.printStringPtr input ++ [0] := by
      rw [htext, flatMap_escapeByte_eq hplain]
      simp
    rw [hcopy]
    refine (write_meets h' (by
      rw [List.length_append, hlength, List.length_singleton]
      omega)).bind ?_
    rintro buffer ⟨hholds, hsize⟩
    rw [← List.append_assoc] at hholds
    exact ⟨hholds, ⟨text, _, rfl, hoffset, hzero⟩, hsize, h'.depth, h'.fixed⟩
  · rw [if_neg hplain, hoffset]
    have hsize' := h'.size
    refine (store_meets _ _ h'.holds (by omega)).bind ?_
    rintro buffer ⟨hholds, hsize⟩
    have hcopied := copyString_meets (Excuse alloc noalloc capacity room) input
      hholds (by
        rw [List.length_append, List.length_singleton]
        omega)
    rw [List.length_append, List.length_singleton] at hcopied
    refine hcopied.bind ?_
    rintro buffer' ⟨hholds', hsize''⟩
    have hquote := store_meets (Excuse alloc noalloc capacity room) 34
      hholds' (by
        simp only [List.length_append, List.length_singleton]
        omega)
    have hend : (text ++ [34] ++ input.flatMap escapeByte).length =
        text.length + (input.length + escapeCharacters input) + 1 := by
      simp only [List.length_append, List.length_singleton]
      omega
    rw [hend] at hquote
    refine hquote.bind ?_
    rintro buffer'' ⟨hholds'', hsize'''⟩
    have hterminator := store_meets (Excuse alloc noalloc capacity room) 0
      hholds'' (by
        rw [List.length_append, hend, List.length_singleton]
        omega)
    rw [List.length_append, hend, List.length_singleton] at hterminator
    refine hterminator.bind ?_
    rintro final ⟨hfinal, hsizeFinal⟩
    refine ⟨?_, ⟨text, _, rfl, rfl, hzero⟩, ?_, h'.depth, h'.fixed⟩
    · rw [htext]
      simpa using hfinal
    · show final.length = p'.length
      omega

/-! ## Values -/

/-- Numbers fit into the buffer `print_number` has for them. -/
def ShortNumbers (printNumberText : Rat → CString) : Prop :=
  ∀ q, (printNumberText q).length ≤ 25 ∧ 0 ∉ printNumberText q

theorem printNumber_meets (hnumber : ShortNumbers printNumberText)
    {valuedouble : Rat} (h : Ready noalloc capacity depth text p)
    (hroom : (text ++ printNumberText valuedouble).length + 2 ≤ room) :
    Meets (Excuse alloc noalloc capacity room)
      (Printed noalloc capacity depth (text ++ printNumberText valuedouble))
      (printNumber alloc noalloc printNumberText p valuedouble) := by
  obtain ⟨hlength, hzero⟩ := hnumber valuedouble
  rw [List.length_append] at hroom
  unfold printNumber
  have hnumberBuffer := storeAll_meets (Excuse alloc noalloc capacity room)
    (printNumberText valuedouble ++ [0]) (holds_nil (fresh 26)) (by
      rw [fresh, List.length_replicate, List.length_append,
        List.length_singleton, List.length_nil]
      omega)
  refine hnumberBuffer.bind ?_
  intro _ _
  rw [if_neg (by omega)]
  exact emit_printed _ _ _ _ _ h hzero (by omega) (.inr rfl) (by omega)

theorem Ready.withDepth (h : Ready noalloc capacity depth text p)
    (depth' : Nat) :
    Ready noalloc capacity depth' text { p with depth := depth' } :=
  ⟨h.holds, h.offset, h.size, h.fits, rfl, h.fixed⟩

theorem Printed.withDepth (h : Printed noalloc capacity depth text p)
    (depth' : Nat) :
    Printed noalloc capacity depth' text { p with depth := depth' } :=
  ⟨h.holds, h.offset, h.size, rfl, h.fixed⟩

private theorem zero_not_mem_closing (depth : Nat) :
    0 ∉ formatted format (List.replicate depth 9) ++ [125] := by
  intro h
  rcases List.mem_append.mp h with h | h
  · cases format with
    | false => cases h
    | true => exact absurd (List.eq_of_mem_replicate h) (by decide)
  · exact absurd (List.mem_singleton.mp h) (by decide)

/-- What `print_value` does with a tree: the text of the tree is appended. -/
def Prints (alloc : Nat → Nat → Bool) (noalloc format : Bool)
    (printNumberText : Rat → CString) (capacity room : Nat) (t : CJson) :
    Prop :=
  ∀ (depth : Nat) (text : CString) (p : PrintBuffer),
    Ready noalloc capacity depth text p →
    (text ++ formatValue printNumberText format depth t).length + 2 ≤ room →
    Meets (Excuse alloc noalloc capacity room)
      (Printed noalloc capacity depth
        (text ++ formatValue printNumberText format depth t))
      (printValue alloc noalloc format printNumberText p t)

/-- A turn of the loop of `print_object`, up to the value. -/
theorem printMember_meets {string : CString} {item : CJson}
    (hitem : Prints alloc noalloc format printNumberText capacity room item)
    (h : Ready noalloc capacity depth text p)
    (hroom : (text ++ (formatted format (List.replicate depth 9) ++
      (DatahubEdge.printStringPtr string ++ (58 :: (formatted format [9] ++
        formatValue printNumberText format depth item))))).length + 2 ≤ room) :
    Meets (Excuse alloc noalloc capacity room)
      (Ready noalloc capacity depth (text ++
        (formatted format (List.replicate depth 9) ++
          (DatahubEdge.printStringPtr string ++ (58 :: (formatted format [9] ++
            formatValue printNumberText format depth item))))))
      (printMember alloc noalloc format printNumberText p string item) := by
  simp only [List.length_append, List.length_cons] at hroom
  unfold printMember
  have htabs : Meets (Excuse alloc noalloc capacity room)
      (Ready noalloc capacity depth
        (text ++ formatted format (List.replicate depth 9)))
      (indent alloc noalloc format p) := by
    unfold indent
    cases format with
    | false =>
        rw [if_neg Bool.false_ne_true, formatted, if_neg Bool.false_ne_true,
          List.append_nil]
        exact h
    | true =>
        have hlength : (List.replicate depth (9 : UInt8)).length = depth :=
          List.length_replicate
        rw [formatted, if_pos rfl, hlength] at hroom
        rw [if_pos rfl, formatted, if_pos rfl, h.depth]
        have hemit := emit_ready alloc room depth (List.replicate depth 9) [] h
          (by rw [List.append_nil, hlength]; omega) (by omega) (by omega)
        rwa [hlength, List.append_nil] at hemit
  refine htabs.bind ?_
  intro p₁ h₁
  refine (printStringPtr_meets h₁ (by
    simp only [List.length_append]
    omega)).bind ?_
  intro p₂ h₂
  refine (updateOffset_meets h₂).bind ?_
  intro p₃ h₃
  have hcolon := emit_ready alloc room (58 :: formatted format [9]).length
    (58 :: formatted format [9]) [] h₃
    (by rw [List.append_nil]; omega) (by omega) (by
      simp only [List.length_append, List.length_cons]
      omega)
  rw [List.append_nil] at hcolon
  refine hcolon.bind ?_
  intro p₄ h₄
  refine (hitem depth _ p₄ h₄ (by
    simp only [List.length_append, List.length_cons]
    omega)).bind ?_
  intro p₅ h₅
  refine (updateOffset_meets h₅).mono ?_
  intro p₆ h₆
  simpa using h₆

mutual

private theorem printValue_prints (hnumber : ShortNumbers printNumberText) :
    ∀ t : CJson,
      Prints alloc noalloc format printNumberText capacity room t
  | .null => by
      intro depth text p h hroom
      rw [formatValue, List.length_append] at hroom
      rw [formatValue, printValue]
      have hlength : (cstr "null").length = 4 := rfl
      exact emit_printed _ _ _ _ _ h (by decide) (by omega) (.inl rfl) (by omega)
  | .bool false => by
      intro depth text p h hroom
      rw [formatValue, List.length_append] at hroom
      rw [formatValue, printValue]
      have hlength : (cstr "false").length = 5 := rfl
      exact emit_printed _ _ _ _ _ h (by decide) (by omega) (.inl rfl) (by omega)
  | .bool true => by
      intro depth text p h hroom
      rw [formatValue, List.length_append] at hroom
      rw [formatValue, printValue]
      have hlength : (cstr "true").length = 4 := rfl
      exact emit_printed _ _ _ _ _ h (by decide) (by omega) (.inl rfl) (by omega)
  | .number valuedouble => by
      intro depth text p h hroom
      rw [formatValue] at hroom
      rw [formatValue, printValue]
      exact printNumber_meets hnumber h hroom
  | .string valuestring => by
      intro depth text p h hroom
      rw [formatValue] at hroom
      rw [formatValue, printValue]
      exact printStringPtr_meets h hroom
  | .array child => by
      intro depth text p h hroom
      rw [formatValue] at hroom
      simp only [List.length_append, List.length_cons, List.length_nil] at hroom
      rw [formatValue, printValue]
      have hopen := emit_ready alloc room 1 [91] [] h (by simp) (by simp) (by omega)
      refine hopen.bind ?_
      intro p₁ h₁
      have hloop := printArray_prints hnumber child (depth + 1) _ _
        (h₁.withDepth (depth + 1)) (by
          simp only [List.length_append, List.length_cons, List.length_nil]
          omega)
      rw [h₁.depth]
      refine hloop.bind ?_
      intro p₂ h₂
      have hclose := emit_printed alloc room 2 0 [93] h₂ (by decide) (by simp)
        (.inl rfl) (by
          simp only [List.length_append, List.length_cons, List.length_nil]
          omega)
      refine hclose.bind ?_
      intro p₃ h₃
      have hdone := h₃.withDepth depth
      rw [h₃.depth]
      simpa using hdone
  | .object child => by
      intro depth text p h hroom
      rw [formatValue] at hroom
      simp only [List.length_append, List.length_cons] at hroom
      rw [formatValue, printValue]
      have hopen := emit_ready alloc room
        ((123 :: formatted format [10]).length + 1)
        (123 :: formatted format [10]) [] h
        (by rw [List.append_nil]; omega) (by omega) (by
          simp only [List.length_cons]
          omega)
      rw [List.append_nil] at hopen
      refine hopen.bind ?_
      intro p₁ h₁
      have hloop := printObject_prints hnumber child (depth + 1) _ _
        (h₁.withDepth (depth + 1)) (by
          simp only [List.length_append, List.length_cons]
          omega)
      rw [h₁.depth]
      refine hloop.bind ?_
      intro p₂ h₂
      rw [h₂.depth, Nat.add_sub_cancel]
      have hclose := emit_printed alloc room
        (if format then depth + 1 + 1 else 2) 0
        (formatted format (List.replicate depth 9) ++ [125]) h₂
        (zero_not_mem_closing depth) (by
          cases format with
          | false => simp [formatted]
          | true => simp [formatted]) (.inl rfl) (by
          simp only [List.length_append, List.length_cons]
          cases format with
          | false =>
              simp only [formatted, Bool.false_eq_true, if_false,
                List.length_nil] at hroom ⊢
              omega
          | true =>
              simp only [formatted, if_true, List.length_replicate] at hroom ⊢
              omega)
      have hbytes : formatted format (List.replicate depth 9) ++ [125, 0] =
          formatted format (List.replicate depth 9) ++ [125] ++ [0] := by simp
      rw [hbytes]
      refine hclose.bind ?_
      intro p₃ h₃
      have hdone := h₃.withDepth depth
      rw [h₃.depth]
      simpa using hdone

/-- The loop of `print_array`. -/
private theorem printArray_prints (hnumber : ShortNumbers printNumberText) :
    ∀ (child : List CJson) (depth : Nat) (text : CString) (p : PrintBuffer),
      Ready noalloc capacity depth text p →
      (text ++ formatArray printNumberText format depth child).length + 2 ≤
        room →
      Meets (Excuse alloc noalloc capacity room)
        (Ready noalloc capacity depth
          (text ++ formatArray printNumberText format depth child))
        (printArray alloc noalloc format printNumberText p child)
  | [] => by
      intro depth text p h _
      rw [formatArray, printArray, List.append_nil]
      exact h
  | [item] => by
      intro depth text p h hroom
      rw [formatArray] at hroom
      rw [formatArray, printArray]
      refine (printValue_prints hnumber item depth text p h hroom).bind ?_
      intro p₁ h₁
      exact updateOffset_meets h₁
  | item :: item' :: next => by
      intro depth text p h hroom
      rw [formatArray] at hroom
      · simp only [List.length_append, List.length_cons] at hroom
        rw [formatArray, printArray]
        · refine (printValue_prints hnumber item depth text p h (by
            rw [List.length_append]
            omega)).bind ?_
          intro p₁ h₁
          refine (updateOffset_meets h₁).bind ?_
          intro p₂ h₂
          have hseparator := emit_ready alloc room
            ((44 :: formatted format [32]).length + 1)
            (44 :: formatted format [32]) [0] h₂
            (by simp) (by omega) (by
              simp only [List.length_append, List.length_cons]
              omega)
          refine hseparator.bind ?_
          intro p₃ h₃
          refine (printArray_prints hnumber (item' :: next) depth _ p₃ h₃ (by
            simp only [List.length_append, List.length_cons]
            omega)).mono ?_
          intro p₄ h₄
          simpa using h₄
        · simp
        · simp
      · simp

/-- The loop of `print_object`. -/
private theorem printObject_prints (hnumber : ShortNumbers printNumberText) :
    ∀ (child : List (CString × CJson)) (depth : Nat) (text : CString)
      (p : PrintBuffer), Ready noalloc capacity depth text p →
      (text ++ formatObject printNumberText format depth child).length + 2 ≤
        room →
      Meets (Excuse alloc noalloc capacity room)
        (Ready noalloc capacity depth
          (text ++ formatObject printNumberText format depth child))
        (printObject alloc noalloc format printNumberText p child)
  | [] => by
      intro depth text p h _
      rw [formatObject, printObject, List.append_nil]
      exact h
  | [(string, item)] => by
      intro depth text p h hroom
      rw [formatObject] at hroom
      simp only [List.length_append, List.length_cons] at hroom
      rw [formatObject, printObject]
      refine (printMember_meets (printValue_prints hnumber item) h (by
        simp only [List.length_append, List.length_cons]
        omega)).bind ?_
      intro p₁ h₁
      have hending := emit_ready alloc room
        ((formatted format [10]).length + 1) (formatted format [10]) [0] h₁ (by simp) (by omega)
        (by
          simp only [List.length_append, List.length_cons]
          omega)
      refine hending.mono ?_
      intro p₂ h₂
      simpa using h₂
  | (string, item) :: member :: next => by
      intro depth text p h hroom
      rw [formatObject] at hroom
      · simp only [List.length_append, List.length_cons] at hroom
        rw [formatObject, printObject]
        · refine (printMember_meets (printValue_prints hnumber item) h (by
            simp only [List.length_append, List.length_cons]
            omega)).bind ?_
          intro p₁ h₁
          have hending := emit_ready alloc room
            ((44 :: formatted format [10]).length + 1)
            (44 :: formatted format [10]) [0] h₁ (by simp)
            (by omega) (by
              simp only [List.length_append, List.length_cons]
              omega)
          refine hending.bind ?_
          intro p₂ h₂
          refine (printObject_prints hnumber (member :: next) depth _ p₂ h₂ (by
            simp only [List.length_append, List.length_cons]
            omega)).mono ?_
          intro p₃ h₃
          simpa using h₃
        · simp
        · simp
      · simp

end

/-! ## The entry points -/

private theorem emptyBuffer_ready (length calls : Nat) :
    Ready noalloc length 0 [] (emptyBuffer length calls) where
  holds := holds_nil _
  offset := rfl
  size := List.length_replicate
  fits := fun h => h
  depth := rfl
  fixed := fun _ => rfl

/-- In a buffer of the caller the printer leaves the text and its terminator,
or reports a buffer that has less than two bytes more than the text; it never
goes past the end of the buffer and never asks for memory. -/
theorem printPreallocated_meets (alloc : Nat → Nat → Bool) (format : Bool)
    (hnumber : ShortNumbers printNumberText) (t : CJson) (len : Int) :
    Meets (fun why => why = .givenUp ∧
        (len < (DatahubEdge.print printNumberText format t).length + 2 ∨
          sizeLimit < (DatahubEdge.print printNumberText format t).length + 2))
      (fun cells => cells.length = len.toNat ∧
        Holds cells (DatahubEdge.print printNumberText format t ++ [0]))
      (printPreallocated alloc format printNumberText t len) := by
  unfold printPreallocated
  by_cases hlen : len < 0
  · rw [if_pos hlen]
    exact meets_giveUp ⟨rfl, .inl (by omega)⟩
  rw [if_neg hlen]
  have hprints : Prints alloc true format printNumberText
      len.toNat ((DatahubEdge.print printNumberText format t).length + 2) t :=
    printValue_prints hnumber t
  have hprint := hprints 0 [] (emptyBuffer len.toNat 0) (emptyBuffer_ready len.toNat 0)
    (Nat.le_refl _)
  have hexcuse : ∀ why, Excuse alloc true len.toNat
      ((DatahubEdge.print printNumberText format t).length + 2) why →
      why = .givenUp ∧
        (len < (DatahubEdge.print printNumberText format t).length + 2 ∨
          sizeLimit <
            (DatahubEdge.print printNumberText format t).length + 2) := by
    intro why h
    cases why with
    | givenUp =>
        refine ⟨rfl, ?_⟩
        rcases h with h | ⟨_, h⟩
        · exact .inr h
        · exact .inl (by omega)
    | denied calls size => cases h.1
  refine (hprint.weaken hexcuse).bind ?_
  intro p h
  rw [List.nil_append] at h
  exact ⟨h.size.trans (h.fixed rfl), h.holds⟩

/-- The memory `cJSON_PrintBuffered` returns starts with the text and its
terminator, whatever size it was asked to start with. -/
theorem printBuffered_meets (hnumber : ShortNumbers printNumberText)
    (t : CJson) {prebuffer : Int} (hprebuffer : 0 ≤ prebuffer) :
    Meets (Excuse alloc false prebuffer.toNat
        ((DatahubEdge.print printNumberText format t).length + 2))
      (fun cells =>
        Holds cells (DatahubEdge.print printNumberText format t ++ [0]))
      (printBuffered alloc format printNumberText t prebuffer) := by
  unfold printBuffered
  rw [if_neg (by omega)]
  refine meets_request ?_ ?_
  · intro hdenied
    exact ⟨rfl, hdenied, Nat.le_max_left _ _⟩
  have hprints : Prints alloc false format printNumberText prebuffer.toNat
      ((DatahubEdge.print printNumberText format t).length + 2) t :=
    printValue_prints hnumber t
  have hprint := hprints 0 [] (emptyBuffer prebuffer.toNat 1)
    (emptyBuffer_ready prebuffer.toNat 1) (Nat.le_refl _)
  refine hprint.bind ?_
  intro p h
  rw [List.nil_append] at h
  exact h.holds

end Correct

/-! ## A sample tree -/

/-- A string with a control byte and a number. -/
def sampleTree : CJson :=
  .object [(cstr "a", .string [7, 34]), (cstr "b", .array [.number 0])]

private theorem zero_short : ShortNumbers fun _ => cstr "0" :=
  fun _ => show (cstr "0").length ≤ 25 ∧ 0 ∉ cstr "0" by decide

/-- The sample fits into 26 bytes. -/
theorem sample_preallocated :
    ∃ cells, printPreallocated (fun _ _ => false) false (fun _ => cstr "0")
        sampleTree 26 = .ok cells ∧ cells.length = 26 := by
  have htext : (DatahubEdge.print (fun _ => cstr "0") false
      sampleTree).length = 24 := by
    decide
  obtain ⟨cells, hcells, hlength, _⟩ := (printPreallocated_meets
    (fun _ _ => false) false zero_short sampleTree 26).exists_ok (by
      rw [htext]
      rintro why ⟨_, h | h⟩
      · omega
      · have hsmall : ¬ sizeLimit < 24 + 2 := by decide
        exact hsmall h)
  exact ⟨cells, hcells, hlength⟩

end DatahubEdge.Printing
