import DatahubEdge.CJson.Tree

/-!
# `cJSON_PrintUnformatted`

The text of a tree.  The only part left open is the text of a number, which
`print_number` takes from `sprintf`; it is a parameter `printNumber`.

## Main results

* `quote_mem_printUnformatted` — the printer neither escapes nor introduces
  an apostrophe: the text of a tree has one exactly when a key or a string of
  the tree has one.
-/

namespace DatahubEdge

/-- The digit of `%x` for a value below 16. -/
def hexDigit (n : UInt8) : UInt8 := if n < 10 then 48 + n else 87 + n

/-- The bytes `print_string_ptr` writes for one byte of its input. -/
def escapeByte (c : UInt8) : CString :=
  if 31 < c ∧ c ≠ 34 ∧ c ≠ 92 then [c]
  else if c = 92 then [92, 92]
  else if c = 34 then [92, 34]
  else if c = 8 then [92, 98]
  else if c = 12 then [92, 102]
  else if c = 10 then [92, 110]
  else if c = 13 then [92, 114]
  else if c = 9 then [92, 116]
  else [92, 117, 48, 48, 48 + c / 16, hexDigit (c % 16)]

/-- `print_string_ptr` for an input that is not NULL. -/
def printStringPtr (input : CString) : CString :=
  34 :: input.flatMap escapeByte ++ [34]

section Print

variable (printNumber : Rat → CString)

mutual

/-- `print_value`. -/
def printValue : CJson → CString
  | .null => cstr "null"
  | .bool false => cstr "false"
  | .bool true => cstr "true"
  | .number valuedouble => printNumber valuedouble
  | .string valuestring => printStringPtr valuestring
  | .array child => 91 :: printArray child ++ [93]
  | .object child => 123 :: printObject child ++ [125]

/-- The elements of `print_array`, separated by commas. -/
def printArray : List CJson → CString
  | [] => []
  | [item] => printValue item
  | item :: next => printValue item ++ 44 :: printArray next

/-- The members of `print_object`, separated by commas. -/
def printObject : List (CString × CJson) → CString
  | [] => []
  | [(string, item)] => printStringPtr string ++ 58 :: printValue item
  | (string, item) :: next =>
      printStringPtr string ++ 58 :: printValue item ++ 44 :: printObject next

end

/-- `cJSON_PrintUnformatted`. -/
def printUnformatted (item : CJson) : CString := printValue printNumber item

end Print

/-! ## Apostrophes in a printed tree -/

mutual

/-- Some key or string of the tree contains the byte `c`. -/
def CJson.Mentions (c : UInt8) : CJson → Prop
  | .string valuestring => c ∈ valuestring
  | .array child => MentionsArray c child
  | .object child => MentionsObject c child
  | _ => False

def CJson.MentionsArray (c : UInt8) : List CJson → Prop
  | [] => False
  | item :: next => item.Mentions c ∨ CJson.MentionsArray c next

def CJson.MentionsObject (c : UInt8) : List (CString × CJson) → Prop
  | [] => False
  | (key, item) :: next =>
      c ∈ key ∨ item.Mentions c ∨ CJson.MentionsObject c next

end

theorem mentions_string {c : UInt8} {s : CString} :
    (CJson.string s).Mentions c ↔ c ∈ s := by rw [CJson.Mentions]

theorem mentions_object {c : UInt8} {child : List (CString × CJson)} :
    (CJson.object child).Mentions c ↔
      ∃ e ∈ child, c ∈ e.1 ∨ e.2.Mentions c := by
  rw [CJson.Mentions]
  induction child with
  | nil => simp [CJson.MentionsObject]
  | cons e child ih => simp [CJson.MentionsObject, ih, or_assoc]

/-- The escape of a byte has an apostrophe only if it is one. -/
theorem quote_mem_escapeByte (c : UInt8) : 39 ∈ escapeByte c ↔ c = 39 := by
  have h : ∀ c : Fin 256, 39 ∈ escapeByte (UInt8.ofFin c) ↔
      UInt8.ofFin c = 39 := by decide +kernel
  exact h c.toFin

theorem quote_mem_printStringPtr (s : CString) :
    39 ∈ printStringPtr s ↔ 39 ∈ s := by
  simp only [printStringPtr, List.cons_append, List.mem_cons, List.mem_append,
    List.mem_flatMap, quote_mem_escapeByte]
  constructor
  · rintro (h | ⟨c, hc, rfl⟩ | h)
    · exact absurd h (by decide)
    · exact hc
    · simp at h
  · intro h
    exact .inr (.inl ⟨39, h, rfl⟩)

section Quote

variable {printNumber : Rat → CString}

mutual

private theorem quote_mem_printValue (hnum : ∀ q, 39 ∉ printNumber q) :
    ∀ t : CJson, 39 ∈ printValue printNumber t ↔ t.Mentions 39
  | .null => by simp [printValue, CJson.Mentions]; decide
  | .bool false => by simp [printValue, CJson.Mentions]; decide
  | .bool true => by simp [printValue, CJson.Mentions]; decide
  | .number q => by simp [printValue, CJson.Mentions, hnum q]
  | .string s => by
      simp [printValue, CJson.Mentions, quote_mem_printStringPtr]
  | .array child => by
      simp [printValue, CJson.Mentions, quote_mem_printArray hnum child]
  | .object child => by
      simp [printValue, CJson.Mentions, quote_mem_printObject hnum child]

private theorem quote_mem_printArray (hnum : ∀ q, 39 ∉ printNumber q) :
    ∀ child : List CJson, 39 ∈ printArray printNumber child ↔
      CJson.MentionsArray 39 child
  | [] => by simp [printArray, CJson.MentionsArray]
  | [item] => by
      simp [printArray, CJson.MentionsArray, quote_mem_printValue hnum item]
  | item :: item' :: next => by
      have ih := quote_mem_printArray hnum (item' :: next)
      simp [printArray, CJson.MentionsArray, quote_mem_printValue hnum item, ih]

private theorem quote_mem_printObject (hnum : ∀ q, 39 ∉ printNumber q) :
    ∀ child : List (CString × CJson), 39 ∈ printObject printNumber child ↔
      CJson.MentionsObject 39 child
  | [] => by simp [printObject, CJson.MentionsObject]
  | [(string, item)] => by
      simp [printObject, CJson.MentionsObject, quote_mem_printStringPtr,
        quote_mem_printValue hnum item]
  | (string, item) :: member :: next => by
      have ih := quote_mem_printObject hnum (member :: next)
      simp [printObject, CJson.MentionsObject, quote_mem_printStringPtr,
        quote_mem_printValue hnum item, ih]

end

/-- The text of a tree has an apostrophe exactly when one of its keys or
strings has one. -/
theorem quote_mem_printUnformatted (hnum : ∀ q, 39 ∉ printNumber q)
    (t : CJson) : 39 ∈ printUnformatted printNumber t ↔ t.Mentions 39 :=
  quote_mem_printValue hnum t

end Quote

end DatahubEdge
