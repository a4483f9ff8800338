import DatahubEdge.CJson.Print

/-!
# `cJSON_Print`

The text of a tree with and without formatting.  A formatted object has a line
for every member, indented by a tab for every level of nesting.

## Main results

* `formatValue_unformatted` — without formatting this is the text of
  `cJSON_PrintUnformatted`.
-/

namespace DatahubEdge

/-- Bytes that only a formatted text has. -/
def formatted (format : Bool) (text : CString) : CString :=
  if format then text else []

section Format

variable (printNumber : Rat → CString) (format : Bool)

mutual

/-- `print_value` at a level of nesting. -/
def formatValue (depth : Nat) : CJson → CString
  | .null => cstr "null"
  | .bool false => cstr "false"
  | .bool true => cstr "true"
  | .number valuedouble => printNumber valuedouble
  | .string valuestring => printStringPtr valuestring
  | .array child => 91 :: (formatArray (depth + 1) child ++ [93])
  | .object child =>
      123 :: (formatted format [10] ++ (formatObject (depth + 1) child ++
        (formatted format (List.replicate depth 9) ++ [125])))

/-- The elements of `print_array`. -/
def formatArray (depth : Nat) : List CJson → CString
  | [] => []
  | [item] => formatValue depth item
  | item :: next =>
      formatValue depth item ++
        (44 :: (formatted format [32] ++ formatArray depth next))

/-- The members of `print_object`. -/
def formatObject (depth : Nat) : List (CString × CJson) → CString
  | [] => []
  | [(string, item)] =>
      formatted format (List.replicate depth 9) ++ (printStringPtr string ++
        (58 :: (formatted format [9] ++ (formatValue depth item ++
          formatted format [10]))))
  | (string, item) :: next =>
      formatted format (List.replicate depth 9) ++ (printStringPtr string ++
        (58 :: (formatted format [9] ++ (formatValue depth item ++
          (44 :: (formatted format [10] ++ formatObject depth next))))))

end

/-- `print`. -/
def print (item : CJson) : CString := formatValue printNumber format 0 item

/-- `cJSON_Print`. -/
def cJSONPrint (item : CJson) : CString := print printNumber true item

end Format

/-! ## Without formatting -/

section Unformatted

variable {printNumber : Rat → CString}

mutual

private theorem formatValue_false (depth : Nat) :
    ∀ t : CJson, formatValue printNumber false depth t =
      printValue printNumber t
  | .null => rfl
  | .bool false => rfl
  | .bool true => rfl
  | .number _ => rfl
  | .string _ => rfl
  | .array child => by
      rw [formatValue, printValue, formatArray_false (depth + 1) child]
      rfl
  | .object child => by
      rw [formatValue, printValue, formatObject_false (depth + 1) child]
      rfl

private theorem formatArray_false (depth : Nat) :
    ∀ child : List CJson, formatArray printNumber false depth child =
      printArray printNumber child
  | [] => rfl
  | [item] => by
      rw [formatArray, printArray, formatValue_false depth item]
  | item :: item' :: next => by
      have ih := formatArray_false depth (item' :: next)
      rw [formatArray, printArray, formatValue_false depth item, ih]
      · rfl
      · simp
      · simp

private theorem formatObject_false (depth : Nat) :
    ∀ child : List (CString × CJson),
      formatObject printNumber false depth child =
        printObject printNumber child
  | [] => rfl
  | [(string, item)] => by
      rw [formatObject, printObject, formatValue_false depth item]
      simp [formatted]
  | (string, item) :: member :: next => by
      have ih := formatObject_false depth (member :: next)
      rw [formatObject, printObject, formatValue_false depth item, ih]
      · simp [formatted]
      · simp
      · simp

end

/-- Without formatting the text is that of `cJSON_PrintUnformatted`, at every
level of nesting. -/
theorem formatValue_unformatted (depth : Nat) (t : CJson) :
    formatValue printNumber false depth t = printUnformatted printNumber t :=
  formatValue_false depth t

end Unformatted

end DatahubEdge
