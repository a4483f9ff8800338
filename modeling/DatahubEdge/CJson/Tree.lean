import Mathlib.Data.Rat.Defs
import DatahubEdge.CString
import DatahubEdge.Lib.KeyedList

/-!
# The `cJSON` tree and the object functions of `cJSON.c`

A `cJSON` node owns the list of its children.  The children of an object
carry their key; lookups compare it ignoring case and stop at the first hit.
The object functions below are polymorphic in the children, since the trees
`message.c` keeps and builds have a fixed shape: `Obj (Obj (Obj Rat))` is an
object of objects of objects of number nodes.

## Main results

* `getObjectItem_some`, `replaceItemInObject_some` — the object functions are
  the keyed-list operations under `lower`.
-/

namespace DatahubEdge

/-- The children of an object, in list order. -/
abbrev Obj (α : Type) := List (CString × α)

/-- A parsed or built tree.  Numbers are exact rationals. -/
inductive CJson where
  | null
  | bool (value : Bool)
  | number (valuedouble : Rat)
  | string (valuestring : CString)
  | array (child : List CJson)
  | object (child : List (CString × CJson))

/-! ## Object functions -/

section Objects

variable {α : Type}

/-- The loop of `get_object_item` for a name that is not NULL. -/
def findItem (name : CString) : Obj α → Option α
  | [] => none
  | (string, item) :: next =>
      if caseInsensitiveEq name string then some item else findItem name next

/-- `cJSON_GetObjectItem`. -/
def getObjectItem (object : Obj α) (string : Option CString) : Option α :=
  string.bind fun name => findItem name object

/-- `cJSON_AddItemToObject`: nothing is added under a NULL name. -/
def addItemToObject (object : Obj α) (string : Option CString) (item : α) :
    Obj α :=
  match string with
  | none => object
  | some name => object ++ [(name, item)]

/-- `replace_item_in_object` for a name that is not NULL.  The replacement
takes the place of the first hit and carries the new name. -/
def replaceItem (name : CString) (newitem : α) : Obj α → Obj α
  | [] => []
  | (string, item) :: next =>
      if caseInsensitiveEq name string then (name, newitem) :: next
      else (string, item) :: replaceItem name newitem next

/-- `cJSON_ReplaceItemInObject`. -/
def replaceItemInObject (object : Obj α) (string : Option CString)
    (newitem : α) : Obj α :=
  match string with
  | none => object
  | some name => replaceItem name newitem object

open Lib

@[simp] theorem getObjectItem_none (object : Obj α) :
    getObjectItem object none = none := rfl

theorem getObjectItem_some (object : Obj α) (name : CString) :
    getObjectItem object (some name) = KeyedList.get lower name object := by
  show findItem name object = _
  induction object with
  | nil => rfl
  | cons e object ih =>
      simp only [findItem, KeyedList.get, caseInsensitiveEq_iff, ih]

/-- A lookup does not distinguish cases. -/
theorem getObjectItem_congr {name name' : CString}
    (h : lower name = lower name') (object : Obj α) :
    getObjectItem object (some name) = getObjectItem object (some name') := by
  rw [getObjectItem_some, getObjectItem_some, KeyedList.get_congr h]

theorem replaceItemInObject_some (object : Obj α) (name : CString)
    (newitem : α) :
    replaceItemInObject object (some name) newitem =
      KeyedList.replace lower name newitem object := by
  show replaceItem name newitem object = _
  induction object with
  | nil => rfl
  | cons e object ih =>
      simp only [replaceItem, KeyedList.replace, caseInsensitiveEq_iff, ih]

@[simp] theorem addItemToObject_some (object : Obj α) (name : CString)
    (item : α) :
    addItemToObject object (some name) item = object ++ [(name, item)] := rfl

@[simp] theorem addItemToObject_none (object : Obj α) (item : α) :
    addItemToObject object none item = object := rfl

@[simp] theorem replaceItemInObject_none (object : Obj α) (item : α) :
    replaceItemInObject object none item = object := rfl

/-- The values of a tree built by adding one item after the other come from
the list the items are built from. -/
theorem mem_foldl_addItemToObject {β : Type} {name : β → Option CString}
    {item : β → α} {l : List β} {o : Obj α} {e : CString × α}
    (h : e ∈ l.foldl (fun o b => addItemToObject o (name b) (item b)) o) :
    e ∈ o ∨ ∃ b ∈ l, e.2 = item b := by
  induction l generalizing o with
  | nil => exact .inl h
  | cons b l ih =>
      rcases ih h with h | ⟨b', hb', he⟩
      · cases hn : name b with
        | none =>
            simp only [hn, addItemToObject_none] at h
            exact .inl h
        | some n =>
            simp only [hn, addItemToObject_some, List.mem_append,
              List.mem_singleton] at h
            rcases h with h | rfl
            · exact .inl h
            · exact .inr ⟨b, by simp, rfl⟩
      · exact .inr ⟨b', List.mem_cons_of_mem _ hb', he⟩

/-- A successful lookup by name returns a child of the object. -/
theorem mem_of_getObjectItem {o : Obj α} {n : Option CString}
    {v : α} (h : getObjectItem o n = some v) : ∃ k, (k, v) ∈ o := by
  cases n with
  | none => cases h
  | some name =>
      rw [getObjectItem_some] at h
      obtain ⟨k, _, hk⟩ := KeyedList.exists_mem_of_get h
      exact ⟨k, hk⟩

end Objects

/-! ## Nodes of a parsed tree -/

/-- `INT_MAX` and `INT_MIN`. -/
def intMax : Int := 2147483647

@[inherit_doc intMax] def intMin : Int := -2147483648

/-- The `valueint` `parse_number` stores beside a number: saturated at the
ends of `int`, truncated toward zero between them. -/
def saturatedInt (number : Rat) : Int :=
  if (intMax : Rat) ≤ number then intMax
  else if number ≤ (intMin : Rat) then intMin
  else number.num.tdiv number.den

namespace CJson

/-- The `valueint` member of a parsed node. -/
def valueint : CJson → Int
  | number valuedouble => saturatedInt valuedouble
  | bool true => 1
  | _ => 0

/-- The `valuedouble` member of a parsed node, 0 unless it is a number. -/
def valuedouble : CJson → Rat
  | number valuedouble => valuedouble
  | _ => 0

/-- The `valuestring` member of a parsed node, NULL unless it is a string. -/
def valuestring : CJson → Option CString
  | string valuestring => some valuestring
  | _ => none

/-- The keyed children of a node.  The elements of an array have no key and
are never found by a lookup. -/
def fields : CJson → Obj CJson
  | object child => child
  | _ => []

/-- `cJSON_GetObjectItem` on a node that may be NULL. -/
def getItem (object : Option CJson) (string : Option CString) : Option CJson :=
  object.bind fun node => getObjectItem node.fields string

end CJson

theorem saturatedInt_intCast {n : Int} (hlo : intMin ≤ n) (hhi : n ≤ intMax) :
    saturatedInt (n : Rat) = n := by
  unfold saturatedInt
  by_cases h1 : (intMax : Rat) ≤ (n : Rat)
  · have : intMax ≤ n := by exact_mod_cast h1
    rw [if_pos h1]
    omega
  · rw [if_neg h1]
    by_cases h2 : (n : Rat) ≤ (intMin : Rat)
    · have : n ≤ intMin := by exact_mod_cast h2
      rw [if_pos h2]
      omega
    · rw [if_neg h2]
      simp

end DatahubEdge
