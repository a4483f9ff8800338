import DatahubEdge.Message.AnalogLoop

/-!
# Reported and retained values

Two views of the trees a call handles, as lists of values keyed by device,
tag and index: `reports`, the analog values a payload carries, and
`retained`, the values `pPrevious` holds.  The value of a scalar tag has the
index `0`.

## Main results

* `mem_tagNodes_leaves` — the values a turn puts into the payload are those of
  `turnReports`.
* `getObjectItem_devAfter_self`, `getObjectItem_devAfter_ne` — a turn changes
  the record of its own tag only.
-/

namespace DatahubEdge.Message

open Lib

variable {V : Type}

/-- Device id, tag name and printed index. -/
abbrev Key := CString × CString × CString

/-! ## The values in a payload -/

/-- The indexed values under a tag of the payload. -/
def TagNode.leaves : TagNode V → Record V
  | .value v => [(cstr "0", v)]
  | .array child => child

/-- The analog values under the node of a device. -/
def nodeReports (id : CString) (analog : Obj (TagNode V)) :
    List (Key × V) :=
  analog.flatMap fun e => e.2.leaves.map fun leaf => ((id, e.1, leaf.1), leaf.2)

/-- The analog values under `d`, in the order of the payload. -/
def reports (d : Obj (DeviceNode V)) : List (Key × V) :=
  d.flatMap fun e => nodeReports e.1 e.2.analog

def Payload.reports (payload : Payload V) : List (Key × V) :=
  Message.reports payload.d

theorem mem_nodeReports {id id' name idx : CString} {v : V}
    {analog : Obj (TagNode V)} :
    ((id, name, idx), v) ∈ nodeReports id' analog ↔
      id = id' ∧ ∃ node, (name, node) ∈ analog ∧ (idx, v) ∈ node.leaves := by
  simp only [nodeReports, List.mem_flatMap, List.mem_map, Prod.mk.injEq]
  constructor
  · rintro ⟨⟨name', node⟩, hnode, ⟨idx', v'⟩, hleaf, ⟨rfl, rfl, rfl⟩, rfl⟩
    exact ⟨rfl, node, hnode, hleaf⟩
  · rintro ⟨rfl, node, hnode, hleaf⟩
    exact ⟨(name, node), hnode, (idx, v), hleaf, ⟨rfl, rfl, rfl⟩, rfl⟩

theorem mem_reports {id name idx : CString} {v : V} {d : Obj (DeviceNode V)} :
    ((id, name, idx), v) ∈ reports d ↔
      ∃ device, (id, device) ∈ d ∧ ∃ node, (name, node) ∈ device.analog ∧
        (idx, v) ∈ node.leaves := by
  simp only [reports, List.mem_flatMap, mem_nodeReports]
  constructor
  · rintro ⟨⟨id', device⟩, hd, rfl, h⟩
    exact ⟨device, hd, h⟩
  · rintro ⟨device, hd, h⟩
    exact ⟨(id, device), hd, rfl, h⟩

/-! ## The values in `pPrevious` -/

/-- The values `pPrevious` holds. -/
def retained (p : Previous V) : List (Key × V) :=
  p.flatMap fun dev => dev.2.flatMap fun tag =>
    tag.2.map fun leaf => ((dev.1, tag.1, leaf.1), leaf.2)

theorem mem_retained {id name idx : CString} {v : V} {p : Previous V} :
    ((id, name, idx), v) ∈ retained p ↔
      ∃ dev, (id, dev) ∈ p ∧ ∃ record, (name, record) ∈ dev ∧
        (idx, v) ∈ record := by
  simp only [retained, List.mem_flatMap, List.mem_map, Prod.mk.injEq]
  constructor
  · rintro ⟨⟨id', dev⟩, hdev, ⟨name', record⟩, hrec, ⟨idx', v'⟩, hleaf,
      ⟨rfl, rfl, rfl⟩, rfl⟩
    exact ⟨dev, hdev, record, hrec, hleaf⟩
  · rintro ⟨dev, hdev, record, hrec, hleaf⟩
    exact ⟨(id, dev), hdev, (name, record), hrec, (idx, v), hleaf,
      ⟨rfl, rfl, rfl⟩, rfl⟩

/-- The record the lookups find for a device and a tag. -/
def record (p : Previous V) (id name : CString) : Option (Record V) :=
  (getObjectItem p (some id)).bind fun dev => getObjectItem dev (some name)

theorem record_eq_getD (p : Previous V) (id name : CString) :
    record p id name =
      getObjectItem ((getObjectItem p (some id)).getD []) (some name) := by
  unfold record
  cases getObjectItem p (some id) with
  | none => rfl
  | some dev => rfl

theorem record_congr {id id' : CString} (h : lower id = lower id')
    (p : Previous V) (name : CString) :
    record p id name = record p id' name := by
  rw [record, record, getObjectItem_congr h]

/-! ## The values a turn puts into the payload -/

section Turn

variable [AnalogValue V]

/-- The values of a tag that end up in the payload: the elements of an array
tag that pass, the value of a scalar tag as soon as `valid` is set. -/
def turnReports (config : Option TagConfig) (s : TagLoop V)
    (tag : AnalogTag V) : Record V :=
  if tag.isArray then passing (filterOf config s) tag
  else if validAfter config s tag then [(cstr "0", tag.value)] else []

theorem validAfter_of_mem_passing {config : Option TagConfig} {s : TagLoop V}
    {tag : AnalogTag V} {leaf : CString × V}
    (h : leaf ∈ passing (filterOf config s) tag) :
    validAfter config s tag = true := by
  unfold validAfter
  cases hp : passing (filterOf config s) tag with
  | nil =>
      rw [hp] at h
      cases h
  | cons => simp

/-- With `valid` unset after a turn, no value of the tag passed. -/
theorem passing_of_not_validAfter {config : Option TagConfig} {s : TagLoop V}
    {tag : AnalogTag V} (h : validAfter config s tag = false) :
    s.valid = false ∧ passing (filterOf config s) tag = [] := by
  unfold validAfter at h
  rw [Bool.or_eq_false_iff] at h
  refine ⟨h.1, ?_⟩
  have hempty := h.2
  rw [Bool.not_eq_false', List.isEmpty_iff] at hempty
  exact hempty

/-- Without `valid` a turn adds no node. -/
theorem tagNodes_of_not_valid {config : Option TagConfig} {s : TagLoop V}
    {name : CString} {tag : AnalogTag V}
    (h : validAfter config s tag = false) :
    tagNodes name tag (passing (filterOf config s) tag)
      (validAfter config s tag) = [] := by
  rw [h, (passing_of_not_validAfter h).2]
  simp [tagNodes]

/-- A turn adds nodes with the name of its tag exactly when it leaves `valid`
set. -/
theorem named_tagNodes {config : Option TagConfig} {s : TagLoop V}
    {n name : CString} {tag : AnalogTag V} :
    (∃ x ∈ tagNodes n tag (passing (filterOf config s) tag)
        (validAfter config s tag), x.1 = name) ↔
      n = name ∧ validAfter config s tag = true := by
  cases hv : validAfter config s tag with
  | false =>
      rw [← hv, tagNodes_of_not_valid hv, hv]
      simp
  | true =>
      unfold tagNodes
      by_cases harr : tag.isArray = true
      · simp [harr]
      · simp only [if_neg harr, List.mem_append, List.mem_map, if_true,
          List.mem_singleton, and_true]
        constructor
        · rintro ⟨x, ⟨leaf, _, rfl⟩ | rfl, hx⟩
          · exact hx
          · exact hx
        · intro hn
          exact ⟨_, .inr rfl, hn⟩

theorem mem_leaves_of_mem_passing
    {filter : Option (TagConfig × Pointer (Record V))} {tag : AnalogTag V}
    {leaf : CString × V} (h : leaf ∈ passing filter tag) :
    leaf ∈ leaves tag ∧ passes filter leaf = true :=
  List.mem_filter.mp h

/-- The nodes a turn adds carry the values of `turnReports`, under the name of
the tag. -/
theorem mem_tagNodes_leaves {config : Option TagConfig} {s : TagLoop V}
    {tag : AnalogTag V} {name idx : CString} {v : V} :
    (∃ node, (name, node) ∈ tagNodes name tag
        (passing (filterOf config s) tag) (validAfter config s tag) ∧
        (idx, v) ∈ node.leaves) ↔
      (idx, v) ∈ turnReports config s tag := by
  unfold tagNodes turnReports
  by_cases harr : tag.isArray = true
  · simp only [if_pos harr]
    constructor
    · rintro ⟨node, hnode, hleaf⟩
      split at hnode
      · simp only [List.mem_singleton, Prod.mk.injEq] at hnode
        rw [hnode.2] at hleaf
        exact hleaf
      · cases hnode
    · intro hleaf
      rw [validAfter_of_mem_passing hleaf]
      exact ⟨_, List.mem_singleton_self _, hleaf⟩
  · simp only [if_neg harr]
    constructor
    · rintro ⟨node, hnode, hleaf⟩
      rcases List.mem_append.mp hnode with hnode | hnode
      · obtain ⟨leaf, hpass, heq⟩ := List.mem_map.mp hnode
        cases heq
        have hl := (mem_leaves_of_mem_passing hpass).1
        rw [leaves, if_neg harr, List.mem_singleton] at hl
        rw [validAfter_of_mem_passing hpass]
        rw [hl] at hleaf
        exact hleaf
      · split at hnode
        · simp only [List.mem_singleton, Prod.mk.injEq] at hnode
          rw [hnode.2] at hleaf
          rw [if_pos ‹_›]
          exact hleaf
        · cases hnode
    · intro hleaf
      split at hleaf
      · refine ⟨.value tag.value, List.mem_append_right _ ?_, hleaf⟩
        simp [*]
      · cases hleaf

end Turn

/-! ## The record a turn leaves behind -/

/-- The flag `match_previous_tag` in force says whether the device object has
a record for the tag. -/
def FlagCurrent (s : TagLoop V) (name : CString) : Prop :=
  s.matchPreviousTag = (getObjectItem s.subJsonPreDev (some name)).isSome

section Record

variable [AnalogValue V]

/-- A turn leaves the records of other tags alone. -/
theorem getObjectItem_devAfter_ne (config : Option TagConfig) (s : TagLoop V)
    {name n : CString} (tag : AnalogTag V) (h : lower n ≠ lower name) :
    getObjectItem (devAfter config s name tag) (some n) =
      getObjectItem s.subJsonPreDev (some n) := by
  unfold devAfter
  split
  · split
    · rw [replaceItemInObject_some, getObjectItem_some, getObjectItem_some]
      exact KeyedList.get_replace_ne h _ _
    · rw [addItemToObject_some, getObjectItem_some, getObjectItem_some]
      exact KeyedList.get_append_ne h _ _
  · rfl

/-- With a current flag a turn that leaves `valid` set makes the values that
pass the record of the tag. -/
theorem getObjectItem_devAfter_self {config : Option TagConfig} {s : TagLoop V}
    {name : CString} {tag : AnalogTag V} (hflag : FlagCurrent s name) :
    getObjectItem (devAfter config s name tag) (some name) =
      if validAfter config s tag then
        some (passing (filterOf config s) tag)
      else getObjectItem s.subJsonPreDev (some name) := by
  unfold FlagCurrent at hflag
  unfold devAfter
  split
  · split
    · rename_i hm
      rw [hm] at hflag
      rw [replaceItemInObject_some, getObjectItem_some]
      rw [getObjectItem_some] at hflag
      exact KeyedList.get_replace_self _ hflag.symm
    · rename_i hm
      rw [Bool.not_eq_true] at hm
      rw [hm] at hflag
      rw [addItemToObject_some, getObjectItem_some]
      rw [getObjectItem_some] at hflag
      have hnone : KeyedList.get lower name s.subJsonPreDev = none := by
        simpa using hflag.symm
      exact KeyedList.get_append_self _ _ hnone
  · rfl

/-- With the flag set by an earlier device and no record to replace, a turn
leaves no record. -/
theorem getObjectItem_devAfter_stale {config : Option TagConfig} {s : TagLoop V}
    {name : CString} {tag : AnalogTag V} (hm : s.matchPreviousTag = true)
    (hnone : getObjectItem s.subJsonPreDev (some name) = none) :
    devAfter config s name tag = s.subJsonPreDev := by
  rw [getObjectItem_some] at hnone
  unfold devAfter
  rw [if_pos hm, replaceItemInObject_some,
    KeyedList.replace_of_get_none _ hnone, ite_self]

end Record

end DatahubEdge.Message
