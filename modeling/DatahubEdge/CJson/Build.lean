import DatahubEdge.CJson.Tree
import DatahubEdge.EdgeData

/-!
# Objects built by one addition after the other

The loops of `message.c` build an object by adding one child for each item of
a list, under a name of the item; a child without a name is left out.  As long
as no two names agree, every child is found again under its name.

## Main results

* `foldl_addItemToObject` — the object such a loop builds.
* `getObjectItem_built`, `get_built` — lookups ignoring case and by the exact
  key in an object built from distinct names.
* `readNumber_members`, `readText_members` — an object with optional members
  is read back from its keys.
-/

namespace DatahubEdge

open Lib

section Built

variable {α β φ : Type} (name : β → Option CString)
  (item : β → α)

/-- The object with a child for each item of the list that has a name. -/
def built (l : List β) : Obj α :=
  l.filterMap fun b => (name b).map fun n => (n, item b)

/-- The loop that adds a child for each item appends the built object. -/
theorem foldl_addItemToObject (l : List β) (o : Obj α) :
    l.foldl (fun o b => addItemToObject o (name b) (item b)) o =
      o ++ built name item l := by
  induction l generalizing o with
  | nil => simp [built]
  | cons b l ih =>
      rw [List.foldl_cons, ih]
      cases hname : name b with
      | none => simp [built, hname]
      | some n => simp [built, hname]

variable {name item}

theorem mem_built {l : List β} {n : CString} {v : α} :
    (n, v) ∈ built name item l ↔
      ∃ b ∈ l, name b = some n ∧ item b = v := by
  simp [built, and_comm]

/-- The keys of a built object are the names there are, in order. -/
theorem keys_built (l : List β) :
    (built name item l).map Prod.fst = l.filterMap name := by
  rw [built, List.map_filterMap]
  congr
  funext b
  cases name b with
  | none => rfl
  | some n => rfl

/-- Mapping the nodes of a built object. -/
theorem map_built {γ : Type} (f : α → γ) (l : List β) :
    (built name item l).map (fun e => (e.1, f e.2)) =
      built name (fun b => f (item b)) l := by
  rw [built, built, List.map_filterMap]
  congr
  funext b
  cases name b with
  | none => rfl
  | some n => rfl

/-- Selecting children by their nodes is selecting items. -/
theorem filter_built (keep : α → Bool) (l : List β) :
    (built name item l).filter (fun e => keep e.2) =
      built name item (l.filter fun b => keep (item b)) := by
  induction l with
  | nil => rfl
  | cons b l ih =>
      cases hname : name b with
      | none =>
          by_cases hkeep : keep (item b) = true
          · simpa [built, hname, hkeep] using ih
          · simpa [built, hname, hkeep] using ih
      | some n =>
          by_cases hkeep : keep (item b) = true
          · simpa [built, hname, hkeep] using ih
          · simpa [built, hname, hkeep] using ih

/-- Names that differ under `canon` make keys that differ under it. -/
theorem keysUnique_built {canon : CString → φ} {l : List β}
    (h : l.Pairwise fun a b => ∀ m n, name a = some m → name b = some n →
      canon m ≠ canon n) :
    KeyedList.KeysUnique canon (built name item l) := by
  rw [KeyedList.KeysUnique, List.Nodup, List.pairwise_map, built,
    List.pairwise_filterMap]
  refine h.imp ?_
  rintro a b hab e he e' he'
  obtain ⟨m, hm, rfl⟩ := Option.map_eq_some_iff.mp he
  obtain ⟨n, hn, rfl⟩ := Option.map_eq_some_iff.mp he'
  exact hab m n hm hn

/-- A lookup ignoring case finds the child of an item. -/
theorem getObjectItem_built {l : List β} (h : Distinct (l.map name)) {b : β}
    (hb : b ∈ l) {n : CString} (hname : name b = some n) :
    getObjectItem (built name item l) (some n) = some (item b) := by
  have hunique : KeyedList.KeysUnique lower (built name item l) := by
    apply keysUnique_built
    rw [Distinct, List.pairwise_map] at h
    refine h.imp ?_
    intro a b hab m n hm hn heq
    refine hab m hm ?_
    rw [hn, heq]
    rfl
  rw [getObjectItem_some]
  exact hunique.get_of_mem (mem_built.mpr ⟨b, hb, hname, rfl⟩)

/-- A lookup by the exact key finds the child of an item. -/
theorem get_built {l : List β} (h : (l.map name).Nodup) {b : β}
    (hb : b ∈ l) {n : CString} (hname : name b = some n) :
    KeyedList.get id n (built name item l) = some (item b) := by
  have hunique : KeyedList.KeysUnique id (built name item l) := by
    apply keysUnique_built
    rw [List.Nodup, List.pairwise_map] at h
    refine h.imp ?_
    intro a b hab m n hm hn heq
    apply hab
    rw [hm, hn]
    exact congrArg some heq
  exact hunique.get_of_mem (mem_built.mpr ⟨b, hb, hname, rfl⟩)

end Built

/-! ## Optional members -/

/-- An object with fixed keys; a member is left out when there is nothing to
write. -/
def members (slots : List (CString × Option CJson)) : Obj CJson :=
  slots.filterMap fun slot => slot.2.map fun item => (slot.1, item)

/-- A number that is written unless it is zero. -/
def numberMember (number : Rat) : Option CJson :=
  if number ≠ 0 then some (.number number) else none

/-- A text that is written unless it is NULL. -/
def textMember (text : Option CString) : Option CJson := text.map .string

/-- The child of a node under exactly the given key. -/
def member (node : CJson) (key : CString) : Option CJson :=
  KeyedList.get id key node.fields

/-- The number under a key; an absent one stands for 0. -/
def readNumber (node : CJson) (key : CString) : Rat :=
  match member node key with
  | some (.number number) => number
  | _ => 0

/-- The text under a key; an absent one stands for NULL. -/
def readText (node : CJson) (key : CString) : Option CString :=
  match member node key with
  | some (.string text) => some text
  | _ => none

theorem member_members {slots : List (CString × Option CJson)}
    (h : (slots.map Prod.fst).Nodup) {key : CString} {item : Option CJson}
    (hmem : (key, item) ∈ slots) :
    member (.object (members slots)) key = item := by
  induction slots with
  | nil => cases hmem
  | cons slot slots ih =>
      rw [List.map_cons, List.nodup_cons] at h
      have hrest : members (slot :: slots) =
          (slot.2.map fun item => (slot.1, item)).toList ++ members slots := by
        rw [members, List.filterMap_cons]
        cases slot.2 with
        | none => rfl
        | some _ => rfl
      rw [member, CJson.fields, hrest, KeyedList.get_append]
      rcases List.mem_cons.mp hmem with rfl | hmem
      · -- no later slot has the key
        have hnone : KeyedList.get id key (members slots) = none := by
          rw [KeyedList.get_eq_none_iff]
          intro e he heq
          obtain ⟨slot', hslot', hsome⟩ := List.mem_filterMap.mp he
          obtain ⟨_, _, rfl⟩ := Option.map_eq_some_iff.mp hsome
          exact h.1 (List.mem_map.mpr ⟨slot', hslot', heq.symm⟩)
        rw [hnone]
        cases item with
        | none => rfl
        | some v => simp [KeyedList.get]
      · have hne : key ≠ slot.1 := by
          intro heq
          exact h.1 (List.mem_map.mpr ⟨_, hmem, heq⟩)
        have hhead : KeyedList.get id key
            (slot.2.map fun item => (slot.1, item)).toList = none := by
          cases slot.2 with
          | none => rfl
          | some v => simp [KeyedList.get, hne]
        rw [hhead, Option.none_or]
        exact ih h.2 hmem

section Read

variable {slots : List (CString × Option CJson)}
  (h : (slots.map Prod.fst).Nodup) {key : CString}

include h

theorem readNumber_members {number : Rat}
    (hmem : (key, numberMember number) ∈ slots) :
    readNumber (.object (members slots)) key = number := by
  rw [readNumber, member_members h hmem, numberMember]
  by_cases hzero : number = 0
  · rw [if_neg (not_not.mpr hzero), hzero]
  · rw [if_pos hzero]

theorem readNumber_members_some {number : Rat}
    (hmem : (key, some (.number number)) ∈ slots) :
    readNumber (.object (members slots)) key = number := by
  rw [readNumber, member_members h hmem]

theorem readText_members {text : Option CString}
    (hmem : (key, textMember text) ∈ slots) :
    readText (.object (members slots)) key = text := by
  rw [readText, member_members h hmem, textMember]
  cases text with
  | none => rfl
  | some t => rfl

end Read

end DatahubEdge
