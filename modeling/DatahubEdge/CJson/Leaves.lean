import DatahubEdge.CJson.Tree

/-!
# The leaves of a tree and their paths

A reader of a payload finds a value by the keys that lead to it.  The children
of an object are a list, so nothing keeps two of them from carrying the same
key, and then a path does not determine its value.

## Main results

* `leafPaths_object`, `keysDistinct_object` — what an object contributes.
* `KeysDistinct.leafPaths_nodup` — in a tree whose objects repeat no key every
  path leads to at most one leaf.
-/

namespace DatahubEdge.CJson

mutual

/-- The leaves of a tree with the keys that lead to them.  The elements of an
array count as keyed by their position. -/
def leafPaths : CJson → List (List CString × CJson)
  | .null => [([], .null)]
  | .bool value => [([], .bool value)]
  | .number valuedouble => [([], .number valuedouble)]
  | .string valuestring => [([], .string valuestring)]
  | .array child => leafPathsArray 0 child
  | .object child => leafPathsObject child

def leafPathsArray (position : Nat) : List CJson → List (List CString × CJson)
  | [] => []
  | item :: next =>
      (item.leafPaths.map fun l => (printNat position :: l.1, l.2)) ++
        leafPathsArray (position + 1) next

def leafPathsObject :
    List (CString × CJson) → List (List CString × CJson)
  | [] => []
  | (key, item) :: next =>
      (item.leafPaths.map fun l => (key :: l.1, l.2)) ++
        leafPathsObject next

end

mutual

/-- No object of the tree has two children with the same key. -/
def KeysDistinct : CJson → Prop
  | .array child => KeysDistinctArray child
  | .object child =>
      (child.map Prod.fst).Nodup ∧ KeysDistinctObject child
  | _ => True

def KeysDistinctArray : List CJson → Prop
  | [] => True
  | item :: next => item.KeysDistinct ∧ KeysDistinctArray next

def KeysDistinctObject : List (CString × CJson) → Prop
  | [] => True
  | (_, item) :: next => item.KeysDistinct ∧ KeysDistinctObject next

end

/-! ## Objects -/

theorem leafPaths_object (child : List (CString × CJson)) :
    (object child).leafPaths = child.flatMap fun e =>
      e.2.leafPaths.map fun l => (e.1 :: l.1, l.2) := by
  rw [leafPaths]
  induction child with
  | nil => simp [leafPathsObject]
  | cons e child ih => simp [leafPathsObject, ih]

theorem keysDistinct_object {child : List (CString × CJson)} :
    (object child).KeysDistinct ↔
      (child.map Prod.fst).Nodup ∧ ∀ e ∈ child, e.2.KeysDistinct := by
  have hall : KeysDistinctObject child ↔ ∀ e ∈ child, e.2.KeysDistinct := by
    induction child with
    | nil => simp [KeysDistinctObject]
    | cons e child ih => simp [KeysDistinctObject, ih]
  rw [KeysDistinct, hall]

/-! ## Paths -/

/-- Leaves below different keys have different paths. -/
private theorem nodup_below {key : CString}
    {leaves : List (List CString × CJson)} (h : (leaves.map Prod.fst).Nodup) :
    ((leaves.map fun l => (key :: l.1, l.2)).map Prod.fst).Nodup := by
  have hmap : (leaves.map fun l => (key :: l.1, l.2)).map Prod.fst =
      (leaves.map Prod.fst).map (key :: ·) := by simp
  rw [hmap]
  exact h.map fun _ _ heq => (List.cons.inj heq).2

private theorem nodup_append_below {key : CString}
    {leaves more : List (List CString × CJson)}
    (hleaves : (leaves.map Prod.fst).Nodup) (hmore : (more.map Prod.fst).Nodup)
    (hother : ∀ path ∈ more.map Prod.fst, ∀ rest, path ≠ key :: rest) :
    (((leaves.map fun l => (key :: l.1, l.2)) ++ more).map
      Prod.fst).Nodup := by
  rw [List.map_append, List.nodup_append]
  refine ⟨nodup_below hleaves, hmore, ?_⟩
  intro path hpath path' hpath' heq
  simp only [List.map_map, List.mem_map, Function.comp] at hpath
  obtain ⟨l, _, rfl⟩ := hpath
  exact hother path' hpath' l.1 heq.symm

private theorem leafPathsArray_head {child : List CJson} {position : Nat} :
    ∀ path ∈ (leafPathsArray position child).map Prod.fst,
      ∃ i rest, position ≤ i ∧ path = printNat i :: rest := by
  induction child generalizing position with
  | nil =>
      intro path hpath
      simp [leafPathsArray] at hpath
  | cons item child ih =>
      intro path hpath
      rw [leafPathsArray, List.map_append, List.mem_append] at hpath
      rcases hpath with hpath | hpath
      · simp only [List.map_map, List.mem_map, Function.comp] at hpath
        obtain ⟨l, _, rfl⟩ := hpath
        exact ⟨position, l.1, le_rfl, rfl⟩
      · obtain ⟨i, rest, hi, hrest⟩ := ih path hpath
        exact ⟨i, rest, by omega, hrest⟩

private theorem leafPathsObject_head {child : List (CString × CJson)} :
    ∀ path ∈ (leafPathsObject child).map Prod.fst,
      ∃ e ∈ child, ∃ rest, path = e.1 :: rest := by
  induction child with
  | nil =>
      intro path hpath
      simp [leafPathsObject] at hpath
  | cons e child ih =>
      intro path hpath
      rw [leafPathsObject, List.map_append, List.mem_append] at hpath
      rcases hpath with hpath | hpath
      · simp only [List.map_map, List.mem_map, Function.comp] at hpath
        obtain ⟨l, _, rfl⟩ := hpath
        exact ⟨e, by simp, l.1, rfl⟩
      · obtain ⟨e', he', rest, hrest⟩ := ih path hpath
        exact ⟨e', by simp [he'], rest, hrest⟩

mutual

private theorem leafPaths_nodup :
    ∀ t : CJson, t.KeysDistinct → (t.leafPaths.map Prod.fst).Nodup
  | .null, _ => by simp [leafPaths]
  | .bool _, _ => by simp [leafPaths]
  | .number _, _ => by simp [leafPaths]
  | .string _, _ => by simp [leafPaths]
  | .array child, h => by
      rw [KeysDistinct] at h
      rw [leafPaths]
      exact leafPathsArray_nodup child 0 h
  | .object child, h => by
      rw [KeysDistinct] at h
      rw [leafPaths]
      exact leafPathsObject_nodup child h.1 h.2

private theorem leafPathsArray_nodup :
    ∀ (child : List CJson) (position : Nat), KeysDistinctArray child →
      ((leafPathsArray position child).map Prod.fst).Nodup
  | [], _, _ => by simp [leafPathsArray]
  | item :: next, position, h => by
      rw [KeysDistinctArray] at h
      rw [leafPathsArray]
      refine nodup_append_below (leafPaths_nodup item h.1)
        (leafPathsArray_nodup next (position + 1) h.2) ?_
      intro path hpath rest heq
      obtain ⟨i, rest', hi, hpath⟩ := leafPathsArray_head path hpath
      rw [hpath] at heq
      have := printNat_injective (List.cons.inj heq).1
      omega

private theorem leafPathsObject_nodup :
    ∀ child : List (CString × CJson), (child.map Prod.fst).Nodup →
      KeysDistinctObject child →
      ((leafPathsObject child).map Prod.fst).Nodup
  | [], _, _ => by simp [leafPathsObject]
  | (key, item) :: next, hkeys, h => by
      rw [KeysDistinctObject] at h
      rw [List.map_cons, List.nodup_cons] at hkeys
      rw [leafPathsObject]
      refine nodup_append_below (leafPaths_nodup item h.1)
        (leafPathsObject_nodup next hkeys.2 h.2) ?_
      intro path hpath rest heq
      obtain ⟨e, he, rest', hpath⟩ := leafPathsObject_head path hpath
      rw [hpath] at heq
      have hkey : e.1 = key := (List.cons.inj heq).1
      exact hkeys.1 (List.mem_map.mpr ⟨e, he, hkey⟩)

end

/-- In a tree whose objects repeat no key every path leads to at most one
leaf. -/
theorem KeysDistinct.leafPaths_nodup {t : CJson} (h : t.KeysDistinct) :
    (t.leafPaths.map Prod.fst).Nodup := CJson.leafPaths_nodup t h

end DatahubEdge.CJson
