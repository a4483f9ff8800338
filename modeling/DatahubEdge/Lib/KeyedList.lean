import Mathlib.Data.List.Forall2
import Mathlib.Data.List.Nodup

/-!
# Append-only association lists looked up under a coarser key

An object is a list of `(key, value)` entries in insertion order.  Lookups
and replacements take the *first* entry whose key agrees with the given one
after a canonicalisation `canon : κ → φ` (case folding, for instance), while
insertion only appends.  Two keys the programmer thinks of as different may
therefore name one entry, and one key may name several.

## Main results

* `get_replace_self`, `get_replace_ne`, `get_append` — the read-over-write
  laws of the two updates.
* `replace_forall₂`, `filter_replace` — a replacement touches one entry.
* `KeysUnique.replace`, `KeysUnique.append` — both updates keep an object in
  which no two entries agree under `canon`, provided an append is guarded by
  a failed lookup.
* `KeysUnique.get_of_mem` — in such an object a lookup finds every entry.
-/

namespace DatahubEdge.Lib.KeyedList

universe u v w

variable {κ : Type u} {φ : Type v} {α : Type w} [DecidableEq φ]
  (canon : κ → φ)

/-- The value of the first entry whose key agrees with `k`. -/
def get (k : κ) : List (κ × α) → Option α
  | [] => none
  | e :: es => if canon k = canon e.1 then some e.2 else get k es

/-- Overwrite the first entry whose key agrees with `k`, key included. -/
def replace (k : κ) (v : α) : List (κ × α) → List (κ × α)
  | [] => []
  | e :: es => if canon k = canon e.1 then (k, v) :: es else e :: replace k v es

/-- The keys of an object. -/
def keys (o : List (κ × α)) : List κ := o.map Prod.fst

variable {canon}

@[simp] theorem get_nil (k : κ) : get canon k ([] : List (κ × α)) = none := rfl

@[simp] theorem replace_nil (k : κ) (v : α) :
    replace canon k v ([] : List (κ × α)) = [] := rfl

/-! ## Lookups -/

theorem get_cons_self {k k' : κ} (h : canon k = canon k') (v : α)
    (o : List (κ × α)) : get canon k ((k', v) :: o) = some v := by
  simp [get, h]

theorem get_cons_ne {k k' : κ} (h : canon k ≠ canon k') (v : α)
    (o : List (κ × α)) : get canon k ((k', v) :: o) = get canon k o := by
  simp [get, h]

/-- A lookup only depends on the canonical form of its key. -/
theorem get_congr {k k' : κ} (h : canon k = canon k') (o : List (κ × α)) :
    get canon k o = get canon k' o := by
  induction o with
  | nil => rfl
  | cons e o ih => simp only [get, h, ih]

/-- Appending entries answers only the lookups that failed before. -/
theorem get_append (k : κ) (o p : List (κ × α)) :
    get canon k (o ++ p) = (get canon k o).or (get canon k p) := by
  induction o with
  | nil => rfl
  | cons e o ih =>
      simp only [List.cons_append, get]
      split
      · rfl
      · exact ih

theorem get_eq_none_iff (k : κ) (o : List (κ × α)) :
    get canon k o = none ↔ ∀ e ∈ o, canon k ≠ canon e.1 := by
  induction o with
  | nil => simp
  | cons e o ih =>
      by_cases h : canon k = canon e.1
      · simp [get, h]
      · simp [get, h, ih]

theorem get_isSome_iff (k : κ) (o : List (κ × α)) :
    (get canon k o).isSome ↔ ∃ e ∈ o, canon k = canon e.1 := by
  rw [← not_iff_not, Option.not_isSome_iff_eq_none, get_eq_none_iff]
  simp

/-- A successful lookup reads an entry of the object. -/
theorem exists_mem_of_get {k : κ} {v : α} {o : List (κ × α)}
    (h : get canon k o = some v) : ∃ k', canon k = canon k' ∧ (k', v) ∈ o := by
  induction o with
  | nil => cases h
  | cons e o ih =>
      by_cases he : canon k = canon e.1
      · rw [get_cons_self he] at h
        cases h
        exact ⟨e.1, he, List.mem_cons_self⟩
      · rw [get_cons_ne he] at h
        obtain ⟨k', hk', hm⟩ := ih h
        exact ⟨k', hk', List.mem_cons_of_mem _ hm⟩

/-! ## Updates -/

theorem get_append_self (k : κ) (v : α) {o : List (κ × α)}
    (h : get canon k o = none) : get canon k (o ++ [(k, v)]) = some v := by
  rw [get_append, h, get_cons_self rfl]
  rfl

theorem get_append_ne {k k' : κ} (h : canon k ≠ canon k') (v : α)
    (o : List (κ × α)) : get canon k (o ++ [(k', v)]) = get canon k o := by
  rw [get_append, get_cons_ne h]
  simp

theorem replace_of_get_none {k : κ} (v : α) {o : List (κ × α)}
    (h : get canon k o = none) : replace canon k v o = o := by
  induction o with
  | nil => rfl
  | cons e o ih =>
      by_cases he : canon k = canon e.1
      · rw [get_cons_self he] at h
        cases h
      · rw [get_cons_ne he] at h
        simp [replace, he, ih h]

theorem get_replace_self {k : κ} (v : α) {o : List (κ × α)}
    (h : (get canon k o).isSome) :
    get canon k (replace canon k v o) = some v := by
  induction o with
  | nil => cases h
  | cons e o ih =>
      by_cases he : canon k = canon e.1
      · simp [replace, get, he]
      · rw [get_cons_ne he] at h
        simp [replace, get, he, ih h]

theorem get_replace_ne {k k' : κ} (h : canon k ≠ canon k') (v : α)
    (o : List (κ × α)) :
    get canon k (replace canon k' v o) = get canon k o := by
  induction o with
  | nil => rfl
  | cons e o ih =>
      by_cases he : canon k' = canon e.1
      · have hk : canon k ≠ canon e.1 := by rw [← he]; exact h
        simp [replace, get, he, hk]
      · simp only [replace, get, if_neg he, ih]

/-- Replacing keeps every canonical key in its place. -/
theorem map_canon_replace (k : κ) (v : α) (o : List (κ × α)) :
    (replace canon k v o).map (fun e => canon e.1) =
      o.map (fun e => canon e.1) := by
  induction o with
  | nil => rfl
  | cons e o ih =>
      by_cases he : canon k = canon e.1
      · simp [replace, he]
      · simp [replace, he, ih]

/-- Replacing under a key that is found exchanges one entry, whose key agrees
and whose value is the one found, and keeps the others in place. -/
theorem replace_forall₂ {k : κ} {old : α} (v : α) {o : List (κ × α)}
    (h : get canon k o = some old) :
    List.Forall₂
      (fun e e' => e' = e ∨
        canon k = canon e.1 ∧ e.2 = old ∧ e' = (k, v)) o
      (replace canon k v o) := by
  induction o with
  | nil => cases h
  | cons e o ih =>
      by_cases he : canon k = canon e.1
      · rw [get_cons_self he] at h
        rw [replace, if_pos he]
        refine .cons (.inr ⟨he, Option.some.inj h, rfl⟩) ?_
        exact List.forall₂_same.mpr fun e' _ => .inl rfl
      · rw [get_cons_ne he] at h
        rw [replace, if_neg he]
        exact .cons (.inl rfl) (ih h)

/-- Replacing changes no entry outside a set of keys that contains the given
one. -/
theorem filter_replace {q : κ × α → Bool} {k : κ}
    (hq : ∀ e, canon k = canon e.1 → q e = false) (v : α)
    (o : List (κ × α)) : (replace canon k v o).filter q = o.filter q := by
  induction o with
  | nil => rfl
  | cons e o ih =>
      by_cases he : canon k = canon e.1
      · rw [replace, if_pos he, List.filter_cons_of_neg (by simp [hq (k, v) rfl]),
          List.filter_cons_of_neg (by simp [hq e he])]
      · rw [replace, if_neg he, List.filter_cons, List.filter_cons, ih]

/-- The entries of a replaced object are the new one and old ones. -/
theorem mem_replace {k : κ} {v : α} {o : List (κ × α)} {e : κ × α}
    (h : e ∈ replace canon k v o) : e = (k, v) ∨ e ∈ o := by
  induction o with
  | nil => cases h
  | cons e' o ih =>
      by_cases he : canon k = canon e'.1
      · simp only [replace, if_pos he, List.mem_cons] at h
        rcases h with h | h
        · exact .inl h
        · exact .inr (List.mem_cons_of_mem _ h)
      · simp only [replace, if_neg he, List.mem_cons] at h
        rcases h with h | h
        · exact .inr (by simp [h])
        · exact (ih h).imp_right (List.mem_cons_of_mem _)

/-! ## Objects without a repeated key -/

/-- No two entries agree under `canon`. -/
def KeysUnique (canon : κ → φ) (o : List (κ × α)) : Prop :=
  (o.map (fun e => canon e.1)).Nodup

omit [DecidableEq φ] in
theorem KeysUnique.nil : KeysUnique canon ([] : List (κ × α)) :=
  List.nodup_nil

theorem KeysUnique.replace {o : List (κ × α)} (h : KeysUnique canon o)
    (k : κ) (v : α) : KeysUnique canon (replace canon k v o) := by
  rw [KeysUnique, map_canon_replace]
  exact h

theorem KeysUnique.append {o : List (κ × α)} (h : KeysUnique canon o)
    {k : κ} (v : α) (hk : get canon k o = none) :
    KeysUnique canon (o ++ [(k, v)]) := by
  rw [KeysUnique, List.map_append, List.nodup_append]
  refine ⟨h, by simp, ?_⟩
  intro a ha b hb hab
  obtain ⟨e, he, rfl⟩ := List.mem_map.mp ha
  have hbk : b = canon k := by simpa using hb
  exact (get_eq_none_iff k o).mp hk e he (hbk.symm.trans hab.symm)

/-- Without repeated keys a lookup finds every entry. -/
theorem KeysUnique.get_of_mem {o : List (κ × α)} (h : KeysUnique canon o)
    {k : κ} {v : α} (hm : (k, v) ∈ o) : get canon k o = some v := by
  induction o with
  | nil => cases hm
  | cons e o ih =>
      rw [KeysUnique, List.map_cons, List.nodup_cons] at h
      rcases List.mem_cons.mp hm with rfl | hm
      · exact get_cons_self rfl _ _
      · have hne : canon k ≠ canon e.1 := by
          intro he
          exact h.1 (List.mem_map.mpr ⟨(k, v), hm, he⟩)
        rw [get_cons_ne hne]
        exact ih h.2 hm

end DatahubEdge.Lib.KeyedList
