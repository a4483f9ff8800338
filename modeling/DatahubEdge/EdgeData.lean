import Mathlib.Data.Rat.Defs
import DatahubEdge.CString

/-!
# The data structures of `EDGE_DATA.h`

The C lists `AnalogTagList`/`AnalogTagNumber` and so on are Lean lists: the
number is the length.  The list of an array tag keeps its `ArraySize`, which
the caller may set to any `int`, zero and negative values included; the
invariant field `fits` is the caller's promise that the array is as long as
declared.

The analog values are of a type `V`: of rational numbers, with exact
arithmetic, or of a type that has the infinities and NaN of a `double` too.
-/

namespace DatahubEdge

/-- `EDGE_ANALOG_ARRAY_TAG_STRUCT` and its discrete and text variants. -/
structure ArrayTag (α : Type) where
  index : Int
  value : α

/-- `EDGE_ANALOG_TAG_STRUCT` and its discrete and text variants. -/
structure EdgeTag (α : Type) where
  name : Option CString
  value : α
  arraySize : Int := 0
  arrayList : Option (List (ArrayTag α)) := none
  fits : ∀ l, arrayList = some l → arraySize ≤ l.length := by
    intro l h
    cases h
    try decide

namespace EdgeTag

variable {α : Type}

/-- The test `ArrayList && ArraySize` of the array case. -/
def isArray (t : EdgeTag α) : Bool := t.arrayList.isSome && t.arraySize != 0

/-- The elements `ArrayList[0]`, …, `ArrayList[ArraySize - 1]`, in order. -/
def elements (t : EdgeTag α) : List (ArrayTag α) :=
  (t.arrayList.getD []).take t.arraySize.toNat

/-- The loop bound and the list agree: every declared element is read. -/
theorem length_elements (t : EdgeTag α) (h : t.isArray = true) :
    t.elements.length = t.arraySize.toNat := by
  obtain ⟨l, hl⟩ : ∃ l, t.arrayList = some l := by
    apply Option.isSome_iff_exists.mp
    simp only [isArray, Bool.and_eq_true] at h
    exact h.1
  have hfits := t.fits l hl
  simp only [elements, hl, Option.getD_some, List.length_take]
  omega

end EdgeTag

/-- The values are rational numbers where nothing else is said. -/
abbrev AnalogTag (V : Type := Rat) := EdgeTag V

abbrev DiscreteTag := EdgeTag UInt32

abbrev TextTag := EdgeTag (Option CString)

/-- `EDGE_DEVICE_STRUCT`. -/
structure EdgeDevice (V : Type := Rat) where
  id : Option CString
  analogTagList : List (AnalogTag V) := []
  discreteTagList : List DiscreteTag := []
  textTagList : List TextTag := []

/-- `EDGE_DATA_STRUCT`. -/
structure EdgeData (V : Type := Rat) where
  time : Option CString := none
  deviceList : Option (List (EdgeDevice V))

/-- The devices of a message; a NULL list is an empty one. -/
def EdgeData.devices {V : Type} (data : EdgeData V) : List (EdgeDevice V) :=
  data.deviceList.getD []

/-- The names that are not NULL are pairwise distinct ignoring case. -/
def Distinct (names : List (Option CString)) : Prop :=
  names.Pairwise fun a b => ∀ n, a = some n → b.map lower ≠ some (lower n)

instance (names : List (Option CString)) : Decidable (Distinct names) :=
  decidable_of_iff
    (names.Pairwise fun a b => a = none ∨ b.map lower ≠ a.map lower) <| by
      unfold Distinct
      refine Iff.of_eq (congrArg (fun R => names.Pairwise R) ?_)
      funext a b
      cases a with
      | none => simp
      | some n => simp

/-- Distinct names: no other name agrees with the one at a given place. -/
theorem Distinct.ne {α : Type} {f : α → Option CString} {pre post : List α}
    {a : α} {n : CString} (h : Distinct ((pre ++ a :: post).map f))
    (hn : f a = some n) :
    ∀ b ∈ pre ++ post, ∀ m, f b = some m → lower m ≠ lower n := by
  rw [Distinct, List.map_append, List.map_cons, List.pairwise_append] at h
  obtain ⟨_, hpost, hpre⟩ := h
  intro b hb m hm heq
  rcases List.mem_append.mp hb with hb | hb
  · refine hpre (f b) (List.mem_map_of_mem hb) (f a) (by simp) m hm ?_
    rw [hn, heq]
    rfl
  · refine (List.pairwise_cons.mp hpost).1 (f b) (List.mem_map_of_mem hb) n
      hn ?_
    rw [hm, ← heq]
    rfl

/-- Two entries of a list of distinct names agree ignoring case only if they
are one. -/
theorem Distinct.eq_of_lower {α : Type} {f : α → Option CString} {l : List α}
    (h : Distinct (l.map f)) {a b : α} (ha : a ∈ l) (hb : b ∈ l) {m n : CString}
    (hm : f a = some m) (hn : f b = some n) (hlower : lower m = lower n) :
    a = b := by
  obtain ⟨pre, post, rfl⟩ := List.append_of_mem ha
  by_contra hne
  have hother : b ∈ pre ++ post := by
    simp only [List.mem_append, List.mem_cons] at hb ⊢
    rcases hb with hb | hb | hb
    · exact .inl hb
    · exact absurd hb.symm hne
    · exact .inr hb
  exact h.ne hm b hother n hn hlower.symm

/-- What C leaves undefined and the message code can run into. -/
inductive Fault where
  /-- A member of a node that is NULL is read. -/
  | nullDeref
  /-- A member of a node that was deleted is read. -/
  | useAfterFree
  /-- A signed subtraction leaves the range of `int`. -/
  | intOverflow
  /-- `sprintf` writes past the end of its buffer. -/
  | bufferOverflow
  deriving DecidableEq

end DatahubEdge
