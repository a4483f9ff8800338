import Mathlib.Data.List.Nodup

/-!
# Trees of linked siblings in memory

A node points to its first child, to the next sibling and to the previous one.
`Siblings` is the shape such nodes have in memory, with the address of each;
`Segment` says that a heap holds the shape, between a node before it and one
behind it.  Writing a link at either end of a segment extends it, and what is
written elsewhere does not disturb it.

## Main results

* `segment_append` — a segment is two segments that point to each other.
* `Segment.relinkNext`, `Segment.relinkPrev` — another neighbour.
* `Segment.modify` — another label or other children of one node.
-/

namespace DatahubEdge.Lib.Linked

universe u

/-- A node with its links. -/
structure Node (ℓ : Type u) where
  next : Option Nat
  prev : Option Nat
  child : Option Nat
  label : ℓ

/-- What is allocated, by address. -/
abbrev Heap (ℓ : Type u) := Nat → Option (Node ℓ)

inductive HeapFault where
  /-- Memory that is not allocated is read, written or freed. -/
  | dangling
  /-- The walk is longer than the fuel. -/
  | fuel
  deriving DecidableEq

section Access

variable {ℓ : Type u}

def read (h : Heap ℓ) (a : Nat) : Except HeapFault (Node ℓ) :=
  match h a with
  | none => .error .dangling
  | some n => .ok n

def set (h : Heap ℓ) (a : Nat) (n : Node ℓ) : Heap ℓ :=
  fun b => if b = a then some n else h b

/-- The heap with other members in the node a pointer points to, if any. -/
def touch (h : Heap ℓ) (p : Option Nat) (f : Node ℓ → Node ℓ) : Heap ℓ :=
  fun b => if p = some b then (h b).map f else h b

/-- Writing members of a node that is allocated. -/
def update (h : Heap ℓ) (a : Nat) (f : Node ℓ → Node ℓ) :
    Except HeapFault (Heap ℓ) := do
  let n ← read h a
  return set h a (f n)

/-- The heap without some addresses. -/
def erase (h : Heap ℓ) (l : List Nat) : Heap ℓ :=
  fun b => if b ∈ l then none else h b

def free (h : Heap ℓ) (a : Nat) : Except HeapFault (Heap ℓ) :=
  match h a with
  | none => .error .dangling
  | some _ => .ok (erase h [a])

variable {h : Heap ℓ} {a b : Nat} {n : Node ℓ}

theorem read_eq (ha : h a = some n) : read h a = .ok n := by
  rw [read, ha]

theorem read_none (ha : h a = none) : read h a = .error .dangling := by
  rw [read, ha]

theorem touch_self (f : Node ℓ → Node ℓ) :
    touch h (some a) f a = (h a).map f := if_pos rfl

theorem touch_ne {p : Option Nat} (hne : p ≠ some b) (f : Node ℓ → Node ℓ) :
    touch h p f b = h b := if_neg hne

theorem isSome_touch (p : Option Nat) (f : Node ℓ → Node ℓ) :
    (touch h p f b).isSome = (h b).isSome := by
  rw [touch]
  split
  · exact Option.isSome_map
  · rfl

theorem update_eq (ha : (h a).isSome = true) (f : Node ℓ → Node ℓ) :
    update h a f = .ok (touch h (some a) f) := by
  obtain ⟨n, hn⟩ := Option.isSome_iff_exists.mp ha
  rw [update, read_eq hn]
  show Except.ok (set h a (f n)) = _
  congr 1
  funext b
  by_cases hb : b = a
  · rw [hb, set, if_pos rfl, touch_self, hn]
    rfl
  · rw [set, if_neg hb, touch_ne]
    exact fun heq => hb (Option.some.inj heq).symm

theorem free_eq (ha : h a = some n) : free h a = .ok (erase h [a]) := by
  rw [free, ha]

@[simp] theorem set_self : set h a n a = some n := if_pos rfl

theorem set_same (ha : h a = some n) : set h a n = h := by
  funext b
  rw [set]
  split
  · rename_i hb
    rw [hb, ha]
  · rfl

theorem set_ne (hne : b ≠ a) : set h a n b = h b := if_neg hne

theorem set_set (n' : Node ℓ) : set (set h a n) a n' = set h a n' := by
  funext b
  by_cases hb : b = a
  · rw [hb, set_self, set_self]
  · rw [set_ne hb, set_ne hb, set_ne hb]

theorem erase_of_mem {l : List Nat} (hb : b ∈ l) : erase h l b = none :=
  if_pos hb

theorem erase_of_not_mem {l : List Nat} (hb : b ∉ l) : erase h l b = h b :=
  if_neg hb

/-- The order in which addresses are freed does not matter. -/
theorem erase_congr {l l' : List Nat} (heq : ∀ b, b ∈ l ↔ b ∈ l') :
    erase h l = erase h l' := by
  funext b
  by_cases hb : b ∈ l
  · rw [erase_of_mem hb, erase_of_mem ((heq b).mp hb)]
  · rw [erase_of_not_mem hb, erase_of_not_mem fun hb' => hb ((heq b).mpr hb')]

theorem erase_erase (l l' : List Nat) :
    erase (erase h l) l' = erase h (l ++ l') := by
  funext b
  by_cases hb' : b ∈ l'
  · rw [erase_of_mem hb', erase_of_mem (List.mem_append_right l hb')]
  · rw [erase_of_not_mem hb']
    by_cases hb : b ∈ l
    · rw [erase_of_mem hb, erase_of_mem (List.mem_append_left l' hb)]
    · rw [erase_of_not_mem hb, erase_of_not_mem]
      rw [List.mem_append, not_or]
      exact ⟨hb, hb'⟩

end Access

/-! ## Shapes -/

/-- A list of siblings, each with its own children. -/
inductive Siblings (ℓ : Type u) where
  | nil
  | cons (item : Nat) (label : ℓ) (child next : Siblings ℓ)

namespace Siblings

variable {ℓ : Type u}

/-- The address of the first sibling, or of what comes behind. -/
def headOr (behind : Option Nat) : Siblings ℓ → Option Nat
  | nil => behind
  | cons item _ _ _ => some item

/-- The address of the last sibling, or of what comes before. -/
def lastOr (before : Option Nat) : Siblings ℓ → Option Nat
  | nil => before
  | cons item _ _ next => next.lastOr (some item)

/-- All addresses, those of the children behind their parent. -/
def addrs : Siblings ℓ → List Nat
  | nil => []
  | cons item _ child next => item :: (child.addrs ++ next.addrs)

/-- More siblings behind the last. -/
def append : Siblings ℓ → Siblings ℓ → Siblings ℓ
  | nil, more => more
  | cons item label child next, more =>
      cons item label child (next.append more)

/-- The label and the children of the node at an address. -/
def find (a : Nat) : Siblings ℓ → Option (ℓ × Siblings ℓ)
  | nil => none
  | cons item label child next =>
      if item = a then some (label, child)
      else (child.find a).or (next.find a)

/-- Another label and other children for the node at an address. -/
def modify (a : Nat) (f : ℓ × Siblings ℓ → ℓ × Siblings ℓ) :
    Siblings ℓ → Siblings ℓ
  | nil => nil
  | cons item label child next =>
      if item = a then cons item (f (label, child)).1 (f (label, child)).2 next
      else cons item label (child.modify a f) (next.modify a f)

/-- Other siblings in the place of the one at an address. -/
def replaceAt (i : Nat) (new : Siblings ℓ) : Siblings ℓ → Siblings ℓ
  | nil => nil
  | cons item label child next =>
      if item = i then new.append next
      else cons item label child (replaceAt i new next)

theorem addrs_append (S T : Siblings ℓ) :
    (S.append T).addrs = S.addrs ++ T.addrs := by
  induction S with
  | nil => rfl
  | cons item label child next _ ih =>
      rw [append, addrs, addrs, ih, List.cons_append, List.append_assoc]

theorem append_nil (S : Siblings ℓ) : S.append nil = S := by
  induction S with
  | nil => rfl
  | cons item label child next _ ih => rw [append, ih]

theorem append_assoc (S T U : Siblings ℓ) :
    (S.append T).append U = S.append (T.append U) := by
  induction S with
  | nil => rfl
  | cons item label child next _ ih => rw [append, append, append, ih]

theorem lastOr_append (S T : Siblings ℓ) (before : Option Nat) :
    (S.append T).lastOr before = T.lastOr (S.lastOr before) := by
  induction S generalizing before with
  | nil => rfl
  | cons item label child next _ ih => exact ih (some item)

theorem headOr_append (S T : Siblings ℓ) (behind : Option Nat) :
    (S.append T).headOr behind = S.headOr (T.headOr behind) := by
  cases S with
  | nil => rfl
  | cons item label child next => rfl

theorem lastOr_mem {S : Siblings ℓ} {before : Option Nat} {z : Nat}
    (hz : S.lastOr before = some z) : before = some z ∨ z ∈ S.addrs := by
  induction S generalizing before with
  | nil => exact .inl hz
  | cons item label child next _ ih =>
      rw [addrs]
      rcases ih hz with hitem | hnext
      · rw [Option.some.inj hitem]
        exact .inr List.mem_cons_self
      · exact .inr (List.mem_cons_of_mem _ (List.mem_append_right _ hnext))

theorem mem_of_lastOr {S : Siblings ℓ} {z : Nat}
    (hz : S.lastOr none = some z) : z ∈ S.addrs := by
  rcases lastOr_mem hz with hnone | hmem
  · cases hnone
  · exact hmem

theorem headOr_mem {S : Siblings ℓ} {a : Nat}
    (ha : S.headOr none = some a) : a ∈ S.addrs := by
  cases S with
  | nil => cases ha
  | cons item label child next =>
      cases ha
      exact List.mem_cons_self

theorem lastOr_some_ne_none (S : Siblings ℓ) (z : Nat) :
    S.lastOr (some z) ≠ none := by
  induction S generalizing z with
  | nil => exact Option.some_ne_none z
  | cons item label child next _ ih => exact ih item

theorem lastOr_cons_ne_none {item : Nat} {label : ℓ} {child next : Siblings ℓ}
    (before : Option Nat) :
    (cons item label child next).lastOr before ≠ none :=
  next.lastOr_some_ne_none item

theorem headOr_modify (a : Nat) (f : ℓ × Siblings ℓ → ℓ × Siblings ℓ)
    (S : Siblings ℓ) (behind : Option Nat) :
    (S.modify a f).headOr behind = S.headOr behind := by
  cases S with
  | nil => rfl
  | cons item label child next =>
      rw [modify]
      split
      · rfl
      · rfl

theorem find_isSome {a : Nat} {S : Siblings ℓ} :
    (S.find a).isSome = true ↔ a ∈ S.addrs := by
  induction S with
  | nil => simp [find, addrs]
  | cons item label child next ihc ihn =>
      rw [find, addrs]
      by_cases hitem : item = a
      · simp [hitem]
      · rw [if_neg hitem, Option.isSome_or, Bool.or_eq_true, ihc, ihn,
          List.mem_cons, List.mem_append]
        simp [Ne.symm hitem]

theorem mem_of_find {a : Nat} {S : Siblings ℓ} {node : ℓ × Siblings ℓ}
    (h : S.find a = some node) : a ∈ S.addrs :=
  find_isSome.mp (Option.isSome_iff_exists.mpr ⟨node, h⟩)

theorem exists_find {a : Nat} {S : Siblings ℓ} (ha : a ∈ S.addrs) :
    ∃ label C, S.find a = some (label, C) := by
  obtain ⟨⟨label, C⟩, h⟩ := Option.isSome_iff_exists.mp (find_isSome.mpr ha)
  exact ⟨label, C, h⟩

theorem not_mem_of_find {a : Nat} {S : Siblings ℓ} (h : S.find a = none) :
    a ∉ S.addrs := by
  rw [← find_isSome, h]
  exact Bool.false_ne_true

theorem modify_eq_self {a : Nat} {f : ℓ × Siblings ℓ → ℓ × Siblings ℓ}
    {S : Siblings ℓ} (ha : a ∉ S.addrs) : S.modify a f = S := by
  induction S with
  | nil => rfl
  | cons item label child next ihc ihn =>
      rw [addrs, List.mem_cons, List.mem_append, not_or, not_or] at ha
      rw [modify, if_neg (Ne.symm ha.1), ihc ha.2.1, ihn ha.2.2]

theorem addrs_relabel (a : Nat) (g : ℓ → ℓ) (S : Siblings ℓ) :
    (S.modify a fun node => (g node.1, node.2)).addrs = S.addrs := by
  induction S with
  | nil => rfl
  | cons item label child next ihc ihn =>
      rw [modify]
      split
      · rw [addrs, addrs]
      · rw [addrs, addrs, ihc, ihn]

/-- Only what is made of the node at the address matters. -/
theorem modify_congr {a : Nat} {f g : ℓ × Siblings ℓ → ℓ × Siblings ℓ}
    {S C : Siblings ℓ} {label : ℓ} (hnodup : S.addrs.Nodup)
    (hC : S.find a = some (label, C)) (hfg : f (label, C) = g (label, C)) :
    S.modify a f = S.modify a g := by
  induction S with
  | nil => rfl
  | cons item label' child next ihc ihn =>
      rw [addrs, List.nodup_cons, List.nodup_append] at hnodup
      obtain ⟨_, hchild, hnext, hdisjoint⟩ := hnodup
      rw [find] at hC
      rw [modify, modify]
      by_cases heq : item = a
      · rw [if_pos heq] at hC ⊢
        cases hC
        rw [if_pos heq, hfg]
      · rw [if_neg heq] at hC ⊢
        rw [if_neg heq]
        rcases Option.or_eq_some_iff.mp hC with hC | ⟨hnone, hC⟩
        · have hnot : a ∉ next.addrs := fun hn =>
            hdisjoint a (mem_of_find hC) a hn rfl
          rw [ihc hchild hC, modify_eq_self hnot, modify_eq_self hnot]
        · have hnot := not_mem_of_find hnone
          rw [ihn hnext hC, modify_eq_self hnot, modify_eq_self hnot]

/-- The children of a node are part of the shape. -/
theorem find_sublist {a : Nat} {S C : Siblings ℓ} {label : ℓ}
    (hC : S.find a = some (label, C)) : C.addrs.Sublist S.addrs := by
  induction S with
  | nil => cases hC
  | cons item label' child next ihc ihn =>
      rw [find] at hC
      rw [addrs]
      split at hC
      · cases hC
        exact (List.sublist_append_left _ _).cons _
      · rcases Option.or_eq_some_iff.mp hC with hC | ⟨_, hC⟩
        · exact ((ihc hC).trans (List.sublist_append_left _ _)).cons _
        · exact ((ihn hC).trans (List.sublist_append_right _ _)).cons _

/-- No node is among its own children. -/
theorem not_mem_children {a : Nat} {S C : Siblings ℓ} {label : ℓ}
    (hnodup : S.addrs.Nodup) (hC : S.find a = some (label, C)) :
    a ∉ C.addrs := by
  induction S with
  | nil => cases hC
  | cons item label' child next ihc ihn =>
      rw [addrs, List.nodup_cons, List.nodup_append] at hnodup
      rw [find] at hC
      split at hC
      · rename_i hitem
        cases hC
        rw [← hitem]
        exact fun hmem => hnodup.1 (List.mem_append_left _ hmem)
      · rcases Option.or_eq_some_iff.mp hC with hC | ⟨_, hC⟩
        · exact ihc hnodup.2.1 hC
        · exact ihn hnodup.2.2.1 hC

theorem replaceAt_append {i : Nat} {label : ℓ}
    {pre child post new : Siblings ℓ} (hi : i ∉ pre.addrs) :
    replaceAt i new (pre.append (cons i label child post)) =
      pre.append (new.append post) := by
  induction pre with
  | nil =>
      rw [append, append, replaceAt, if_pos rfl]
  | cons item label' child' next _ ih =>
      rw [addrs, List.mem_cons, List.mem_append, not_or, not_or] at hi
      rw [append, append, replaceAt, if_neg (Ne.symm hi.1), ih hi.2.2]

/-- A change below a node is a change of its children. -/
theorem find_modify {a b : Nat} {f : ℓ × Siblings ℓ → ℓ × Siblings ℓ}
    {S C : Siblings ℓ} {label : ℓ} (hnodup : S.addrs.Nodup)
    (hC : S.find a = some (label, C)) (hb : b ∈ C.addrs) :
    (S.modify b f).find a = some (label, C.modify b f) := by
  induction S with
  | nil => cases hC
  | cons item label' child next ihc ihn =>
      rw [addrs, List.nodup_cons, List.nodup_append, List.mem_append,
        not_or] at hnodup
      obtain ⟨⟨hnotChild, hnotNext⟩, hchild, hnext, hdisjoint⟩ := hnodup
      rw [find] at hC
      by_cases heq : item = a
      · rw [if_pos heq] at hC
        cases hC
        have hne : item ≠ b := ne_of_mem_of_not_mem hb hnotChild |>.symm
        rw [modify, if_neg hne, find, if_pos heq]
      · rw [if_neg heq] at hC
        rcases Option.or_eq_some_iff.mp hC with hC | ⟨hnone, hC⟩
        · have hmem := (find_sublist hC).subset hb
          have hne : item ≠ b := (ne_of_mem_of_not_mem hmem hnotChild).symm
          rw [modify, if_neg hne, find, if_neg heq, ihc hchild hC]
          rfl
        · have hmem := (find_sublist hC).subset hb
          have hne : item ≠ b := (ne_of_mem_of_not_mem hmem hnotNext).symm
          have hnot : b ∉ child.addrs :=
            fun hb' => hdisjoint b hb' b hmem rfl
          rw [modify, if_neg hne, find, if_neg heq, modify_eq_self hnot,
            hnone, ihn hnext hC]
          rfl

/-- What is found below a node is found from above. -/
theorem find_below {a i : Nat} {S C : Siblings ℓ} {label : ℓ}
    (hnodup : S.addrs.Nodup) (hC : S.find a = some (label, C))
    (hi : i ∈ C.addrs) : S.find i = C.find i := by
  induction S with
  | nil => cases hC
  | cons item label' child next ihc ihn =>
      rw [addrs, List.nodup_cons, List.nodup_append, List.mem_append,
        not_or] at hnodup
      obtain ⟨⟨hnotChild, hnotNext⟩, hchild, hnext, hdisjoint⟩ := hnodup
      have hsome : ∀ {T : Siblings ℓ}, i ∈ T.addrs →
          (T.find i).or (next.find i) = T.find i := by
        intro T hT
        obtain ⟨l, D, hfind⟩ := exists_find hT
        rw [hfind, Option.some_or]
      rw [find] at hC
      by_cases heq : item = a
      · rw [if_pos heq] at hC
        cases hC
        rw [find, if_neg (ne_of_mem_of_not_mem hi hnotChild).symm, hsome hi]
      · rw [if_neg heq] at hC
        rcases Option.or_eq_some_iff.mp hC with hC | ⟨_, hC⟩
        · have hmem := (find_sublist hC).subset hi
          rw [find, if_neg (ne_of_mem_of_not_mem hmem hnotChild).symm,
            hsome hmem, ihc hchild hC]
        · have hmem := (find_sublist hC).subset hi
          have hnone : child.find i = none := by
            rw [← Option.not_isSome_iff_eq_none, find_isSome]
            exact fun hmem' => hdisjoint i hmem' i hmem rfl
          rw [find, if_neg (ne_of_mem_of_not_mem hmem hnotNext).symm, hnone,
            Option.none_or, ihn hnext hC]

theorem find_modify_self {a : Nat} {f : ℓ × Siblings ℓ → ℓ × Siblings ℓ}
    {S C : Siblings ℓ} {label : ℓ} (hC : S.find a = some (label, C)) :
    (S.modify a f).find a = some (f (label, C)) := by
  induction S with
  | nil => cases hC
  | cons item label' child next ihc ihn =>
      rw [find] at hC
      rw [modify]
      by_cases heq : item = a
      · rw [if_pos heq] at hC ⊢
        cases hC
        rw [find, if_pos heq]
      · rw [if_neg heq] at hC ⊢
        rw [find, if_neg heq]
        rcases Option.or_eq_some_iff.mp hC with hC | ⟨hnone, hC⟩
        · rw [ihc hC]
          rfl
        · rw [modify_eq_self (not_mem_of_find hnone), hnone, ihn hC]
          rfl

/-- One part of a list is replaced, up to order. -/
theorem perm_replace {α : Type*} {old new gone more : List α}
    (rest : List α) (h : (new ++ gone).Perm (old ++ more)) :
    (new ++ (rest ++ gone)).Perm (old ++ (rest ++ more)) := by
  have hgone : (new ++ (rest ++ gone)).Perm (new ++ (gone ++ rest)) :=
    List.perm_append_comm.append_left new
  have hmore : (old ++ (more ++ rest)).Perm (old ++ (rest ++ more)) :=
    List.perm_append_comm.append_left old
  refine hgone.trans ?_
  rw [← List.append_assoc]
  refine (h.append_right rest).trans ?_
  rw [List.append_assoc]
  exact hmore

/-- The addresses after other children are given to a node, up to order. -/
theorem addrs_modify {a : Nat} {f : ℓ × Siblings ℓ → ℓ × Siblings ℓ}
    {S C : Siblings ℓ} {label : ℓ} {gone more : List Nat}
    (hnodup : S.addrs.Nodup) (hC : S.find a = some (label, C))
    (hf : ((f (label, C)).2.addrs ++ gone).Perm (C.addrs ++ more)) :
    ((S.modify a f).addrs ++ gone).Perm (S.addrs ++ more) := by
  induction S with
  | nil => cases hC
  | cons item label' child next ihc ihn =>
      have hparts := hnodup
      rw [addrs, List.nodup_cons, List.nodup_append] at hparts
      obtain ⟨hitem, hchild, hnext, hdisjoint⟩ := hparts
      rw [find] at hC
      rw [modify]
      by_cases heq : item = a
      · rw [if_pos heq] at hC ⊢
        cases hC
        rw [addrs, addrs, List.cons_append, List.cons_append,
          List.append_assoc, List.append_assoc]
        exact (perm_replace next.addrs hf).cons item
      · rw [if_neg heq] at hC ⊢
        rw [addrs, addrs, List.cons_append, List.cons_append,
          List.append_assoc, List.append_assoc]
        refine List.Perm.cons item ?_
        rcases Option.or_eq_some_iff.mp hC with hC | ⟨hnone, hC⟩
        · have hnot : a ∉ next.addrs := fun hn =>
            hdisjoint a (mem_of_find hC) a hn rfl
          rw [modify_eq_self hnot]
          exact perm_replace next.addrs (ihc hchild hC)
        · rw [modify_eq_self (not_mem_of_find hnone)]
          exact (ihn hnext hC).append_left child.addrs

end Siblings

/-! ## Shapes in a heap -/

section Segment

variable {ℓ : Type u}

/-- The heap holds the siblings; the first points back to `before`, the last
on to `behind`. -/
def Segment (h : Heap ℓ) (before behind : Option Nat) : Siblings ℓ → Prop
  | .nil => True
  | .cons item label child next =>
      h item = some ⟨next.headOr behind, before, child.headOr none, label⟩ ∧
        Segment h none none child ∧ Segment h (some item) behind next

variable {h h' : Heap ℓ} {before behind : Option Nat} {S T : Siblings ℓ}

/-- Only the addresses of the shape matter. -/
theorem Segment.congr (hS : Segment h before behind S)
    (heq : ∀ a ∈ S.addrs, h' a = h a) : Segment h' before behind S := by
  induction S generalizing before behind with
  | nil => trivial
  | cons item label child next ihc ihn =>
      obtain ⟨hitem, hchild, hnext⟩ := hS
      rw [Siblings.addrs] at heq
      refine ⟨?_, ihc hchild ?_, ihn hnext ?_⟩
      · rw [heq item List.mem_cons_self]
        exact hitem
      · intro a ha
        exact heq a (List.mem_cons_of_mem _ (List.mem_append_left _ ha))
      · intro a ha
        exact heq a (List.mem_cons_of_mem _ (List.mem_append_right _ ha))

/-- Every node of the shape is allocated. -/
theorem Segment.isSome (hS : Segment h before behind S) :
    ∀ a ∈ S.addrs, (h a).isSome = true := by
  induction S generalizing before behind with
  | nil =>
      intro a ha
      cases ha
  | cons item label child next ihc ihn =>
      obtain ⟨hitem, hchild, hnext⟩ := hS
      intro a ha
      rw [Siblings.addrs, List.mem_cons, List.mem_append] at ha
      rcases ha with rfl | ha | ha
      · rw [hitem]
        rfl
      · exact ihc hchild a ha
      · exact ihn hnext a ha

/-- Two segments in a row. -/
theorem segment_append :
    Segment h before behind (S.append T) ↔
      Segment h before (T.headOr behind) S ∧
        Segment h (S.lastOr before) behind T := by
  induction S generalizing before with
  | nil => exact (true_and _).symm.to_iff
  | cons item label child next _ ih =>
      rw [Siblings.append, Segment, Segment, Siblings.headOr_append, ih,
        Siblings.lastOr, and_assoc, and_assoc]

/-- Another node behind the last sibling. -/
theorem Segment.relinkNext {behind' : Option Nat}
    (hS : Segment h before behind S) (hnodup : S.addrs.Nodup)
    (hlast : ∀ z n, S.lastOr none = some z → h z = some n →
      h' z = some { n with next := behind' })
    (hframe : ∀ b ∈ S.addrs, S.lastOr none ≠ some b → h' b = h b) :
    Segment h' before behind' S := by
  induction S generalizing before with
  | nil => trivial
  | cons item label child next _ ih =>
      obtain ⟨hitem, hchild, hnext⟩ := hS
      rw [Siblings.addrs] at hnodup hframe
      rw [List.nodup_cons, List.nodup_append] at hnodup
      obtain ⟨hnot, _, hnodupNext, hdisjoint⟩ := hnodup
      rw [List.mem_append, not_or] at hnot
      cases next with
      | nil =>
          refine ⟨hlast item _ rfl hitem, hchild.congr ?_, trivial⟩
          intro a ha
          apply hframe a
          · exact List.mem_cons_of_mem _ (List.mem_append_left _ ha)
          · intro heq
            exact hnot.1 (Option.some.inj heq ▸ ha)
      | cons item' label' child' next' =>
          have hz : ∀ z, (Siblings.cons item' label' child' next').lastOr
              none = some z →
              z ∈ (Siblings.cons item' label' child' next').addrs := by
            intro z hz
            rcases Siblings.lastOr_mem hz with hnone | hmem
            · cases hnone
            · exact hmem
          refine ⟨?_, hchild.congr ?_, ih hnext hnodupNext hlast ?_⟩
          · rw [hframe item List.mem_cons_self fun heq => hnot.2 (hz _ heq)]
            exact hitem
          · intro a ha
            apply hframe a
            · exact List.mem_cons_of_mem _ (List.mem_append_left _ ha)
            · exact fun heq => hdisjoint a ha a (hz _ heq) rfl
          · intro b hb
            exact hframe b (List.mem_cons_of_mem _ (List.mem_append_right _ hb))

/-- Another node before the first sibling. -/
theorem Segment.relinkPrev {before' : Option Nat}
    (hS : Segment h before behind S) (hnodup : S.addrs.Nodup)
    (hfirst : ∀ a n, S.headOr none = some a → h a = some n →
      h' a = some { n with prev := before' })
    (hframe : ∀ b ∈ S.addrs, S.headOr none ≠ some b → h' b = h b) :
    Segment h' before' behind S := by
  cases S with
  | nil => trivial
  | cons item label child next =>
      obtain ⟨hitem, hchild, hnext⟩ := hS
      rw [Siblings.addrs] at hnodup hframe
      rw [List.nodup_cons, List.mem_append, not_or] at hnodup
      refine ⟨hfirst item _ rfl hitem, hchild.congr ?_, hnext.congr ?_⟩
      · intro b hb
        apply hframe b
        · exact List.mem_cons_of_mem _ (List.mem_append_left _ hb)
        · intro heq
          exact hnodup.1.1 (Option.some.inj heq ▸ hb)
      · intro b hb
        apply hframe b
        · exact List.mem_cons_of_mem _ (List.mem_append_right _ hb)
        · intro heq
          exact hnodup.1.2 (Option.some.inj heq ▸ hb)

/-- The node at an address points to its first child. -/
theorem Segment.node {a : Nat} {C : Siblings ℓ} {label : ℓ}
    (hS : Segment h before behind S) (hC : S.find a = some (label, C)) :
    (∃ next prev, h a = some ⟨next, prev, C.headOr none, label⟩) ∧
      Segment h none none C := by
  induction S generalizing before behind with
  | nil => cases hC
  | cons item label' child next ihc ihn =>
      obtain ⟨hitem, hchild, hnext⟩ := hS
      rw [Siblings.find] at hC
      split at hC
      · rename_i heq
        cases hC
        rw [← heq]
        exact ⟨⟨_, _, hitem⟩, hchild⟩
      · rcases Option.or_eq_some_iff.mp hC with hC | ⟨_, hC⟩
        · exact ihc hchild hC
        · exact ihn hnext hC

/-- Another label and other children for one node of the shape, while the rest
of the heap stays as it is. -/
theorem Segment.modify {a : Nat} {f : ℓ × Siblings ℓ → ℓ × Siblings ℓ}
    {C : Siblings ℓ} {label : ℓ} (hS : Segment h before behind S)
    (hnodup : S.addrs.Nodup) (hC : S.find a = some (label, C))
    (hnode : ∀ n, h a = some n → h' a = some { n with
      child := (f (label, C)).2.headOr none, label := (f (label, C)).1 })
    (hchild' : Segment h' none none (f (label, C)).2)
    (hframe : ∀ b ∈ S.addrs, b ≠ a → b ∉ C.addrs → h' b = h b) :
    Segment h' before behind (S.modify a f) := by
  induction S generalizing before behind with
  | nil => cases hC
  | cons item label' child next ihc ihn =>
      obtain ⟨hitem, hchild, hnext⟩ := hS
      rw [Siblings.addrs, List.nodup_cons, List.nodup_append] at hnodup
      obtain ⟨hnot, hnodupChild, hnodupNext, hdisjoint⟩ := hnodup
      rw [List.mem_append, not_or] at hnot
      rw [Siblings.addrs] at hframe
      have hframeChild : ∀ b ∈ child.addrs, b ≠ a → b ∉ C.addrs →
          h' b = h b := fun b hb =>
        hframe b (List.mem_cons_of_mem _ (List.mem_append_left _ hb))
      have hframeNext : ∀ b ∈ next.addrs, b ≠ a → b ∉ C.addrs →
          h' b = h b := fun b hb =>
        hframe b (List.mem_cons_of_mem _ (List.mem_append_right _ hb))
      rw [Siblings.find] at hC
      rw [Siblings.modify]
      by_cases heq : item = a
      · rw [if_pos heq] at hC ⊢
        cases hC
        subst heq
        refine ⟨hnode _ hitem, hchild', hnext.congr ?_⟩
        intro b hb
        refine hframeNext b hb ?_ fun hb' => hdisjoint b hb' b hb rfl
        rintro rfl
        exact hnot.2 hb
      · rw [if_neg heq] at hC ⊢
        rcases Option.or_eq_some_iff.mp hC with hC | ⟨hnone, hC⟩
        · have hmem := Siblings.mem_of_find hC
          have hsub := (Siblings.find_sublist hC).subset
          have hrest : a ∉ next.addrs := fun hn => hdisjoint a hmem a hn rfl
          rw [Siblings.modify_eq_self hrest]
          refine ⟨?_, ihc hchild hnodupChild hC hframeChild, hnext.congr ?_⟩
          · rw [Siblings.headOr_modify, hframe item List.mem_cons_self heq]
            · exact hitem
            · exact fun hb => hnot.1 (hsub hb)
          · intro b hb
            refine hframeNext b hb ?_
              fun hb' => hdisjoint b (hsub hb') b hb rfl
            rintro rfl
            exact hrest hb
        · have hmem := Siblings.mem_of_find hC
          have hsub := (Siblings.find_sublist hC).subset
          have hrest := Siblings.not_mem_of_find hnone
          rw [Siblings.modify_eq_self hrest]
          refine ⟨?_, hchild.congr ?_, ihn hnext hnodupNext hC hframeNext⟩
          · rw [Siblings.headOr_modify, hframe item List.mem_cons_self heq]
            · exact hitem
            · exact fun hb => hnot.2 (hsub hb)
          · intro b hb
            refine hframeChild b hb ?_
              fun hb' => hdisjoint b hb b (hsub hb') rfl
            rintro rfl
            exact hrest hb

end Segment

end DatahubEdge.Lib.Linked
