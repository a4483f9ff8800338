import DatahubEdge.CJson.ParseNodes

/-!
# The messages about the connection, node by node

`LastWillMessage`, `DisconnectMessage` and `HearbeatMessage` build one object,
print it and release it.  The first two return NULL when a node is denied;
`HearbeatMessage` releases the root then and goes on with the pointer.

A message is the tree the printer walks, none where it is given NULL.  What a
copy of a string is given is no address here, only whether it is given.

## Main results

* `connectionMessage_built` — the message is the one meant and everything is
  released, or an allocation was denied.
* `hearbeatMessage_ends` — when the heartbeat uses memory it has released.
-/

namespace DatahubEdge.Nodes

open Lib.Linked

/-! ## The tree a printer walks -/

/-- The children of a node, which only an array or an object prints. -/
def below (label : Label)
    (child : Except HeapFault (List (Option CString × CJson))) :
    Except HeapFault (List (Option CString × CJson)) :=
  if label.type = .array ∨ label.type = .object then child else .ok []

/-- The children a printer walks from a pointer on. -/
def readChildren :
    Nat → Memory → Option Nat → Except HeapFault (List (Option CString × CJson))
  | 0, _, _ => .error .fuel
  | _ + 1, _, none => return []
  | fuel + 1, h, some item => do
      let n ← read h item
      let child ← below n.label (readChildren fuel h n.child)
      let rest ← readChildren fuel h n.next
      return (n.label.string, node n.label child) :: rest

/-- The tree `cJSON_PrintUnformatted` walks. -/
def printed (fuel : Nat) (h : Memory) (item : Option Nat) :
    Except HeapFault (Option CJson) :=
  match item with
  | none => return none
  | some item => do
      let n ← read h item
      let child ← below n.label (readChildren fuel h n.child)
      return some (node n.label child)

/-- Only arrays and objects have children that count. -/
theorem node_leaf {label : Label}
    (hleaf : ¬ (label.type = .array ∨ label.type = .object))
    (child : List (Option CString × CJson)) :
    node label child = node label [] := by
  rw [not_or] at hleaf
  unfold node
  split <;> simp_all

section Walks

variable {h : Memory} {F S : Siblings Label} {fuel : Nat}

/-- The children of a node, as far as they are walked. -/
theorem readChildren_node (label : Label) {child : Siblings Label}
    (hchild : readChildren fuel h (child.headOr none) = .ok (values child)) :
    ∃ c, below label (readChildren fuel h (child.headOr none)) = .ok c ∧
      node label c = node label (values child) := by
  rw [below]
  split
  · exact ⟨_, hchild, rfl⟩
  · rename_i hleaf
    exact ⟨[], rfl, (node_leaf hleaf _).symm⟩

theorem readChildren_eq {before : Option Nat}
    (hS : Segment h before none S) (hfuel : S.addrs.length < fuel) :
    readChildren fuel h (S.headOr none) = .ok (values S) := by
  induction S generalizing before fuel with
  | nil =>
      cases fuel with
      | zero => cases hfuel
      | succ fuel => rfl
  | cons item label child next ihc ihn =>
      obtain ⟨hitem, hchild, hnext⟩ := hS
      rw [Siblings.addrs, List.length_cons, List.length_append] at hfuel
      cases fuel with
      | zero => cases hfuel
      | succ fuel =>
          have hbelow : readChildren fuel h (child.headOr none) =
              .ok (values child) := ihc hchild (by omega)
          obtain ⟨c, hc, hnode⟩ := readChildren_node label hbelow
          have hrest : readChildren fuel h (next.headOr none) =
              .ok (values next) := ihn hnext (by omega)
          show readChildren (fuel + 1) h (some item) = _
          rw [readChildren, read_eq hitem]
          show below label (readChildren fuel h (child.headOr none)) >>= _ = _
          rw [hc]
          show readChildren fuel h (next.headOr none) >>= _ = _
          rw [hrest, values, ← hnode]
          rfl

/-- The printer walks the tree of a root. -/
theorem printed_root {a : Nat} {label : Label} {C : Siblings Label}
    (hF : Holds h F) (ha : F.root a = some (label, C))
    (hfuel : F.addrs.length < fuel) :
    printed fuel h (some a) = .ok (some (node label (values C))) := by
  obtain ⟨hnode, hC, _⟩ := hF.roots.root ha
  have hlength := length_without ha
  have hbelow : readChildren fuel h (C.headOr none) = .ok (values C) :=
    readChildren_eq hC (by omega)
  obtain ⟨c, hc, heq⟩ := readChildren_node label hbelow
  rw [printed, read_eq hnode]
  show below label (readChildren fuel h (C.headOr none)) >>= _ = _
  rw [hc, ← heq]
  rfl

/-- A node that is its own child is never released. -/
theorem delete_cycle {a : Nat} {n : Node Label} (ha : h a = some n)
    (hchild : n.child = some a) :
    delete fuel h (some a) = .error .fuel := by
  induction fuel with
  | zero => rfl
  | succ fuel ih =>
      rw [delete, read_eq ha]
      show unlessNull h n.child _ >>= _ = _
      rw [hchild]
      show delete fuel h (some a) >>= _ = _
      rw [ih]
      rfl

end Walks

/-! ## The functions -/

section Functions

variable (malloc : Nat → Memory → Option Nat) (fuel : Nat)

/-- Whether the copy of a string is given memory, where one is made. -/
def copy (made : Bool) (s : State) : Bool × State :=
  if made then
    ((allocate malloc s).1.isSome, (allocate malloc s).2)
  else (false, s)

/-- `cJSON_CreateObject()`. -/
def newObject (s : State) : Except HeapFault (Option Nat × State) := do
  let node := allocate malloc s
  let object ← createObject node.2.memory node.1
  return (object.1, { node.2 with memory := object.2 })

/-- `cJSON_AddStringToObject(object, name, string);` -/
def addString (object : Option Nat) (name string : CString) (s : State) :
    Except HeapFault State := do
  let node := allocate malloc s
  let text := copy malloc node.1.isSome node.2
  let key := copy malloc (text.1 && object.isSome) text.2
  let memory ← perform fuel key.2.memory (.addStringToObject object (some name)
    (some string) node.1 text.1 key.1)
  return { key.2 with memory }

/-- `cJSON_AddItemToObject(object, name, item);` -/
def addItem (object : Option Nat) (name : CString) (item : Option Nat)
    (s : State) : Except HeapFault State := do
  let key := copy malloc (object.isSome && item.isSome) s
  let memory ← perform fuel key.2.memory
    (.addItemToObject object (some name) item key.1)
  return { key.2 with memory }

/-- `cJSON_Delete(item);` -/
def release (item : Option Nat) (s : State) : Except HeapFault State := do
  let memory ← delete fuel s.memory item
  return { s with memory }

/-- The time is added, and the root is printed and released. -/
def finish (ts : CString) (root : Option Nat) (s : State) :
    Except HeapFault (Option CJson × State) := do
  let s ← addString malloc fuel root (cstr "ts") ts s
  let p ← printed fuel s.memory root
  let s ← release fuel root s
  return (p, s)

/-- The members under their keys, from the two objects on. -/
def fillIn (key ts : CString) (root sub : Option Nat) (s : State) :
    Except HeapFault (Option CJson × State) := do
  let s ← addString malloc fuel sub key (cstr "1") s
  let s ← addItem malloc fuel root (cstr "d") sub s
  finish malloc fuel ts root s

/-- `LastWillMessage` and `DisconnectMessage`, which differ in a key. -/
def connectionMessage (key ts : CString) (s : State) :
    Except HeapFault (Option CJson × State) := do
  let root ← newObject malloc s
  match root.1 with
  | none => return (none, root.2)
  | some _ => do
      let sub ← newObject malloc root.2
      match sub.1 with
      | none => do
          let s ← release fuel root.1 sub.2
          return (none, s)
      | some _ => fillIn malloc fuel key ts root.1 sub.1 sub.2

/-- `LastWillMessage`. -/
def lastWillMessage (ts : CString) :
    State → Except HeapFault (Option CJson × State) :=
  connectionMessage malloc fuel (cstr "UeD") ts

/-- `DisconnectMessage`. -/
def disconnectMessage (ts : CString) :
    State → Except HeapFault (Option CJson × State) :=
  connectionMessage malloc fuel (cstr "DsC") ts

/-- `HearbeatMessage`, which goes on where the others return. -/
def hearbeatMessage (ts : CString) (s : State) :
    Except HeapFault (Option CJson × State) := do
  let root ← newObject malloc s
  let sub ← newObject malloc root.2
  let s ←
    match sub.1 with
    | none => release fuel root.1 sub.2
    | some _ => .ok sub.2
  fillIn malloc fuel (cstr "Hbt") ts root.1 sub.1 s

end Functions

/-! ## One statement -/

section Statements

variable {malloc : Nat → Memory → Option Nat} {fuel : Nat} {s : State}
  {F : Siblings Label}

theorem memory_allocate : (allocate malloc s).2.memory = s.memory := by
  unfold allocate
  split
  · rfl
  · rfl

theorem memory_copy (made : Bool) :
    (copy malloc made s).2.memory = s.memory := by
  unfold copy
  split
  · exact memory_allocate
  · rfl

/-- Denials are not forgotten, and this one is noted. -/
theorem denied_allocate
    (h : s.denied = true ∨ (allocate malloc s).1 = none) :
    (allocate malloc s).2.denied = true := by
  unfold allocate at h ⊢
  split at h
  · rfl
  · exact h.resolve_right (Option.some_ne_none _)

theorem denied_copy {made : Bool}
    (h : s.denied = true ∨ made = true ∧ (copy malloc made s).1 = false) :
    (copy malloc made s).2.denied = true := by
  cases made with
  | false => exact h.resolve_right fun h => Bool.false_ne_true h.1
  | true =>
      apply denied_allocate
      refine h.imp_right ?_
      rintro ⟨_, hnone⟩
      exact Option.isSome_eq_false_iff.mp hnone |> Option.isNone_iff_eq_none.mp

theorem fresh_allocate (hmalloc : ∀ i h a, malloc i h = some a → h a = none)
    (hF : Holds s.memory F) : Fresh F (allocate malloc s).1 := by
  intro a ha
  rw [← hF.allocated]
  unfold allocate at ha
  split at ha
  · cases ha
  · rename_i a' hm
    cases ha
    rw [hmalloc _ _ _ hm]
    exact Bool.false_ne_true

theorem newObject_holds (hmalloc : ∀ i h a, malloc i h = some a → h a = none)
    (hF : Holds s.memory F) :
    ∃ node s', newObject malloc s = .ok (node, s') ∧
      Holds s'.memory (created node objectLabel F) ∧ Fresh F node ∧
      (s.denied = true ∨ node = none → s'.denied = true) := by
  have hfresh := fresh_allocate hmalloc hF
  have hF' : Holds (allocate malloc s).2.memory F := by
    rw [memory_allocate]
    exact hF
  obtain ⟨h', hcreate, hholds⟩ := createObject_holds hF' hfresh
  refine ⟨_, ⟨h', (allocate malloc s).2.calls, (allocate malloc s).2.denied⟩,
    ?_, hholds, hfresh, denied_allocate⟩
  rw [newObject, hcreate]
  rfl

theorem live_null : Live F none := by
  intro a ha
  cases ha

/-- The node of a text under a name. -/
def memberLabel (name string : CString) : Label :=
  { stringLabel (some string) with string := some name }

/-- The forest with a text added to the node at an address. -/
def withString (a b : Nat) (name string : CString) (F : Siblings Label) :
    Siblings Label :=
  F.modify a fun node =>
    (node.1, node.2.append (.cons b (memberLabel name string) .nil .nil))

/-- The text is added, unless an allocation is denied. -/
theorem addString_holds {object : Option Nat} (name string : CString)
    (hmalloc : ∀ i h a, malloc i h = some a → h a = none)
    (hF : Holds s.memory F) (hobject : Live F object)
    (hfuel : F.addrs.length + 1 < fuel) :
    ∃ s' F', addString malloc fuel object name string s = .ok s' ∧
      Holds s'.memory F' ∧ F'.addrs.length ≤ F.addrs.length + 1 ∧
      (s.denied = true → s'.denied = true) ∧
      (F' = F ∧ (object = none ∨ s'.denied = true) ∨
        ∃ a b, object = some a ∧ F' = withString a b name string F) := by
  rw [addString]
  generalize hnode : allocate malloc s = node
  generalize htext : copy malloc node.1.isSome node.2 = text
  generalize hkey : copy malloc (text.1 && object.isSome) text.2 = key
  have hmemory : key.2.memory = s.memory := by
    rw [← hkey, memory_copy, ← htext, memory_copy, ← hnode, memory_allocate]
  have hnodeDenied : s.denied = true ∨ node.1 = none →
      node.2.denied = true := by
    rw [← hnode]
    exact denied_allocate
  have htextDenied : node.2.denied = true ∨
      node.1.isSome = true ∧ text.1 = false → text.2.denied = true := by
    rw [← htext]
    exact denied_copy
  have hkeyDenied : text.2.denied = true ∨
      (text.1 && object.isSome) = true ∧ key.1 = false →
        key.2.denied = true := by
    rw [← hkey]
    exact denied_copy
  have hfresh : Fresh F node.1 := hnode ▸ fresh_allocate hmalloc hF
  have hF' : Holds key.2.memory F := hmemory ▸ hF
  have hlegal : Legal F (.addStringToObject object (some name) (some string)
      node.1 text.1 key.1) := ⟨hfresh, hobject⟩
  obtain ⟨h', hperform, hholds⟩ := perform_holds hF' hlegal hfuel
  have hlength := length_after hF' hlegal
  refine ⟨{ key.2 with memory := h' }, _, ?_, hholds, hlength, ?_, ?_⟩
  · show perform fuel key.2.memory _ >>= _ = _
    rw [hperform]
    rfl
  · exact fun h => hkeyDenied (.inl (htextDenied (.inl (hnodeDenied (.inl h)))))
  · show after F (.addStringToObject _ _ _ node.1 text.1 key.1) = F ∧
        (object = none ∨ key.2.denied = true) ∨ _
    cases hmadeNode : node.1 with
    | none =>
        have hdenied : key.2.denied = true := hkeyDenied (.inl
          (htextDenied (.inl (hnodeDenied (.inr hmadeNode)))))
        have hmadeText : text.1 = false := by
          rw [← htext, hmadeNode]
          rfl
        rw [hmadeText]
        exact .inl ⟨rfl, .inr hdenied⟩
    | some b =>
        have hsome : node.1.isSome = true := by
          rw [hmadeNode]
          rfl
        cases hmadeText : text.1 with
        | false => exact .inl ⟨rfl, .inr
            (hkeyDenied (.inl (htextDenied (.inr ⟨hsome, hmadeText⟩))))⟩
        | true =>
            cases object with
            | none => exact .inl ⟨rfl, .inl rfl⟩
            | some a =>
                cases hmadeKey : key.1 with
                | false =>
                    have hmade : (text.1 && (some a).isSome) = true := by
                      rw [hmadeText]
                      rfl
                    exact .inl ⟨rfl, .inr (hkeyDenied (.inr ⟨hmade, hmadeKey⟩))⟩
                | true =>
                    refine .inr ⟨a, b, rfl, ?_⟩
                    show attached a b name (.cons b _ .nil F) = _
                    rw [attached, Siblings.root_cons_self,
                      Siblings.without_cons_self]
                    rfl

variable (malloc) in
/-- A root is added to another, unless the copy of the name is denied. -/
theorem addItem_holds {a b : Nat} {la lb : Label} {ca cb : Siblings Label}
    (name : CString)
    (hF : Holds s.memory (.cons b lb cb (.cons a la ca F)))
    (hfuel : (Siblings.cons b lb cb (.cons a la ca F)).addrs.length + 1 <
      fuel) :
    ∃ s' F', addItem malloc fuel (some a) name (some b) s = .ok s' ∧
      Holds s'.memory F' ∧
      F'.addrs.length ≤
        (Siblings.cons b lb cb (.cons a la ca F)).addrs.length + 1 ∧
      (s.denied = true → s'.denied = true) ∧
      (F' = .cons b lb cb (.cons a la ca F) ∧ s'.denied = true ∨
        F' = .cons a la
          (ca.append (.cons b { lb with string := some name } cb .nil)) F) := by
  rw [addItem]
  generalize hkey : copy malloc ((some a).isSome && (some b).isSome) s = key
  have hkeyDenied : s.denied = true ∨ true = true ∧ key.1 = false →
      key.2.denied = true := by
    rw [← hkey]
    exact denied_copy
  have hF' : Holds key.2.memory (.cons b lb cb (.cons a la ca F)) := by
    rw [← hkey, memory_copy]
    exact hF
  have hlegal : Legal (.cons b lb cb (.cons a la ca F))
      (.addItemToObject (some a) (some name) (some b) key.1) := by
    rintro _ ⟨⟩ _ ⟨⟩
    rw [Siblings.root_cons_self, Siblings.without_cons_self, Siblings.addrs]
    exact ⟨rfl, List.mem_cons_self⟩
  obtain ⟨h', hperform, hholds⟩ := perform_holds hF' hlegal hfuel
  have hlength := length_after hF' hlegal
  refine ⟨{ key.2 with memory := h' }, _, ?_, hholds, hlength,
    fun h => hkeyDenied (.inl h), ?_⟩
  · show perform fuel key.2.memory _ >>= _ = _
    rw [hperform]
    rfl
  · show after _ (.addItemToObject _ _ _ key.1) = _ ∧ key.2.denied = true ∨ _
    cases hmade : key.1 with
    | false => exact .inl ⟨rfl, hkeyDenied (.inr ⟨rfl, hmade⟩)⟩
    | true =>
        refine .inr ?_
        show attached a b name _ = _
        rw [attached, Siblings.root_cons_self, Siblings.without_cons_self]
        show Siblings.modify a _ (.cons a la ca F) = _
        rw [Siblings.modify, if_pos rfl]

theorem release_root {a : Nat} {label : Label} {C : Siblings Label}
    (hF : Holds s.memory F) (ha : F.root a = some (label, C))
    (hfuel : F.addrs.length < fuel) :
    ∃ h', release fuel (some a) s = .ok { s with memory := h' } ∧
      Holds h' (F.without a) := by
  have hlength := length_without ha
  obtain ⟨h', hdelete, hholds⟩ : ∃ h', delete fuel s.memory (some a) = .ok h' ∧
      Holds h' (F.without a) := delete_holds hF ha (by omega)
  refine ⟨h', ?_, hholds⟩
  rw [release, hdelete]
  rfl

/-- A new node is released. -/
theorem release_new {a : Nat} {label : Label}
    (hF : Holds s.memory (.cons a label .nil F))
    (hfuel : F.addrs.length + 1 < fuel) :
    ∃ h', release fuel (some a) s = .ok { s with memory := h' } ∧
      Holds h' F := by
  obtain ⟨h', hrelease, hholds⟩ :=
    release_root hF Siblings.root_cons_self hfuel
  rw [Siblings.without_cons_self] at hholds
  exact ⟨h', hrelease, hholds⟩

/-- The message with both members. -/
def noticeTree (key ts : CString) : CJson :=
  .object [(cstr "d", .object [(key, .string (cstr "1"))]),
    (cstr "ts", .string ts)]

/-- How a message is built: everything is released, and the message is the one
meant unless an allocation is denied.  Then one tree may be left behind. -/
structure Built (F : Siblings Label) (message : CJson) (tree : Option CJson)
    (s' : State) : Prop where
  complete : s'.denied = false → tree = some message ∧ Holds s'.memory F
  kept : Holds s'.memory F ∨
    ∃ b label C, Holds s'.memory (.cons b label C F)

theorem finish_root {a : Nat} {label : Label} {C : Siblings Label}
    (ts : CString) (hmalloc : ∀ i h a, malloc i h = some a → h a = none)
    (hF : Holds s.memory F) (ha : F.root a = some (label, C))
    (hfuel : F.addrs.length + 1 < fuel) :
    ∃ tree s', finish malloc fuel ts (some a) s = .ok (some tree, s') ∧
      Holds s'.memory (F.without a) ∧
      (s.denied = true → s'.denied = true) ∧
      (s'.denied = false →
        tree = node label (values C ++ [(some (cstr "ts"), .string ts)])) := by
  have hlive : Live F (some a) := by
    rintro _ ⟨⟩
    exact Siblings.mem_of_root ha
  obtain ⟨s₁, F₁, hadd, hF₁, hlength, hdenied, hcase⟩ :=
    addString_holds (cstr "ts") ts hmalloc hF hlive hfuel
  -- the root is where it was, with the time as its last member
  obtain ⟨C₁, ha₁, hwithout, hvalues⟩ : ∃ C₁, F₁.root a = some (label, C₁) ∧
      F₁.without a = F.without a ∧ (s₁.denied = false →
        values C₁ = values C ++ [(some (cstr "ts"), .string ts)]) := by
    rcases hcase with ⟨rfl, hnone⟩ | ⟨_, b, ⟨⟩, rfl⟩
    · refine ⟨C, ha, rfl, ?_⟩
      intro h
      have hdenied := hnone.resolve_left (Option.some_ne_none _)
      rw [h] at hdenied
      cases hdenied
    · exact ⟨_, Siblings.root_modify ha,
        Siblings.without_modify hF.nodup ha, fun _ => values_append _ _⟩
  have hsize : F₁.addrs.length < fuel := by omega
  obtain ⟨h', hrelease, hholds⟩ := release_root hF₁ ha₁ hsize
  rw [hwithout] at hholds
  refine ⟨node label (values C₁), { s₁ with memory := h' }, ?_, hholds, hdenied,
    fun h => congrArg (node label) (hvalues h)⟩
  rw [finish, hadd]
  show printed fuel s₁.memory (some a) >>= _ = _
  rw [printed_root hF₁ ha₁ hsize]
  show release fuel (some a) s₁ >>= _ = _
  rw [hrelease]
  rfl

/-- Both objects are there. -/
theorem fillIn_built {a b : Nat} {key ts : CString}
    (hmalloc : ∀ i h a, malloc i h = some a → h a = none)
    (hF : Holds s.memory
      (.cons b objectLabel .nil (.cons a objectLabel .nil F)))
    (hfuel : F.addrs.length + 5 < fuel) :
    ∃ tree s', fillIn malloc fuel key ts (some a) (some b) s =
        .ok (tree, s') ∧ Built F (noticeTree key ts) tree s' := by
  have hne : b ≠ a := by
    rintro rfl
    exact (List.nodup_cons.mp hF.nodup).1 List.mem_cons_self
  have hlive : Live (.cons b objectLabel .nil (.cons a objectLabel .nil F))
      (some b) := by
    rintro _ ⟨⟩
    exact List.mem_cons_self
  have hsize : (Siblings.cons b objectLabel .nil
      (.cons a objectLabel .nil F)).addrs.length = F.addrs.length + 2 := rfl
  have hfuel₀ : (Siblings.cons b objectLabel .nil
      (.cons a objectLabel .nil F)).addrs.length + 1 < fuel := by omega
  obtain ⟨s₁, F₁, hadd, hF₁, hlength₁, hdenied₁, hcase₁⟩ :=
    addString_holds key (cstr "1") hmalloc hF hlive hfuel₀
  -- the inner object, with its member or without
  obtain ⟨cb, rfl, hcb⟩ : ∃ cb,
      F₁ = .cons b objectLabel cb (.cons a objectLabel .nil F) ∧
      (s₁.denied = false → values cb = [(some key, .string (cstr "1"))]) := by
    rcases hcase₁ with ⟨rfl, hnone⟩ | ⟨_, m, ⟨⟩, rfl⟩
    · refine ⟨.nil, rfl, ?_⟩
      intro h
      have hdenied := hnone.resolve_left (Option.some_ne_none _)
      rw [h] at hdenied
      cases hdenied
    · refine ⟨.cons m (memberLabel key (cstr "1")) .nil .nil, ?_, fun _ => rfl⟩
      rw [withString, Siblings.modify, if_pos rfl]
      rfl
  have hfuel₁ : (Siblings.cons b objectLabel cb
      (.cons a objectLabel .nil F)).addrs.length + 1 < fuel := by omega
  obtain ⟨s₂, F₂, hitem, hF₂, hlength₂, hdenied₂, hcase₂⟩ :=
    addItem_holds malloc (cstr "d") hF₁ hfuel₁
  have hfuel₂ : F₂.addrs.length + 1 < fuel := by omega
  have hrun : ∀ r, finish malloc fuel ts (some a) s₂ = .ok r →
      fillIn malloc fuel key ts (some a) (some b) s = .ok r := by
    intro r hr
    rw [fillIn, hadd]
    show addItem malloc fuel (some a) (cstr "d") (some b) s₁ >>= _ = _
    rw [hitem]
    exact hr
  rcases hcase₂ with ⟨rfl, hd⟩ | rfl
  · -- the inner object is left behind
    have ha : (Siblings.cons b objectLabel cb (.cons a objectLabel .nil F)).root
        a = some (objectLabel, .nil) := by
      rw [Siblings.root, if_neg hne, Siblings.root_cons_self]
    obtain ⟨tree, s', hfinish, hholds, hdenied, _⟩ :=
      finish_root ts hmalloc hF₂ ha hfuel₂
    rw [Siblings.without, if_neg hne, Siblings.without_cons_self] at hholds
    refine ⟨some tree, s', hrun _ hfinish, ?_, .inr ⟨_, _, _, hholds⟩⟩
    intro h
    rw [hdenied hd] at h
    cases h
  · obtain ⟨tree, s', hfinish, hholds, hdenied, htree⟩ :=
      finish_root ts hmalloc hF₂ Siblings.root_cons_self hfuel₂
    rw [Siblings.without_cons_self] at hholds
    refine ⟨some tree, s', hrun _ hfinish, ?_, .inl hholds⟩
    intro h
    have hs₁ : s₁.denied = false := by
      rw [← Bool.not_eq_true]
      intro h₁
      rw [hdenied (hdenied₂ h₁)] at h
      cases h
    have hmember : node { objectLabel with string := some (cstr "d") }
        (values cb) = .object [(key, .string (cstr "1"))] := by
      rw [hcb hs₁]
      rfl
    refine ⟨congrArg some ?_, hholds⟩
    rw [htree h]
    show CJson.object [(cstr "d", node { objectLabel with
      string := some (cstr "d") } (values cb)), (cstr "ts", .string ts)] = _
    rw [hmember]
    rfl

theorem release_null (hfuel : 0 < fuel) : release fuel none s = .ok s := by
  cases fuel with
  | zero => cases hfuel
  | succ fuel => rfl

theorem addItem_null {name : CString} (item : Option Nat) :
    addItem malloc fuel none name item s = .ok s := rfl

/-- Without a root nothing is printed, and the inner object stays. -/
theorem fillIn_null {sub : Option Nat} (key ts : CString)
    (hmalloc : ∀ i h a, malloc i h = some a → h a = none)
    (hF : Holds s.memory F) (hsub : Live F sub)
    (hfuel : F.addrs.length + 2 < fuel) :
    ∃ s' F', fillIn malloc fuel key ts none sub s = .ok (none, s') ∧
      Holds s'.memory F' ∧ (s.denied = true → s'.denied = true) ∧
      (F' = F ∨
        ∃ b m, sub = some b ∧ F' = withString b m key (cstr "1") F) := by
  have hfuel₀ : F.addrs.length + 1 < fuel := by omega
  obtain ⟨s₁, F₁, hadd, hF₁, hlength, hdenied₁, hcase₁⟩ :=
    addString_holds key (cstr "1") hmalloc hF hsub hfuel₀
  have hfuel₁ : F₁.addrs.length + 1 < fuel := by omega
  obtain ⟨s₂, F₂, hstamp, hF₂, _, hdenied₂, hcase₂⟩ :=
    addString_holds (cstr "ts") ts hmalloc hF₁ live_null hfuel₁
  refine ⟨s₂, F₂, ?_, hF₂, fun h => hdenied₂ (hdenied₁ h), ?_⟩
  · rw [fillIn, hadd]
    show addItem malloc fuel none (cstr "d") sub s₁ >>= _ = _
    rw [addItem_null]
    show addString malloc fuel none (cstr "ts") ts s₁ >>= _ = _
    rw [hstamp]
    show release fuel none s₂ >>= _ = _
    rw [release_null (Nat.zero_lt_of_lt hfuel)]
    rfl
  · rcases hcase₂ with ⟨rfl, _⟩ | ⟨_, _, hnone, _⟩
    · rcases hcase₁ with ⟨rfl, _⟩ | hadded
      · exact .inl rfl
      · exact .inr hadded
    · cases hnone

end Statements

/-! ## The root that is released too early -/

section Dangling

variable {malloc : Nat → Memory → Option Nat} {fuel : Nat} {F : Siblings Label}
  {a : Nat}

/-- A pointer to released memory, or to a node that is its own child. -/
def Lost (h : Memory) (a : Nat) : Prop :=
  h a = none ∨ ∃ n, h a = some n ∧ n.child = some a

theorem lost_of_holds {h : Memory} (hF : Holds h F) (ha : a ∉ F.addrs) :
    Lost h a := by
  left
  rw [← Option.not_isSome_iff_eq_none, hF.allocated]
  exact ha

/-- What is lost cannot be printed and released. -/
theorem Lost.faults {s : State} (fuel : Nat) (ha : Lost s.memory a) :
    (∃ fault, printed fuel s.memory (some a) = .error fault) ∨
      ∃ fault, release fuel (some a) s = .error fault := by
  rcases ha with hnone | ⟨n, hn, hchild⟩
  · refine .inl ⟨.dangling, ?_⟩
    rw [printed, read_none hnone]
    rfl
  · refine .inr ⟨.fuel, ?_⟩
    rw [release, delete_cycle hn hchild]
    rfl

/-- A text is added to an object that has been released.  If its node gets the
memory of the object, it becomes its own child. -/
theorem addItemToObject_lost {h : Memory} {b : Nat} {label : Label}
    (name : CString) (hF : Holds h (.cons b label .nil F)) (ha : a ∉ F.addrs) :
    (∃ fault, addItemToObject fuel h (some a) (some name) (some b) true =
        .error fault) ∨
      ∃ h', addItemToObject fuel h (some a) (some name) (some b) true =
        .ok (true, h') ∧ Lost h' a := by
  have hb : h b = some ⟨none, none, none, label⟩ := hF.roots.1
  have hstart : addItemToObject fuel h (some a) (some name) (some b) true =
      addItemToArray fuel (set h b ⟨none, none, none,
        { label with string := some name }⟩) (some a) (some b) := by
    show update h b _ >>= _ = _
    rw [update, read_eq hb]
    rfl
  rw [hstart, addItemToArray]
  by_cases hab : a = b
  · subst hab
    refine .inr ⟨set h a ⟨none, none, some a,
      { label with string := some name }⟩, ?_, .inr ⟨_, set_self, rfl⟩⟩
    rw [read_eq set_self]
    show update (set h a _) a _ >>= _ = _
    rw [update, read_eq set_self]
    show Except.ok (true, set (set h a _) a _) = _
    rw [set_set]
  · refine .inl ⟨.dangling, ?_⟩
    have hnone : set h b ⟨none, none, none,
        { label with string := some name }⟩ a = none := by
      rw [set_ne hab, ← Option.not_isSome_iff_eq_none, hF.allocated,
        Siblings.addrs, List.mem_cons, not_or]
      exact ⟨hab, ha⟩
    rw [read_none hnone]
    rfl

/-- Whatever is denied, the released object is lost or the run has ended. -/
theorem addStringToObject_lost {h : Memory} {node : Option Nat}
    (granted grantedKey : Bool) (name string : CString) (hF : Holds h F)
    (hfresh : Fresh F node) (ha : a ∉ F.addrs) (hfuel : 1 < fuel) :
    (∃ fault, perform fuel h (.addStringToObject (some a) (some name)
        (some string) node granted grantedKey) = .error fault) ∨
      ∃ h', perform fuel h (.addStringToObject (some a) (some name)
        (some string) node granted grantedKey) = .ok h' ∧ Lost h' a := by
  obtain ⟨h₁, hcreate, hF₁⟩ : ∃ h₁, createString fuel h node granted
        (some string) = .ok
          ((strdup granted (some string)).bind fun _ => node, h₁) ∧
      Holds h₁ (after F (.createString node granted (some string))) :=
    createString_holds hF hfresh hfuel
  have hstart : perform fuel h (.addStringToObject (some a) (some name)
      (some string) node granted grantedKey) =
        Prod.snd <$> addOrDelete fuel h₁ (some a) (some name)
          ((strdup granted (some string)).bind fun _ => node) grantedKey := by
    rw [perform, addStringToObject, hcreate]
    rfl
  rw [hstart]
  -- without a node nothing is added
  have hnothing : Holds h₁ F → ∃ h', Prod.snd <$> addOrDelete fuel h₁ (some a)
      (some name) none grantedKey = .ok h' ∧ Lost h' a := by
    intro hgone
    refine ⟨h₁, ?_, lost_of_holds hgone ha⟩
    cases fuel with
    | zero => cases hfuel
    | succ fuel => rfl
  cases granted with
  | false => exact .inr (hnothing hF₁)
  | true =>
      cases node with
      | none => exact .inr (hnothing hF₁)
      | some b =>
          have hb : Holds h₁ (created (some b) (stringLabel (some string)) F) :=
            hF₁
          show (∃ fault, Prod.snd <$> addOrDelete fuel h₁ (some a) (some name)
            (some b) grantedKey = .error fault) ∨ _
          rw [addOrDelete]
          cases grantedKey with
          | false =>
              obtain ⟨h', hdelete, hholds⟩ := delete_created hb hfuel
              refine .inr ⟨h', ?_, lost_of_holds hholds ha⟩
              show Prod.snd <$> (delete fuel h₁ (some b) >>= _) = _
              rw [hdelete]
              rfl
          | true =>
              rcases addItemToObject_lost name hb ha with
                ⟨fault, hadd⟩ | ⟨h', hadd, hlost⟩
              · refine .inl ⟨fault, ?_⟩
                rw [hadd]
                rfl
              · refine .inr ⟨h', ?_, hlost⟩
                show Prod.snd <$> (addItemToObject fuel h₁ (some a) (some name)
                  (some b) true >>= _) = _
                rw [hadd]
                rfl

/-- After the root has been released the function does not return. -/
theorem fillIn_lost (s : State) (key ts : CString)
    (hmalloc : ∀ i h a, malloc i h = some a → h a = none)
    (hF : Holds s.memory F) (ha : a ∉ F.addrs)
    (hfuel : F.addrs.length + 1 < fuel) :
    ∃ fault, fillIn malloc fuel key ts (some a) none s = .error fault := by
  obtain ⟨s₁, F₁, hadd, hF₁, _, _, hcase⟩ :=
    addString_holds key (cstr "1") hmalloc hF live_null hfuel
  have hsame : F₁ = F := by
    rcases hcase with ⟨h, _⟩ | ⟨_, _, hnone, _⟩
    · exact h
    · cases hnone
  subst hsame
  have hstart : fillIn malloc fuel key ts (some a) none s =
      finish malloc fuel ts (some a) s₁ := by
    rw [fillIn, hadd]
    rfl
  have hfuel₁ : 1 < fuel := by omega
  rw [hstart, finish, addString]
  generalize hnode : allocate malloc s₁ = node
  generalize htext : copy malloc node.1.isSome node.2 = text
  generalize hkey : copy malloc (text.1 && (some a).isSome) text.2 = copied
  have hF₂ : Holds copied.2.memory F₁ := by
    rw [← hkey, memory_copy, ← htext, memory_copy, ← hnode, memory_allocate]
    exact hF₁
  have hfresh : Fresh F₁ node.1 := hnode ▸ fresh_allocate hmalloc hF₁
  rcases addStringToObject_lost text.1 copied.1 (cstr "ts") ts hF₂ hfresh ha
      hfuel₁ with
    ⟨fault, hperform⟩ | ⟨h', hperform, hlost⟩
  · refine ⟨fault, ?_⟩
    show (perform fuel copied.2.memory _ >>= _) >>= _ = _
    rw [hperform]
    rfl
  · have hrest : (do
        let s ← (do
          let memory ← perform fuel copied.2.memory (.addStringToObject (some a)
            (some (cstr "ts")) (some ts) node.1 text.1 copied.1)
          return { copied.2 with memory })
        let p ← printed fuel s.memory (some a)
        let s ← release fuel (some a) s
        return (p, s)) = (do
          let p ← printed fuel h' (some a)
          let s ← release fuel (some a) { copied.2 with memory := h' }
          return (p, s)) := by
      rw [hperform]
      rfl
    rw [hrest]
    have hlost' : Lost ({ copied.2 with memory := h' } : State).memory a :=
      hlost
    rcases hlost'.faults fuel with ⟨fault, hprinted⟩ |
      ⟨fault, hrelease⟩
    · refine ⟨fault, ?_⟩
      rw [hprinted]
      rfl
    · cases hprinted : printed fuel h' (some a) with
      | error fault => exact ⟨fault, rfl⟩
      | ok p =>
          refine ⟨fault, ?_⟩
          show release fuel (some a) _ >>= _ = _
          rw [hrelease]
          rfl

end Dangling

/-! ## The messages -/

section Messages

variable {malloc : Nat → Memory → Option Nat} {fuel : Nat} {s : State}
  {F : Siblings Label} {ts : CString}

/-- What was denied before the end is enough for a message that is cut
short. -/
theorem Built.short {message : CJson} {tree : Option CJson}
    (hdenied : s.denied = true) (hkept : Holds s.memory F ∨
      ∃ b label C, Holds s.memory (.cons b label C F)) :
    Built F message tree s := by
  refine ⟨?_, hkept⟩
  intro h
  rw [hdenied] at h
  cases h

theorem connectionMessage_built {key : CString}
    (hmalloc : ∀ i h a, malloc i h = some a → h a = none)
    (hF : Holds s.memory F) (hfuel : F.addrs.length + 5 < fuel) :
    ∃ tree s', connectionMessage malloc fuel key ts s = .ok (tree, s') ∧
      Built F (noticeTree key ts) tree s' := by
  obtain ⟨root, s₁, hroot, hF₁, _, hdenied₁⟩ := newObject_holds hmalloc hF
  rw [connectionMessage, hroot]
  cases root with
  | none => exact ⟨none, s₁, rfl, .short (hdenied₁ (.inr rfl)) (.inl hF₁)⟩
  | some a =>
      have hF₁' : Holds s₁.memory (.cons a objectLabel .nil F) := hF₁
      obtain ⟨sub, s₂, hsub, hF₂, _, hdenied₂⟩ := newObject_holds hmalloc hF₁'
      show ∃ tree s', (newObject malloc s₁ >>= _) = .ok (tree, s') ∧ _
      rw [hsub]
      cases sub with
      | none =>
          have hF₂' : Holds s₂.memory (.cons a objectLabel .nil F) := hF₂
          have hsize : F.addrs.length + 1 < fuel := by omega
          obtain ⟨h', hrelease, hholds⟩ := release_new hF₂' hsize
          refine ⟨none, { s₂ with memory := h' }, ?_,
            .short (hdenied₂ (.inr rfl)) (.inl hholds)⟩
          show release fuel (some a) s₂ >>= _ = _
          rw [hrelease]
          rfl
      | some b => exact fillIn_built hmalloc hF₂ hfuel

/-- The root is allocated, and the object inside of it is not. -/
def InnerDenied (malloc : Nat → Memory → Option Nat) (s : State) : Prop :=
  ∃ a s₁ s₂, newObject malloc s = .ok (some a, s₁) ∧
    newObject malloc s₁ = .ok (none, s₂)

theorem hearbeatMessage_ends
    (hmalloc : ∀ i h a, malloc i h = some a → h a = none)
    (hF : Holds s.memory F) (hfuel : F.addrs.length + 5 < fuel) :
    InnerDenied malloc s ∧
        (∃ fault, hearbeatMessage malloc fuel ts s = .error fault) ∨
      ¬ InnerDenied malloc s ∧
        ∃ tree s', hearbeatMessage malloc fuel ts s = .ok (tree, s') ∧
          Built F (noticeTree (cstr "Hbt") ts) tree s' := by
  obtain ⟨root, s₁, hroot, hF₁, hfresh, hdenied₁⟩ := newObject_holds hmalloc hF
  obtain ⟨sub, s₂, hsub, hF₂, _, hdenied₂⟩ := newObject_holds hmalloc hF₁
  have hinner : InnerDenied malloc s → root ≠ none ∧ sub = none := by
    rintro ⟨a, t₁, t₂, h₁, h₂⟩
    rw [hroot] at h₁
    cases h₁
    rw [hsub] at h₂
    cases h₂
    exact ⟨Option.some_ne_none a, rfl⟩
  rw [hearbeatMessage, hroot]
  show InnerDenied malloc s ∧
      (∃ fault, (newObject malloc s₁ >>= _) = .error fault) ∨
    ¬ InnerDenied malloc s ∧
      ∃ tree s', (newObject malloc s₁ >>= _) = .ok (tree, s') ∧ _
  rw [hsub]
  cases sub with
  | some b =>
      refine .inr ⟨fun h => Option.some_ne_none b (hinner h).2, ?_⟩
      cases root with
      | some a => exact fillIn_built hmalloc hF₂ hfuel
      | none =>
          have hF₂' : Holds s₂.memory (.cons b objectLabel .nil F) := hF₂
          have hlive : Live (.cons b objectLabel .nil F) (some b) := by
            rintro _ ⟨⟩
            exact List.mem_cons_self
          have hsize : (Siblings.cons b objectLabel .nil F).addrs.length + 2 <
              fuel := Nat.lt_of_le_of_lt
            (Nat.add_le_add_left (by decide : 3 ≤ 5) F.addrs.length) hfuel
          obtain ⟨s', F', hrun, hF', hdenied, hcase⟩ :=
            fillIn_null (cstr "Hbt") ts hmalloc hF₂' hlive hsize
          refine ⟨none, s', hrun, .short
            (hdenied (hdenied₂ (.inl (hdenied₁ (.inr rfl))))) (.inr ?_)⟩
          rcases hcase with rfl | ⟨_, m, ⟨⟩, rfl⟩
          · exact ⟨_, _, _, hF'⟩
          · rw [withString, Siblings.modify, if_pos rfl] at hF'
            exact ⟨_, _, _, hF'⟩
  | none =>
      cases root with
      | none =>
          refine .inr ⟨fun h => (hinner h).1 rfl, ?_⟩
          have hsize : F.addrs.length + 2 < fuel := by omega
          have hF₂' : Holds s₂.memory F := hF₂
          obtain ⟨s', F', hrun, hF', hdenied, hcase⟩ :=
            fillIn_null (cstr "Hbt") ts hmalloc hF₂' live_null hsize
          have hsame : F' = F := by
            rcases hcase with h | ⟨_, _, hnone, _⟩
            · exact h
            · cases hnone
          subst hsame
          refine ⟨none, s', ?_, .short (hdenied (hdenied₂ (.inr rfl)))
            (.inl hF')⟩
          show release fuel none s₂ >>= _ = _
          rw [release_null (Nat.zero_lt_of_lt hfuel)]
          exact hrun
      | some a =>
          refine .inl ⟨⟨a, s₁, s₂, hroot, hsub⟩, ?_⟩
          have hF₂' : Holds s₂.memory (.cons a objectLabel .nil F) := hF₂
          have hsize : F.addrs.length + 1 < fuel := by omega
          obtain ⟨h', hrelease, hholds⟩ := release_new hF₂' hsize
          obtain ⟨fault, hrun⟩ := fillIn_lost { s₂ with memory := h' }
            (cstr "Hbt") ts hmalloc hholds (hfresh a rfl) hsize
          refine ⟨fault, ?_⟩
          show release fuel (some a) s₂ >>= _ = _
          rw [hrelease]
          exact hrun

/-- From memory that holds a forest and for every `malloc`, the last will and
the message of `Disconnect` are built without touching memory that is not
allocated; so is the heartbeat, unless its root is allocated and the object
inside of it is not: then the root is used after it has been released. -/
theorem notices_end (s : State) (ts : CString)
    (hmalloc : ∀ i h a, malloc i h = some a → h a = none)
    (hF : Holds s.memory F) (hfuel : F.addrs.length + 5 < fuel) :
    (∃ tree s', lastWillMessage malloc fuel ts s = .ok (tree, s') ∧
      Built F (noticeTree (cstr "UeD") ts) tree s') ∧
    (∃ tree s', disconnectMessage malloc fuel ts s = .ok (tree, s') ∧
      Built F (noticeTree (cstr "DsC") ts) tree s') ∧
    (InnerDenied malloc s ∧
        (∃ fault, hearbeatMessage malloc fuel ts s = .error fault) ∨
      ¬ InnerDenied malloc s ∧
        ∃ tree s', hearbeatMessage malloc fuel ts s = .ok (tree, s') ∧
          Built F (noticeTree (cstr "Hbt") ts) tree s') :=
  ⟨connectionMessage_built hmalloc hF hfuel,
    connectionMessage_built hmalloc hF hfuel,
    hearbeatMessage_ends hmalloc hF hfuel⟩

end Messages

/-- A `malloc` that gives one node and no more. -/
def onlyFirst (calls : Nat) (h : Memory) : Option Nat :=
  if calls = 0 then numbered calls h else none

theorem onlyFirst_fresh (calls : Nat) (h : Memory) (a : Nat)
    (ha : onlyFirst calls h = some a) : h a = none := by
  unfold onlyFirst at ha
  split at ha
  · exact numbered_fresh calls h a ha
  · cases ha

/-- With enough memory the last will is complete and nothing stays behind; with
memory for one node the heartbeat does not return. -/
theorem sample_notices_end :
    (∃ s', lastWillMessage numbered 6 (cstr "now") ⟨fun _ => none, 0, false⟩ =
        .ok (some (noticeTree (cstr "UeD") (cstr "now")), s') ∧
      Holds s'.memory .nil) ∧
    ∃ fault, hearbeatMessage onlyFirst 6 (cstr "now")
      ⟨fun _ => none, 0, false⟩ = .error fault := by
  constructor
  · obtain ⟨⟨tree, s', hrun, hbuilt⟩, _, _⟩ := notices_end
      ⟨fun _ => none, 0, false⟩ (cstr "now") numbered_fresh Holds.empty
      (show 0 + 5 < 6 by decide)
    have hgranted : (lastWillMessage numbered 6 (cstr "now")
        ⟨fun _ => none, 0, false⟩).toOption.map (fun r => r.2.denied) =
          some false := by decide
    rw [hrun] at hgranted
    obtain ⟨rfl, hholds⟩ := hbuilt.complete (Option.some.inj hgranted)
    exact ⟨s', hrun, hholds⟩
  · obtain ⟨_, _, hends⟩ := notices_end
      ⟨fun _ => none, 0, false⟩ (cstr "now") onlyFirst_fresh Holds.empty
      (show 0 + 5 < 6 by decide)
    rcases hends with ⟨_, hfault⟩ | ⟨hnot, _⟩
    · exact hfault
    · exact absurd ⟨1, _, _, rfl, rfl⟩ hnot

end DatahubEdge.Nodes
