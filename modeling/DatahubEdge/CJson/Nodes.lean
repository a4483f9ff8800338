import DatahubEdge.CJson.Tree
import DatahubEdge.Lib.Forest

/-!
# `cJSON` nodes in memory

The functions of `cJSON.c` that build, search and release a tree, on the
memory its nodes are in.  What `malloc` returns is an argument: an address, or
nothing if the allocation is denied; so is whether the copy of a string is
granted.  The strings of a node are part of it, and a key is a value: the
memory strings are in is left out.  A loop along the siblings has fuel.

## Main results

* `delete_siblings` — `cJSON_Delete` releases the nodes it is given and all
  below them, each once.
* `addItemToArray_holds`, `replaceItemViaPointer_holds` — the trees in memory
  after an addition and after a replacement.
-/

namespace DatahubEdge.Nodes

open Lib.Linked

/-- The `type` member, without the flags for references and constant keys. -/
inductive NodeType where
  | invalid
  | false
  | true
  | null
  | number
  | string
  | array
  | object
  deriving DecidableEq

/-- The members of a `cJSON` beside its links. -/
structure Label where
  type : NodeType
  valuestring : Option CString
  valueint : Int
  valuedouble : Rat
  string : Option CString

abbrev Memory := Heap Label

/-- The members after `memset(node, '\\0', sizeof(cJSON))`. -/
def Label.zero : Label := ⟨.invalid, none, 0, 0, none⟩

/-- `cJSON_strdup`, which returns NULL for NULL and if `malloc` does. -/
def strdup (granted : Bool) (string : Option CString) : Option CString :=
  if granted then string else none

/-- `cJSON_New_Item`. -/
def newItem (h : Memory) (node : Option Nat) : Memory :=
  match node with
  | none => h
  | some node => set h node ⟨none, none, none, .zero⟩

/-- What is done through a pointer unless it is NULL. -/
def unlessNull (h : Memory) (pointer : Option Nat)
    (body : Nat → Except HeapFault Memory) : Except HeapFault Memory :=
  match pointer with
  | none => .ok h
  | some a => body a

/-- `cJSON_Delete`.  The children are released before their parent. -/
def delete : Nat → Memory → Option Nat → Except HeapFault Memory
  | 0, _, _ => .error .fuel
  | _ + 1, h, none => .ok h
  | fuel + 1, h, some item => do
      let node ← read h item
      let h ← unlessNull h node.child fun child => delete fuel h (some child)
      let h ← free h item
      delete fuel h node.next

/-! ## Creation -/

/-- `cJSON_CreateObject`. -/
def createObject (h : Memory) (node : Option Nat) :
    Except HeapFault (Option Nat × Memory) :=
  let h := newItem h node
  match node with
  | none => return (none, h)
  | some item => do
      let h ← update h item fun n =>
        { n with label := { n.label with type := .object } }
      return (some item, h)

/-- `cJSON_CreateNumber`. -/
def createNumber (h : Memory) (node : Option Nat) (num : Rat) :
    Except HeapFault (Option Nat × Memory) :=
  let h := newItem h node
  match node with
  | none => return (none, h)
  | some item => do
      let h ← update h item fun n =>
        { n with label := { n.label with
          type := .number
          valuedouble := num
          valueint := saturatedInt num } }
      return (some item, h)

/-- `cJSON_CreateString`. -/
def createString (fuel : Nat) (h : Memory) (node : Option Nat)
    (granted : Bool) (string : Option CString) :
    Except HeapFault (Option Nat × Memory) :=
  let h := newItem h node
  match node with
  | none => return (none, h)
  | some item => do
      let h ← update h item fun n =>
        { n with label := { n.label with
          type := .string
          valuestring := strdup granted string } }
      match (← read h item).label.valuestring with
      | none => do
          let h ← delete fuel h (some item)
          return (none, h)
      | some _ => return (some item, h)

/-! ## Objects -/

/-- The loop of `add_item_to_array` to the last child. -/
def lastChild : Nat → Memory → Nat → Except HeapFault Nat
  | 0, _, _ => .error .fuel
  | fuel + 1, h, child => do
      let node ← read h child
      match node.next with
      | none => return child
      | some next => lastChild fuel h next

/-- `suffix_object`. -/
def suffixObject (h : Memory) (prev item : Nat) : Except HeapFault Memory := do
  let h ← update h prev fun n => { n with next := some item }
  update h item fun n => { n with prev := some prev }

/-- `add_item_to_array`. -/
def addItemToArray (fuel : Nat) (h : Memory) (array item : Option Nat) :
    Except HeapFault (Bool × Memory) :=
  match item, array with
  | some item, some array => do
      match (← read h array).child with
      | none => do
          let h ← update h array fun n => { n with child := some item }
          return (true, h)
      | some child => do
          let child ← lastChild fuel h child
          let h ← suffixObject h child item
          return (true, h)
  | _, _ => return (false, h)

/-- `add_item_to_object`, with a copy of the key. -/
def addItemToObject (fuel : Nat) (h : Memory) (object : Option Nat)
    (string : Option CString) (item : Option Nat) (granted : Bool) :
    Except HeapFault (Bool × Memory) :=
  match object, string, item with
  | some object, some string, some item =>
      match strdup granted (some string) with
      | none => return (false, h)
      | some newKey => do
          let h ← update h item fun n =>
            { n with label := { n.label with string := some newKey } }
          addItemToArray fuel h (some object) (some item)
  | _, _, _ => return (false, h)

/-- What the functions that create and add an item do after the creation: an
item that is not added is released. -/
def addOrDelete (fuel : Nat) (h : Memory) (object : Option Nat)
    (name : Option CString) (item : Option Nat) (granted : Bool) :
    Except HeapFault (Option Nat × Memory) := do
  let (added, h) ← addItemToObject fuel h object name item granted
  if added then return (item, h)
  else
    let h ← delete fuel h item
    return (none, h)

/-- `cJSON_AddNumberToObject`. -/
def addNumberToObject (fuel : Nat) (h : Memory) (object : Option Nat)
    (name : Option CString) (number : Rat) (node : Option Nat)
    (granted : Bool) : Except HeapFault (Option Nat × Memory) := do
  let (numberItem, h) ← createNumber h node number
  addOrDelete fuel h object name numberItem granted

/-- `cJSON_AddStringToObject`. -/
def addStringToObject (fuel : Nat) (h : Memory) (object : Option Nat)
    (name string : Option CString) (node : Option Nat)
    (granted grantedKey : Bool) : Except HeapFault (Option Nat × Memory) := do
  let (stringItem, h) ← createString fuel h node granted string
  addOrDelete fuel h object name stringItem grantedKey

/-- `case_insensitive_strcmp(name, string) == 0` for a name that is not
NULL. -/
def sameName (name : CString) (string : Option CString) : Bool :=
  match string with
  | none => false
  | some string => caseInsensitiveEq name string

/-- The loop of `get_object_item`. -/
def findItem (name : CString) :
    Nat → Memory → Option Nat → Except HeapFault (Option Nat)
  | 0, _, _ => .error .fuel
  | _ + 1, _, none => return none
  | fuel + 1, h, some currentElement => do
      let node ← read h currentElement
      if sameName name node.label.string then return some currentElement
      else findItem name fuel h node.next

/-- `cJSON_GetObjectItem`. -/
def getObjectItem (fuel : Nat) (h : Memory) (object : Option Nat)
    (name : Option CString) : Except HeapFault (Option Nat) :=
  match object, name with
  | some object, some name => do
      let node ← read h object
      findItem name fuel h node.child
  | _, _ => return none

/-- `cJSON_ReplaceItemViaPointer`. -/
def replaceItemViaPointer (fuel : Nat) (h : Memory)
    (parent item replacement : Option Nat) : Except HeapFault (Bool × Memory) :=
  match parent, replacement, item with
  | some parent, some replacement, some item =>
      if replacement = item then return (true, h)
      else do
        let old ← read h item
        let h ← update h replacement fun n =>
          { n with next := old.next, prev := old.prev }
        let new ← read h replacement
        let h ← unlessNull h new.next fun next =>
          update h next fun n => { n with prev := some replacement }
        let new ← read h replacement
        let h ← unlessNull h new.prev fun prev =>
          update h prev fun n => { n with next := some replacement }
        let h ← update h parent fun n =>
          if n.child = some item then { n with child := some replacement }
          else n
        let h ← update h item fun n => { n with next := none, prev := none }
        let h ← delete fuel h (some item)
        return (true, h)
  | _, _, _ => return (false, h)

/-- `cJSON_ReplaceItemInObject`.  The source releases the old key of the new
item before it copies `string`; as keys are values here, `string` must not be
that key. -/
def replaceItemInObject (fuel : Nat) (h : Memory) (object : Option Nat)
    (string : Option CString) (newitem : Option Nat) (granted : Bool) :
    Except HeapFault Memory :=
  match newitem, string with
  | some newitem, some string => do
      let h ← update h newitem fun n =>
        { n with label :=
          { n.label with string := strdup granted (some string) } }
      let item ← getObjectItem fuel h object (some string)
      let (_, h) ← replaceItemViaPointer fuel h object item (some newitem)
      return h
  | _, _ => return h

/-! ## Walks -/

section Walks

variable {h : Memory} {before : Option Nat} {S : Siblings Label} {fuel : Nat}

/-- Everything that hangs on the first sibling is released, and no node is
released twice. -/
theorem delete_siblings (hS : Segment h before none S)
    (hnodup : S.addrs.Nodup) (hfuel : S.addrs.length < fuel) :
    delete fuel h (S.headOr none) = .ok (erase h S.addrs) := by
  induction S generalizing h before fuel with
  | nil =>
      cases fuel with
      | zero => cases hfuel
      | succ fuel =>
          show Except.ok h = _
          congr 1
  | cons item label child next ihc ihn =>
      obtain ⟨hitem, hchild, hnext⟩ := hS
      rw [Siblings.addrs] at hnodup hfuel
      rw [List.length_cons, List.length_append] at hfuel
      rw [List.nodup_cons, List.nodup_append, List.mem_append,
        not_or] at hnodup
      obtain ⟨⟨hnotChild, hnotNext⟩, hnodupChild, hnodupNext, hdisjoint⟩ :=
        hnodup
      cases fuel with
      | zero => cases hfuel
      | succ fuel =>
          have hdeleteChild : unlessNull h (child.headOr none)
              (fun c => delete fuel h (some c)) =
                .ok (erase h child.addrs) := by
            have hchild' : delete fuel h (child.headOr none) =
                .ok (erase h child.addrs) :=
              ihc hchild hnodupChild (by omega)
            cases child with
            | nil =>
                show Except.ok h = _
                congr 1
            | cons c label' child' next' => exact hchild'
          have hitem' : erase h child.addrs item =
              some ⟨next.headOr none, before, child.headOr none, label⟩ := by
            rw [erase_of_not_mem hnotChild]
            exact hitem
          have hnext' : Segment (erase h (child.addrs ++ [item])) (some item)
              none next := by
            apply hnext.congr
            intro b hb
            apply erase_of_not_mem
            rw [List.mem_append, List.mem_singleton, not_or]
            constructor
            · exact fun hb' => hdisjoint b hb' b hb rfl
            · rintro rfl
              exact hnotNext hb
          have hdeleteNext : delete fuel (erase h (child.addrs ++ [item]))
              (next.headOr none) =
                .ok (erase (erase h (child.addrs ++ [item])) next.addrs) :=
            ihn hnext' hnodupNext (by omega)
          show delete (fuel + 1) h (some item) = _
          rw [delete, read_eq hitem]
          show unlessNull h (child.headOr none) _ >>= _ = _
          rw [hdeleteChild]
          show free (erase h child.addrs) item >>= _ = _
          rw [free_eq hitem', erase_erase]
          show delete fuel (erase h (child.addrs ++ [item]))
            (next.headOr none) = _
          rw [hdeleteNext, erase_erase]
          congr 1
          apply erase_congr
          intro b
          rw [Siblings.addrs]
          simp only [List.mem_append, List.mem_cons]
          tauto

/-- The last child is found. -/
theorem lastChild_eq {a z : Nat} (hS : Segment h before none S)
    (ha : S.headOr none = some a) (hz : S.lastOr none = some z)
    (hfuel : S.addrs.length ≤ fuel) : lastChild fuel h a = .ok z := by
  induction S generalizing before a fuel with
  | nil => cases ha
  | cons item label child next _ ih =>
      obtain ⟨hitem, _, hnext⟩ := hS
      rw [Siblings.addrs, List.length_cons, List.length_append] at hfuel
      cases ha
      cases fuel with
      | zero => omega
      | succ fuel =>
          rw [lastChild, read_eq hitem]
          cases next with
          | nil =>
              cases hz
              rfl
          | cons item' label' child' next' =>
              exact ih hnext rfl hz (by omega)

end Walks

/-- The first of the siblings under a name. -/
def hit (name : CString) : Siblings Label → Option Nat
  | .nil => none
  | .cons item label _ next =>
      if sameName name label.string then some item else hit name next

theorem findItem_eq {h : Memory} {before : Option Nat} {S : Siblings Label}
    {fuel : Nat} {name : CString} (hS : Segment h before none S)
    (hfuel : S.addrs.length < fuel) :
    findItem name fuel h (S.headOr none) = .ok (hit name S) := by
  induction S generalizing before fuel with
  | nil =>
      cases fuel with
      | zero => cases hfuel
      | succ fuel => rfl
  | cons item label child next _ ih =>
      obtain ⟨hitem, _, hnext⟩ := hS
      rw [Siblings.addrs, List.length_cons, List.length_append] at hfuel
      cases fuel with
      | zero => cases hfuel
      | succ fuel =>
          have hrest : findItem name fuel h (next.headOr none) =
              .ok (hit name next) := ih hnext (by omega)
          show findItem name (fuel + 1) h (some item) = _
          rw [findItem, read_eq hitem, hit]
          show (if sameName name label.string = true then
              Except.ok (some item)
            else findItem name fuel h (next.headOr none)) = _
          split
          · rfl
          · exact hrest

/-! ## Links -/

section Links

variable {h : Memory} {F : Siblings Label} {fuel : Nat}

/-- A tree is released. -/
theorem delete_holds {b : Nat} {lb : Label} {cb : Siblings Label}
    (hF : Holds h F) (hb : F.root b = some (lb, cb))
    (hfuel : cb.addrs.length + 1 < fuel) :
    ∃ h', delete fuel h (some b) = .ok h' ∧ Holds h' (F.without b) := by
  refine ⟨_, ?_, hF.drop hb⟩
  rw [← Siblings.addrs_single lb]
  apply delete_siblings (hF.roots.root hb)
  · rw [Siblings.addrs_single]
    exact (hF.apart hb).2.1
  · rw [Siblings.addrs_single]
    exact hfuel

/-- A root becomes the last child of a node of another tree. -/
theorem addItemToArray_holds {a b : Nat} {la lb : Label}
    {C cb : Siblings Label} (hF : Holds h F)
    (hb : F.root b = some (lb, cb))
    (ha : (F.without b).find a = some (la, C))
    (hfuel : C.addrs.length ≤ fuel) :
    ∃ h', addItemToArray fuel h (some a) (some b) = .ok (true, h') ∧
      Holds h' ((F.without b).modify a fun node =>
        (node.1, node.2.append (.cons b lb cb .nil))) := by
  have hcongr := Siblings.modify_congr
    (f := fun node => (node.1, node.2.append (.cons b lb cb .nil)))
    (g := fun node => (node.1, C.append (.cons b lb cb .nil)))
    (hF.apart hb).1 ha rfl
  rw [hcongr]
  obtain ⟨⟨next, prev, hnode⟩, hC⟩ := hF.roots.without.node ha
  have hbSome : (h b).isSome = true := by
    rw [(hF.roots.root hb).1]
    rfl
  cases C with
  | nil =>
      refine ⟨_, ?_, hF.attach_first hb ha⟩
      rw [addItemToArray, read_eq hnode]
      show (update h a fun n => { n with child := some b }) >>= _ = _
      rw [update_eq (by rw [hnode]; rfl)]
      rfl
  | cons c label child rest =>
      cases hz : (Siblings.cons c label child rest).lastOr none with
      | none => exact absurd hz (Siblings.lastOr_cons_ne_none none)
      | some z =>
          refine ⟨_, ?_, hF.attach_last hb ha hz⟩
          have hzSome : (h z).isSome = true :=
            hC.isSome z (Siblings.mem_of_lastOr hz)
          rw [addItemToArray, read_eq hnode]
          show lastChild fuel h c >>= _ = _
          rw [lastChild_eq hC rfl hz hfuel]
          show suffixObject h z b >>= _ = _
          rw [suffixObject, update_eq hzSome]
          show update _ b _ >>= _ = _
          rw [update_eq]
          · rfl
          · rw [isSome_touch]
            exact hbSome

/-- It does so under a name. -/
theorem addItemToObject_holds {a b : Nat} {la lb : Label}
    {C cb : Siblings Label} {name : CString} (hF : Holds h F)
    (hb : F.root b = some (lb, cb))
    (ha : (F.without b).find a = some (la, C))
    (hfuel : C.addrs.length ≤ fuel) :
    ∃ h', addItemToObject fuel h (some a) (some name) (some b) true =
        .ok (true, h') ∧
      Holds h' ((F.without b).modify a fun node => (node.1,
        node.2.append (.cons b { lb with string := some name } cb .nil))) := by
  have hnamed := hF.relabel (a := b)
    (fun label => { label with string := some name }) (Siblings.mem_of_root hb)
  have hroot := Siblings.root_modify (f := fun node : Label × Siblings Label =>
    ({ node.1 with string := some name }, node.2)) hb
  have hwithout := Siblings.without_modify
    (f := fun node : Label × Siblings Label =>
      ({ node.1 with string := some name }, node.2)) hF.nodup hb
  rw [← hwithout] at ha ⊢
  obtain ⟨h', hadd, hholds⟩ := addItemToArray_holds hnamed hroot ha hfuel
  refine ⟨h', ?_, hholds⟩
  show update h b _ >>= _ = _
  rw [update_eq]
  · exact hadd
  · rw [(hF.roots.root hb).1]
    rfl

theorem unlessNull_update {p : Option Nat} (f : Node Label → Node Label)
    (hp : ∀ q, p = some q → (h q).isSome = true) :
    unlessNull h p (fun q => update h q f) = .ok (touch h p f) := by
  cases p with
  | none => rfl
  | some q => exact update_eq (hp q rfl) f

/-- A root takes the place of a child, which is released. -/
theorem replaceItemViaPointer_holds {a i r : Nat} {la li lr : Label}
    {pre post ci cr : Siblings Label} (hF : Holds h F)
    (hr : F.root r = some (lr, cr))
    (ha : (F.without r).find a = some (la, pre.append (.cons i li ci post)))
    (hfuel : ci.addrs.length + 1 < fuel) :
    ∃ h', replaceItemViaPointer fuel h (some a) (some i) (some r) =
        .ok (true, h') ∧
      Holds h' ((F.without r).modify a fun node =>
        (node.1, pre.append (.cons r lr cr post))) := by
  have hexchange := hF.exchange hr ha
  have hroot : (Siblings.cons i li ci ((F.without r).modify a fun node =>
      (node.1, pre.append (.cons r lr cr post)))).root i = some (li, ci) := by
    exact Siblings.root_cons_self
  obtain ⟨h', hdelete, hholds⟩ := delete_holds hexchange hroot hfuel
  rw [Siblings.without_cons_self] at hholds
  refine ⟨h', ?_, hholds⟩
  obtain ⟨⟨next, prev, hnode⟩, hC⟩ := hF.roots.without.node ha
  obtain ⟨hsegPre, hi, _, hsegPost⟩ := segment_append.mp hC
  have hrNode := (hF.roots.root hr).1
  have hmem := (Siblings.find_sublist ha).subset
  rw [Siblings.addrs_append, Siblings.addrs] at hmem
  have hrRest : r ∉ (F.without r).addrs :=
    fun hmem => (hF.apart hr).2.2 r hmem List.mem_cons_self
  have hrPre : r ∉ pre.addrs :=
    fun hr => hrRest (hmem (List.mem_append_left _ hr))
  have hri : r ≠ i := by
    rintro rfl
    exact hrRest (hmem (List.mem_append_right _ List.mem_cons_self))
  have hrPost : r ∉ post.addrs := fun hr => hrRest (hmem
    (List.mem_append_right _ (List.mem_cons_of_mem i
      (List.mem_append_right _ hr))))
  have hbehind : ∀ q, post.headOr none = some q →
      (h q).isSome = true ∧ q ≠ r := by
    intro q hq
    have hqPost := Siblings.headOr_mem hq
    exact ⟨hsegPost.isSome q hqPost, ne_of_mem_of_not_mem hqPost hrPost⟩
  have hbefore : ∀ q, pre.lastOr none = some q → (h q).isSome = true := by
    intro q hq
    exact hsegPre.isSome q (Siblings.mem_of_lastOr hq)
  have hnew : touch h (some r) (fun n =>
      { n with next := post.headOr none, prev := pre.lastOr none }) r =
        some ⟨post.headOr none, pre.lastOr none, cr.headOr none, lr⟩ := by
    rw [touch_self, hrNode]
    rfl
  show (if r = i then _ else _) = _
  rw [if_neg hri, read_eq hi]
  show update h r _ >>= _ = _
  rw [update_eq (by rw [hrNode]; rfl)]
  show read _ r >>= _ = _
  rw [read_eq hnew]
  show unlessNull _ (post.headOr none) _ >>= _ = _
  rw [unlessNull_update _ fun q hq => by
    rw [isSome_touch]
    exact (hbehind q hq).1]
  show read _ r >>= _ = _
  rw [read_eq (by
    rw [touch_ne fun heq => (hbehind r heq).2 rfl]
    exact hnew)]
  show unlessNull _ (pre.lastOr none) _ >>= _ = _
  rw [unlessNull_update _ fun q hq => by
    rw [isSome_touch, isSome_touch]
    exact hbefore q hq]
  show update _ a _ >>= _ = _
  rw [update_eq (by
    rw [isSome_touch, isSome_touch, isSome_touch, hnode]
    rfl)]
  show update _ i _ >>= _ = _
  rw [update_eq (by
    rw [isSome_touch, isSome_touch, isSome_touch, isSome_touch, hi]
    rfl)]
  show delete fuel _ (some i) >>= _ = _
  rw [relink] at hdelete
  rw [hdelete]
  rfl

end Links

end DatahubEdge.Nodes
