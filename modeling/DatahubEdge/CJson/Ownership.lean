import DatahubEdge.CJson.Nodes

/-!
# Calls on trees in memory

A client of `cJSON.c` has the roots of the trees it has built; a tree that is
added to another belongs to that one from then on, and no tree is added to
itself.  As long as a client keeps to this, no call touches a node that is not
allocated, no node is released twice, and what is allocated are the nodes of
the trees and nothing else.  The memory of strings is left out.

## Main results

* `perform_holds` — one call, from memory that holds a forest.
* `calls_safe` — any number of calls.
-/

namespace DatahubEdge.Nodes

open Lib.Linked

/-! ## The forest a call leaves behind -/

/-- Another key for a node. -/
def rename (string : Option CString) (node : Label × Siblings Label) :
    Label × Siblings Label :=
  ({ node.1 with string := string }, node.2)

/-- The forest with a node that has been created, unless it was denied. -/
def created (node : Option Nat) (label : Label) (F : Siblings Label) :
    Siblings Label :=
  match node with
  | none => F
  | some a => .cons a label .nil F

/-- The forest after a root has become the last child of a node. -/
def attached (a b : Nat) (name : CString) (F : Siblings Label) :
    Siblings Label :=
  match F.root b with
  | none => F
  | some (lb, cb) => (F.without b).modify a fun node =>
      (node.1, node.2.append (.cons b { lb with string := some name } cb .nil))

/-- The same for pointers and a name that may be NULL. -/
def added (object : Option Nat) (key : Option CString) (item : Option Nat)
    (F : Siblings Label) : Siblings Label :=
  match object, key, item with
  | some a, some name, some b => attached a b name F
  | _, _, _ => F

/-- The same for a node that is created for it and released if it is not
added. -/
def addedNew (object : Option Nat) (key : Option CString) (item : Option Nat)
    (label : Label) (F : Siblings Label) : Siblings Label :=
  match object, key, item with
  | some a, some name, some b => attached a b name (.cons b label .nil F)
  | _, _, _ => F

/-- The forest after a root has taken the place of a child. -/
def replaced (a i r : Nat) (F : Siblings Label) : Siblings Label :=
  match F.root r with
  | none => F
  | some (lr, cr) => (F.without r).modify a fun node =>
      (node.1, Siblings.replaceAt i (.cons r lr cr .nil) node.2)

/-- The child a lookup finds. -/
def found (object : Option Nat) (name : CString) (F : Siblings Label) :
    Option Nat := do
  let a ← object
  let node ← F.find a
  hit name node.2

/-- The forest after the child a lookup finds, if any, has been replaced by
the item at `r`, which may be that child. -/
def replacement (object : Option Nat) (name : CString) (r : Nat)
    (F : Siblings Label) : Siblings Label :=
  match object with
  | none => F
  | some a =>
      match found (some a) name F with
      | none => F
      | some i => if r = i then F else replaced a i r F

def objectLabel : Label := { Label.zero with type := .object }

def numberLabel (num : Rat) : Label :=
  { Label.zero with
    type := .number
    valuedouble := num
    valueint := saturatedInt num }

def stringLabel (string : Option CString) : Label :=
  { Label.zero with type := .string, valuestring := string }

/-! ## Calls -/

inductive Call where
  | createObject (node : Option Nat)
  | createNumber (node : Option Nat) (num : Rat)
  | createString (node : Option Nat) (granted : Bool)
      (string : Option CString)
  | addItemToObject (object : Option Nat) (string : Option CString)
      (item : Option Nat) (granted : Bool)
  | addNumberToObject (object : Option Nat) (name : Option CString)
      (number : Rat) (node : Option Nat) (granted : Bool)
  | addStringToObject (object : Option Nat) (name string : Option CString)
      (node : Option Nat) (granted grantedKey : Bool)
  | getObjectItem (object : Option Nat) (name : Option CString)
  | replaceItemInObject (object : Option Nat) (string : Option CString)
      (newitem : Option Nat) (granted : Bool)
  | delete (item : Option Nat)

def perform (fuel : Nat) (h : Memory) : Call → Except HeapFault Memory
  | .createObject node => Prod.snd <$> createObject h node
  | .createNumber node num => Prod.snd <$> createNumber h node num
  | .createString node granted string =>
      Prod.snd <$> createString fuel h node granted string
  | .addItemToObject object string item granted =>
      Prod.snd <$> addItemToObject fuel h object string item granted
  | .addNumberToObject object name number node granted =>
      Prod.snd <$> addNumberToObject fuel h object name number node granted
  | .addStringToObject object name string node granted grantedKey =>
      Prod.snd <$> addStringToObject fuel h object name string node granted
        grantedKey
  | .getObjectItem object name => do
      let _ ← getObjectItem fuel h object name
      return h
  | .replaceItemInObject object string newitem granted =>
      replaceItemInObject fuel h object string newitem granted
  | .delete item => delete fuel h item

/-- The forest after a call. -/
def after (F : Siblings Label) : Call → Siblings Label
  | .createObject node => created node objectLabel F
  | .createNumber node num => created node (numberLabel num) F
  | .createString node granted string =>
      match strdup granted string with
      | none => F
      | some text => created node (stringLabel (some text)) F
  | .addItemToObject object string item granted =>
      added object (strdup granted string) item F
  | .addNumberToObject object name number node granted =>
      addedNew object (strdup granted name) node (numberLabel number) F
  | .addStringToObject object name string node granted grantedKey =>
      match strdup granted string with
      | none => F
      | some text => addedNew object (strdup grantedKey name) node
          (stringLabel (some text)) F
  | .getObjectItem _ _ => F
  | .replaceItemInObject object string newitem granted =>
      match newitem, string with
      | some r, some name =>
          replacement object name r
            (F.modify r (rename (strdup granted (some name))))
      | _, _ => F
  | .delete item =>
      match item with
      | none => F
      | some b => F.without b

/-- The address is not in use. -/
def Fresh (F : Siblings Label) (node : Option Nat) : Prop :=
  ∀ a, node = some a → a ∉ F.addrs

/-- The pointer is NULL or to a node that is in use. -/
def Live (F : Siblings Label) (p : Option Nat) : Prop :=
  ∀ a, p = some a → a ∈ F.addrs

/-- What `malloc` and a client must observe.  Only roots are added, put in the
place of a child or released, and no tree is put into itself; the item a
lookup finds may also replace itself. -/
def Legal (F : Siblings Label) : Call → Prop
  | .createObject node => Fresh F node
  | .createNumber node _ => Fresh F node
  | .createString node _ _ => Fresh F node
  | .addItemToObject object _ item _ =>
      ∀ a, object = some a → ∀ b, item = some b →
        (F.root b).isSome = true ∧ a ∈ (F.without b).addrs
  | .addNumberToObject object _ _ node _ => Fresh F node ∧ Live F object
  | .addStringToObject object _ _ node _ _ => Fresh F node ∧ Live F object
  | .getObjectItem object _ => Live F object
  | .replaceItemInObject object string newitem granted =>
      ∀ r, newitem = some r → ∀ name, string = some name →
        ((F.root r).isSome = true ∧
          ∀ a, object = some a → a ∈ (F.without r).addrs) ∨
        (granted = true ∧ found object name F = some r)
  | .delete item => ∀ b, item = some b → (F.root b).isSome = true

instance (F : Siblings Label) (node : Option Nat) :
    Decidable (Fresh F node) :=
  Option.decidableForallMem node

instance (F : Siblings Label) (p : Option Nat) : Decidable (Live F p) :=
  Option.decidableForallMem p

instance decidableLegal (F : Siblings Label) :
    (call : Call) → Decidable (Legal F call)
  | .createObject node => inferInstanceAs (Decidable (Fresh F node))
  | .createNumber node _ => inferInstanceAs (Decidable (Fresh F node))
  | .createString node _ _ => inferInstanceAs (Decidable (Fresh F node))
  | .addItemToObject object _ item _ =>
      inferInstanceAs (Decidable (∀ a ∈ object, ∀ b ∈ item,
        (F.root b).isSome = true ∧ a ∈ (F.without b).addrs))
  | .addNumberToObject object _ _ node _ =>
      inferInstanceAs (Decidable (Fresh F node ∧ Live F object))
  | .addStringToObject object _ _ node _ _ =>
      inferInstanceAs (Decidable (Fresh F node ∧ Live F object))
  | .getObjectItem object _ => inferInstanceAs (Decidable (Live F object))
  | .replaceItemInObject object string newitem granted =>
      inferInstanceAs (Decidable (∀ r ∈ newitem, ∀ name ∈ string,
        ((F.root r).isSome = true ∧ ∀ a ∈ object, a ∈ (F.without r).addrs) ∨
          (granted = true ∧ found object name F = some r)))
  | .delete item =>
      inferInstanceAs (Decidable (∀ b ∈ item, (F.root b).isSome = true))

/-- Every call keeps to the rules in the forest it is made in. -/
def LegalRun : Siblings Label → List Call → Prop
  | _, [] => True
  | F, call :: calls => Legal F call ∧ LegalRun (after F call) calls

/-! ## Creation -/

section Calls

variable {h : Memory} {F : Siblings Label} {fuel : Nat}

theorem Fresh.eq_none {a : Nat} (hF : Holds h F) (hfresh : Fresh F (some a)) :
    h a = none := by
  rw [← Option.not_isSome_iff_eq_none, hF.allocated]
  exact hfresh a rfl

/-- A new node is filled in. -/
theorem update_newItem {a : Nat} (f : Node Label → Node Label) :
    update (newItem h (some a)) a f =
      .ok (set h a (f ⟨none, none, none, .zero⟩)) := by
  rw [newItem, update, read_eq set_self]
  show Except.ok (set (set h a _) a _) = _
  rw [set_set]

theorem createObject_holds {node : Option Nat} (hF : Holds h F)
    (hfresh : Fresh F node) :
    ∃ h', createObject h node = .ok (node, h') ∧
      Holds h' (created node objectLabel F) := by
  cases node with
  | none => exact ⟨h, rfl, hF⟩
  | some a =>
      refine ⟨_, ?_, hF.insert objectLabel (hfresh.eq_none hF)⟩
      show update (newItem h (some a)) a _ >>= _ = _
      rw [update_newItem]
      rfl

theorem createNumber_holds {node : Option Nat} (num : Rat) (hF : Holds h F)
    (hfresh : Fresh F node) :
    ∃ h', createNumber h node num = .ok (node, h') ∧
      Holds h' (created node (numberLabel num) F) := by
  cases node with
  | none => exact ⟨h, rfl, hF⟩
  | some a =>
      refine ⟨_, ?_, hF.insert (numberLabel num) (hfresh.eq_none hF)⟩
      show update (newItem h (some a)) a _ >>= _ = _
      rw [update_newItem]
      rfl

/-- The node is released again if the text is not copied. -/
theorem createString_holds {node : Option Nat} {granted : Bool}
    {string : Option CString} (hF : Holds h F) (hfresh : Fresh F node)
    (hfuel : 1 < fuel) :
    ∃ h', createString fuel h node granted string =
        .ok ((strdup granted string).bind fun _ => node, h') ∧
      Holds h' (match strdup granted string with
        | none => F
        | some text => created node (stringLabel (some text)) F) := by
  cases node with
  | none =>
      cases strdup granted string with
      | none => exact ⟨h, rfl, hF⟩
      | some text => exact ⟨h, rfl, hF⟩
  | some a =>
      have hinserted := hF.insert (stringLabel (strdup granted string))
        (hfresh.eq_none hF)
      have hwritten : createString fuel h (some a) granted string = (do
          let h := set h a
            ⟨none, none, none, stringLabel (strdup granted string)⟩
          match strdup granted string with
          | none => do
              let h ← delete fuel h (some a)
              return (none, h)
          | some _ => return (some a, h)) := by
        show update (newItem h (some a)) a _ >>= _ = _
        rw [update_newItem]
        show read (set h a _) a >>= _ = _
        rw [read_eq set_self]
        rfl
      rw [hwritten]
      cases htext : strdup granted string with
      | some text =>
          rw [htext] at hinserted
          exact ⟨_, rfl, hinserted⟩
      | none =>
          rw [htext] at hinserted
          have hroot : (Siblings.cons a (stringLabel none) .nil F).root a =
              some (stringLabel none, .nil) := by
            exact Siblings.root_cons_self
          obtain ⟨h', hdelete, hholds⟩ :=
            delete_holds hinserted hroot hfuel
          rw [Siblings.without_cons_self] at hholds
          refine ⟨h', ?_, hholds⟩
          show delete fuel _ (some a) >>= _ = _
          rw [hdelete]
          rfl

/-! ## Additions -/

/-- The children of a node are no more than the nodes there are. -/
theorem length_children {a : Nat} {la : Label} {S C : Siblings Label}
    (ha : S.find a = some (la, C)) : C.addrs.length ≤ S.addrs.length :=
  (Siblings.find_sublist ha).length_le

theorem length_without {b : Nat} {lb : Label} {cb : Siblings Label}
    (hb : F.root b = some (lb, cb)) :
    (F.without b).addrs.length + (cb.addrs.length + 1) = F.addrs.length := by
  have hlength := (Siblings.addrs_without hb).length_eq
  rw [List.length_append, List.length_cons] at hlength
  exact hlength

theorem addItemToObject_call {object item : Option Nat}
    {string : Option CString} {granted : Bool} (hF : Holds h F)
    (hlegal : ∀ a, object = some a → ∀ b, item = some b →
      (F.root b).isSome = true ∧ a ∈ (F.without b).addrs)
    (hfuel : F.addrs.length < fuel) :
    ∃ h', addItemToObject fuel h object string item granted = .ok
        (object.isSome && (strdup granted string).isSome && item.isSome, h') ∧
      Holds h' (added object (strdup granted string) item F) := by
  cases object with
  | none => exact ⟨h, rfl, hF⟩
  | some a =>
      cases string with
      | none =>
          have hnone : strdup granted none = none := by
            rw [strdup, ite_self]
          rw [hnone]
          exact ⟨h, rfl, hF⟩
      | some name =>
          cases item with
          | none =>
              cases strdup granted (some name) with
              | none => exact ⟨h, rfl, hF⟩
              | some key => exact ⟨h, rfl, hF⟩
          | some b =>
              cases granted with
              | false => exact ⟨h, rfl, hF⟩
              | true =>
                  obtain ⟨hroot, ha⟩ := hlegal a rfl b rfl
                  obtain ⟨⟨lb, cb⟩, hb⟩ := Option.isSome_iff_exists.mp hroot
                  obtain ⟨la, C, hfind⟩ := Siblings.exists_find ha
                  have hlength := length_without hb
                  have hchildren := length_children hfind
                  show ∃ h', _ ∧ Holds h' (attached a b name F)
                  rw [attached, hb]
                  exact addItemToObject_holds hF hb hfind (by omega)

theorem added_of_false {object item : Option Nat} {key : Option CString}
    (h : (object.isSome && key.isSome && item.isSome) = false) :
    added object key item F = F := by
  cases object with
  | none => rfl
  | some a =>
      cases key with
      | none => rfl
      | some name =>
          cases item with
          | none => rfl
          | some b => cases h

theorem addedNew_of_false {object item : Option Nat} {key : Option CString}
    {label : Label}
    (h : (object.isSome && key.isSome && item.isSome) = false) :
    addedNew object key item label F = F := by
  cases object with
  | none => rfl
  | some a =>
      cases key with
      | none => rfl
      | some name =>
          cases item with
          | none => rfl
          | some b => cases h

theorem delete_created {node : Option Nat} {label : Label}
    (hF : Holds h (created node label F)) (hfuel : 1 < fuel) :
    ∃ h', delete fuel h node = .ok h' ∧ Holds h' F := by
  cases node with
  | none =>
      refine ⟨h, ?_, hF⟩
      cases fuel with
      | zero => cases hfuel
      | succ fuel => rfl
  | some a =>
      have hroot : (Siblings.cons a label .nil F).root a =
          some (label, .nil) := by
        exact Siblings.root_cons_self
      have hF' : Holds h (.cons a label .nil F) := hF
      obtain ⟨h', hdelete, hholds⟩ := delete_holds hF' hroot hfuel
      rw [Siblings.without_cons_self] at hholds
      exact ⟨h', hdelete, hholds⟩

/-- The item that has been created is added, or it is gone. -/
theorem addOrDelete_holds {object item : Option Nat} {label : Label}
    {name : Option CString} {granted : Bool}
    (hF : Holds h (created item label F)) (hobject : Live F object)
    (hfuel : F.addrs.length + 1 < fuel) :
    ∃ p h', addOrDelete fuel h object name item granted = .ok (p, h') ∧
      Holds h' (addedNew object (strdup granted name) item label F) := by
  have hlegal : ∀ a, object = some a → ∀ b, item = some b →
      ((created item label F).root b).isSome = true ∧
        a ∈ ((created item label F).without b).addrs := by
    rintro a ha b rfl
    show ((Siblings.cons b label .nil F).root b).isSome = true ∧
      a ∈ ((Siblings.cons b label .nil F).without b).addrs
    rw [Siblings.root_cons_self, Siblings.without_cons_self]
    exact ⟨rfl, hobject a ha⟩
  have hsize : (created item label F).addrs.length ≤ F.addrs.length + 1 := by
    cases item with
    | none => exact Nat.le_succ _
    | some b => exact Nat.le_refl _
  obtain ⟨h₁, hadd, hholds⟩ : ∃ h', addItemToObject fuel h object name item
        granted = .ok (object.isSome && (strdup granted name).isSome &&
          item.isSome, h') ∧
      Holds h' (added object (strdup granted name) item
        (created item label F)) :=
    addItemToObject_call hF hlegal (Nat.lt_of_le_of_lt hsize hfuel)
  cases hadded : object.isSome && (strdup granted name).isSome &&
      item.isSome with
  | true =>
      simp only [Bool.and_eq_true, Option.isSome_iff_exists] at hadded
      obtain ⟨⟨⟨a, rfl⟩, key, hkey⟩, b, rfl⟩ := hadded
      rw [hkey] at hadd hholds ⊢
      refine ⟨some b, h₁, ?_, hholds⟩
      rw [addOrDelete, hadd]
      rfl
  | false =>
      rw [added_of_false hadded] at hholds
      rw [addedNew_of_false hadded]
      obtain ⟨h', hdelete, hgone⟩ : ∃ h', delete fuel h₁ item = .ok h' ∧
          Holds h' F := delete_created hholds (by omega)
      refine ⟨none, h', ?_, hgone⟩
      rw [addOrDelete, hadd, hadded]
      show delete fuel h₁ item >>= _ = _
      rw [hdelete]
      rfl

/-! ## Lookups and replacements -/

theorem getObjectItem_holds {object : Option Nat} (name : CString)
    (hF : Holds h F) (hobject : Live F object)
    (hfuel : F.addrs.length < fuel) :
    getObjectItem fuel h object (some name) = .ok (found object name F) := by
  cases object with
  | none => rfl
  | some a =>
      obtain ⟨la, C, hfind⟩ := Siblings.exists_find (hobject a rfl)
      obtain ⟨⟨next, prev, hnode⟩, hC⟩ := hF.roots.node hfind
      have hlength := length_children hfind
      have hfound : found (some a) name F = hit name C := by
        show (F.find a).bind _ = _
        rw [hfind]
        rfl
      show read h a >>= _ = _
      rw [read_eq hnode, hfound]
      exact findItem_eq hC (Nat.lt_of_le_of_lt hlength hfuel)

theorem hit_mem {name : CString} {C : Siblings Label} {i : Nat}
    (h : hit name C = some i) : i ∈ C.addrs := by
  induction C with
  | nil => cases h
  | cons item label child next _ ih =>
      rw [hit] at h
      split at h
      · cases h
        exact List.mem_cons_self
      · exact List.mem_cons_of_mem _ (List.mem_append_right _ (ih h))

/-- Where the first hit is. -/
theorem exists_hit {name : CString} {C : Siblings Label} {i : Nat}
    (h : hit name C = some i) :
    ∃ pre label child post, C = pre.append (.cons i label child post) ∧
      hit name pre = none ∧ sameName name label.string = true := by
  induction C with
  | nil => cases h
  | cons item label child next _ ih =>
      rw [hit] at h
      split at h
      · cases h
        exact ⟨.nil, label, child, next, rfl, rfl, by assumption⟩
      · rename_i hne
        obtain ⟨pre, label', child', post, rfl, hpre, hname⟩ := ih h
        refine ⟨.cons item label child pre, label', child', post, rfl, ?_,
          hname⟩
        rw [hit, if_neg hne]
        exact hpre

/-- The hit under a name is the hit still when it is given that name. -/
theorem hit_rename {name : CString} {C : Siblings Label} {i : Nat}
    (hnodup : C.addrs.Nodup) (h : hit name C = some i) :
    hit name (C.modify i (rename (some name))) = some i := by
  induction C with
  | nil => cases h
  | cons item label child next _ ih =>
      rw [Siblings.addrs, List.nodup_cons, List.nodup_append,
        List.mem_append, not_or] at hnodup
      rw [hit] at h
      rw [Siblings.modify]
      split at h
      · cases h
        rw [if_pos rfl]
        show (if sameName name (some name) = true then _ else _) = _
        rw [if_pos]
        exact (caseInsensitiveEq_iff name name).mpr rfl
      · rename_i hne
        have hmem := hit_mem h
        rw [if_neg (ne_of_mem_of_not_mem hmem hnodup.1.2).symm, hit,
          if_neg hne]
        exact ih hnodup.2.2.1 h

section Replacement

variable {object : Option Nat} {name : CString} {r : Nat}

theorem addrs_rename (key : Option CString) :
    (F.modify r (rename key)).addrs = F.addrs :=
  Siblings.addrs_relabel r (fun label => { label with string := key }) F

/-- The item that comes in is renamed before the lookup. -/
theorem replaceItemInObject_lookup {granted : Bool} (hF : Holds h F)
    (hr : r ∈ F.addrs) (hobject : Live F object)
    (hfuel : F.addrs.length < fuel) :
    ∃ h₁, Holds h₁ (F.modify r (rename (strdup granted (some name)))) ∧
      replaceItemInObject fuel h object (some name) (some r) granted =
        Prod.snd <$> replaceItemViaPointer fuel h₁ object
          (found object name
            (F.modify r (rename (strdup granted (some name))))) (some r) := by
  have hrenamed : Holds (touch h (some r) fun n => { n with label :=
        { n.label with string := strdup granted (some name) } })
      (F.modify r (rename (strdup granted (some name)))) :=
    hF.relabel
      (fun label => { label with string := strdup granted (some name) }) hr
  refine ⟨_, hrenamed, ?_⟩
  show update h r _ >>= _ = _
  rw [update_eq ((hF.allocated r).mpr hr)]
  show getObjectItem fuel _ object (some name) >>= _ = _
  rw [getObjectItem_holds name hrenamed]
  · rfl
  · intro a ha
    rw [addrs_rename]
    exact hobject a ha
  · rw [addrs_rename]
    exact hfuel

theorem exists_found {i : Nat} (h : found object name F = some i) :
    ∃ a la C, object = some a ∧ F.find a = some (la, C) ∧
      hit name C = some i := by
  obtain ⟨a, rfl, h⟩ := Option.bind_eq_some_iff.mp h
  obtain ⟨⟨la, C⟩, hfind, hhit⟩ := Option.bind_eq_some_iff.mp h
  exact ⟨a, la, C, rfl, hfind, hhit⟩

/-- A root that is renamed is a root still, apart from the same trees. -/
theorem root_rename {a : Nat} (key : Option CString) (hnodup : F.addrs.Nodup)
    (hroot : (F.root r).isSome = true) (ha : a ∈ (F.without r).addrs) :
    ((F.modify r (rename key)).root r).isSome = true ∧
      a ∈ ((F.modify r (rename key)).without r).addrs := by
  obtain ⟨⟨lr, cr⟩, hr⟩ := Option.isSome_iff_exists.mp hroot
  rw [Siblings.root_modify hr, Siblings.without_modify hnodup hr]
  exact ⟨rfl, ha⟩

theorem replacement_none (hfound : found object name F = none) :
    replacement object name r F = F := by
  cases object with
  | none => rfl
  | some a => rw [replacement, hfound]

theorem replacement_self (hfound : found object name F = some r) :
    replacement object name r F = F := by
  cases object with
  | none => rfl
  | some a =>
      rw [replacement, hfound]
      exact if_pos rfl

theorem replacement_child {a i : Nat} (hri : r ≠ i)
    (hfound : found (some a) name F = some i) :
    replacement (some a) name r F = replaced a i r F := by
  rw [replacement, hfound]
  exact if_neg hri

/-- Where the child is whose place a root takes. -/
theorem exists_place {a i : Nat} (hnodup : F.addrs.Nodup)
    (hroot : (F.root r).isSome = true) (ha : a ∈ (F.without r).addrs)
    (hfound : found (some a) name F = some i) :
    ∃ (la lr li : Label) (cr ci pre post : Siblings Label),
      F.root r = some (lr, cr) ∧ (F.without r).addrs.Nodup ∧ i ∉ pre.addrs ∧
      (F.without r).find a = some (la, pre.append (.cons i li ci post)) := by
  obtain ⟨⟨lr, cr⟩, hr⟩ := Option.isSome_iff_exists.mp hroot
  have hrest : (F.without r).addrs.Nodup :=
    (List.nodup_append.mp
      ((Siblings.addrs_without hr).nodup_iff.mpr hnodup)).1
  obtain ⟨_, la, C, heq, hfind, hhit⟩ := exists_found hfound
  cases heq
  rw [Siblings.find_without hnodup hr ha] at hfind
  obtain ⟨pre, li, ci, post, rfl, _, _⟩ := exists_hit hhit
  have hnodupC := (Siblings.find_sublist hfind).nodup hrest
  rw [Siblings.addrs_append, Siblings.addrs] at hnodupC
  refine ⟨la, lr, li, cr, ci, pre, post, hr, hrest, ?_, hfind⟩
  exact fun hmem =>
    (List.nodup_append.mp hnodupC).2.2 i hmem i List.mem_cons_self rfl

/-- A root takes the place of the child the lookup finds. -/
theorem replaceItemViaPointer_found {a i : Nat} (hF : Holds h F)
    (hroot : (F.root r).isSome = true) (ha : a ∈ (F.without r).addrs)
    (hfound : found (some a) name F = some i)
    (hfuel : F.addrs.length < fuel) :
    r ≠ i ∧ ∃ h', replaceItemViaPointer fuel h (some a) (some i) (some r) =
        .ok (true, h') ∧ Holds h' (replaced a i r F) := by
  obtain ⟨la, lr, li, cr, ci, pre, post, hr, hnodup, hi, hfind⟩ :=
    exists_place hF.nodup hroot ha hfound
  have hsub := (Siblings.find_sublist hfind).subset
  have hlength := length_children hfind
  have hrest := length_without hr
  rw [Siblings.addrs_append, Siblings.addrs] at hsub hlength
  rw [List.length_append, List.length_cons, List.length_append] at hlength
  constructor
  · rintro rfl
    exact (hF.apart hr).2.2 r (hsub (List.mem_append_right _ List.mem_cons_self))
      List.mem_cons_self
  · have hcongr := Siblings.modify_congr
      (f := fun node =>
        (node.1, Siblings.replaceAt i (.cons r lr cr .nil) node.2))
      (g := fun node => (node.1, pre.append (.cons r lr cr post)))
      hnodup hfind (by rw [Siblings.replaceAt_append hi]; rfl)
    rw [replaced, hr]
    show ∃ h', _ ∧ Holds h' ((F.without r).modify a fun node =>
      (node.1, Siblings.replaceAt i (.cons r lr cr .nil) node.2))
    rw [hcongr]
    exact replaceItemViaPointer_holds hF hr hfind (by omega)

/-- `cJSON_ReplaceItemInObject`, where the item that comes in is a root. -/
theorem replaceItemInObject_root {granted : Bool} (hF : Holds h F)
    (hroot : (F.root r).isSome = true)
    (hobject : ∀ a, object = some a → a ∈ (F.without r).addrs)
    (hfuel : F.addrs.length < fuel) :
    ∃ h', replaceItemInObject fuel h object (some name) (some r) granted =
        .ok h' ∧
      Holds h' (after F
        (.replaceItemInObject object (some name) (some r) granted)) := by
  obtain ⟨⟨lr, cr⟩, hr⟩ := Option.isSome_iff_exists.mp hroot
  have hlive : Live F object := fun a ha =>
    (Siblings.addrs_without hr).subset (List.mem_append_left _ (hobject a ha))
  obtain ⟨h₁, hrenamed, hcall⟩ : ∃ h₁,
      Holds h₁ (F.modify r (rename (strdup granted (some name)))) ∧
      replaceItemInObject fuel h object (some name) (some r) granted = _ :=
    replaceItemInObject_lookup hF (Siblings.mem_of_root hr) hlive hfuel
  rw [hcall, after]
  cases hfound : found object name
      (F.modify r (rename (strdup granted (some name)))) with
  | none =>
      rw [replacement_none hfound]
      refine ⟨h₁, ?_, hrenamed⟩
      cases object with
      | none => rfl
      | some a => rfl
  | some i =>
      obtain ⟨a, _, _, rfl, _⟩ := exists_found hfound
      rw [← addrs_rename] at hfuel
      obtain ⟨hroot', hobject'⟩ := root_rename
        (strdup granted (some name)) hF.nodup hroot (hobject a rfl)
      obtain ⟨hri, h', hreplace, hholds⟩ := replaceItemViaPointer_found
        hrenamed hroot' hobject' hfound hfuel
      rw [replacement_child hri hfound]
      exact ⟨h', congrArg (Prod.snd <$> ·) hreplace, hholds⟩

/-- The item a lookup finds is found again under its new name. -/
theorem found_rename (hnodup : F.addrs.Nodup)
    (hfound : found object name F = some r) :
    found object name (F.modify r (rename (some name))) = some r := by
  obtain ⟨a, la, C, rfl, hfind, hhit⟩ := exists_found hfound
  show ((F.modify r (rename (some name))).find a).bind _ = _
  rw [Siblings.find_modify hnodup hfind (hit_mem hhit)]
  exact hit_rename ((Siblings.find_sublist hfind).nodup hnodup) hhit

/-- `cJSON_ReplaceItemInObject`, where the item the lookup finds replaces
itself. -/
theorem replaceItemInObject_self (hF : Holds h F)
    (hfound : found object name F = some r) (hfuel : F.addrs.length < fuel) :
    ∃ h', replaceItemInObject fuel h object (some name) (some r) true =
        .ok h' ∧
      Holds h' (after F
        (.replaceItemInObject object (some name) (some r) true)) := by
  obtain ⟨a, la, C, rfl, hfind, hhit⟩ := exists_found hfound
  have hr := hit_mem hhit
  have hlive : Live F (some a) := by
    intro a' ha
    cases ha
    exact Siblings.mem_of_find hfind
  obtain ⟨h₁, hrenamed, hcall⟩ : ∃ h₁,
      Holds h₁ (F.modify r (rename (strdup true (some name)))) ∧
      replaceItemInObject fuel h (some a) (some name) (some r) true = _ :=
    replaceItemInObject_lookup hF ((Siblings.find_sublist hfind).subset hr)
      hlive hfuel
  have hagain : found (some a) name
      (F.modify r (rename (strdup true (some name)))) = some r :=
    found_rename hF.nodup hfound
  rw [hcall, hagain, after, replacement_self hagain]
  refine ⟨h₁, ?_, hrenamed⟩
  show Prod.snd <$> (if r = r then _ else _) = _
  rw [if_pos rfl]
  rfl

end Replacement

/-! ## How many nodes there are -/

theorem length_created (node : Option Nat) (label : Label) :
    (created node label F).addrs.length ≤ F.addrs.length + 1 := by
  cases node with
  | none => exact Nat.le_succ _
  | some a => exact Nat.le_refl _

theorem length_attached {a b : Nat} {name : CString} (hnodup : F.addrs.Nodup) :
    (attached a b name F).addrs.length ≤ F.addrs.length := by
  rw [attached]
  cases hb : F.root b with
  | none => exact Nat.le_refl _
  | some node =>
      obtain ⟨lb, cb⟩ := node
      have hlength := length_without hb
      have hnodup' : (F.without b).addrs.Nodup :=
        (List.nodup_append.mp
          ((Siblings.addrs_without hb).nodup_iff.mpr hnodup)).1
      by_cases ha : a ∈ (F.without b).addrs
      · obtain ⟨la, C, hfind⟩ := Siblings.exists_find ha
        have hchildren : ((C.append (.cons b { lb with string := some name }
            cb .nil)).addrs ++ []).Perm (C.addrs ++ b :: cb.addrs) := by
          rw [Siblings.addrs_append, Siblings.addrs_single, List.append_nil]
        have hequal := (Siblings.addrs_modify (f := fun node =>
          (node.1, node.2.append (.cons b { lb with string := some name }
            cb .nil))) hnodup' hfind hchildren).length_eq
        rw [List.append_nil, List.length_append, List.length_cons] at hequal
        show ((F.without b).modify a _).addrs.length ≤ _
        omega
      · show ((F.without b).modify a _).addrs.length ≤ _
        rw [Siblings.modify_eq_self ha]
        omega

theorem length_addedNew {object item : Option Nat} {key : Option CString}
    {label : Label} (hnodup : (created item label F).addrs.Nodup) :
    (addedNew object key item label F).addrs.length ≤ F.addrs.length + 1 := by
  cases h : object.isSome && key.isSome && item.isSome with
  | true =>
      simp only [Bool.and_eq_true, Option.isSome_iff_exists] at h
      obtain ⟨⟨⟨a, rfl⟩, name, rfl⟩, b, rfl⟩ := h
      exact length_attached hnodup
  | false =>
      rw [addedNew_of_false h]
      exact Nat.le_succ _

theorem length_added {object item : Option Nat} {key : Option CString}
    (hnodup : F.addrs.Nodup) :
    (added object key item F).addrs.length ≤ F.addrs.length + 1 := by
  cases h : object.isSome && key.isSome && item.isSome with
  | true =>
      simp only [Bool.and_eq_true, Option.isSome_iff_exists] at h
      obtain ⟨⟨⟨a, rfl⟩, name, rfl⟩, b, rfl⟩ := h
      exact Nat.le_succ_of_le (length_attached hnodup)
  | false =>
      rw [added_of_false h]
      exact Nat.le_succ _

theorem length_replaced {name : CString} {a i r : Nat}
    (hnodup : F.addrs.Nodup) (hroot : (F.root r).isSome = true)
    (ha : a ∈ (F.without r).addrs) (hfound : found (some a) name F = some i) :
    (replaced a i r F).addrs.length ≤ F.addrs.length := by
  obtain ⟨la, lr, li, cr, ci, pre, post, hr, hnodup', hi, hfind⟩ :=
    exists_place hnodup hroot ha hfound
  have hlength := length_without hr
  have hchildren : ((Siblings.replaceAt i (.cons r lr cr .nil)
      (pre.append (.cons i li ci post))).addrs ++ i :: ci.addrs).Perm
        ((pre.append (.cons i li ci post)).addrs ++ r :: cr.addrs) := by
    rw [Siblings.replaceAt_append hi]
    simp only [Siblings.addrs_append, Siblings.addrs, List.perm_iff_count]
    intro b
    simp only [List.count_append, List.count_cons, List.count_nil]
    omega
  have hequal := (Siblings.addrs_modify (f := fun node => (node.1,
    Siblings.replaceAt i (.cons r lr cr .nil) node.2))
      hnodup' hfind hchildren).length_eq
  rw [List.length_append, List.length_append, List.length_cons,
    List.length_cons] at hequal
  rw [replaced, hr]
  show ((F.without r).modify a _).addrs.length ≤ _
  omega

theorem length_replacement {object : Option Nat} {name : CString} {r : Nat}
    {granted : Bool} (hnodup : F.addrs.Nodup)
    (hlegal : ((F.root r).isSome = true ∧
        ∀ a, object = some a → a ∈ (F.without r).addrs) ∨
      (granted = true ∧ found object name F = some r)) :
    (replacement object name r (F.modify r
      (rename (strdup granted (some name))))).addrs.length ≤
        F.addrs.length := by
  have haddrs : F.addrs =
      (F.modify r (rename (strdup granted (some name)))).addrs :=
    (addrs_rename _).symm
  rw [haddrs]
  cases hfound : found object name
      (F.modify r (rename (strdup granted (some name)))) with
  | none => rw [replacement_none hfound]
  | some i =>
      by_cases hri : r = i
      · rw [hri] at hfound ⊢
        rw [replacement_self hfound]
      · obtain ⟨a, _, _, rfl, _⟩ := exists_found hfound
        rw [replacement_child hri hfound]
        rcases hlegal with ⟨hroot, hobject⟩ | ⟨rfl, hself⟩
        · obtain ⟨hroot', hobject'⟩ := root_rename
            (strdup granted (some name)) hnodup hroot (hobject a rfl)
          exact length_replaced (haddrs ▸ hnodup) hroot' hobject' hfound
        · have hagain := found_rename hnodup hself
          exact absurd (Option.some.inj (hagain.symm.trans hfound)) hri

theorem nodup_created {node : Option Nat} {label : Label} (hF : Holds h F)
    (hfresh : Fresh F node) : (created node label F).addrs.Nodup := by
  cases node with
  | none => exact hF.nodup
  | some a => exact List.nodup_cons.mpr ⟨hfresh a rfl, hF.nodup⟩

/-- A call makes one node at most. -/
theorem length_after {call : Call} (hF : Holds h F) (hlegal : Legal F call) :
    (after F call).addrs.length ≤ F.addrs.length + 1 := by
  cases call with
  | createObject node => exact length_created node _
  | createNumber node num => exact length_created node _
  | createString node granted string =>
      rw [after]
      cases strdup granted string with
      | none => exact Nat.le_succ _
      | some text => exact length_created node _
  | addItemToObject object string item granted => exact length_added hF.nodup
  | addNumberToObject object name number node granted =>
      exact length_addedNew (nodup_created hF hlegal.1)
  | addStringToObject object name string node granted grantedKey =>
      rw [after]
      cases strdup granted string with
      | none => exact Nat.le_succ _
      | some text => exact length_addedNew (nodup_created hF hlegal.1)
  | getObjectItem object name => exact Nat.le_succ _
  | replaceItemInObject object string newitem granted =>
      cases newitem with
      | none => exact Nat.le_succ _
      | some r =>
          cases string with
          | none => exact Nat.le_succ _
          | some name =>
              exact Nat.le_succ_of_le
                (length_replacement hF.nodup (hlegal r rfl name rfl))
  | delete item =>
      cases item with
      | none => exact Nat.le_succ _
      | some b =>
          obtain ⟨⟨lb, cb⟩, hb⟩ :=
            Option.isSome_iff_exists.mp (hlegal b rfl)
          have hlength := length_without hb
          show (F.without b).addrs.length ≤ _
          omega

/-! ## Runs -/

/-- One call. -/
theorem perform_holds {call : Call} (hF : Holds h F) (hlegal : Legal F call)
    (hfuel : F.addrs.length + 1 < fuel) :
    ∃ h', perform fuel h call = .ok h' ∧ Holds h' (after F call) := by
  cases call with
  | createObject node =>
      obtain ⟨h', hcall, hholds⟩ := createObject_holds hF hlegal
      exact ⟨h', congrArg (Prod.snd <$> ·) hcall, hholds⟩
  | createNumber node num =>
      obtain ⟨h', hcall, hholds⟩ := createNumber_holds num hF hlegal
      exact ⟨h', congrArg (Prod.snd <$> ·) hcall, hholds⟩
  | createString node granted string =>
      obtain ⟨h', hcall, hholds⟩ : ∃ h', createString fuel h node granted
          string = _ ∧ Holds h' _ :=
        createString_holds hF hlegal (by omega)
      exact ⟨h', congrArg (Prod.snd <$> ·) hcall, hholds⟩
  | addItemToObject object string item granted =>
      obtain ⟨h', hcall, hholds⟩ : ∃ h', addItemToObject fuel h object string
          item granted = _ ∧ Holds h' _ :=
        addItemToObject_call hF hlegal (by omega)
      exact ⟨h', congrArg (Prod.snd <$> ·) hcall, hholds⟩
  | addNumberToObject object name number node granted =>
      obtain ⟨h₁, hcreate, hcreated⟩ :=
        createNumber_holds number hF hlegal.1
      obtain ⟨p, h', hadd, hholds⟩ : ∃ p h', addOrDelete fuel h₁ object name
            node granted = .ok (p, h') ∧ Holds h' (addedNew object
              (strdup granted name) node (numberLabel number) F) :=
        addOrDelete_holds hcreated hlegal.2 hfuel
      refine ⟨h', ?_, hholds⟩
      rw [perform, addNumberToObject, hcreate]
      exact congrArg (Prod.snd <$> ·) hadd
  | addStringToObject object name string node granted grantedKey =>
      obtain ⟨h₁, hcreate, hcreated⟩ : ∃ h₁, createString fuel h node granted
          string = _ ∧ Holds h₁ _ :=
        createString_holds hF hlegal.1 (by omega)
      rw [perform, addStringToObject, hcreate, after]
      cases htext : strdup granted string with
      | none =>
          rw [htext] at hcreated
          have hnone : Holds h₁ (created none (stringLabel none) F) := hcreated
          obtain ⟨p, h', hadd, hholds⟩ : ∃ p h', addOrDelete fuel h₁ object
              name none grantedKey = .ok (p, h') ∧ Holds h' (addedNew object
                (strdup grantedKey name) none (stringLabel none) F) :=
            addOrDelete_holds hnone hlegal.2 hfuel
          refine ⟨h', congrArg (Prod.snd <$> ·) hadd, ?_⟩
          rw [addedNew_of_false (by simp)] at hholds
          exact hholds
      | some text =>
          rw [htext] at hcreated
          obtain ⟨p, h', hadd, hholds⟩ : ∃ p h', addOrDelete fuel h₁ object
              name node grantedKey = .ok (p, h') ∧ Holds h' (addedNew object
                (strdup grantedKey name) node (stringLabel (some text)) F) :=
            addOrDelete_holds hcreated hlegal.2 hfuel
          exact ⟨h', congrArg (Prod.snd <$> ·) hadd, hholds⟩
  | getObjectItem object name =>
      refine ⟨h, ?_, hF⟩
      cases name with
      | none =>
          cases object with
          | none => rfl
          | some a => rfl
      | some name =>
          show getObjectItem fuel h object (some name) >>= _ = _
          rw [getObjectItem_holds name hF hlegal (by omega)]
          rfl
  | replaceItemInObject object string newitem granted =>
      cases newitem with
      | none => exact ⟨h, rfl, hF⟩
      | some r =>
          cases string with
          | none => exact ⟨h, rfl, hF⟩
          | some name =>
              rcases hlegal r rfl name rfl with ⟨hroot, hobject⟩ | ⟨rfl, hfound⟩
              · exact replaceItemInObject_root hF hroot hobject (by omega)
              · exact replaceItemInObject_self hF hfound (by omega)
  | delete item =>
      cases item with
      | none =>
          refine ⟨h, ?_, hF⟩
          cases fuel with
          | zero => cases hfuel
          | succ fuel => rfl
      | some b =>
          obtain ⟨⟨lb, cb⟩, hb⟩ :=
            Option.isSome_iff_exists.mp (hlegal b rfl)
          have hlength := length_without hb
          exact delete_holds hF hb (by omega)

/-- As long as a client keeps to the rules, its calls never touch a node that
is not allocated and never release a node twice, and what is allocated in the
end are the nodes of the trees it has, each once. -/
theorem calls_safe {calls : List Call} (hF : Holds h F)
    (hlegal : LegalRun F calls)
    (hfuel : F.addrs.length + calls.length < fuel) :
    ∃ h', calls.foldlM (perform fuel) h = .ok h' ∧
      Holds h' (calls.foldl after F) := by
  induction calls generalizing h F with
  | nil => exact ⟨h, rfl, hF⟩
  | cons call calls ih =>
      obtain ⟨hcall, hrest⟩ := hlegal
      rw [List.length_cons] at hfuel
      have hlength := length_after hF hcall
      obtain ⟨h₁, hperform, hholds⟩ : ∃ h₁, perform fuel h call = .ok h₁ ∧
          Holds h₁ (after F call) := perform_holds hF hcall (by omega)
      obtain ⟨h', hrun, hend⟩ := ih hholds hrest (by omega)
      refine ⟨h', ?_, hend⟩
      rw [List.foldlM_cons, hperform]
      exact hrun

end Calls

/-- The calls of a client that keeps a record by name, reports it once more
and gives everything back. -/
def sampleCalls : List Call :=
  [.createObject (some 10), .createObject (some 20),
    .addNumberToObject (some 20) (some (cstr "0")) 5 (some 30) true,
    .addItemToObject (some 10) (some (cstr "x")) (some 20) true,
    .getObjectItem (some 10) (some (cstr "X")),
    .createObject (some 40),
    .addNumberToObject (some 40) (some (cstr "0")) 6 (some 50) true,
    .replaceItemInObject (some 10) (some (cstr "X")) (some 40) true,
    .replaceItemInObject (some 10) (some (cstr "x")) (some 40) true,
    .addStringToObject (some 10) none (some (cstr "1")) (some 60) true true,
    .delete (some 10)]

/-- In the end nothing is allocated. -/
theorem sample_calls_safe : ∃ h', sampleCalls.foldlM (perform 20)
    (fun _ => none) = .ok h' ∧ Holds h' .nil := by
  have hlegal : LegalRun .nil sampleCalls := by
    simp only [sampleCalls, LegalRun, and_true]
    decide
  exact calls_safe Holds.empty hlegal (by decide)

end DatahubEdge.Nodes
