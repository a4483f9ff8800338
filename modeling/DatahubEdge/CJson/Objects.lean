import DatahubEdge.CJson.Ownership

/-!
# Objects in memory

A node in memory stands for a `CJson`: its members and, for an array or an
object, what its children stand for.  Read in this way, the functions on
pointers are the object functions on the lists of children.

## Main results

* `root_of_hit` — the child the loop of `get_object_item` stops at.
* `objectOf_replaceAt` — the members after a replacement.
* `objects_meet` — lookup, addition and replacement.
-/

namespace DatahubEdge.Nodes

open Lib.Linked

/-- What a node stands for, given its children with their keys. -/
def node (label : Label) (child : List (Option CString × CJson)) : CJson :=
  match label.type with
  | .invalid => .null
  | .null => .null
  | .false => .bool false
  | .true => .bool true
  | .number => .number label.valuedouble
  | .string => .string (label.valuestring.getD [])
  | .array => .array (child.map Prod.snd)
  | .object => .object (child.map fun c => (c.1.getD [], c.2))

/-- What a list of siblings stands for, with the keys. -/
def values : Siblings Label → List (Option CString × CJson)
  | .nil => []
  | .cons _ label child next =>
      (label.string, node label (values child)) :: values next

/-- The members of an object with these children. -/
def objectOf (C : Siblings Label) : Obj CJson :=
  (values C).map fun c => (c.1.getD [], c.2)

/-- What the node at an address stands for. -/
def treeAt (F : Siblings Label) (a : Nat) : Option CJson :=
  (F.find a).map fun n => node n.1 (values n.2)

/-- Every child has a key. -/
def Keyed : Siblings Label → Prop
  | .nil => True
  | .cons _ label _ next => label.string ≠ none ∧ Keyed next

section Children

variable {C : Siblings Label} {name : CString}

theorem values_append (S T : Siblings Label) :
    values (S.append T) = values S ++ values T := by
  induction S with
  | nil => rfl
  | cons item label child next _ ih =>
      rw [Siblings.append, values, values, ih, List.cons_append]

theorem treeAt_eq {F : Siblings Label} {a : Nat} {label : Label}
    (h : F.find a = some (label, C)) :
    treeAt F a = some (node label (values C)) := by
  rw [treeAt, h]
  rfl

theorem findItem_of_hit_none (hkeyed : Keyed C) (h : hit name C = none) :
    DatahubEdge.findItem name (objectOf C) = none := by
  induction C with
  | nil => rfl
  | cons item label child next _ ih =>
      obtain ⟨hkey, hnext⟩ := hkeyed
      obtain ⟨key, hlabel⟩ := Option.ne_none_iff_exists'.mp hkey
      rw [hit, hlabel] at h
      split at h
      · cases h
      · rename_i hne
        show DatahubEdge.findItem name
          ((label.string.getD [], _) :: objectOf next) = none
        rw [hlabel, DatahubEdge.findItem]
        exact (if_neg hne).trans (ih hnext h)

/-- The child the loop of `get_object_item` stops at is the one the list
function finds. -/
theorem root_of_hit {i : Nat} (hkeyed : Keyed C) (hnodup : C.addrs.Nodup)
    (h : hit name C = some i) :
    ∃ label child, C.root i = some (label, child) ∧
      DatahubEdge.findItem name (objectOf C) =
        some (node label (values child)) := by
  induction C with
  | nil => cases h
  | cons item label child next _ ih =>
      obtain ⟨hkey, hnext⟩ := hkeyed
      obtain ⟨key, hlabel⟩ := Option.ne_none_iff_exists'.mp hkey
      rw [Siblings.addrs, List.nodup_cons, List.nodup_append,
        List.mem_append, not_or] at hnodup
      show ∃ label' child', _ ∧ DatahubEdge.findItem name
        ((label.string.getD [], node label (values child)) ::
          objectOf next) = _
      rw [hit, hlabel] at h
      rw [hlabel, DatahubEdge.findItem, Siblings.root]
      split at h
      · rename_i hname
        cases h
        rw [if_pos rfl]
        exact ⟨label, child, rfl, if_pos hname⟩
      · rename_i hne
        rw [if_neg (ne_of_mem_of_not_mem (hit_mem h) hnodup.1.2).symm]
        obtain ⟨label', child', hroot, hfind⟩ := ih hnext hnodup.2.2.1 h
        exact ⟨label', child', hroot, (if_neg hne).trans hfind⟩

/-- Nothing is replaced where there is no hit. -/
theorem replaceItem_of_hit_none {newitem : CJson} (hkeyed : Keyed C)
    (h : hit name C = none) :
    replaceItem name newitem (objectOf C) = objectOf C := by
  induction C with
  | nil => rfl
  | cons item label child next _ ih =>
      obtain ⟨hkey, hnext⟩ := hkeyed
      obtain ⟨key, hlabel⟩ := Option.ne_none_iff_exists'.mp hkey
      rw [hit, hlabel] at h
      split at h
      · cases h
      · rename_i hne
        show replaceItem name newitem
          ((label.string.getD [], _) :: objectOf next) =
            (label.string.getD [], _) :: objectOf next
        rw [hlabel, replaceItem]
        exact (if_neg hne).trans (congrArg _ (ih hnext h))

/-- The children after the first hit has been replaced. -/
theorem objectOf_replaceAt {i r : Nat} {label : Label}
    {child : Siblings Label} (hkeyed : Keyed C) (hnodup : C.addrs.Nodup)
    (hlabel : label.string = some name) (h : hit name C = some i) :
    objectOf (Siblings.replaceAt i (.cons r label child .nil) C) =
      replaceItem name (node label (values child)) (objectOf C) := by
  induction C with
  | nil => cases h
  | cons item label' child' next _ ih =>
      obtain ⟨hkey, hnext⟩ := hkeyed
      obtain ⟨key, hlabel'⟩ := Option.ne_none_iff_exists'.mp hkey
      rw [Siblings.addrs, List.nodup_cons, List.nodup_append,
        List.mem_append, not_or] at hnodup
      rw [hit, hlabel'] at h
      rw [Siblings.replaceAt]
      show _ = replaceItem name _
        ((label'.string.getD [], _) :: objectOf next)
      rw [hlabel', replaceItem]
      split at h
      · rename_i hname
        cases h
        rw [if_pos rfl]
        show (label.string.getD [], _) :: objectOf next = _
        rw [hlabel]
        exact (if_pos hname).symm
      · rename_i hne
        rw [if_neg (ne_of_mem_of_not_mem (hit_mem h) hnodup.1.2).symm]
        show (label'.string.getD [], _) :: objectOf _ = _
        rw [hlabel', ih hnext hnodup.2.2.1 h]
        exact (if_neg hne).symm

/-- The children after the first hit has been given the name. -/
theorem objectOf_rename {i : Nat} {label : Label} {child : Siblings Label}
    (hkeyed : Keyed C) (hnodup : C.addrs.Nodup) (h : hit name C = some i)
    (hi : C.find i = some (label, child)) :
    objectOf (C.modify i (rename (some name))) =
      replaceItem name (node label (values child)) (objectOf C) := by
  induction C with
  | nil => cases h
  | cons item label' child' next _ ih =>
      obtain ⟨hkey, hnext⟩ := hkeyed
      obtain ⟨key, hlabel'⟩ := Option.ne_none_iff_exists'.mp hkey
      rw [Siblings.addrs, List.nodup_cons, List.nodup_append,
        List.mem_append, not_or] at hnodup
      obtain ⟨⟨_, hnot⟩, _, hnodupNext, hdisjoint⟩ := hnodup
      rw [hit, hlabel'] at h
      rw [Siblings.find] at hi
      rw [Siblings.modify]
      show _ = replaceItem name _
        ((label'.string.getD [], _) :: objectOf next)
      rw [hlabel', replaceItem]
      split at h
      · rename_i hname
        cases h
        rw [if_pos rfl] at hi ⊢
        cases hi
        exact (if_pos hname).symm
      · rename_i hne
        have hmem := hit_mem h
        have hitem : item ≠ i := (ne_of_mem_of_not_mem hmem hnot).symm
        have hnotChild : i ∉ child'.addrs :=
          fun hmem' => hdisjoint i hmem' i hmem rfl
        rw [if_neg hitem] at hi ⊢
        rw [Siblings.modify_eq_self hnotChild]
        have hfind : next.find i = some (label, child) := by
          rcases Option.or_eq_some_iff.mp hi with hi | ⟨_, hi⟩
          · exact absurd (Siblings.mem_of_find hi) hnotChild
          · exact hi
        show (label'.string.getD [], _) :: objectOf _ = _
        rw [hlabel', ih hnext hnodupNext h hfind]
        exact (if_neg hne).symm

theorem keyed_append {S T : Siblings Label} :
    Keyed (S.append T) ↔ Keyed S ∧ Keyed T := by
  induction S with
  | nil => exact (true_and _).symm.to_iff
  | cons item label child next _ ih =>
      rw [Siblings.append, Keyed, Keyed, ih, and_assoc]

theorem keyed_replaceAt {i r : Nat} {label : Label} {child : Siblings Label}
    (hkeyed : Keyed C) (hlabel : label.string = some name) :
    Keyed (Siblings.replaceAt i (.cons r label child .nil) C) := by
  induction C with
  | nil => trivial
  | cons item label' child' next _ ih =>
      obtain ⟨hkey, hnext⟩ := hkeyed
      rw [Siblings.replaceAt]
      split
      · refine ⟨?_, hnext⟩
        rw [hlabel]
        exact Option.some_ne_none name
      · exact ⟨hkey, ih hnext⟩

theorem keyed_rename {i : Nat} (hkeyed : Keyed C) :
    Keyed (C.modify i (rename (some name))) := by
  induction C with
  | nil => trivial
  | cons item label child next _ ih =>
      obtain ⟨hkey, hnext⟩ := hkeyed
      rw [Siblings.modify]
      split
      · exact ⟨Option.some_ne_none name, hnext⟩
      · exact ⟨hkey, ih hnext⟩

end Children

/-! ## The object functions -/

/-- At an address there is an object with these members. -/
def IsObject (F : Siblings Label) (a : Nat) (o : Obj CJson) : Prop :=
  ∃ label C, F.find a = some (label, C) ∧ label.type = .object ∧ Keyed C ∧
    objectOf C = o

section Objects

variable {h : Memory} {F : Siblings Label} {fuel a : Nat} {o : Obj CJson}

/-- An object is read as the list of its members. -/
theorem IsObject.treeAt_eq (ho : IsObject F a o) :
    treeAt F a = some (.object o) := by
  obtain ⟨label, C, hfind, htype, _, rfl⟩ := ho
  rw [Nodes.treeAt_eq hfind, node, htype]
  rfl

theorem found_eq {name : CString} {label : Label} {C : Siblings Label}
    (hfind : F.find a = some (label, C)) :
    found (some a) name F = hit name C := by
  show (F.find a).bind _ = _
  rw [hfind]
  rfl

theorem getObjectItem_meets (hF : Holds h F) (ho : IsObject F a o)
    (name : Option CString) (hfuel : F.addrs.length < fuel) :
    ∃ p, getObjectItem fuel h (some a) name = .ok p ∧
      p.bind (treeAt F) = DatahubEdge.getObjectItem o name := by
  obtain ⟨label, C, hfind, _, hkeyed, rfl⟩ := ho
  cases name with
  | none => exact ⟨none, rfl, rfl⟩
  | some name =>
      have hlive : Live F (some a) := fun _ ha =>
        Option.some.inj ha ▸ Siblings.mem_of_find hfind
      have hnodup := (Siblings.find_sublist hfind).nodup hF.nodup
      refine ⟨_, getObjectItem_holds name hF hlive hfuel, ?_⟩
      rw [found_eq hfind]
      show _ = DatahubEdge.findItem name (objectOf C)
      cases hhit : hit name C with
      | none => exact (findItem_of_hit_none hkeyed hhit).symm
      | some i =>
          obtain ⟨li, ci, hroot, hitem⟩ := root_of_hit hkeyed hnodup hhit
          have hi : F.find i = some (li, ci) := by
            rw [Siblings.find_below hF.nodup hfind (hit_mem hhit)]
            exact Siblings.find_of_root hnodup hroot
          rw [hitem]
          exact Nodes.treeAt_eq hi

theorem addItemToObject_meets {b : Nat} {item : CJson} (hF : Holds h F)
    (ho : IsObject F a o) (name : Option CString)
    (hroot : (F.root b).isSome = true) (ha : a ∈ (F.without b).addrs)
    (hitem : treeAt F b = some item) (hfuel : F.addrs.length < fuel) :
    ∃ added h' F', addItemToObject fuel h (some a) name (some b) true =
        .ok (added, h') ∧
      Holds h' F' ∧ IsObject F' a (DatahubEdge.addItemToObject o name item) := by
  cases name with
  | none => exact ⟨false, h, F, rfl, hF, ho⟩
  | some name =>
      obtain ⟨label, C, hfind, htype, hkeyed, rfl⟩ := ho
      obtain ⟨⟨lb, cb⟩, hb⟩ := Option.isSome_iff_exists.mp hroot
      have hlegal : ∀ x, some a = some x → ∀ y, some b = some y →
          (F.root y).isSome = true ∧ x ∈ (F.without y).addrs := by
        rintro _ ⟨⟩ _ ⟨⟩
        exact ⟨hroot, ha⟩
      obtain ⟨h', hadd, hholds⟩ : ∃ h', addItemToObject fuel h (some a)
          (some name) (some b) true = .ok (_, h') ∧
            Holds h' (attached a b name F) :=
        addItemToObject_call hF hlegal hfuel
      refine ⟨_, h', _, hadd, hholds, label,
        C.append (.cons b { lb with string := some name } cb .nil), ?_, htype,
        ?_, ?_⟩
      · rw [attached, hb]
        rw [Siblings.find_without hF.nodup hb ha] at hfind
        exact Siblings.find_modify_self hfind
      · exact keyed_append.mpr
          ⟨hkeyed, Option.some_ne_none name, trivial⟩
      · rw [Nodes.treeAt_eq (Siblings.find_of_root hF.nodup hb)] at hitem
        cases hitem
        rw [objectOf, values_append, List.map_append]
        rfl

/-- The item that comes in is a root, or it is the hit itself. -/
theorem replaceItemInObject_meets {r : Nat} {newitem : CJson} (hF : Holds h F)
    (ho : IsObject F a o) (name : CString)
    (hnewitem : treeAt F r = some newitem)
    (hr : ((F.root r).isSome = true ∧ a ∈ (F.without r).addrs) ∨
      found (some a) name F = some r)
    (hfuel : F.addrs.length < fuel) :
    ∃ h' F', replaceItemInObject fuel h (some a) (some name) (some r) true =
        .ok h' ∧
      Holds h' F' ∧
      IsObject F' a
        (DatahubEdge.replaceItemInObject o (some name) newitem) := by
  obtain ⟨label, C, hfind, htype, hkeyed, rfl⟩ := ho
  have hnodup := (Siblings.find_sublist hfind).nodup hF.nodup
  rcases hr with ⟨hroot, ha⟩ | hfound
  · obtain ⟨⟨lr, cr⟩, hr⟩ := Option.isSome_iff_exists.mp hroot
    rw [Nodes.treeAt_eq (Siblings.find_of_root hF.nodup hr)] at hnewitem
    cases hnewitem
    obtain ⟨h', hreplace, hholds⟩ : ∃ h', replaceItemInObject fuel h (some a)
        (some name) (some r) true = .ok h' ∧ Holds h' (replacement (some a)
          name r (F.modify r (rename (some name)))) :=
      replaceItemInObject_root hF hroot
        (fun _ heq => Option.some.inj heq ▸ ha) hfuel
    obtain ⟨hroot', ha'⟩ := root_rename (some name) hF.nodup hroot ha
    have hr' := Siblings.root_modify (f := rename (some name)) hr
    have hnodup' : (F.modify r (rename (some name))).addrs.Nodup := by
      rw [addrs_rename]
      exact hF.nodup
    -- the object is not touched by the new name
    have hfind' : (F.modify r (rename (some name))).find a =
        some (label, C) := by
      rw [Siblings.find_without hnodup' hr' ha',
        Siblings.without_modify hF.nodup hr,
        ← Siblings.find_without hF.nodup hr ha]
      exact hfind
    have hfound : found (some a) name (F.modify r (rename (some name))) =
        hit name C := found_eq hfind'
    cases hhit : hit name C with
    | none =>
        rw [replacement_none (hfound.trans hhit)] at hholds
        refine ⟨h', _, hreplace, hholds, label, C, hfind', htype, hkeyed, ?_⟩
        exact (replaceItem_of_hit_none hkeyed hhit).symm
    | some i =>
        have hri : r ≠ i := by
          rintro rfl
          rw [Siblings.find_without hF.nodup hr ha] at hfind
          exact (hF.apart hr).2.2 r
            ((Siblings.find_sublist hfind).subset (hit_mem hhit))
            List.mem_cons_self
        rw [replacement_child hri (hfound.trans hhit)] at hholds
        refine ⟨h', _, hreplace, hholds, label, Siblings.replaceAt i
          (.cons r { lr with string := some name } cr .nil) C, ?_, htype,
          keyed_replaceAt hkeyed rfl, ?_⟩
        · rw [replaced, hr']
          rw [Siblings.find_without hnodup' hr' ha'] at hfind'
          exact Siblings.find_modify_self hfind'
        · exact objectOf_replaceAt hkeyed hnodup rfl hhit
  · obtain ⟨h', hreplace, hholds⟩ : ∃ h', replaceItemInObject fuel h (some a)
        (some name) (some r) true = .ok h' ∧ Holds h' (replacement (some a)
          name r (F.modify r (rename (some name)))) :=
      replaceItemInObject_self hF hfound hfuel
    rw [replacement_self (found_rename hF.nodup hfound)] at hholds
    have hhit : hit name C = some r := (found_eq hfind).symm.trans hfound
    obtain ⟨lr, cr, hroot, _⟩ := root_of_hit hkeyed hnodup hhit
    have hchild := Siblings.find_of_root hnodup hroot
    have hr : F.find r = some (lr, cr) := by
      rw [Siblings.find_below hF.nodup hfind (hit_mem hhit)]
      exact hchild
    rw [Nodes.treeAt_eq hr] at hnewitem
    cases hnewitem
    refine ⟨h', _, hreplace, hholds, label, _, ?_, htype,
      keyed_rename hkeyed, objectOf_rename hkeyed hnodup hhit hchild⟩
    exact Siblings.find_modify hF.nodup hfind (hit_mem hhit)

/-- On an object in memory, lookup, addition and replacement are the functions
on the list of its members, and it is an object still; a root is added or comes
in, or the hit is put in its own place. -/
theorem objects_meet (hF : Holds h F) (ho : IsObject F a o)
    (hfuel : F.addrs.length < fuel) :
    (∀ name, ∃ p, getObjectItem fuel h (some a) name = .ok p ∧
      p.bind (treeAt F) = DatahubEdge.getObjectItem o name) ∧
    (∀ name b item, (F.root b).isSome = true → a ∈ (F.without b).addrs →
      treeAt F b = some item →
      ∃ added h' F', addItemToObject fuel h (some a) name (some b) true =
          .ok (added, h') ∧
        Holds h' F' ∧
        IsObject F' a (DatahubEdge.addItemToObject o name item)) ∧
    (∀ name r newitem, treeAt F r = some newitem →
      ((F.root r).isSome = true ∧ a ∈ (F.without r).addrs) ∨
        found (some a) name F = some r →
      ∃ h' F', replaceItemInObject fuel h (some a) (some name) (some r) true =
          .ok h' ∧
        Holds h' F' ∧
        IsObject F' a
          (DatahubEdge.replaceItemInObject o (some name) newitem)) := by
  refine ⟨?_, ?_, ?_⟩
  · intro name
    exact getObjectItem_meets hF ho name hfuel
  · intro name b item hroot ha hitem
    exact addItemToObject_meets hF ho name hroot ha hitem hfuel
  · intro name r newitem hnewitem hr
    exact replaceItemInObject_meets hF ho name hnewitem hr hfuel

end Objects

/-- An object with one member, and a number that belongs to nothing. -/
def sampleForest : Siblings Label :=
  .cons 10 objectLabel
    (.cons 20 { numberLabel 5 with string := some (cstr "x") } .nil .nil)
    (.cons 30 (numberLabel 6) .nil .nil)

def sampleMemory : Memory := fun b =>
  if b = 10 then some ⟨none, none, some 20, objectLabel⟩
  else if b = 20 then
    some ⟨none, none, none, { numberLabel 5 with string := some (cstr "x") }⟩
  else if b = 30 then some ⟨none, none, none, numberLabel 6⟩
  else none

/-- The number takes the place of the member. -/
theorem sample_objects_meet : ∃ h' F', replaceItemInObject 9 sampleMemory
      (some 10) (some (cstr "X")) (some 30) true = .ok h' ∧
    Holds h' F' ∧ IsObject F' 10 [(cstr "X", .number 6)] := by
  have hholds : Holds sampleMemory sampleForest := by
    refine ⟨⟨rfl, ⟨rfl, trivial, trivial⟩, rfl, trivial, trivial⟩,
      by decide, ?_⟩
    intro b
    simp only [sampleMemory, sampleForest, Siblings.addrs]
    by_cases h10 : b = 10
    · simp [h10]
    · by_cases h20 : b = 20
      · simp [h20]
      · by_cases h30 : b = 30
        · simp [h30]
        · simp [h10, h20, h30]
  have hobject : IsObject sampleForest 10 [(cstr "x", .number 5)] :=
    ⟨objectLabel, _, rfl, rfl, ⟨Option.some_ne_none _, trivial⟩, rfl⟩
  exact (objects_meet hholds hobject (by decide)).2.2 (cstr "X") 30
    (.number 6) rfl (.inl ⟨rfl, by decide⟩)

end DatahubEdge.Nodes
