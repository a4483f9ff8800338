import DatahubEdge.Lib.Linked

/-!
# Trees in memory that belong to nobody

The shape of everything that is allocated is a forest: the trees are not
linked to each other, so their roots have no siblings.  `Holds` says that a
heap holds a forest and nothing else.  The rules below say which forest it
holds after a node is allocated, a tree is released, a root becomes a child
or takes the place of a child.

## Main results

* `Holds.insert`, `Holds.drop` — allocation and release.
* `Holds.attach_first`, `Holds.attach_last` — a root becomes a child of a node.
* `Holds.exchange` — a root takes the place of a child, which becomes a root.
-/

namespace DatahubEdge.Lib.Linked

universe u

variable {ℓ : Type u}

namespace Siblings

/-- The label and the children of a root. -/
def root (b : Nat) : Siblings ℓ → Option (ℓ × Siblings ℓ)
  | nil => none
  | cons item label child next =>
      if item = b then some (label, child) else next.root b

/-- The forest without the tree of a root. -/
def without (b : Nat) : Siblings ℓ → Siblings ℓ
  | nil => nil
  | cons item label child next =>
      if item = b then next else cons item label child (next.without b)

variable {F : Siblings ℓ} {b : Nat} {label : ℓ} {child : Siblings ℓ}

theorem root_cons_self :
    (cons b label child F).root b = some (label, child) := if_pos rfl

theorem without_cons_self : (cons b label child F).without b = F := if_pos rfl

theorem addrs_single (label : ℓ) :
    (cons b label child nil).addrs = b :: child.addrs := by
  rw [addrs, addrs, List.append_nil]

/-- The tree of a root and the rest, up to order. -/
theorem addrs_without (h : F.root b = some (label, child)) :
    ((F.without b).addrs ++ b :: child.addrs).Perm F.addrs := by
  induction F with
  | nil => cases h
  | cons item label' child' next _ ih =>
      rw [root] at h
      rw [without]
      by_cases hitem : item = b
      · rw [if_pos hitem] at h ⊢
        cases h
        rw [addrs, hitem]
        exact List.perm_append_comm
      · rw [if_neg hitem] at h ⊢
        rw [addrs, addrs, List.cons_append, List.append_assoc]
        exact ((ih h).append_left child'.addrs).cons item

theorem mem_of_root (h : F.root b = some (label, child)) : b ∈ F.addrs :=
  (addrs_without h).subset (List.mem_append_right _ List.mem_cons_self)

/-- A root is found at its address. -/
theorem find_of_root (hnodup : F.addrs.Nodup)
    (h : F.root b = some (label, child)) :
    F.find b = some (label, child) := by
  induction F with
  | nil => cases h
  | cons item label' child' next _ ih =>
      rw [addrs, List.nodup_cons, List.nodup_append] at hnodup
      obtain ⟨_, _, hnext, hdisjoint⟩ := hnodup
      rw [root] at h
      rw [find]
      by_cases hitem : item = b
      · rw [if_pos hitem] at h ⊢
        exact h
      · rw [if_neg hitem] at h ⊢
        have hnone : child'.find b = none := by
          rw [← Option.not_isSome_iff_eq_none, find_isSome]
          exact fun hmem => hdisjoint b hmem b (mem_of_root h) rfl
        rw [hnone, Option.none_or]
        exact ih hnext h

/-- What is outside of a tree is found without it. -/
theorem find_without {a : Nat} (hnodup : F.addrs.Nodup)
    (h : F.root b = some (label, child)) (ha : a ∈ (F.without b).addrs) :
    F.find a = (F.without b).find a := by
  induction F with
  | nil => cases h
  | cons item label' child' next _ ih =>
      rw [addrs, List.nodup_cons, List.nodup_append, List.mem_append,
        not_or] at hnodup
      obtain ⟨⟨_, hnotNext⟩, _, hnext, hdisjoint⟩ := hnodup
      rw [root] at h
      rw [without] at ha ⊢
      by_cases hitem : item = b
      · rw [if_pos hitem] at ha ⊢
        have hnone : child'.find a = none := by
          rw [← Option.not_isSome_iff_eq_none, find_isSome]
          exact fun hmem => hdisjoint a hmem a ha rfl
        rw [find, if_neg (ne_of_mem_of_not_mem ha hnotNext).symm, hnone,
          Option.none_or]
      · rw [if_neg hitem] at h ha ⊢
        rw [addrs, List.mem_cons, List.mem_append] at ha
        rw [find, find]
        split
        · rfl
        · rename_i hne
          rcases ha with ha | ha | ha
          · exact absurd ha.symm hne
          · rw [(Option.isSome_iff_exists.mp
              (find_isSome.mpr ha)).choose_spec]
            rfl
          · rw [ih hnext h ha]

theorem root_modify {f : ℓ × Siblings ℓ → ℓ × Siblings ℓ}
    (h : F.root b = some (label, child)) :
    (F.modify b f).root b = some (f (label, child)) := by
  induction F with
  | nil => cases h
  | cons item label' child' next _ ih =>
      rw [root] at h
      rw [modify]
      by_cases hitem : item = b
      · rw [if_pos hitem] at h ⊢
        cases h
        rw [root, if_pos hitem]
      · rw [if_neg hitem] at h ⊢
        rw [root, if_neg hitem]
        exact ih h

/-- What is changed in a root goes with it. -/
theorem without_modify {f : ℓ × Siblings ℓ → ℓ × Siblings ℓ}
    (hnodup : F.addrs.Nodup) (h : F.root b = some (label, child)) :
    (F.modify b f).without b = F.without b := by
  induction F with
  | nil => cases h
  | cons item label' child' next _ ih =>
      rw [addrs, List.nodup_cons, List.nodup_append] at hnodup
      obtain ⟨_, _, hnext, hdisjoint⟩ := hnodup
      rw [root] at h
      rw [modify]
      by_cases hitem : item = b
      · rw [if_pos hitem]
        rw [without, without, if_pos hitem, if_pos hitem]
      · rw [if_neg hitem] at h ⊢
        have hnot : b ∉ child'.addrs :=
          fun hmem => hdisjoint b hmem b (mem_of_root h) rfl
        rw [without, without, if_neg hitem, if_neg hitem, ih hnext h,
          modify_eq_self hnot]

end Siblings

/-- The heap holds the trees; the roots have no siblings. -/
def Roots (h : Heap ℓ) : Siblings ℓ → Prop
  | .nil => True
  | .cons item label child next =>
      h item = some ⟨none, none, child.headOr none, label⟩ ∧
        Segment h none none child ∧ Roots h next

section Roots

variable {h h' : Heap ℓ} {F : Siblings ℓ}

/-- Each tree is a segment of its own. -/
theorem roots_cons {item : Nat} {label : ℓ} {child next : Siblings ℓ} :
    Roots h (.cons item label child next) ↔
      Segment h none none (.cons item label child .nil) ∧ Roots h next := by
  rw [Roots, Segment, Segment, and_true, and_assoc]
  rfl

theorem Roots.congr (hF : Roots h F) (heq : ∀ a ∈ F.addrs, h' a = h a) :
    Roots h' F := by
  induction F with
  | nil => trivial
  | cons item label child next _ ih =>
      obtain ⟨hitem, hchild, hnext⟩ := hF
      rw [Siblings.addrs] at heq
      refine ⟨?_, hchild.congr ?_, ih hnext ?_⟩
      · rw [heq item List.mem_cons_self]
        exact hitem
      · intro a ha
        exact heq a (List.mem_cons_of_mem _ (List.mem_append_left _ ha))
      · intro a ha
        exact heq a (List.mem_cons_of_mem _ (List.mem_append_right _ ha))

theorem roots_append {S T : Siblings ℓ} :
    Roots h (S.append T) ↔ Roots h S ∧ Roots h T := by
  induction S with
  | nil => exact (true_and _).symm.to_iff
  | cons item label child next _ ih =>
      rw [Siblings.append, Roots, Roots, ih, and_assoc, and_assoc]

theorem Roots.root {b : Nat} {label : ℓ} {child : Siblings ℓ}
    (hF : Roots h F) (hb : F.root b = some (label, child)) :
    Segment h none none (.cons b label child .nil) := by
  induction F with
  | nil => cases hb
  | cons item label' child' next _ ih =>
      have htree := (roots_cons.mp hF).1
      rw [Siblings.root] at hb
      split at hb
      · rename_i hitem
        cases hb
        rw [← hitem]
        exact htree
      · exact ih hF.2.2 hb

theorem Roots.without {b : Nat} (hF : Roots h F) :
    Roots h (F.without b) := by
  induction F with
  | nil => trivial
  | cons item label child next _ ih =>
      obtain ⟨hitem, hchild, hnext⟩ := hF
      rw [Siblings.without]
      split
      · exact hnext
      · exact ⟨hitem, hchild, ih hnext⟩

theorem Roots.node {a : Nat} {label : ℓ} {C : Siblings ℓ}
    (hF : Roots h F) (hC : F.find a = some (label, C)) :
    (∃ next prev, h a = some ⟨next, prev, C.headOr none, label⟩) ∧
      Segment h none none C := by
  induction F with
  | nil => cases hC
  | cons item label' child next _ ih =>
      obtain ⟨htree, hnext⟩ := roots_cons.mp hF
      rw [Siblings.find] at hC
      split at hC
      · rename_i hitem
        cases hC
        apply htree.node
        rw [Siblings.find, if_pos hitem]
      · rename_i hitem
        rcases Option.or_eq_some_iff.mp hC with hC | ⟨_, hC⟩
        · apply htree.node
          rw [Siblings.find, if_neg hitem, hC]
          rfl
        · exact ih hnext hC

/-- Another label and other children for one node of the forest. -/
theorem Roots.modify {a : Nat} {f : ℓ × Siblings ℓ → ℓ × Siblings ℓ}
    {C : Siblings ℓ} {label : ℓ} (hF : Roots h F)
    (hnodup : F.addrs.Nodup) (hC : F.find a = some (label, C))
    (hnode : ∀ n, h a = some n → h' a = some { n with
      child := (f (label, C)).2.headOr none, label := (f (label, C)).1 })
    (hchild' : Segment h' none none (f (label, C)).2)
    (hframe : ∀ b ∈ F.addrs, b ≠ a → b ∉ C.addrs → h' b = h b) :
    Roots h' (F.modify a f) := by
  induction F with
  | nil => cases hC
  | cons item label' child next _ ih =>
      obtain ⟨htree, hnext⟩ := roots_cons.mp hF
      have hperm : (Siblings.cons item label' child .nil).addrs =
          item :: child.addrs := by
        rw [Siblings.addrs, Siblings.addrs, List.append_nil]
      rw [Siblings.addrs, ← List.cons_append] at hnodup hframe
      rw [← hperm] at hnodup hframe
      rw [List.nodup_append] at hnodup
      obtain ⟨hnodupTree, hnodupNext, hdisjoint⟩ := hnodup
      by_cases hmem : a ∈ (Siblings.cons item label' child .nil).addrs
      · -- the node is in the first tree
        have hrest : a ∉ next.addrs := fun hn => hdisjoint a hmem a hn rfl
        have hfind : (Siblings.cons item label' child .nil).find a =
            some (label, C) := by
          rw [Siblings.find] at hC ⊢
          split at hC
          · rename_i hitem
            rw [if_pos hitem]
            exact hC
          · rename_i hitem
            rw [if_neg hitem]
            rcases Option.or_eq_some_iff.mp hC with hC | ⟨_, hC⟩
            · rw [hC]
              rfl
            · exact absurd (Siblings.mem_of_find hC) hrest
        have hsub := (Siblings.find_sublist hfind).subset
        have htree' : Segment h' none none
            ((Siblings.cons item label' child .nil).modify a f) := by
          apply htree.modify hnodupTree hfind hnode hchild'
          intro b hb
          exact hframe b (List.mem_append_left _ hb)
        have hnext' : Roots h' next := by
          apply hnext.congr
          intro b hb
          refine hframe b (List.mem_append_right _ hb) ?_ ?_
          · rintro rfl
            exact hrest hb
          · exact fun hb' => hdisjoint b (hsub hb') b hb rfl
        rw [Siblings.modify] at htree' ⊢
        split
        · rename_i hitem
          rw [if_pos hitem] at htree'
          exact roots_cons.mpr ⟨htree', hnext'⟩
        · rename_i hitem
          rw [if_neg hitem] at htree'
          rw [Siblings.modify_eq_self hrest]
          exact roots_cons.mpr ⟨htree', hnext'⟩
      · -- it is in a later one
        have htree' := hmem
        rw [hperm, List.mem_cons, not_or] at htree'
        have hitem : item ≠ a := Ne.symm htree'.1
        have hfind : next.find a = some (label, C) := by
          rw [Siblings.find, if_neg hitem] at hC
          rcases Option.or_eq_some_iff.mp hC with hC | ⟨_, hC⟩
          · exact absurd (Siblings.mem_of_find hC) htree'.2
          · exact hC
        have hsub := (Siblings.find_sublist hfind).subset
        rw [Siblings.modify, if_neg hitem, Siblings.modify_eq_self htree'.2]
        apply roots_cons.mpr
        constructor
        · apply htree.congr
          intro b hb
          refine hframe b (List.mem_append_left _ hb) ?_ ?_
          · rintro rfl
            exact hmem hb
          · exact fun hb' => hdisjoint b hb b (hsub hb') rfl
        · apply ih hnext hnodupNext hfind
          intro b hb
          exact hframe b (List.mem_append_right _ hb)

end Roots

/-! ## One node in the place of another -/

/-- The links after `r` has taken the place of the child `i` of `a`, between
two neighbours that may be missing. -/
def relink (h : Heap ℓ) (a i r : Nat) (before behind : Option Nat) : Heap ℓ :=
  touch (touch (touch (touch (touch h
    (some r) fun n => { n with next := behind, prev := before })
    behind fun n => { n with prev := some r })
    before fun n => { n with next := some r })
    (some a) fun n =>
      if n.child = some i then { n with child := some r } else n)
    (some i) fun n => { n with next := none, prev := none }

section Relink

variable {h : Heap ℓ} {a i r x : Nat} {before behind : Option Nat}

theorem isSome_relink :
    (relink h a i r before behind x).isSome = (h x).isSome := by
  rw [relink, isSome_touch, isSome_touch, isSome_touch, isSome_touch,
    isSome_touch]

theorem relink_new (hbefore : before ≠ some r) (hbehind : behind ≠ some r)
    (ha : a ≠ r) (hi : i ≠ r) :
    relink h a i r before behind r =
      (h r).map fun n => { n with next := behind, prev := before } := by
  simp [relink, touch, hbefore, hbehind, ha, hi]

theorem relink_behind (hx : behind = some x) (hbefore : before ≠ some x)
    (hr : r ≠ x) (ha : a ≠ x) (hi : i ≠ x) :
    relink h a i r before behind x =
      (h x).map fun n => { n with prev := some r } := by
  simp [relink, touch, hx, hbefore, hr, ha, hi]

theorem relink_before (hx : before = some x) (hbehind : behind ≠ some x)
    (hr : r ≠ x) (ha : a ≠ x) (hi : i ≠ x) :
    relink h a i r before behind x =
      (h x).map fun n => { n with next := some r } := by
  simp [relink, touch, hx, hbehind, hr, ha, hi]

theorem relink_parent (hbefore : before ≠ some a) (hbehind : behind ≠ some a)
    (hr : r ≠ a) (hi : i ≠ a) :
    relink h a i r before behind a = (h a).map fun n =>
      if n.child = some i then { n with child := some r } else n := by
  simp [relink, touch, hbefore, hbehind, hr, hi]

theorem relink_old (hbefore : before ≠ some i) (hbehind : behind ≠ some i)
    (hr : r ≠ i) (ha : a ≠ i) :
    relink h a i r before behind i =
      (h i).map fun n => { n with next := none, prev := none } := by
  simp [relink, touch, hbefore, hbehind, hr, ha]

theorem relink_other (hbefore : before ≠ some x) (hbehind : behind ≠ some x)
    (hr : r ≠ x) (ha : a ≠ x) (hi : i ≠ x) :
    relink h a i r before behind x = h x := by
  simp [relink, touch, hbefore, hbehind, hr, ha, hi]

end Relink

/-! ## What is allocated -/

/-- The heap holds the forest and nothing else, every node once. -/
structure Holds (h : Heap ℓ) (F : Siblings ℓ) : Prop where
  roots : Roots h F
  nodup : F.addrs.Nodup
  allocated : ∀ a, (h a).isSome = true ↔ a ∈ F.addrs

namespace Holds

variable {h h' : Heap ℓ} {F : Siblings ℓ}

/-- The same nodes in another forest. -/
theorem of_perm {F' : Siblings ℓ} (hF : Holds h F) (hroots : Roots h' F')
    (hperm : F'.addrs.Perm F.addrs)
    (hsome : ∀ a, (h' a).isSome = (h a).isSome) : Holds h' F' := by
  refine ⟨hroots, hperm.nodup_iff.mpr hF.nodup, ?_⟩
  intro a
  rw [hsome, hF.allocated, hperm.mem_iff]

theorem empty : Holds (fun _ => none : Heap ℓ) .nil := by
  refine ⟨trivial, List.nodup_nil, ?_⟩
  intro a
  exact iff_of_false Bool.false_ne_true List.not_mem_nil

/-- A node is allocated. -/
theorem insert {a : Nat} (label : ℓ) (hF : Holds h F) (ha : h a = none) :
    Holds (set h a ⟨none, none, none, label⟩) (.cons a label .nil F) := by
  have hnot : a ∉ F.addrs := by
    rw [← hF.allocated, ha]
    exact Bool.false_ne_true
  refine ⟨⟨set_self, trivial, hF.roots.congr ?_⟩, ?_, ?_⟩
  · intro b hb
    apply set_ne
    rintro rfl
    exact hnot hb
  · exact List.nodup_cons.mpr ⟨hnot, hF.nodup⟩
  · intro b
    rw [Siblings.addrs, Siblings.addrs, List.nil_append, List.mem_cons]
    by_cases hb : b = a
    · rw [hb, set_self]
      simp
    · rw [set_ne hb, hF.allocated]
      simp [hb]

section Root

variable {b : Nat} {label : ℓ} {child : Siblings ℓ}

/-- The tree of a root is apart from the rest. -/
theorem apart (hF : Holds h F) (hb : F.root b = some (label, child)) :
    (F.without b).addrs.Nodup ∧ (b :: child.addrs).Nodup ∧
      ∀ a ∈ (F.without b).addrs, a ∉ b :: child.addrs := by
  have hnodup := (Siblings.addrs_without hb).nodup_iff.mpr hF.nodup
  rw [List.nodup_append] at hnodup
  obtain ⟨hrest, htree, hdisjoint⟩ := hnodup
  exact ⟨hrest, htree, fun a ha ha' => hdisjoint a ha a ha' rfl⟩

/-- A tree is released. -/
theorem drop (hF : Holds h F) (hb : F.root b = some (label, child)) :
    Holds (erase h (b :: child.addrs)) (F.without b) := by
  obtain ⟨hrest, _, hdisjoint⟩ := hF.apart hb
  refine ⟨hF.roots.without.congr ?_, hrest, ?_⟩
  · intro a ha
    exact erase_of_not_mem (hdisjoint a ha)
  · intro a
    by_cases ha : a ∈ b :: child.addrs
    · rw [erase_of_mem ha]
      simp only [Option.isSome_none, Bool.false_eq_true, false_iff]
      exact fun hmem => hdisjoint a hmem ha
    · rw [erase_of_not_mem ha, hF.allocated,
        ← (Siblings.addrs_without hb).mem_iff, List.mem_append]
      exact ⟨fun hmem => hmem.resolve_right ha, .inl⟩

end Root

/-- Another label. -/
theorem relabel {a : Nat} (g : ℓ → ℓ) (hF : Holds h F) (ha : a ∈ F.addrs) :
    Holds (touch h (some a) fun n => { n with label := g n.label })
      (F.modify a fun node => (g node.1, node.2)) := by
  obtain ⟨label, C, hC⟩ := Siblings.exists_find ha
  obtain ⟨⟨next, prev, hnode⟩, hchild⟩ := hF.roots.node hC
  have hnot := Siblings.not_mem_children hF.nodup hC
  apply hF.of_perm
  · apply hF.roots.modify hF.nodup hC
    · intro n hn
      rw [touch_self, hn]
      rw [hnode] at hn
      cases hn
      rfl
    · apply hchild.congr
      intro b hb
      apply touch_ne
      intro heq
      exact hnot (Option.some.inj heq ▸ hb)
    · intro b _ hb _
      apply touch_ne
      exact fun heq => hb (Option.some.inj heq).symm
  · exact List.Perm.of_eq (Siblings.addrs_relabel a g F)
  · exact fun b => isSome_touch (some a) _

/-- Among the children of a node, `new` takes the place of `old`, whose nodes
become roots.  The neighbours point to what is put between them. -/
theorem splice {G pre old new post : Siblings ℓ} {a : Nat} {label : ℓ}
    (hG : Roots h G) (hnodup : (G.addrs ++ new.addrs).Nodup)
    (hdomain : ∀ b, (h b).isSome = true ↔ b ∈ G.addrs ++ new.addrs)
    (ha : G.find a = some (label, pre.append (old.append post)))
    (hsome : ∀ b, (h' b).isSome = (h b).isSome)
    (hnode : ∀ n, h a = some n → h' a = some { n with
      child := (pre.append (new.append post)).headOr none })
    (hlast : ∀ z n, pre.lastOr none = some z → h z = some n →
      h' z = some { n with next := (new.append post).headOr none })
    (hfirst : ∀ q n, post.headOr none = some q → h q = some n →
      h' q = some { n with prev := new.lastOr (pre.lastOr none) })
    (hnew : Segment h' (pre.lastOr none) (post.headOr none) new)
    (hold : Roots h' old)
    (hframe : ∀ b ∈ G.addrs, b ≠ a → b ∉ old.addrs →
      pre.lastOr none ≠ some b → post.headOr none ≠ some b → h' b = h b) :
    Holds h' (old.append
      (G.modify a fun node => (node.1, pre.append (new.append post)))) := by
  have hnodupG : G.addrs.Nodup := (List.nodup_append.mp hnodup).1
  have hsub := (Siblings.find_sublist ha).subset
  have hself := Siblings.not_mem_children hnodupG ha
  have hnodupC := (Siblings.find_sublist ha).nodup hnodupG
  obtain ⟨⟨next, prev, hlabel⟩, hC⟩ := hG.node ha
  rw [Siblings.addrs_append, Siblings.addrs_append] at hsub hself hnodupC
  rw [List.mem_append, List.mem_append, not_or, not_or] at hself
  rw [List.nodup_append, List.nodup_append] at hnodupC
  obtain ⟨hnodupPre, ⟨_, hnodupPost, holdPost⟩, hpre⟩ := hnodupC
  obtain ⟨hsegPre, hrest⟩ := segment_append.mp hC
  have hsegPost := (segment_append.mp hrest).2
  have hhead : ∀ {q}, post.headOr none = some q → q ∈ post.addrs := by
    intro q hq
    cases post with
    | nil => cases hq
    | cons item label child next =>
        cases hq
        exact List.mem_cons_self
  have hpreMem : ∀ {z}, pre.lastOr none = some z → z ∈ pre.addrs := by
    intro z hz
    exact Siblings.mem_of_lastOr hz
  -- the three parts between their new neighbours
  have hpre' : Segment h' none ((new.append post).headOr none) pre := by
    apply hsegPre.relinkNext hnodupPre hlast
    intro b hb hne
    apply hframe b (hsub (List.mem_append_left _ hb)) _ _ hne
    · exact fun heq => hpre b hb b
        (List.mem_append_right _ (hhead heq)) rfl
    · rintro rfl
      exact hself.1 hb
    · exact fun hb' => hpre b hb b (List.mem_append_left _ hb') rfl
  have hpost' : Segment h' (new.lastOr (pre.lastOr none)) none post := by
    apply hsegPost.relinkPrev hnodupPost hfirst
    intro b hb hne
    have hmem : b ∈ pre.addrs ++ (old.addrs ++ post.addrs) :=
      List.mem_append_right _ (List.mem_append_right _ hb)
    apply hframe b (hsub hmem) _ _ _ hne
    · rintro rfl
      exact hself.2.2 hb
    · exact fun hb' => holdPost b hb' b hb rfl
    · exact fun heq => hpre b (hpreMem heq) b
        (List.mem_append_right _ hb) rfl
  have hchildren : Segment h' none none (pre.append (new.append post)) :=
    segment_append.mpr ⟨hpre', segment_append.mpr ⟨hnew, hpost'⟩⟩
  have hmodified : Roots h'
      (G.modify a fun node => (node.1, pre.append (new.append post))) := by
    apply hG.modify hnodupG ha _ hchildren
    · intro b hb hne hnot
      rw [Siblings.addrs_append, Siblings.addrs_append, List.mem_append,
        List.mem_append, not_or, not_or] at hnot
      apply hframe b hb hne hnot.2.1
      · exact fun heq => hnot.1 (hpreMem heq)
      · exact fun heq => hnot.2.2 (hhead heq)
    · intro n hn
      rw [hnode n hn]
      rw [hlabel] at hn
      cases hn
      rfl
  have hperm : ((old.append (G.modify a fun node =>
      (node.1, pre.append (new.append post)))).addrs).Perm
        (G.addrs ++ new.addrs) := by
    rw [Siblings.addrs_append]
    refine List.perm_append_comm.trans ?_
    apply Siblings.addrs_modify hnodupG ha
    simp only [Siblings.addrs_append]
    rw [List.perm_iff_count]
    intro b
    simp only [List.count_append]
    omega
  refine ⟨roots_append.mpr ⟨hold, hmodified⟩, hperm.nodup_iff.mpr hnodup, ?_⟩
  intro b
  rw [hsome, hdomain, hperm.mem_iff]

section Link

variable {a b : Nat} {la lb : ℓ} {C cb : Siblings ℓ}

/-- What `splice` asks of a root that is put among children. -/
theorem split (hF : Holds h F) (hb : F.root b = some (lb, cb)) :
    ((F.without b).addrs ++ (Siblings.cons b lb cb .nil).addrs).Nodup ∧
      ∀ x, (h x).isSome = true ↔
        x ∈ (F.without b).addrs ++ (Siblings.cons b lb cb .nil).addrs := by
  have hperm := Siblings.addrs_without hb
  rw [Siblings.addrs_single]
  constructor
  · exact hperm.nodup_iff.mpr hF.nodup
  · intro x
    rw [hF.allocated, hperm.mem_iff]

/-- A root becomes the only child of a node. -/
theorem attach_first (hF : Holds h F) (hb : F.root b = some (lb, cb))
    (ha : (F.without b).find a = some (la, .nil)) :
    Holds (touch h (some a) fun n => { n with child := some b })
      ((F.without b).modify a fun node => (node.1, .cons b lb cb .nil)) := by
  obtain ⟨hnodup, hdomain⟩ := hF.split hb
  obtain ⟨_, _, hapart⟩ := hF.apart hb
  have hother : ∀ x, x ≠ a →
      touch h (some a) (fun n => { n with child := some b }) x = h x :=
    fun x hx => touch_ne (fun heq => hx (Option.some.inj heq).symm) _
  have hfind : (F.without b).find a =
      some (la, Siblings.append .nil (Siblings.append .nil .nil)) := ha
  show Holds _ (Siblings.append .nil ((F.without b).modify a fun node =>
    (node.1, Siblings.append .nil
      (Siblings.append (.cons b lb cb .nil) .nil))))
  apply splice hF.roots.without hnodup hdomain hfind
  · exact fun x => isSome_touch _ _
  · intro n hn
    rw [touch_self, hn]
    rfl
  · intro z n hz
    cases hz
  · intro q n hq
    cases hq
  · apply (hF.roots.root hb).congr
    intro x hx
    rw [Siblings.addrs_single] at hx
    apply hother
    rintro rfl
    exact hapart x (Siblings.mem_of_find ha) hx
  · trivial
  · exact fun x _ hx _ _ _ => hother x hx

/-- A root becomes the last child of a node. -/
theorem attach_last {z : Nat} (hF : Holds h F)
    (hb : F.root b = some (lb, cb))
    (ha : (F.without b).find a = some (la, C))
    (hz : C.lastOr none = some z) :
    Holds (touch (touch h (some z) fun n => { n with next := some b })
        (some b) fun n => { n with prev := some z })
      ((F.without b).modify a fun node =>
        (node.1, C.append (.cons b lb cb .nil))) := by
  obtain ⟨hnodup, hdomain⟩ := hF.split hb
  obtain ⟨hnodupG, hnodupTree, hapart⟩ := hF.apart hb
  obtain ⟨⟨next, prev, hnode⟩, _⟩ := hF.roots.without.node ha
  have hzC : z ∈ C.addrs := Siblings.mem_of_lastOr hz
  have hzG := (Siblings.find_sublist ha).subset hzC
  have hzb : z ≠ b := by
    rintro rfl
    exact hapart z hzG List.mem_cons_self
  have hza : z ≠ a := by
    rintro rfl
    exact Siblings.not_mem_children hnodupG ha hzC
  have hab : a ≠ b := by
    rintro rfl
    exact hapart a (Siblings.mem_of_find ha) List.mem_cons_self
  have hother : ∀ x, x ≠ z → x ≠ b →
      touch (touch h (some z) fun n => { n with next := some b }) (some b)
        (fun n => { n with prev := some z }) x = h x := by
    intro x hxz hxb
    rw [touch_ne, touch_ne]
    · exact fun heq => hxz (Option.some.inj heq).symm
    · exact fun heq => hxb (Option.some.inj heq).symm
  have hfind : (F.without b).find a =
      some (la, C.append (Siblings.append .nil .nil)) := by
    rw [ha, Siblings.append, Siblings.append_nil]
  show Holds _ (Siblings.append .nil ((F.without b).modify a fun node =>
    (node.1, C.append (Siblings.append (.cons b lb cb .nil) .nil))))
  apply splice hF.roots.without hnodup hdomain hfind
  · intro x
    rw [isSome_touch, isSome_touch]
  · intro n hn
    rw [hother a (Ne.symm hza) hab, hn]
    rw [hnode] at hn
    cases hn
    cases C with
    | nil => cases hz
    | cons c label child rest => rfl
  · intro z' n hz' hn
    rw [hz] at hz'
    cases hz'
    rw [touch_ne (fun heq => hzb (Option.some.inj heq).symm), touch_self, hn]
    rfl
  · intro q n hq
    cases hq
  · rw [hz]
    apply (hF.roots.root hb).relinkPrev
    · rw [Siblings.addrs_single]
      exact hnodupTree
    · intro b' n hb' hn
      cases hb'
      rw [touch_self, touch_ne (fun heq => hzb (Option.some.inj heq)), hn]
      rfl
    · intro x hx hxb
      rw [Siblings.addrs_single] at hx
      apply hother x
      · rintro rfl
        exact hapart x hzG hx
      · rintro rfl
        exact hxb rfl
  · trivial
  · intro x hx _ _ hxz _
    apply hother x
    · rintro rfl
      exact hxz hz
    · rintro rfl
      exact hapart x hx List.mem_cons_self

end Link

/-- A root takes the place of a child, which becomes a root. -/
theorem exchange {a r i : Nat} {la lr li : ℓ} {cr ci pre post : Siblings ℓ}
    (hF : Holds h F) (hr : F.root r = some (lr, cr))
    (ha : (F.without r).find a = some (la, pre.append (.cons i li ci post))) :
    Holds (relink h a i r (pre.lastOr none) (post.headOr none))
      (.cons i li ci ((F.without r).modify a fun node =>
        (node.1, pre.append (.cons r lr cr post)))) := by
  obtain ⟨hnodup, hdomain⟩ := hF.split hr
  obtain ⟨hnodupG, hnodupTree, hapart⟩ := hF.apart hr
  obtain ⟨⟨next, prev, hnode⟩, hC⟩ := hF.roots.without.node ha
  have hnodupC := (Siblings.find_sublist ha).nodup hnodupG
  have hsub := (Siblings.find_sublist ha).subset
  have hself := Siblings.not_mem_children hnodupG ha
  have haG := Siblings.mem_of_find ha
  rw [Siblings.addrs_append, Siblings.addrs] at hnodupC hsub hself
  obtain ⟨hi, hsegChild, _⟩ := (segment_append.mp hC).2
  have hhead : ∀ x, post.headOr none = some x → x ∈ post.addrs :=
    fun x => Siblings.headOr_mem
  have hlast : ∀ x, pre.lastOr none = some x → x ∈ pre.addrs :=
    fun x => Siblings.mem_of_lastOr
  rw [List.nodup_append, List.nodup_cons, List.nodup_append,
    List.mem_append, not_or] at hnodupC
  obtain ⟨_, ⟨⟨hiChild, hiPost⟩, _, _, hchildPost⟩, hpre⟩ := hnodupC
  have hrC : r ∉ pre.addrs ++ i :: (ci.addrs ++ post.addrs) :=
    fun hmem => hapart r (hsub hmem) List.mem_cons_self
  have hra : r ≠ a := fun heq => hapart a haG (heq ▸ List.mem_cons_self)
  simp only [List.mem_append, List.mem_cons, not_or] at hself hrC hpre
  obtain ⟨haPre, hai, haChild, haPost⟩ := hself
  obtain ⟨hrPre, hri, hrChild, hrPost⟩ := hrC
  have hiPre : i ∉ pre.addrs := fun hmem => hpre i hmem i (.inl rfl) rfl
  have hfind : (F.without r).find a =
      some (la, pre.append ((Siblings.cons i li ci .nil).append post)) := ha
  show Holds _ ((Siblings.cons i li ci .nil).append
    ((F.without r).modify a fun node =>
      (node.1, pre.append ((Siblings.cons r lr cr .nil).append post))))
  apply splice hF.roots.without hnodup hdomain hfind
  · exact fun x => isSome_relink
  · -- the parent
    intro n hn
    rw [relink_parent (fun heq => haPre (hlast a heq))
      (fun heq => haPost (hhead a heq)) hra (Ne.symm hai), hn]
    rw [hnode] at hn
    cases hn
    cases pre with
    | nil =>
        show some (if some i = some i then _ else _) = _
        rw [if_pos rfl]
        rfl
    | cons c label child rest =>
        have hci : some c ≠ some i := by
          intro heq
          exact hiPre (Option.some.inj heq ▸ List.mem_cons_self)
        show some (if some c = some i then _ else _) = _
        rw [if_neg hci]
        rfl
  · -- the child before
    intro z n hz hn
    have hzPre := hlast z hz
    rw [relink_before hz
      (fun heq => hpre z hzPre z (.inr (.inr (hhead z heq))) rfl)
      (ne_of_mem_of_not_mem hzPre hrPre).symm
      (ne_of_mem_of_not_mem hzPre haPre).symm
      (ne_of_mem_of_not_mem hzPre hiPre).symm, hn]
    rfl
  · -- the child behind
    intro q n hq hn
    have hqPost := hhead q hq
    rw [relink_behind hq
      (fun heq => hpre q (hlast q heq) q (.inr (.inr hqPost)) rfl)
      (ne_of_mem_of_not_mem hqPost hrPost).symm
      (ne_of_mem_of_not_mem hqPost haPost).symm
      (ne_of_mem_of_not_mem hqPost hiPost).symm, hn]
    rfl
  · -- the root that comes in
    have hroot := hF.roots.root hr
    refine ⟨?_, hroot.2.1.congr ?_, trivial⟩
    · rw [relink_new (fun heq => hrPre (hlast r heq))
        (fun heq => hrPost (hhead r heq)) (Ne.symm hra) (Ne.symm hri),
        hroot.1]
      rfl
    · intro x hx
      have hxG : x ∉ (F.without r).addrs := fun hmem =>
        hapart x hmem (List.mem_cons_of_mem r hx)
      apply relink_other
      · exact fun heq => hxG (hsub (List.mem_append_left _ (hlast x heq)))
      · exact fun heq => hxG (hsub (List.mem_append_right _
          (List.mem_cons_of_mem i (List.mem_append_right _ (hhead x heq)))))
      · rintro rfl
        exact (List.nodup_cons.mp hnodupTree).1 hx
      · rintro rfl
        exact hxG haG
      · rintro rfl
        exact hxG (hsub (List.mem_append_right _ List.mem_cons_self))
  · -- the child that goes out
    refine ⟨?_, hsegChild.congr ?_, trivial⟩
    · rw [relink_old (fun heq => hiPre (hlast i heq))
        (fun heq => hiPost (hhead i heq)) hri hai, hi]
      rfl
    · intro x hx
      apply relink_other
      · exact fun heq => hpre x (hlast x heq) x (.inr (.inl hx)) rfl
      · exact fun heq => hchildPost x hx x (hhead x heq) rfl
      · rintro rfl
        exact hrChild hx
      · rintro rfl
        exact haChild hx
      · rintro rfl
        exact hiChild hx
  · -- everything else
    intro x hxG hxa hxOld hxPre hxPost
    rw [Siblings.addrs_single, List.mem_cons, not_or] at hxOld
    apply relink_other hxPre hxPost _ (Ne.symm hxa) (Ne.symm hxOld.1)
    rintro rfl
    exact hapart r hxG List.mem_cons_self

end Holds

end DatahubEdge.Lib.Linked
