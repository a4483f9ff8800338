import Mathlib.Data.List.Forall2
import Mathlib.Data.List.Induction

/-!
# Runs of a step function over a list

A loop of a program is a fold of its body over the items it visits.  Two
shapes occur: a body that always returns (`List.foldl`) and a body that may
fail (`List.foldlM` in `Except`).  This module packages the induction both
need, once: an invariant that may mention the items processed so far, and a
side condition on the state in which the body is entered.

`Visits step s₀ l pre s a` says that the run of `step` over `l` from `s₀`
enters its body for the item `a` in state `s`, the items `pre` being done.
Conditions on a run ("no step of it does …") are statements about its visits.

## Main results

* `foldl_invariant`, `foldlM_invariant` — the prefix-indexed invariant rules.
* `Visits.completed` — a visit of a run that completes has a successor state.
* `Visits.mem_visits` — the visits of a given run can be listed.
* `exists_visit_of_error`, `foldlM_error` — a run that fails does so at a
  visit.
* `foldlM_related` — the relational rule for two runs in lockstep.
-/

namespace DatahubEdge.Lib.Fold

universe u v w

variable {σ : Type u} {α : Type v} {ε : Type w}

/-! ## Conditions on the items done -/

/-- Some item of the list satisfies a condition that may refer to the items
before it. -/
def SomeItem (P : List α → α → Prop) (l : List α) : Prop :=
  ∃ pre a, pre ++ [a] <+: l ∧ P pre a

theorem not_someItem_nil (P : List α → α → Prop) : ¬ SomeItem P [] := by
  rintro ⟨pre, a, hinit, _⟩
  simpa using List.prefix_nil.mp hinit

theorem someItem_snoc {P : List α → α → Prop} {l : List α} {a : α} :
    SomeItem P (l ++ [a]) ↔ SomeItem P l ∨ P l a := by
  constructor
  · rintro ⟨pre, b, hinit, hP⟩
    rcases List.prefix_concat_iff.mp hinit with heq | hinit
    · obtain ⟨rfl, hab⟩ := List.append_inj' heq rfl
      cases hab
      exact .inr hP
    · exact .inl ⟨pre, b, hinit, hP⟩
  · rintro (⟨pre, b, hinit, hP⟩ | hP)
    · exact ⟨pre, b, List.prefix_concat_iff.mpr (.inr hinit), hP⟩
    · exact ⟨l, a, List.prefix_refl _, hP⟩

/-! ## Bodies that always return -/

/-- The run of the total body `next` over `l` from `s₀` enters the item `a`
in state `s`, after the items `pre`. -/
structure VisitsTotal (next : σ → α → σ) (s₀ : σ) (l : List α)
    (pre : List α) (s : σ) (a : α) : Prop where
  split : ∃ post, l = pre ++ a :: post
  reach : pre.foldl next s₀ = s

/-- A visit of a prefix of a run is a visit of the run. -/
theorem VisitsTotal.append {next : σ → α → σ} {s₀ : σ} {l pre : List α}
    {s : σ} {a : α} (h : VisitsTotal next s₀ l pre s a) (m : List α) :
    VisitsTotal next s₀ (l ++ m) pre s a := by
  obtain ⟨post, hl⟩ := h.split
  exact ⟨⟨post ++ m, by simp [hl]⟩, h.reach⟩

/-- Invariant rule for a total body: the invariant may depend on the items
already processed, and each step may use that its entry state is visited. -/
theorem foldl_invariant {next : σ → α → σ} {s₀ : σ}
    {P : List α → σ → Prop} :
    ∀ l : List α, P [] s₀ →
      (∀ pre s a, VisitsTotal next s₀ l pre s a → P pre s →
        P (pre ++ [a]) (next s a)) →
      P l (l.foldl next s₀) := by
  intro l
  induction l using List.reverseRecOn with
  | nil => intro h0 _; exact h0
  | append_singleton l a ih =>
      intro h0 hstep
      have hpre : P l (l.foldl next s₀) :=
        ih h0 fun pre s b hv hp => hstep pre s b (hv.append [a]) hp
      rw [List.foldl_append]
      exact hstep l _ a ⟨⟨[], rfl⟩, rfl⟩ hpre

/-! ## Bodies that may fail -/

/-- The run of the fallible body `step` over `l` from `s₀` enters the item
`a` in state `s`, after the items `pre`. -/
structure Visits (step : σ → α → Except ε σ) (s₀ : σ) (l : List α)
    (pre : List α) (s : σ) (a : α) : Prop where
  split : ∃ post, l = pre ++ a :: post
  reach : pre.foldlM step s₀ = .ok s

variable {step : σ → α → Except ε σ} {s₀ s s' : σ} {l pre : List α} {a : α}

theorem Visits.append (h : Visits step s₀ l pre s a) (m : List α) :
    Visits step s₀ (l ++ m) pre s a := by
  obtain ⟨post, hl⟩ := h.split
  exact ⟨⟨post ++ m, by simp [hl]⟩, h.reach⟩

theorem Visits.mem (h : Visits step s₀ l pre s a) : a ∈ l := by
  obtain ⟨post, hl⟩ := h.split
  simp [hl]

/-- The only visit of a run over one item is its first step. -/
theorem Visits.singleton {b : α} (h : Visits step s₀ [b] pre s a) :
    s = s₀ ∧ a = b := by
  obtain ⟨post, hl⟩ := h.split
  cases pre with
  | nil =>
      have hs : s₀ = s := Except.ok.inj h.reach
      have ha : b = a := (List.cons.inj hl).1
      exact ⟨hs.symm, ha.symm⟩
  | cons c pre =>
      have := congrArg List.length hl
      simp at this

theorem Visits.initial (h : Visits step s₀ l pre s a) : pre <+: l := by
  obtain ⟨post, hl⟩ := h.split
  exact ⟨a :: post, hl.symm⟩

/-- A computation that is seen to return a value passing a test. -/
theorem exists_ok_of_any {β : Type u} {x : Except ε β} {f : β → Bool}
    (h : x.toOption.any f = true) : ∃ b, x = .ok b ∧ f b = true := by
  cases x with
  | error e => cases h
  | ok b => exact ⟨b, rfl, h⟩

theorem mem_toOption {β : Type u} {x : Except ε β} {b : β} :
    b ∈ x.toOption ↔ x = .ok b := by
  cases x with
  | error e =>
      constructor
      · intro h
        cases h
      · intro h
        cases h
  | ok b' =>
      constructor
      · intro h
        cases h
        rfl
      · intro h
        cases h
        rfl

theorem mem_join_toOption {β : Type u} {x : Except ε (Option β)} {b : β} :
    b ∈ x.toOption.join ↔ x = .ok (some b) := by
  rw [Option.mem_def, Option.join_eq_some_iff, ← Option.mem_def, mem_toOption]

theorem ok_bind {β γ : Type u} (b : β) (f : β → Except ε γ) :
    ((Except.ok b : Except ε β) >>= f) = f b :=
  rfl

/-- A computation that binds to `ok` had an `ok` first half. -/
theorem bind_eq_ok {β γ : Type u} {x : Except ε β} {f : β → Except ε γ}
    {r : γ} (h : (x >>= f) = .ok r) : ∃ b, x = .ok b ∧ f b = .ok r := by
  cases x with
  | error e => cases h
  | ok b => exact ⟨b, rfl, h⟩

/-- A computation that binds to an error fails in one of its halves. -/
theorem bind_eq_error {β γ : Type u} {x : Except ε β} {f : β → Except ε γ}
    {e : ε} (h : (x >>= f) = .error e) :
    x = .error e ∨ ∃ b, x = .ok b ∧ f b = .error e := by
  cases x with
  | error e' =>
      cases h
      exact .inl rfl
  | ok b => exact .inr ⟨b, rfl, h⟩

theorem foldlM_append_eq_ok {l m : List α}
    (h : (l ++ m).foldlM step s₀ = .ok s') :
    ∃ s, l.foldlM step s₀ = .ok s ∧ m.foldlM step s = .ok s' := by
  rw [List.foldlM_append] at h
  exact bind_eq_ok h

theorem foldlM_cons_eq_ok {m : List α}
    (h : (a :: m).foldlM step s₀ = .ok s') :
    ∃ s, step s₀ a = .ok s ∧ m.foldlM step s = .ok s' := by
  rw [List.foldlM_cons] at h
  exact bind_eq_ok h

theorem foldlM_snoc_eq_ok
    (h : (l ++ [a]).foldlM step s₀ = .ok s') :
    ∃ s, l.foldlM step s₀ = .ok s ∧ step s a = .ok s' := by
  obtain ⟨s, hl, ha⟩ := foldlM_append_eq_ok h
  obtain ⟨t, ht, hnil⟩ := foldlM_cons_eq_ok ha
  cases hnil
  exact ⟨s, hl, ht⟩

theorem foldlM_snoc (hl : l.foldlM step s₀ = .ok s)
    (ha : step s a = .ok s') : (l ++ [a]).foldlM step s₀ = .ok s' := by
  simp only [List.foldlM_append, hl, List.foldlM_cons, List.foldlM_nil]
  exact (congrArg (· >>= pure) ha).trans rfl

/-- In a run that completes, the body returns at every visit and the rest of
the run completes from there. -/
theorem Visits.completed (hv : Visits step s₀ l pre s a)
    (h : l.foldlM step s₀ = .ok s') :
    ∃ t post, l = pre ++ a :: post ∧ step s a = .ok t ∧
      post.foldlM step t = .ok s' := by
  obtain ⟨post, hl⟩ := hv.split
  rw [hl] at h
  obtain ⟨s₁, hpre, hrest⟩ := foldlM_append_eq_ok h
  obtain ⟨t, ht, hpost⟩ := foldlM_cons_eq_ok hrest
  have hs : s = s₁ := by
    have := hv.reach.symm.trans hpre
    cases this
    rfl
  subst hs
  exact ⟨t, post, hl, ht, hpost⟩

/-- In a run that completes, every item is visited. -/
theorem exists_visit {post : List α} (hl : l = pre ++ a :: post)
    (h : l.foldlM step s₀ = .ok s') : ∃ s, Visits step s₀ l pre s a := by
  have h' := h
  rw [hl] at h'
  obtain ⟨s, hpre, _⟩ := foldlM_append_eq_ok h'
  exact ⟨s, ⟨post, hl⟩, hpre⟩

/-- Invariant rule for a fallible body.  The invariant may depend on the
items already processed; each step may use that its entry state is visited. -/
theorem foldlM_invariant {P : List α → σ → Prop} :
    ∀ (l : List α) (s' : σ), P [] s₀ →
      (∀ pre s a t, Visits step s₀ l pre s a → P pre s →
        step s a = .ok t → P (pre ++ [a]) t) →
      l.foldlM step s₀ = .ok s' → P l s' := by
  intro l
  induction l using List.reverseRecOn with
  | nil =>
      intro s' h0 _ h
      cases h
      exact h0
  | append_singleton l a ih =>
      intro s' h0 hstep h
      obtain ⟨s, hl, ha⟩ := foldlM_snoc_eq_ok h
      have hpre : P l s :=
        ih s h0 (fun pre t b u hv => hstep pre t b u (hv.append [a])) hl
      exact hstep l s a s' ⟨⟨[], rfl⟩, hl⟩ hpre ha

/-- What no step of a run changes is the same after the run. -/
theorem foldlM_keeps {β : Type*} (f : σ → β) {l : List α}
    (hstep : ∀ s a t, a ∈ l → step s a = .ok t → f t = f s)
    (h : l.foldlM step s₀ = .ok s') : f s' = f s₀ := by
  refine foldlM_invariant (P := fun _ s => f s = f s₀) l s' rfl ?_ h
  intro pre s a t hv hs ht
  exact (hstep s a t hv.mem ht).trans hs

/-- A run whose steps append to a list appends to it, and every new entry
stems from an item of the run. -/
theorem foldlM_appends {β : Type*} (out : σ → List β) (R : α → β → Prop)
    {l : List α}
    (hstep : ∀ s a t, a ∈ l → step s a = .ok t →
      ∃ added, out t = out s ++ added ∧ ∀ b ∈ added, R a b)
    (h : l.foldlM step s₀ = .ok s') :
    ∃ added, out s' = out s₀ ++ added ∧ ∀ b ∈ added, ∃ a ∈ l, R a b := by
  refine foldlM_invariant
    (P := fun _ s => ∃ added, out s = out s₀ ++ added ∧
      ∀ b ∈ added, ∃ a ∈ l, R a b) l s' ⟨[], by simp, by simp⟩ ?_ h
  rintro pre s a t hv ⟨added, hs, hR⟩ ht
  obtain ⟨more, hmore, hRmore⟩ := hstep s a t hv.mem ht
  refine ⟨added ++ more, by rw [hmore, hs, List.append_assoc], ?_⟩
  intro b hb
  rcases List.mem_append.mp hb with hb | hb
  · exact hR b hb
  · exact ⟨a, hv.mem, hRmore b hb⟩

theorem visits_snoc {b : α} :
    Visits step s₀ (l ++ [a]) pre s b ↔
      Visits step s₀ l pre s b ∨
        pre = l ∧ b = a ∧ l.foldlM step s₀ = .ok s := by
  constructor
  · intro h
    obtain ⟨post, hl⟩ := h.split
    cases post using List.reverseRecOn with
    | nil =>
        obtain ⟨rfl, hb⟩ := List.append_inj' hl rfl
        exact .inr ⟨rfl, (List.cons.inj hb).1.symm, h.reach⟩
    | append_singleton post c =>
        rw [← List.cons_append, ← List.append_assoc] at hl
        exact .inl ⟨⟨post, (List.append_inj' hl rfl).1⟩, h.reach⟩
  · rintro (h | ⟨rfl, rfl, hreach⟩)
    · exact h.append [a]
    · exact ⟨⟨[], rfl⟩, hreach⟩

/-- What holds after a run held before it or is brought about at one of its
visits, when no step takes it back. -/
theorem foldlM_occurs {P : σ → Prop} {R : σ → α → Prop} {l : List α}
    (hstep : ∀ s a t, a ∈ l → step s a = .ok t → (P t ↔ P s ∨ R s a))
    (h : l.foldlM step s₀ = .ok s') :
    P s' ↔ P s₀ ∨ ∃ pre s a, Visits step s₀ l pre s a ∧ R s a := by
  refine foldlM_invariant
    (P := fun done t => P t ↔
      P s₀ ∨ ∃ pre s a, Visits step s₀ done pre s a ∧ R s a) l s' ?_ ?_ h
  · simp only [iff_self_or]
    rintro ⟨pre, s, a, hv, _⟩
    exact absurd hv.mem List.not_mem_nil
  · intro done s a t hv hs ht
    rw [hstep s a t hv.mem ht, hs, or_assoc]
    refine or_congr_right ?_
    constructor
    · rintro (⟨pre, u, b, hu, hR⟩ | hR)
      · exact ⟨pre, u, b, hu.append [a], hR⟩
      · exact ⟨done, s, a, visits_snoc.mpr (.inr ⟨rfl, rfl, hv.reach⟩), hR⟩
    · rintro ⟨pre, u, b, hu, hR⟩
      rcases visits_snoc.mp hu with hu | ⟨rfl, rfl, hreach⟩
      · exact .inl ⟨pre, u, b, hu, hR⟩
      · cases hv.reach.symm.trans hreach
        exact .inr hR

/-- A run that fails does so when its body is entered for some item. -/
theorem exists_visit_of_error {e : ε} :
    ∀ l : List α, l.foldlM step s₀ = .error e →
      ∃ pre s a, Visits step s₀ l pre s a ∧ step s a = .error e := by
  intro l
  induction l using List.reverseRecOn with
  | nil => intro h; cases h
  | append_singleton l a ih =>
      intro h
      rw [List.foldlM_append] at h
      rcases bind_eq_error h with hl | ⟨s, hl, ha⟩
      · obtain ⟨pre, s, b, hv, hb⟩ := ih hl
        exact ⟨pre, s, b, hv.append [a], hb⟩
      · rw [List.foldlM_cons] at ha
        rcases bind_eq_error ha with hs | ⟨t, _, hnil⟩
        · exact ⟨l, s, a, ⟨⟨[], rfl⟩, hl⟩, hs⟩
        · cases hnil

/-- Invariant rule for the errors of a fallible body: what every step from a
state of the invariant fails with, the run fails with. -/
theorem foldlM_error {P : List α → σ → Prop} {E : ε → Prop} {l : List α}
    (h0 : P [] s₀)
    (hstep : ∀ pre s a t, Visits step s₀ l pre s a → P pre s →
      step s a = .ok t → P (pre ++ [a]) t)
    (herror : ∀ pre s a e, Visits step s₀ l pre s a → P pre s →
      step s a = .error e → E e) :
    ∀ e, l.foldlM step s₀ = .error e → E e := by
  intro e h
  obtain ⟨pre, s, a, hv, ha⟩ := exists_visit_of_error l h
  obtain ⟨post, hl⟩ := hv.split
  refine herror pre s a e hv ?_ ha
  refine foldlM_invariant pre s h0 ?_ hv.reach
  intro done t b u hvisit
  have hvisit' := hvisit.append (a :: post)
  rw [← hl] at hvisit'
  exact hstep done t b u hvisit'

/-! ## The visits of a given run -/

/-- The visits of a run over the items, from `s` on, `done` being done. -/
def visitsFrom (step : σ → α → Except ε σ) :
    List α → σ → List α → List (List α × σ × α)
  | _, _, [] => []
  | done, s, a :: l =>
      (done, s, a) ::
        match step s a with
        | .error _ => []
        | .ok t => visitsFrom step (done ++ [a]) t l

/-- The visits of a run in their order, for conditions that are checked by
evaluation. -/
def visits (step : σ → α → Except ε σ) (s₀ : σ) (l : List α) :
    List (List α × σ × α) :=
  visitsFrom step [] s₀ l

theorem Visits.mem_visits (h : Visits step s₀ l pre s a) :
    (pre, s, a) ∈ visits step s₀ l := by
  obtain ⟨post, rfl⟩ := h.split
  have hfrom : ∀ (done : List α) (t : σ), pre.foldlM step t = .ok s →
      (done ++ pre, s, a) ∈ visitsFrom step done t (pre ++ a :: post) := by
    clear h
    induction pre with
    | nil =>
        intro done t ht
        cases ht
        rw [List.append_nil]
        exact List.mem_cons_self
    | cons b pre ih =>
        intro done t ht
        obtain ⟨u, hu, hrest⟩ := foldlM_cons_eq_ok ht
        have hmem := ih (done ++ [b]) u hrest
        rw [List.append_assoc] at hmem
        rw [List.cons_append, visitsFrom, hu]
        exact List.mem_cons_of_mem _ hmem
  exact hfrom [] s₀ h.reach

/-! ## Two runs in lockstep -/

section Related

variable {τ : Type u} {β : Type v} {step' : τ → β → Except ε τ} {t₀ t' : τ}
  {Q : α → β → Prop} {R : σ → τ → Prop}

private theorem foldlM_related_from {l : List α} {m : List β}
    (hitems : List.Forall₂ Q l m) :
    ∀ (done : List α) (s : σ) (t : τ), done.foldlM step s₀ = .ok s → R s t →
      (∀ pre s a t b u v, Visits step s₀ (done ++ l) pre s a → Q a b →
        R s t → step s a = .ok u → step' t b = .ok v → R u v) →
      l.foldlM step s = .ok s' → m.foldlM step' t = .ok t' → R s' t' := by
  induction hitems with
  | nil =>
      intro done s t _ hR _ hl hm
      cases hl
      cases hm
      exact hR
  | @cons a b l m hab _ ih =>
      intro done s t hdone hR hstep hl hm
      obtain ⟨u, hu, hl⟩ := foldlM_cons_eq_ok hl
      obtain ⟨v, hv, hm⟩ := foldlM_cons_eq_ok hm
      have hsplit : done ++ a :: l = (done ++ [a]) ++ l := by simp
      have hR' : R u v :=
        hstep done s a t b u v ⟨⟨l, rfl⟩, hdone⟩ hab hR hu hv
      refine ih (done ++ [a]) u v (foldlM_snoc hdone hu) hR' ?_ hl hm
      rw [← hsplit]
      exact hstep

/-- Relational rule: what every pair of steps over related items preserves
relates the ends of the two runs.  A step may use that the first run visits
its entry state. -/
theorem foldlM_related {l : List α} {m : List β}
    (hitems : List.Forall₂ Q l m) (h0 : R s₀ t₀)
    (hstep : ∀ pre s a t b u v, Visits step s₀ l pre s a → Q a b →
      R s t → step s a = .ok u → step' t b = .ok v → R u v)
    (hl : l.foldlM step s₀ = .ok s') (hm : m.foldlM step' t₀ = .ok t') :
    R s' t' :=
  foldlM_related_from hitems [] s₀ t₀ rfl h0 hstep hl hm

end Related

end DatahubEdge.Lib.Fold
