import Mathlib.Data.List.TakeWhile
import DatahubEdge.Lib.Parsing

/-!
# The grammar of a separated list

What a text spells is a relation between lists of tokens and values.  A parser
of single items that agrees with such a relation makes the loop `sepBy` agree
with the relation lifted to separated lists, where tokens that are skipped may
stand around every item.

## Main results

* `sepBy_of_separated` — what spells a list is read as that list.
* `separated_of_sepBy` — what is read as a list spells it.
-/

namespace DatahubEdge.Lib.Parsing

universe u v

variable {τ : Type u} {α : Type v}

/-- Every token may be skipped. -/
def Blank (white : τ → Bool) (text : List τ) : Prop := ∀ c ∈ text, white c = true

/-- The text spells the values with a separator between two of them and
skipped tokens around each. -/
inductive Separated (white : τ → Bool) (spells : List τ → α → Prop) (sep : τ) :
    List τ → List α → Prop
  | last {before text after : List τ} {value : α} :
      Blank white before → spells text value → Blank white after →
      Separated white spells sep (before ++ (text ++ after)) [value]
  | more {before text after next : List τ} {value : α} {values : List α} :
      Blank white before → spells text value → Blank white after →
      Separated white spells sep next values →
      Separated white spells sep (before ++ (text ++ (after ++ sep :: next)))
        (value :: values)

/-- The parser reads what spells a value, up to a token that ends it, and what
spells a value starts with a token that is not skipped. -/
structure Reads (white : τ → Bool) (spells : List τ → α → Prop)
    (ends : τ → Prop) (item : Parser τ α) : Prop where
  read : ∀ {text value c rest}, spells text value → ends c →
    item (text ++ c :: rest) = some (value, c :: rest)
  head : ∀ {text value}, spells text value →
    ∃ c rest, text = c :: rest ∧ white c = false

/-- What the parser has read spells the value it returns. -/
def Sound (spells : List τ → α → Prop) (item : Parser τ α) : Prop :=
  ∀ text value rest, item text = some (value, rest) →
    ∃ read, text = read ++ rest ∧ spells read value

/-! ## Skipped tokens -/

section Skip

variable {white : τ → Bool} {text rest : List τ}

theorem Blank.append {before after : List τ} (h : Blank white before)
    (h' : Blank white after) : Blank white (before ++ after) := by
  intro c hc
  rcases List.mem_append.mp hc with hc | hc
  · exact h c hc
  · exact h' c hc

theorem Blank.dropWhile_append {before : List τ} (h : Blank white before)
    (text : List τ) : (before ++ text).dropWhile white = text.dropWhile white := by
  induction before with
  | nil => rfl
  | cons c before ih =>
      have hc : white c = true := h c (by simp)
      rw [List.cons_append, List.dropWhile_cons_of_pos hc]
      exact ih fun d hd => h d (List.mem_cons_of_mem c hd)

/-- A token that is not skipped stops the skipping. -/
theorem Blank.dropWhile_cons {before : List τ} {c : τ} (h : Blank white before)
    (hc : white c = false) :
    (before ++ c :: rest).dropWhile white = c :: rest := by
  rw [h.dropWhile_append, List.dropWhile_cons_of_neg (by simp [hc])]

theorem exists_blank (white : τ → Bool) (text : List τ) :
    ∃ before, Blank white before ∧ text = before ++ text.dropWhile white := by
  refine ⟨text.takeWhile white, ?_, List.takeWhile_append_dropWhile.symm⟩
  intro c hc
  exact List.mem_takeWhile_imp hc

end Skip

/-! ## The loop -/

section Loop

variable {white : τ → Bool} {spells : List τ → α → Prop} {ends : τ → Prop}
  {item : Parser τ α} {sep : τ}

/-- Every item takes a token at least. -/
theorem Separated.length_le (hreads : Reads white spells ends item)
    {text : List τ} {values : List α}
    (h : Separated white spells sep text values) :
    values.length ≤ text.length := by
  induction h with
  | last _ hvalue _ =>
      obtain ⟨c, rest, rfl, _⟩ := hreads.head hvalue
      simp only [List.length_append, List.length_cons, List.length_nil]
      omega
  | more _ hvalue _ _ ih =>
      simp only [List.length_append, List.length_cons]
      omega

/-- What holds of every spelled value holds of the values of a list. -/
theorem Separated.forall {P : α → Prop} {text : List τ} {values : List α}
    (h : Separated white spells sep text values)
    (hP : ∀ text value, spells text value → P value) :
    ∀ value ∈ values, P value := by
  induction h with
  | last _ hvalue _ =>
      intro v hv
      rw [List.mem_singleton.mp hv]
      exact hP _ _ hvalue
  | more _ hvalue _ _ ih =>
      intro v hv
      rcases List.mem_cons.mp hv with rfl | hv
      · exact hP _ _ hvalue
      · exact ih v hv

/-- Without the tokens skipped in front of it a list starts with an item and
is still a list of the same values. -/
theorem Separated.trim (hreads : Reads white spells ends item)
    {text : List τ} {values : List α}
    (h : Separated white spells sep text values) :
    ∃ c more, (∀ rest, (text ++ rest).dropWhile white = c :: (more ++ rest)) ∧
      Separated white spells sep (c :: more) values ∧
      ∃ shown value, spells (c :: shown) value := by
  have hnone : Blank white [] := fun c hc => absurd hc (by simp)
  cases h with
  | @last before text after value hbefore hvalue hafter =>
      obtain ⟨c, shown, rfl, hc⟩ := hreads.head hvalue
      refine ⟨c, shown ++ after, ?_, .last hnone hvalue hafter, shown, value,
        hvalue⟩
      intro rest
      rw [List.append_assoc]
      exact hbefore.dropWhile_cons hc
  | @more before text after next value values hbefore hvalue hafter hnext =>
      obtain ⟨c, shown, rfl, hc⟩ := hreads.head hvalue
      refine ⟨c, shown ++ (after ++ sep :: next), ?_,
        .more hnone hvalue hafter hnext, shown, value, hvalue⟩
      intro rest
      rw [List.append_assoc]
      exact hbefore.dropWhile_cons hc

/-- More tokens may be skipped in front of a list. -/
theorem Separated.prepend {before text : List τ} {values : List α}
    (hbefore : Blank white before)
    (h : Separated white spells sep text values) :
    Separated white spells sep (before ++ text) values := by
  cases h with
  | last hbefore' hvalue hafter =>
      rw [← List.append_assoc]
      exact .last (hbefore.append hbefore') hvalue hafter
  | more hbefore' hvalue hafter hnext =>
      rw [← List.append_assoc]
      exact .more (hbefore.append hbefore') hvalue hafter hnext

/-- One turn of the loop reads an item and arrives at the token after it. -/
private theorem turn (hreads : Reads white spells ends item)
    (hwhite : ∀ c, white c = true → ends c) {before text after : List τ}
    (rest : List τ) {value : α} {t : τ} (hbefore : Blank white before)
    (hvalue : spells text value) (hafter : Blank white after) (ht : ends t)
    (hskip : white t = false) :
    ∃ next, item ((before ++ (text ++ (after ++ t :: rest))).dropWhile white) =
        some (value, next) ∧ next.dropWhile white = t :: rest := by
  obtain ⟨c, more, htext, hc⟩ := hreads.head hvalue
  refine ⟨after ++ t :: rest, ?_, hafter.dropWhile_cons hskip⟩
  have hhead : (before ++ (text ++ (after ++ t :: rest))).dropWhile white =
      text ++ (after ++ t :: rest) := by
    rw [htext]
    exact hbefore.dropWhile_cons hc
  rw [hhead]
  cases after with
  | nil => exact hreads.read hvalue ht
  | cons w after =>
      exact hreads.read hvalue (hwhite w (hafter w (by simp)))

variable [DecidableEq τ] {close : τ}

/-- What spells a list is read as that list, if the fuel covers its items. -/
theorem sepBy_of_separated (hreads : Reads white spells ends item)
    (hwhite : ∀ c, white c = true → ends c) (hsep : ends sep)
    (hclose : ends close) (hsep' : white sep = false)
    (hclose' : white close = false) (hne : close ≠ sep) {text : List τ}
    {values : List α} (h : Separated white spells sep text values) :
    ∀ (fuel : Nat) (rest : List τ), values.length ≤ fuel →
      sepBy (List.dropWhile white) item sep close fuel (text ++ close :: rest) =
        some (values, rest) := by
  induction h with
  | last hbefore hvalue hafter =>
      intro fuel rest hfuel
      cases fuel with
      | zero => simp at hfuel
      | succ fuel =>
          obtain ⟨next, hitem, hnext⟩ :=
            turn hreads hwhite rest hbefore hvalue hafter hclose hclose'
          rw [sepBy, List.append_assoc, List.append_assoc, hitem]
          dsimp only
          rw [hnext]
          dsimp only
          rw [if_neg hne, if_pos rfl]
  | @more before text after next value values hbefore hvalue hafter _ ih =>
      intro fuel rest hfuel
      cases fuel with
      | zero => simp at hfuel
      | succ fuel =>
          obtain ⟨next', hitem, hnext⟩ :=
            turn hreads hwhite (next ++ close :: rest) hbefore hvalue hafter
              hsep hsep'
          have hfuel' : values.length ≤ fuel := by
            rw [List.length_cons] at hfuel
            omega
          rw [sepBy, List.append_assoc, List.append_assoc, List.append_assoc,
            List.cons_append, hitem]
          dsimp only
          rw [hnext]
          dsimp only
          rw [if_pos rfl, ih fuel rest hfuel']
          rfl

/-- What is read as a list spells it, up to the closing token. -/
theorem separated_of_sepBy (hsound : Sound spells item) {fuel : Nat} :
    ∀ {text rest : List τ} {values : List α},
      sepBy (List.dropWhile white) item sep close fuel text =
        some (values, rest) →
      ∃ read, text = read ++ close :: rest ∧
        Separated white spells sep read values := by
  induction fuel with
  | zero =>
      intro text rest values h
      cases h
  | succ fuel ih =>
      intro text rest values h
      obtain ⟨before, hbefore, htext⟩ := exists_blank white text
      rw [sepBy] at h
      cases hitem : item (text.dropWhile white) with
      | none =>
          rw [hitem] at h
          cases h
      | some r =>
          obtain ⟨value, next⟩ := r
          obtain ⟨shown, hshown, hvalue⟩ := hsound _ _ _ hitem
          obtain ⟨after, hafter, hnext⟩ := exists_blank white next
          rw [hitem] at h
          dsimp only at h
          cases ht : next.dropWhile white with
          | nil =>
              rw [ht] at h
              cases h
          | cons t next' =>
              rw [ht] at h hnext
              dsimp only at h
              by_cases hsep : t = sep
              · rw [if_pos hsep] at h
                obtain ⟨r, hr, heq⟩ := Option.map_eq_some_iff.mp h
                cases heq
                obtain ⟨read, hread, hvalues⟩ := ih hr
                refine ⟨before ++ (shown ++ (after ++ sep :: read)), ?_,
                  .more hbefore hvalue hafter hvalues⟩
                rw [htext, hshown, hnext, hread, hsep]
                simp
              · rw [if_neg hsep] at h
                by_cases hclose : t = close
                · rw [if_pos hclose] at h
                  cases h
                  refine ⟨before ++ (shown ++ after), ?_,
                    .last hbefore hvalue hafter⟩
                  rw [htext, hshown, hnext, hclose]
                  simp
                · rw [if_neg hclose] at h
                  cases h

end Loop

end DatahubEdge.Lib.Parsing
