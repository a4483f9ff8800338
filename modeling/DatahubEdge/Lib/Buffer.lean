import Mathlib.Data.List.Basic

/-!
# Programs that write into memory of a fixed size

A run returns a value, refuses, or faults: it writes or reads outside of a
piece of memory, or reads a cell nothing was written to.  It refuses because
it gives up or because memory it asked for was denied.  A specification names
what holds of the value and what excuses a refusal, and excludes faults.

A piece of memory is a list of cells.  What matters of it is the text it holds
from its first cell on; the cells behind that text are left open.

## Main results

* `Meets.bind` — specifications compose.
* `storeAll_meets` — writing at the end of the text appends to it.
* `readUntil_holds` — a text with a terminator is read back.
-/

namespace DatahubEdge.Lib.Buffer

universe u v

/-! ## Runs and their specifications -/

/-- An access a program must not make. -/
inductive Fault where
  | outside
  | unset
  deriving DecidableEq

/-- Why a run refuses.  A denied request is told by the count of the requests
before it and the size. -/
inductive Refusal where
  | givenUp
  | denied (calls size : Nat)
  deriving DecidableEq

/-- Why a run does not return. -/
inductive Stop where
  | refused (why : Refusal)
  | fault (access : Fault)
  deriving DecidableEq

abbrev Run (α : Type u) := Except Stop α

/-- The run gives up. -/
def giveUp {α : Type u} : Run α := .error (.refused .givenUp)

/-- The run asks an allocator for memory. -/
def request (alloc : Nat → Nat → Bool) (calls size : Nat) : Run PUnit.{u + 1} :=
  if alloc calls size then .ok ⟨⟩ else .error (.refused (.denied calls size))

/-- The run returns a value with `P`, or refuses with an excuse. -/
def Meets {α : Type u} (excuse : Refusal → Prop) (P : α → Prop) : Run α → Prop
  | .ok a => P a
  | .error (.refused why) => excuse why
  | .error (.fault _) => False

section Meets

variable {α : Type u} {β : Type u} {excuse : Refusal → Prop}
  {P P' : α → Prop} {Q : β → Prop} {r : Run α} {f : α → Run β}

@[simp] theorem meets_ok {a : α} : Meets excuse P (.ok a) ↔ P a := Iff.rfl

@[simp] theorem meets_pure {a : α} : Meets excuse P (pure a) ↔ P a := Iff.rfl

@[simp] theorem meets_refused {why : Refusal} :
    Meets excuse P (.error (.refused why)) ↔ excuse why := Iff.rfl

theorem meets_giveUp (h : excuse .givenUp) : Meets excuse P giveUp := h

/-- What a request for memory is followed by runs with the memory, and its
denial takes an excuse. -/
theorem meets_request {alloc : Nat → Nat → Bool} {calls size : Nat}
    {run : Run β} (hdenied : alloc calls size = false →
      excuse (.denied calls size))
    (hrun : Meets excuse Q run) :
    Meets excuse Q (request alloc calls size >>= fun _ => run) := by
  unfold request
  cases halloc : alloc calls size with
  | true => exact hrun
  | false => exact hdenied halloc

/-- What the first run leaves is what the second one starts from. -/
theorem Meets.bind (h : Meets excuse P r)
    (hf : ∀ a, P a → Meets excuse Q (f a)) : Meets excuse Q (r >>= f) := by
  cases r with
  | ok a => exact hf a h
  | error stop =>
      cases stop with
      | refused why => exact h
      | fault access => exact h.elim

theorem Meets.mono (h : Meets excuse P r) (hP : ∀ a, P a → P' a) :
    Meets excuse P' r := by
  cases r with
  | ok a => exact hP a h
  | error stop =>
      cases stop with
      | refused why => exact h
      | fault access => exact h.elim

/-- A weaker excuse. -/
theorem Meets.weaken {excuse' : Refusal → Prop} (h : Meets excuse P r)
    (hexcuse : ∀ why, excuse why → excuse' why) : Meets excuse' P r := by
  cases r with
  | ok a => exact h
  | error stop =>
      cases stop with
      | refused why => exact hexcuse why h
      | fault access => exact h.elim

/-- Without an excuse a run returns. -/
theorem Meets.exists_ok (h : Meets excuse P r)
    (hexcuse : ∀ why, ¬ excuse why) : ∃ a, r = .ok a ∧ P a := by
  cases r with
  | ok a => exact ⟨a, rfl, h⟩
  | error stop =>
      cases stop with
      | refused why => exact absurd h (hexcuse why)
      | fault access => exact h.elim

end Meets

/-! ## Memory -/

section Memory

variable {α : Type u}

/-- Cells that are set or not. -/
abbrev Cells (α : Type u) := List (Option α)

/-- Memory fresh from the allocator. -/
def fresh (size : Nat) : Cells α := List.replicate size none

/-- `cells[pos] = value`. -/
def store (cells : Cells α) (pos : Nat) (value : α) : Run (Cells α) :=
  if pos < cells.length then .ok (cells.set pos (some value))
  else .error (.fault .outside)

/-- Writing one value after the other. -/
def storeAll (cells : Cells α) (pos : Nat) : List α → Run (Cells α)
  | [] => .ok cells
  | value :: values => do
      let cells ← store cells pos value
      storeAll cells (pos + 1) values

/-- The values of the cells in front of the first one that holds `stop`. -/
def readUntil [DecidableEq α] (stop : α) : Cells α → Run (List α)
  | [] => .error (.fault .outside)
  | none :: _ => .error (.fault .unset)
  | some value :: cells =>
      if value = stop then .ok []
      else (readUntil stop cells).map (value :: ·)

/-- The same memory with another size: what fits of the old cells is kept, new
cells are not set. -/
def resize (cells : Cells α) (size : Nat) : Cells α :=
  cells.take size ++ fresh (size - cells.length)

/-- The memory starts with the text. -/
def Holds (cells : Cells α) (text : List α) : Prop :=
  text.map some <+: cells

variable {cells : Cells α} {text : List α}

theorem Holds.length_le (h : Holds cells text) : text.length ≤ cells.length := by
  have hlength := List.IsPrefix.length_le h
  rwa [List.length_map] at hlength

theorem holds_nil (cells : Cells α) : Holds cells [] := List.nil_prefix

/-- Memory that holds a text holds the beginning of it. -/
theorem Holds.left {more : List α} (h : Holds cells (text ++ more)) :
    Holds cells text := by
  rw [Holds, List.map_append] at h
  exact (List.prefix_append _ _).trans h

/-- Writing behind the text makes it longer. -/
theorem Holds.set {value : α} (h : Holds cells text)
    (hroom : text.length < cells.length) :
    Holds (cells.set text.length (some value)) (text ++ [value]) := by
  obtain ⟨after, hafter⟩ := h
  have hlength : (text.map some).length = text.length := List.length_map ..
  cases after with
  | nil =>
      rw [List.append_nil] at hafter
      rw [← hafter, hlength] at hroom
      omega
  | cons old after =>
      refine ⟨after, ?_⟩
      have hset : (text.map some ++ old :: after).set (text.map some).length
          (some value) = text.map some ++ some value :: after := by
        rw [List.set_append_right _ _ (Nat.le_refl _), Nat.sub_self]
        rfl
      rw [← hafter, ← hlength, hset]
      simp

theorem store_meets (excuse : Refusal → Prop) (value : α) (h : Holds cells text)
    (hroom : text.length < cells.length) :
    Meets excuse (fun cells' => Holds cells' (text ++ [value]) ∧
      cells'.length = cells.length) (store cells text.length value) := by
  rw [store, if_pos hroom]
  exact ⟨h.set hroom, List.length_set ..⟩

theorem storeAll_singleton (cells : Cells α) (pos : Nat) (value : α) :
    storeAll cells pos [value] = store cells pos value := by
  rw [storeAll]
  cases store cells pos value with
  | ok cells' => rfl
  | error stop => rfl

/-- Values that fit are appended to the text. -/
theorem storeAll_meets (excuse : Refusal → Prop) (values : List α) (h : Holds cells text)
    (hroom : text.length + values.length ≤ cells.length) :
    Meets excuse (fun cells' => Holds cells' (text ++ values) ∧
      cells'.length = cells.length) (storeAll cells text.length values) := by
  induction values generalizing cells text with
  | nil =>
      rw [List.append_nil]
      exact ⟨h, rfl⟩
  | cons value values ih =>
      rw [List.length_cons] at hroom
      refine (store_meets excuse value h (by omega)).bind ?_
      rintro cells' ⟨hholds, hlength⟩
      have hnext := ih hholds (by
        rw [List.length_append, List.length_singleton]
        omega)
      rw [List.length_append, List.length_singleton] at hnext
      refine hnext.mono ?_
      rintro cells'' ⟨hholds', hlength'⟩
      rw [List.append_assoc] at hholds'
      exact ⟨hholds', hlength'.trans hlength⟩

/-- A text with a terminator is read up to the first `stop`. -/
theorem readUntil_holds [DecidableEq α] {stop : α}
    (h : Holds cells (text ++ [stop])) :
    readUntil stop cells = .ok (text.takeWhile fun value => value ≠ stop) := by
  obtain ⟨after, rfl⟩ := h
  induction text with
  | nil => simp [readUntil]
  | cons value text ih =>
      rw [List.cons_append, List.map_cons, List.cons_append, readUntil]
      by_cases hvalue : value = stop
      · rw [if_pos hvalue, List.takeWhile_cons_of_neg (by simpa using hvalue)]
      · rw [if_neg hvalue, ih,
          List.takeWhile_cons_of_pos (by simpa using hvalue)]
        rfl

/-- The same from inside of a text. -/
theorem readUntil_drop [DecidableEq α] {stop : α} {more : List α}
    (h : Holds cells (text ++ (more ++ [stop]))) :
    readUntil stop (cells.drop text.length) =
      .ok (more.takeWhile fun value => value ≠ stop) := by
  apply readUntil_holds
  obtain ⟨after, rfl⟩ := h
  have hdrop : ((text ++ (more ++ [stop])).map some ++ after).drop
      text.length = (more ++ [stop]).map some ++ after := by
    rw [List.map_append, List.append_assoc]
    exact List.drop_left' (List.length_map ..)
  exact ⟨after, hdrop.symm⟩

/-! ## Changing the size -/

@[simp] theorem length_resize (cells : Cells α) (size : Nat) :
    (resize cells size).length = size := by
  simp only [resize, fresh, List.length_append, List.length_take,
    List.length_replicate]
  omega

/-- A text that fits is kept. -/
theorem Holds.resize {size : Nat} (h : Holds cells text)
    (hsize : text.length ≤ size) : Holds (resize cells size) text := by
  have htake : text.map some <+: cells.take size := by
    rw [List.prefix_take_iff]
    exact ⟨h, by rwa [List.length_map]⟩
  exact htake.trans (List.prefix_append _ _)

/-- Memory of the size of the text it holds is that text. -/
theorem Holds.eq_of_length (h : Holds cells text)
    (hlength : cells.length = text.length) : cells = text.map some := by
  exact (List.IsPrefix.eq_of_length h (by rw [List.length_map, hlength])).symm

end Memory

end DatahubEdge.Lib.Buffer
