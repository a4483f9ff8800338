import Mathlib.Data.List.Basic
import Std.Data.String.ToNat

/-!
# C strings and the C library functions on them

A `char *` is the list of the bytes before its terminator; a `char *` that
may be NULL is an `Option CString`.  The locale is the C locale: `tolower`
changes the letters `A` to `Z` only.

## Main results

* `caseInsensitiveEq_iff` — the comparison loop of `cJSON` decides equality
  of the lowered strings.
* `printInt_injective`, `lower_printInt` — two indices printed by `%d` name
  the same key, ignoring case, only if they are equal.
-/

namespace DatahubEdge

/-- The bytes of a C string before its terminator. -/
abbrev CString := List UInt8

/-- The bytes of an ASCII character. -/
def byteOfChar (c : Char) : UInt8 := UInt8.ofNat c.toNat

/-- The bytes of an ASCII literal. -/
def cstr (s : String) : CString := s.toList.map byteOfChar

/-! ## Comparison ignoring case -/

def tolower (c : UInt8) : UInt8 := if 65 ≤ c ∧ c ≤ 90 then c + 32 else c

def lower (s : CString) : CString := s.map tolower

/-- `case_insensitive_strcmp(string1, string2) == 0` for two strings that are
not NULL. -/
def caseInsensitiveEq : CString → CString → Bool
  | [], [] => true
  | a :: as, b :: bs => tolower a == tolower b && caseInsensitiveEq as bs
  | _, _ => false

theorem caseInsensitiveEq_iff (s t : CString) :
    caseInsensitiveEq s t = true ↔ lower s = lower t := by
  induction s generalizing t with
  | nil => cases t <;> simp [caseInsensitiveEq, lower]
  | cons a as ih =>
      cases t with
      | nil => simp [caseInsensitiveEq, lower]
      | cons b bs =>
          simpa [caseInsensitiveEq, lower] using fun _ => ih bs

/-! ## Printing integers -/

/-- `%d` of a nonnegative argument. -/
def printNat (n : Nat) : CString := (Nat.toDigits 10 n).map byteOfChar

/-- `%s` of an argument that may be NULL. -/
def printString (s : Option CString) : CString := s.getD (cstr "(null)")

/-- `%d`. -/
def printInt : Int → CString
  | .ofNat n => printNat n
  | .negSucc n => 45 :: printNat (n + 1)

private theorem digit_toNat {c : Char} (h : c.isDigit = true) :
    48 ≤ c.toNat ∧ c.toNat ≤ 57 := by
  simp only [Char.isDigit, Bool.and_eq_true, decide_eq_true_eq, ge_iff_le,
    UInt32.le_iff_toNat_le] at h
  exact h

private theorem byteOfChar_toNat {c : Char} (h : c.isDigit = true) :
    (byteOfChar c).toNat = c.toNat := by
  have := digit_toNat h
  simp only [byteOfChar, UInt8.toNat_ofNat']
  omega

/-- Printed naturals consist of the bytes of decimal digits. -/
theorem printNat_digit {n : Nat} {b : UInt8} (h : b ∈ printNat n) :
    48 ≤ b ∧ b ≤ 57 := by
  obtain ⟨c, hc, rfl⟩ := List.mem_map.mp h
  have hd : c.isDigit = true :=
    Nat.isDigit_of_mem_toDigits (by decide) (by decide) hc
  have hb := byteOfChar_toNat hd
  have := digit_toNat hd
  rw [UInt8.le_iff_toNat_le, UInt8.le_iff_toNat_le, hb]
  exact this

private theorem map_byteOfChar_inj :
    ∀ l m : List Char, (∀ c ∈ l, c.isDigit = true) →
      (∀ c ∈ m, c.isDigit = true) →
      l.map byteOfChar = m.map byteOfChar → l = m := by
  intro l
  induction l with
  | nil =>
      intro m _ _ h
      cases m with
      | nil => rfl
      | cons c m => cases h
  | cons a l ih =>
      intro m hl hm h
      cases m with
      | nil => cases h
      | cons b m =>
          simp only [List.map_cons, List.cons.injEq] at h
          have hab : a.toNat = b.toNat := by
            rw [← byteOfChar_toNat (hl a (by simp)),
              ← byteOfChar_toNat (hm b (by simp)), h.1]
          rw [Char.toNat_inj.mp hab,
            ih m (fun c hc => hl c (by simp [hc]))
              (fun c hc => hm c (by simp [hc])) h.2]

theorem printNat_injective {m n : Nat} (h : printNat m = printNat n) :
    m = n := by
  have hdigits : Nat.toDigits 10 m = Nat.toDigits 10 n :=
    map_byteOfChar_inj _ _
      (fun _ hc => Nat.isDigit_of_mem_toDigits (by decide) (by decide) hc)
      (fun _ hc => Nat.isDigit_of_mem_toDigits (by decide) (by decide) hc) h
  apply Nat.repr_injective
  rw [Nat.repr_eq_ofList_toDigits, Nat.repr_eq_ofList_toDigits, hdigits]

/-- A printed integer starts with a minus sign or is all digits. -/
theorem printInt_byte {i : Int} {b : UInt8} (h : b ∈ printInt i) :
    b = 45 ∨ 48 ≤ b ∧ b ≤ 57 := by
  cases i with
  | ofNat n => exact .inr (printNat_digit h)
  | negSucc n =>
      rcases List.mem_cons.mp h with h | h
      · exact .inl h
      · exact .inr (printNat_digit h)

private theorem printNat_ne_minus (n : Nat) (s : CString) :
    printNat n ≠ 45 :: s := by
  intro h
  have hb : (45 : UInt8) ∈ printNat n := by simp [h]
  exact absurd (printNat_digit hb).1 (by decide)

theorem printInt_injective {i j : Int} (h : printInt i = printInt j) :
    i = j := by
  cases i with
  | ofNat m =>
      cases j with
      | ofNat n => rw [printNat_injective h]
      | negSucc n => exact absurd h (printNat_ne_minus _ _)
  | negSucc m =>
      cases j with
      | ofNat n => exact absurd h.symm (printNat_ne_minus _ _)
      | negSucc n =>
          have := printNat_injective (List.cons.inj h).2
          rw [Nat.succ.inj this]

private theorem tolower_printInt {i : Int} {b : UInt8}
    (h : b ∈ printInt i) : tolower b = b := by
  rcases printInt_byte h with rfl | ⟨hlo, hhi⟩
  · rfl
  · have : ¬ 65 ≤ b := by
      rw [UInt8.le_iff_toNat_le] at hlo hhi ⊢
      have h57 : (57 : UInt8).toNat = 57 := rfl
      have h65 : (65 : UInt8).toNat = 65 := rfl
      omega
    simp [tolower, this]

/-- Printed integers have no letters. -/
theorem lower_printInt (i : Int) : lower (printInt i) = printInt i := by
  have h : (printInt i).map tolower = (printInt i).map id :=
    List.map_congr_left fun b hb => tolower_printInt hb
  rw [lower, h, List.map_id]

theorem lower_printInt_inj {i j : Int}
    (h : lower (printInt i) = lower (printInt j)) : i = j := by
  rw [lower_printInt, lower_printInt] at h
  exact printInt_injective h

end DatahubEdge
