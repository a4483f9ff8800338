import DatahubEdge.Timestamp.Calendar

/-!
# The texts of a date

A date is written with four digits of the year and two of each other field,
between a date and a time a blank in the caller's `Time` and a `T` in the
message.  `strptime` reads the first form back; `strftime` prints the second
one for the years that have four digits.

## Main results

* `strptime_stampText` — `strptime` reads the fields that were written.
* `strptime_inRange` — the ranges of what it reads.
* `strftime_eq_isoText` — what `strftime` prints.
-/

namespace DatahubEdge.Timestamp

/-- A number below 10000 in four digits. -/
def fourDigits (n : Nat) : CString := twoDigits (n / 100) ++ twoDigits (n % 100)

/-- The text from the month on, with the given separator before the hour. -/
def restText (separator : UInt8) (tm : Tm) : CString :=
  45 :: (twoDigits tm.mon ++ 45 :: (twoDigits tm.mday ++
    separator :: (twoDigits tm.hour ++ 58 :: (twoDigits tm.min ++
      58 :: twoDigits tm.sec))))

/-- `YYYY-MM-DD hh:mm:ss`. -/
def stampText (tm : Tm) : CString := fourDigits tm.year ++ restText 32 tm

/-- `YYYY-MM-DDThh:mm:ss`. -/
def isoText (tm : Tm) : CString := fourDigits tm.year ++ restText 84 tm

/-! ## Digits -/

theorem twoDigits_eq : ∀ n < 100, twoDigits n =
    [UInt8.ofNat (48 + n / 10), UInt8.ofNat (48 + n % 10)] := by
  decide

theorem twoDigits_eq_append : ∀ n < 100, twoDigits n =
    printNat (n / 10) ++ printNat (n % 10) := by
  decide

theorem length_twoDigits {n : Nat} (h : n < 100) :
    (twoDigits n).length = 2 := by
  rw [twoDigits_eq n h]
  rfl

theorem isdigit_ofNat : ∀ d < 10, isdigit (UInt8.ofNat (48 + d)) = true := by
  decide

theorem isspace_ofNat : ∀ d < 10, isspace (UInt8.ofNat (48 + d)) = false := by
  decide

theorem length_fourDigits {n : Nat} (h : n ≤ 9999) :
    (fourDigits n).length = 4 := by
  rw [fourDigits, List.length_append, length_twoDigits (by omega),
    length_twoDigits (by omega)]

/-- One more digit. -/
theorem printNat_append {a d : Nat} (ha : 0 < a) (hd : d < 10) :
    printNat (10 * a + d) = printNat a ++ printNat d := by
  rw [printNat, ← Nat.toDigits_append_toDigits (by decide) ha hd,
    List.map_append]
  rfl

/-- A number with four digits. -/
theorem printNat_eq_fourDigits {n : Nat} (hlo : 1000 ≤ n) (hhi : n ≤ 9999) :
    printNat n = fourDigits n := by
  have hlow : twoDigits (n % 100) =
      printNat (n / 10 % 10) ++ printNat (n % 10) := by
    have hten : n % 100 / 10 = n / 10 % 10 := by omega
    have hone : n % 100 % 10 = n % 10 := by omega
    rw [twoDigits_eq_append _ (Nat.mod_lt n (by decide)), hten, hone]
  have hhigh : twoDigits (n / 100) = printNat (n / 100) := by
    rw [twoDigits, if_neg (by omega)]
  have hn : 10 * (n / 10) + n % 10 = n := by omega
  have hn' : 10 * (n / 100) + n / 10 % 10 = n / 10 := by omega
  rw [fourDigits, hhigh, hlow, ← List.append_assoc,
    ← printNat_append (by omega) (by omega), hn',
    ← printNat_append (by omega) (by omega), hn]

theorem length_printNat_le_three {n : Nat} :
    (printNat n).length ≤ 3 ↔ n < 1000 := by
  rw [printNat, List.length_map]
  exact Nat.length_toDigits_le_iff (by decide) (by decide)

theorem length_printNat_le_five {n : Nat} :
    (printNat n).length ≤ 5 ↔ n < 100000 := by
  rw [printNat, List.length_map]
  exact Nat.length_toDigits_le_iff (by decide) (by decide)

theorem length_printNat_pos (n : Nat) : 0 < (printNat n).length := by
  rw [printNat, List.length_map]
  exact Nat.length_toDigits_pos

/-! ## Reading a number -/

theorem readDigits_digit {hi n val d : Nat} (rp : CString) (hd : d < 10)
    (hval : val * 10 ≤ hi) :
    readDigits hi (n + 1) val (UInt8.ofNat (48 + d) :: rp) =
      readDigits hi n (val * 10 + d) rp := by
  have hbyte : (UInt8.ofNat (48 + d)).toNat - 48 = d := by
    rw [UInt8.toNat_ofNat']
    omega
  rw [readDigits, if_pos, hbyte]
  rw [isdigit_ofNat d hd, Bool.true_and]
  exact decide_eq_true hval

theorem readDigits_zero (hi val : Nat) (rp : CString) :
    readDigits hi 0 val rp = (val, rp) := by
  cases rp with
  | nil => rfl
  | cons c rp => rfl

theorem readDigits_twoDigits {hi n v : Nat} (m : Nat) (rp : CString)
    (h : n < 100) (hn : v * 100 + n ≤ hi) :
    readDigits hi (m + 2) v (twoDigits n ++ rp) =
      readDigits hi m (v * 100 + n) rp := by
  have hval : (v * 10 + n / 10) * 10 + n % 10 = v * 100 + n := by omega
  rw [twoDigits_eq n h]
  show readDigits hi (m + 1 + 1) v (UInt8.ofNat (48 + n / 10) ::
    (UInt8.ofNat (48 + n % 10) :: rp)) = _
  rw [readDigits_digit _ (by omega) (by omega),
    readDigits_digit _ (by omega) (by omega), hval]

/-- A field that starts with a digit. -/
theorem getNumber_of_digit {lo hi n d v : Nat} {rp rest : CString}
    (hd : d < 10)
    (hread : readDigits hi n 0 (UInt8.ofNat (48 + d) :: rp) = (v, rest))
    (hlo : lo ≤ v) (hhi : v ≤ hi) :
    getNumber lo hi n (UInt8.ofNat (48 + d) :: rp) = some (v, rest) := by
  have hskip : skipSpaces (UInt8.ofNat (48 + d) :: rp) =
      UInt8.ofNat (48 + d) :: rp := by
    rw [skipSpaces, List.dropWhile_cons_of_neg]
    rw [isspace_ofNat d hd]
    decide
  rw [getNumber, hskip]
  show (if isdigit (UInt8.ofNat (48 + d)) = true then _ else _) = _
  rw [if_pos (isdigit_ofNat d hd), hread]
  exact if_pos ⟨hlo, hhi⟩

/-- A field of two digits. -/
theorem getNumber_twoDigits {lo hi n : Nat} (rest : CString) (h : n < 100)
    (hlo : lo ≤ n) (hhi : n ≤ hi) :
    getNumber lo hi 2 (twoDigits n ++ rest) = some (n, rest) := by
  have hread : readDigits hi 2 0 (twoDigits n ++ rest) = (n, rest) := by
    rw [readDigits_twoDigits 0 rest h (by omega), readDigits_zero,
      Nat.zero_mul, Nat.zero_add]
  rw [twoDigits_eq n h] at hread ⊢
  exact getNumber_of_digit (by omega) hread hlo hhi

/-- A field of four digits. -/
theorem getNumber_fourDigits {n : Nat} (rest : CString) (h : n ≤ 9999) :
    getNumber 0 9999 4 (fourDigits n ++ rest) = some (n, rest) := by
  have hn : n / 100 * 100 + n % 100 = n := by omega
  have hread : readDigits 9999 4 0 (fourDigits n ++ rest) = (n, rest) := by
    rw [fourDigits, List.append_assoc,
      readDigits_twoDigits 2 _ (by omega) (by omega),
      readDigits_twoDigits 0 _ (by omega) (by omega), readDigits_zero,
      Nat.zero_mul, Nat.zero_add, hn]
  rw [fourDigits, twoDigits_eq (n / 100) (by omega)] at hread ⊢
  exact getNumber_of_digit (by omega) hread (Nat.zero_le n) h

/-! ## `strptime` -/

theorem skipSpaces_twoDigits {n : Nat} (rest : CString) (h : n < 100) :
    skipSpaces (32 :: (twoDigits n ++ rest)) = twoDigits n ++ rest := by
  rw [twoDigits_eq n h, skipSpaces, List.dropWhile_cons_of_pos (by decide)]
  show List.dropWhile isspace (UInt8.ofNat (48 + n / 10) :: _) = _
  rw [List.dropWhile_cons_of_neg]
  · rfl
  · rw [isspace_ofNat _ (by omega)]
    decide

/-- `strptime` reads the fields that were written. -/
theorem strptime_stampText {tm : Tm} (h : tm.InRange) (rest : CString) :
    strptime (stampText tm ++ rest) = some tm := by
  obtain ⟨hyear, hmon_pos, hmon, hmday_pos, hmday, hhour, hmin, hsec⟩ := h
  have htext : stampText tm ++ rest = fourDigits tm.year ++
      45 :: (twoDigits tm.mon ++ 45 :: (twoDigits tm.mday ++
        32 :: (twoDigits tm.hour ++ 58 :: (twoDigits tm.min ++
          58 :: (twoDigits tm.sec ++ rest))))) := by
    simp [stampText, restText]
  have hmatch : ∀ (c : UInt8) (s : CString), matchChar c (c :: s) = some s := by
    intro c s
    exact if_pos rfl
  have hread_year := fun rp => getNumber_fourDigits rp hyear
  have hread_mon := fun rp =>
    getNumber_twoDigits rp (by omega) hmon_pos hmon
  have hread_mday := fun rp =>
    getNumber_twoDigits rp (by omega) hmday_pos hmday
  have hread_hour := fun rp =>
    getNumber_twoDigits rp (by omega) (Nat.zero_le _) hhour
  have hread_min := fun rp =>
    getNumber_twoDigits rp (by omega) (Nat.zero_le _) hmin
  have hread_sec := fun rp =>
    getNumber_twoDigits rp (by omega) (Nat.zero_le _) hsec
  have hskip := fun rp => skipSpaces_twoDigits rp (by omega : tm.hour < 100)
  simp only [htext, strptime, hread_year, hread_mon, hread_mday, hread_hour,
    hread_min, hread_sec, hmatch, hskip, Option.bind_eq_bind,
    Option.bind_some]
  rfl

theorem getNumber_bounds {lo hi n v : Nat} {rp rest : CString}
    (h : getNumber lo hi n rp = some (v, rest)) : lo ≤ v ∧ v ≤ hi := by
  unfold getNumber at h
  split at h
  · cases h
  · split at h
    · dsimp only at h
      split at h
      · rename_i hv
        cases h
        exact hv
      · cases h
    · cases h

/-- The ranges of what `strptime` reads. -/
theorem strptime_inRange {text : CString} {tm : Tm}
    (h : strptime text = some tm) : tm.InRange := by
  obtain ⟨⟨year, _⟩, hyear, h⟩ := Option.bind_eq_some_iff.mp h
  obtain ⟨_, -, h⟩ := Option.bind_eq_some_iff.mp h
  obtain ⟨⟨mon, _⟩, hmon, h⟩ := Option.bind_eq_some_iff.mp h
  obtain ⟨_, -, h⟩ := Option.bind_eq_some_iff.mp h
  obtain ⟨⟨mday, _⟩, hmday, h⟩ := Option.bind_eq_some_iff.mp h
  obtain ⟨⟨hour, _⟩, hhour, h⟩ := Option.bind_eq_some_iff.mp h
  obtain ⟨_, -, h⟩ := Option.bind_eq_some_iff.mp h
  obtain ⟨⟨min, _⟩, hmin, h⟩ := Option.bind_eq_some_iff.mp h
  obtain ⟨_, -, h⟩ := Option.bind_eq_some_iff.mp h
  obtain ⟨⟨sec, _⟩, hsec, h⟩ := Option.bind_eq_some_iff.mp h
  cases h
  exact
    { year_le := (getNumber_bounds hyear).2
      mon_pos := (getNumber_bounds hmon).1
      mon_le := (getNumber_bounds hmon).2
      mday_pos := (getNumber_bounds hmday).1
      mday_le := (getNumber_bounds hmday).2
      hour_le := (getNumber_bounds hhour).2
      min_le := (getNumber_bounds hmin).2
      sec_le := (getNumber_bounds hsec).2 }

/-! ## `strftime` -/

theorem strftime_eq (tm : Tm) :
    strftime tm = printNat tm.year ++ restText 84 tm := by
  simp [strftime, restText]

/-- What `strftime` prints for a year of four digits. -/
theorem strftime_eq_isoText {tm : Tm} (hlo : 1000 ≤ tm.year)
    (hhi : tm.year ≤ 9999) : strftime tm = isoText tm := by
  rw [strftime_eq, isoText, printNat_eq_fourDigits hlo hhi]

theorem length_restText {tm : Tm} (h : tm.Valid) (separator : UInt8) :
    (restText separator tm).length = 15 := by
  have hmonth := daysInMonth_bounds tm.year tm.mon
  have hmon := length_twoDigits
    (Nat.lt_of_le_of_lt h.mon_le (by decide : 12 < 100))
  have hmday := length_twoDigits (Nat.lt_of_le_of_lt
    (Nat.le_trans h.mday_le hmonth.2) (by decide : 31 < 100))
  have hhour := length_twoDigits
    (Nat.lt_trans h.hour_lt (by decide : 24 < 100))
  have hmin := length_twoDigits (Nat.lt_trans h.min_lt (by decide : 60 < 100))
  have hsec := length_twoDigits (Nat.lt_trans h.sec_lt (by decide : 60 < 100))
  unfold restText
  simp only [List.length_cons, List.length_append]
  omega

/-! ## The fraction -/

/-- Nothing, or a dot and digits. -/
def IsFraction (s : CString) : Prop :=
  s = [] ∨ ∃ digits : CString, digits ≠ [] ∧
    (∀ c ∈ digits, isdigit c = true) ∧ s = 46 :: digits

section Strrchr

variable {c : UInt8} {s : CString}

theorem strrchr_eq_none (h : c ∉ s) : strrchr c s = none := by
  induction s with
  | nil => rfl
  | cons a s ih =>
      rw [List.mem_cons, not_or] at h
      rw [strrchr, ih h.2, if_neg (Ne.symm h.1)]
      rfl

theorem strrchr_append (h : c ∉ s) (t : CString) :
    strrchr c (s ++ t) = strrchr c t := by
  induction s with
  | nil => rfl
  | cons a s ih =>
      rw [List.mem_cons, not_or] at h
      show (strrchr c (s ++ t)).or _ = _
      rw [ih h.2, if_neg (Ne.symm h.1), Option.or_none]

theorem strrchr_cons_self (h : c ∉ s) : strrchr c (c :: s) = some (c :: s) := by
  rw [strrchr, strrchr_eq_none h, if_pos rfl]
  rfl

end Strrchr

theorem digit_of_mem_twoDigits {n : Nat} {c : UInt8} (h : c ∈ twoDigits n) :
    48 ≤ c := by
  unfold twoDigits at h
  split at h
  · by_cases hc : c = 48
    · rw [hc]
      decide
    · exact (printNat_digit (List.mem_of_ne_of_mem hc h)).1
  · exact (printNat_digit h).1

theorem dot_not_mem_stampText (tm : Tm) : (46 : UInt8) ∉ stampText tm := by
  have hdigits : ∀ n, (46 : UInt8) ∉ twoDigits n := by
    intro n h
    exact absurd (digit_of_mem_twoDigits h) (by decide)
  simp [stampText, fourDigits, restText, hdigits]

/-- The last dot of a text with a fraction is that of the fraction. -/
theorem strrchr_stampText (tm : Tm) {fraction : CString}
    (h : IsFraction fraction) :
    strrchr 46 (stampText tm ++ fraction) =
      if fraction = [] then none else some fraction := by
  rw [strrchr_append (dot_not_mem_stampText tm)]
  by_cases hnil : fraction = []
  · rw [if_pos hnil, hnil]
    rfl
  · obtain ⟨digits, -, hdigits, rfl⟩ := h.resolve_left hnil
    have hdot : (46 : UInt8) ∉ digits := by
      intro hmem
      exact absurd (hdigits 46 hmem) (by decide)
    rw [if_neg hnil, strrchr_cons_self hdot]

end DatahubEdge.Timestamp
