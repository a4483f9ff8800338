import DatahubEdge.Timestamp.Text
import DatahubEdge.Message.Run

/-!
# The timestamp of a payload

A payload is well stamped when it has one `ts` member and the caller's time,
where it is a date with or without a fraction, stands there in the form with
the `T` and with its fraction.  `SendDataMessage` writes no member when
`strptime` fails, takes the fraction from the last dot anywhere in the text
into a buffer of fixed size, and prints `(null)` when there is no dot.

## Main results

* `tsMember_of_strptime`, `tsMember_of_none` — the text that is written.
* `stamp_eq_iff` — when a date with a fraction is written as it should be.
* `wellStamped_iff` — the times for which the payload is well stamped.
-/

namespace DatahubEdge.Message

open Timestamp Lib.Fold

/-- The members of a payload under `ts`. -/
def tsMembers (payload : CJson) : Obj CJson :=
  payload.fields.filter fun e => decide (e.1 = cstr "ts")

/-- The text is the date `YYYY-MM-DD hh:mm:ss` followed by the fraction. -/
structure Stamp (text : CString) (tm : Tm) (fraction : CString) : Prop where
  inRange : tm.InRange
  isFraction : IsFraction fraction
  text_eq : text = stampText tm ++ fraction

/-- The text fits into `ts`, so that the call ends; the payload has one `ts`
member, and for a date with or without a fraction this is the date of the same
instant followed by the same fraction. -/
def WellStamped (text : CString) : Except Fault Sent → Prop
  | .error _ => False
  | .ok sent =>
      ∃ ts, tsMembers sent.payload.toJson = [(cstr "ts", .string ts)] ∧
        ∀ tm fraction, Stamp text tm fraction →
          ∃ date : Tm, date.Valid ∧ date.year ≤ 9999 ∧
            instant date = instant tm ∧ ts = isoText date ++ fraction

/-- `strptime` accepts the text, the date of its instant and what follows the
last dot fit into the buffer, and where the text is a date it has a fraction
and the year has four digits. -/
def Stampable (text : CString) : Prop :=
  ∃ ltm date : Tm, strptime text = some ltm ∧ date.Valid ∧
    instant date = instant ltm ∧
    (∀ tld, strrchr 46 text = some tld →
      (printNat date.year).length + 15 + tld.length < tsBufLen) ∧
    ∀ tm fraction, Stamp text tm fraction →
      fraction ≠ [] ∧ 1000 ≤ date.year ∧ date.year ≤ 9999

/-! ## What is written -/

/-- What is printed after the date. -/
def printedTail (text : CString) : CString :=
  (strrchr 46 text).getD (cstr "(null)")

variable {text now : CString}

theorem tsMember_of_none (h : strptime text = none) :
    tsMember (some text) now = .ok none := by
  simp only [tsMember, h]

theorem tsMember_of_strptime {ltm : Tm} (h : strptime text = some ltm) :
    tsMember (some text) now =
      if (strftime (carry ltm) ++ printedTail text).length < tsBufLen then
        .ok (some (strftime (carry ltm) ++ printedTail text))
      else .error .bufferOverflow := by
  simp only [tsMember, h]
  rfl

theorem length_strftime {date : Tm} (h : date.Valid) :
    (strftime date).length = (printNat date.year).length + 15 := by
  rw [strftime_eq, List.length_append, length_restText h]

/-- Without a dot the text fits. -/
theorem length_lt_iff (text : CString) {date : Tm} (h : date.Valid)
    (hyear : date.year ≤ 10000) :
    (strftime date ++ printedTail text).length < tsBufLen ↔
      ∀ tld, strrchr 46 text = some tld →
        (printNat date.year).length + 15 + tld.length < tsBufLen := by
  rw [List.length_append, length_strftime h, printedTail]
  cases hdot : strrchr 46 text with
  | none =>
      have hnull : (cstr "(null)").length = 6 := by decide
      have hlen : (printNat date.year).length ≤ 5 :=
        length_printNat_le_five.mpr (by omega)
      apply iff_of_true
      · rw [Option.getD_none, hnull, tsBufLen]
        omega
      · intro tld htld
        cases htld
  | some tld =>
      rw [Option.getD_some]
      constructor
      · intro hlt tld' htld
        cases htld
        exact hlt
      · intro hlt
        exact hlt tld rfl

/-- A date with a fraction is written as it should be exactly when there is a
fraction and the year has four digits. -/
theorem stamp_eq_iff {date tm : Tm} {fraction : CString}
    (h : Stamp text tm fraction) (hdate : date.Valid) :
    (date.year ≤ 9999 ∧
      strftime date ++ printedTail text = isoText date ++ fraction) ↔
      fraction ≠ [] ∧ 1000 ≤ date.year ∧ date.year ≤ 9999 := by
  have htail : printedTail text =
      if fraction = [] then cstr "(null)" else fraction := by
    rw [printedTail, h.text_eq, strrchr_stampText tm h.isFraction]
    by_cases hnil : fraction = []
    · rw [if_pos hnil, if_pos hnil]
      rfl
    · rw [if_neg hnil, if_neg hnil]
      rfl
  constructor
  · rintro ⟨hyear, heq⟩
    have hlen := congrArg List.length heq
    rw [List.length_append, List.length_append, length_strftime hdate, isoText,
      List.length_append, length_fourDigits hyear, length_restText hdate,
      htail] at hlen
    have hpos := length_printNat_pos date.year
    by_cases hnil : fraction = []
    · have hnull : (cstr "(null)").length = 6 := by decide
      rw [if_pos hnil, hnil, hnull, List.length_nil] at hlen
      omega
    · rw [if_neg hnil] at hlen
      have hfour : ¬ (printNat date.year).length ≤ 3 := by omega
      rw [length_printNat_le_three] at hfour
      exact ⟨hnil, by omega, hyear⟩
  · rintro ⟨hne, hlo, hhi⟩
    rw [htail, if_neg hne, strftime_eq_isoText hlo hhi]
    exact ⟨hhi, rfl⟩

/-! ## The payload -/

theorem tsMembers_toJson (payload : Payload) :
    tsMembers payload.toJson =
      match payload.ts with
      | none => []
      | some ts => [(cstr "ts", .string ts)] := by
  have hd : ¬ cstr "d" = cstr "ts" := by decide
  unfold tsMembers Payload.toJson CJson.fields
  rw [List.filter_cons_of_neg (by simpa using hd)]
  cases payload.ts with
  | none => rfl
  | some ts => simp

theorem sendDataMessage_of_loop {pJsonRef : Option CJson} {p : Previous}
    {data : EdgeData} {s : DeviceLoop}
    (hloop : deviceLoop pJsonRef p data = .ok s) :
    sendDataMessage pJsonRef now p data =
      (tsMember data.time now >>= fun ts => .ok {
        pPrevious := s.pPrevious
        payload := { d := s.subJsonD, ts := ts }
        dataExist := s.dataExist }) := by
  rw [sendDataMessage, hloop, ok_bind]
  rfl

theorem carry_year_le {tm : Tm} (h : tm.InRange) :
    (carry tm).year ≤ 10000 := by
  have hyear := h.year_le
  unfold carry
  dsimp only
  split
  · split <;> omega
  · split <;> omega

/-- The date of the condition is the one `carry` yields. -/
theorem stampable_iff {ltm : Tm} (hltm : strptime text = some ltm) :
    Stampable text ↔
      (∀ tld, strrchr 46 text = some tld →
        (printNat (carry ltm).year).length + 15 + tld.length < tsBufLen) ∧
      ∀ tm fraction, Stamp text tm fraction →
        fraction ≠ [] ∧ 1000 ≤ (carry ltm).year ∧
          (carry ltm).year ≤ 9999 := by
  have hrange := strptime_inRange hltm
  constructor
  · rintro ⟨ltm', date, hltm', hdate, heq, h⟩
    rw [hltm] at hltm'
    cases hltm'
    rw [carry_eq_of_valid hrange hdate heq]
    exact h
  · intro h
    exact ⟨ltm, carry ltm, hltm, valid_carry hrange, instant_carry hrange, h⟩

theorem Stamp.strptime_eq {tm : Tm} {fraction : CString}
    (h : Stamp text tm fraction) : strptime text = some tm := by
  rw [h.text_eq]
  exact strptime_stampText h.inRange fraction

/-- A payload with the text that is written. -/
theorem wellStamped_ok_iff {ltm : Tm} (hltm : strptime text = some ltm)
    {sent : Sent}
    (hts : sent.payload.ts =
      some (strftime (carry ltm) ++ printedTail text)) :
    WellStamped text (.ok sent) ↔
      ∀ tm fraction, Stamp text tm fraction →
        fraction ≠ [] ∧ 1000 ≤ (carry ltm).year ∧
          (carry ltm).year ≤ 9999 := by
  have hrange := strptime_inRange hltm
  have hmember : tsMembers sent.payload.toJson =
      [(cstr "ts", .string (strftime (carry ltm) ++ printedTail text))] := by
    rw [tsMembers_toJson, hts]
  constructor
  · rintro ⟨ts, hone, hform⟩ tm fraction hstamp
    rw [hmember] at hone
    cases hone
    obtain ⟨date, hdate, hyear, heq, htext⟩ := hform tm fraction hstamp
    have htm : ltm = tm :=
      Option.some.inj (hltm.symm.trans hstamp.strptime_eq)
    have hcarry : carry ltm = date :=
      carry_eq_of_valid hrange hdate (htm ▸ heq)
    rw [hcarry] at htext ⊢
    exact (stamp_eq_iff hstamp hdate).mp ⟨hyear, htext⟩
  · intro h
    refine ⟨_, hmember, ?_⟩
    intro tm fraction hstamp
    have htm : ltm = tm :=
      Option.some.inj (hltm.symm.trans hstamp.strptime_eq)
    have hdate := valid_carry hrange
    have hwritten := (stamp_eq_iff hstamp hdate).mpr (h tm fraction hstamp)
    have hinstant := instant_carry hrange
    rw [htm] at hdate hwritten hinstant ⊢
    exact ⟨carry tm, hdate, hwritten.1, hinstant, hwritten.2⟩

/-- The times for which the payload is well stamped. -/
theorem wellStamped_iff {pJsonRef : Option CJson} {p : Previous}
    {data : EdgeData} {s : DeviceLoop} (htime : data.time = some text)
    (hloop : deviceLoop pJsonRef p data = .ok s) :
    WellStamped text (sendDataMessage pJsonRef now p data) ↔
      Stampable text := by
  rw [sendDataMessage_of_loop hloop, htime]
  cases hltm : strptime text with
  | none =>
      rw [tsMember_of_none hltm, ok_bind]
      apply iff_of_false
      · rintro ⟨ts, hts, -⟩
        rw [tsMembers_toJson] at hts
        cases hts
      · rintro ⟨ltm, date, hsome, -⟩
        rw [hltm] at hsome
        cases hsome
  | some ltm =>
      have hrange := strptime_inRange hltm
      have hdate := valid_carry hrange
      have hlen := length_lt_iff text hdate (carry_year_le hrange)
      rw [stampable_iff hltm, tsMember_of_strptime hltm, ← hlen]
      by_cases hlt : (strftime (carry ltm) ++ printedTail text).length <
          tsBufLen
      · rw [if_pos hlt, ok_bind]
        have hts : (Sent.mk s.pPrevious
            { d := s.subJsonD
              ts := some (strftime (carry ltm) ++ printedTail text) }
            s.dataExist).payload.ts =
              some (strftime (carry ltm) ++ printedTail text) := rfl
        exact (wellStamped_ok_iff hltm hts).trans (and_iff_right hlt).symm
      · rw [if_neg hlt]
        exact iff_of_false (fun h => h) (fun h => hlt h.1)

/-! ## Sample times -/

/-- A message with one discrete value at the given time. -/
def sampleAt (time : CString) : EdgeData where
  time := some time
  deviceList := some
    [{ id := some (cstr "A")
       discreteTagList := [{ name := some (cstr "t"), value := 1 }] }]

/-- The date of the samples. -/
def sampleTm : Tm where
  year := 2020
  mon := 1
  mday := 2
  hour := 3
  min := 4
  sec := 5

theorem sampleTm_inRange : sampleTm.InRange := by
  constructor <;> decide

/-- A time with milliseconds. -/
theorem milliseconds_stamped :
    WellStamped (cstr "2020-01-02 03:04:05.678")
      (sendDataMessage none [] initPrevious
        (sampleAt (cstr "2020-01-02 03:04:05.678"))) := by
  obtain ⟨s, hloop, -⟩ := exists_ok_of_any
    (x := deviceLoop none initPrevious
      (sampleAt (cstr "2020-01-02 03:04:05.678")))
    (f := fun _ => true) (by decide)
  apply (wellStamped_iff rfl hloop).mpr
  have hdot : strrchr 46 (cstr "2020-01-02 03:04:05.678") =
      some (cstr ".678") := by decide
  have hltm : strptime (cstr "2020-01-02 03:04:05.678") = some sampleTm := by
    decide
  rw [stampable_iff hltm, hdot]
  constructor
  · intro tld htld
    cases htld
    decide
  · intro tm fraction hstamp
    have hfraction := strrchr_stampText tm hstamp.isFraction
    rw [← hstamp.text_eq, hdot] at hfraction
    refine ⟨?_, by decide, by decide +kernel⟩
    intro hnil
    rw [if_pos hnil] at hfraction
    cases hfraction

/-- After a time without a fraction stands `(null)`. -/
theorem no_fraction_null :
    ∃ sent, sendDataMessage none [] initPrevious
        (sampleAt (cstr "2020-01-02 03:04:05")) = .ok sent ∧
      sent.dataExist = true ∧
      ¬ WellStamped (cstr "2020-01-02 03:04:05") (.ok sent) := by
  have hltm : strptime (cstr "2020-01-02 03:04:05") = some sampleTm := by
    decide
  have htext : cstr "2020-01-02 03:04:05" = stampText sampleTm ++ [] := by
    decide
  obtain ⟨sent, hsent, hval⟩ := exists_ok_of_any
    (x := sendDataMessage none [] initPrevious
      (sampleAt (cstr "2020-01-02 03:04:05")))
    (f := fun sent => sent.dataExist && decide (sent.payload.ts =
      some (strftime (carry sampleTm) ++
        printedTail (cstr "2020-01-02 03:04:05")))) (by decide)
  rw [Bool.and_eq_true, decide_eq_true_iff] at hval
  refine ⟨sent, hsent, hval.1, ?_⟩
  intro hstamped
  have hall := (wellStamped_ok_iff hltm hval.2).mp hstamped sampleTm []
    ⟨sampleTm_inRange, Or.inl rfl, htext⟩
  exact hall.1 rfl

end DatahubEdge.Message
