import DatahubEdge.Message.Run
import DatahubEdge.Message.Strings
import DatahubEdge.Publish.SendData

/-!
# Storing a payload while the connection is down

The payload is put between the apostrophes of an SQL literal as it is.  The
JSON printer escapes quotation marks, not apostrophes, so an apostrophe in any
string of the message ends the literal or is read as half of a doubled one.

## Main results

* `stored_iff` — `SendData` stores its payload, and runs nothing but the INSERT
  of it, exactly when no string that is put into the payload has an apostrophe.
-/

namespace DatahubEdge.Publish

open DatahubEdge.Message DatahubEdge.Sqlite Lib.Fold

/-- The one statement run is the INSERT of the payload, and the table ends
with one new row that holds it. -/
structure Stored {Db V : Type} (sqlite : Sqlite3 Db) (t : Table)
    (out : Outcome Db V) : Prop where
  executed : out.executed = [insertStatement sqlite out.text]
  row : ∃ t' id, sqlite.data out.client.db = some t' ∧
    t'.rows = t.rows ++ [⟨id, out.text⟩]

/-- Offline, a payload is stored exactly when no string that the message, the
configuration and the retained values put into it has an apostrophe. -/
theorem stored_iff {Db V : Type} [AnalogValue V] {sqlite : Sqlite3 Db}
    {printNumber : Rat → CString} {now : CString} {rc : Int}
    {s : Client Db V} {data : EdgeData V} {out : Outcome Db V} {t : Table}
    (hsqlite : Conforms sqlite) (hnum : ∀ q, quote ∉ printNumber q)
    (hdata : sqlite.data s.db = some t) (hoff : s.isConnected = false)
    (h : sendData sqlite printNumber now rc s data = .ok out)
    (hvalid : out.valid = true) :
    (out.returns = 0 → Stored sqlite t out) ↔
      ∀ str, Carried s.pJsonRef s.pPrevious data now str → quote ∉ str := by
  obtain ⟨sent, hsent, hpayload, _, htext, _⟩ := sendData_sent h
  obtain ⟨hexecuted, hdb, hret⟩ := sendData_offline h hoff hvalid
  have hquote : quote ∉ out.text ↔
      ∀ str, Carried s.pJsonRef s.pPrevious data now str → quote ∉ str := by
    have hmentions := mentions_payload_iff hsent
    rw [← hpayload, ← quote_mem_printUnformatted hnum, ← htext] at hmentions
    rw [quote, hmentions]
    simp
  rw [← hquote, ← exec_insertSql_iff hsqlite hdata, ← hexecuted]
  constructor
  · intro hstored
    exact (hstored hret).executed
  · intro hone _
    rw [hexecuted, exec_insertSql_iff hsqlite hdata] at hone
    obtain ⟨hone', hrow⟩ := exec_insertSql hsqlite hdata hone
    refine ⟨hexecuted.trans hone', t.insert out.text, t.seq + 1, ?_, rfl⟩
    rw [hdb]
    exact hrow

/-! ## A small SQLite -/

/-- Tokens byte by byte; `value` holds what has been read of a literal. -/
def lexFrom : Option CString → CString → List Token
  | none, [] => []
  | some _, [] => [.illegal]
  | none, c :: s =>
      if c = quote then lexFrom (some []) s
      else if c = 59 then .semi :: lexFrom none s
      else .other [c] :: lexFrom none s
  | some value, [c] => if c = quote then [.string value] else [.illegal]
  | some value, c :: d :: s =>
      if c = quote then
        if d = quote then lexFrom (some (value ++ [quote])) s
        else .string value :: lexFrom none (d :: s)
      else lexFrom (some (value ++ [c])) (d :: s)

/-- An SQLite over a single table that knows the INSERT of a literal and
takes every other statement for a syntax error. -/
def insertOnly : Sqlite3 Table where
  lex := lexFrom none
  run t tokens :=
    match tokens.drop (lexFrom none insertHead).length with
    | .string value :: _ =>
        if tokens = lexFrom none insertHead ++
            .string value :: lexFrom none (cstr ")") then
          some (t.insert value)
        else none
    | _ => none
  data := some

theorem lexFrom_literal (s : CString) :
    ∀ value : CString, lexFrom (some value) s =
      match readLiteral s with
      | none => [.illegal]
      | some (v, rest) => .string (value ++ v) :: lexFrom none rest := by
  fun_induction readLiteral s with
  | case1 => simp [lexFrom]
  | case2 => simp [lexFrom]
  | case3 c hc => simp [lexFrom, hc]
  | case4 s ih =>
      intro value
      rw [lexFrom, if_pos rfl, if_pos rfl, ih]
      cases readLiteral s with
      | none => rfl
      | some r => simp
  | case5 d s hd => simp [lexFrom, hd]
  | case6 c d s hc ih =>
      intro value
      rw [lexFrom, if_neg hc, ih]
      cases readLiteral (d :: s) with
      | none => rfl
      | some r => simp

/-- Outside of literals the bytes are read one by one. -/
theorem lexFrom_plain {l : CString} (h : ∀ c ∈ l, c ≠ quote ∧ c ≠ 59)
    (s : CString) :
    lexFrom none (l ++ s) = l.map (fun c => .other [c]) ++ lexFrom none s := by
  induction l with
  | nil => rfl
  | cons c l ih =>
      obtain ⟨hq, hsemi⟩ := h c List.mem_cons_self
      rw [List.cons_append, lexFrom, if_neg hq, if_neg hsemi,
        ih fun b hb => h b (List.mem_cons_of_mem _ hb)]
      rfl

theorem insertOnly_conforms : Conforms insertOnly := by
  have hplain : ∀ c ∈ insertHead, c ≠ quote ∧ c ≠ 59 := by decide +kernel
  have hhead : lexFrom none insertHead =
      insertHead.map fun c => .other [c] := by
    have := lexFrom_plain hplain []
    simpa [lexFrom] using this
  refine ⟨?_, ?_, ?_, ?_⟩
  · intro s
    show lexFrom none (insertHead ++ quote :: s) = lexFrom none insertHead ++ _
    rw [lexFrom_plain hplain, hhead, lexFrom, if_pos rfl, lexFrom_literal,
      literalTokens]
    cases readLiteral s with
    | none => rfl
    | some r => simp [insertOnly]
  · show Token.semi ∉ lexFrom none insertHead
    rw [hhead]
    simp
  · decide +kernel
  · intro t t' value ht
    cases ht
    refine ⟨t.insert value, ?_, rfl⟩
    simp [insertOnly, insertStatement]

/-! ## Sample messages -/

/-- The text of a whole number. -/
def wholeNumber (q : Rat) : CString := printInt q.num

/-- A client without a connection and with an empty table. -/
def sampleOffline : Client Table where
  pPrevious := initPrevious
  pJsonRef := none
  isConnected := false
  db := Table.empty

/-- The device `A` with the text tag `t`. -/
def sampleText (value : CString) : EdgeData where
  deviceList := some
    [{ id := some (cstr "A")
       textTagList := [{ name := some (cstr "t"), value := some value }] }]

/-- A text with an apostrophe closes the literal: the statement is refused,
nothing is stored, and the call returns 0. -/
theorem quote_not_stored :
    ∃ out, sendData insertOnly wholeNumber [] 0 sampleOffline
        (sampleText (cstr "it's")) = .ok out ∧
      out.valid = true ∧ out.returns = 0 ∧
      ¬ Stored insertOnly Table.empty out := by
  obtain ⟨out, hout, hval⟩ := exists_ok_of_any
    (x := sendData insertOnly wholeNumber [] 0 sampleOffline
      (sampleText (cstr "it's")))
    (f := fun out => out.valid && out.returns == 0 && out.executed.isEmpty)
    (by decide +kernel)
  simp only [Bool.and_eq_true, beq_iff_eq, List.isEmpty_iff] at hval
  obtain ⟨⟨hvalid, hret⟩, hnone⟩ := hval
  refine ⟨out, hout, hvalid, hret, ?_⟩
  intro hstored
  have hone := hstored.executed
  rw [hnone] at hone
  cases hone

/-- A text without apostrophes is stored. -/
theorem plain_stored :
    ∃ out, sendData insertOnly wholeNumber [] 0 sampleOffline
        (sampleText (cstr "its")) = .ok out ∧
      Stored insertOnly Table.empty out := by
  obtain ⟨out, hout, hval⟩ := exists_ok_of_any
    (x := sendData insertOnly wholeNumber [] 0 sampleOffline
      (sampleText (cstr "its")))
    (f := fun out => out.valid && out.returns == 0 &&
      !out.text.contains quote)
    (by decide)
  simp only [Bool.and_eq_true, beq_iff_eq, Bool.not_eq_true',
    List.contains_eq_mem, decide_eq_false_iff_not] at hval
  obtain ⟨⟨hvalid, hret⟩, hquote⟩ := hval
  have hnum : ∀ q, quote ∉ wholeNumber q := fun q =>
    quote_not_mem_printInt q.num
  refine ⟨out, hout, (stored_iff insertOnly_conforms hnum rfl rfl hout
    hvalid).mpr ?_ hret⟩
  obtain ⟨sent, hsent, hpayload, _, htext, _⟩ := sendData_sent hout
  intro str hstr hq
  refine hquote ?_
  rw [htext, quote, quote_mem_printUnformatted hnum, hpayload,
    mentions_payload_iff hsent]
  exact ⟨str, hstr, hq⟩

end DatahubEdge.Publish
