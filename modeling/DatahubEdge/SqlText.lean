import DatahubEdge.Sqlite

/-!
# The text of an INSERT

`asprintf(&_insertSql, InsertSql, payload)` puts the payload between two
apostrophes without doubling the ones inside, and `sqlite3_exec` runs the
statements of the text.  SQLite is a parameter, `Sqlite3`: how it splits a
text into tokens and what running a statement does.  `Conforms` is what the
code relies on: a literal `'...'` ends at its first apostrophe that is not
doubled, and inserting a literal appends a row.

## Main results

* `readLiteral_iff` — the literal in the text is the payload exactly when the
  payload has no apostrophe.
* `exec_insertSql_iff` — the same for the statements that are run.
-/

namespace DatahubEdge.Sqlite

/-! ## String literals -/

/-- The apostrophe. -/
def quote : UInt8 := 39

/-- What follows the opening apostrophe of a literal: its value and the text
after its closing apostrophe, none if it is never closed. -/
def readLiteral : CString → Option (CString × CString)
  | [] => none
  | [c] => if c = quote then some ([], []) else none
  | c :: d :: s =>
      if c = quote then
        if d = quote then (readLiteral s).map fun r => (quote :: r.1, r.2)
        else some ([], d :: s)
      else (readLiteral (d :: s)).map fun r => (c :: r.1, r.2)

/-- A text without apostrophes is read up to the closing one. -/
theorem readLiteral_append {s rest : CString} (h : quote ∉ s)
    (hrest : rest.head? ≠ some quote) :
    readLiteral (s ++ quote :: rest) = some (s, rest) := by
  induction s with
  | nil =>
      cases rest with
      | nil => rfl
      | cons d rest =>
          have hd : d ≠ quote := by simpa using hrest
          simp [readLiteral, hd]
  | cons c s ih =>
      have hc : c ≠ quote := fun heq => h (heq ▸ List.mem_cons_self)
      have hs : quote ∉ s := fun hmem => h (List.mem_cons_of_mem _ hmem)
      have hread := ih hs
      cases s with
      | nil =>
          rw [List.nil_append] at hread
          simp [readLiteral, hc, hread]
      | cons d s =>
          rw [List.cons_append] at hread
          simp [readLiteral, hc, hread]

/-- A literal takes one byte of text for each byte of its value, one more for
each apostrophe in it, and the closing one. -/
theorem readLiteral_length {s v rest : CString}
    (h : readLiteral s = some (v, rest)) :
    s.length = v.length + v.count quote + 1 + rest.length := by
  fun_induction readLiteral s generalizing v rest with
  | case1 => cases h
  | case2 => cases h; simp
  | case3 => cases h
  | case4 s ih =>
      obtain ⟨⟨v', rest'⟩, hr, heq⟩ := Option.map_eq_some_iff.mp h
      cases heq
      have := ih hr
      simp only [List.length_cons, List.count_cons_self]
      omega
  | case5 =>
      cases h
      simp only [List.length_cons, List.length_nil, List.count_nil]
      omega
  | case6 c d s hc ih =>
      obtain ⟨⟨v', rest'⟩, hr, heq⟩ := Option.map_eq_some_iff.mp h
      cases heq
      have := ih hr
      simp only [List.length_cons, List.count_cons_of_ne hc] at this ⊢
      omega

/-- The text up to the end of a literal ends with an apostrophe. -/
theorem readLiteral_closed {s v rest : CString}
    (h : readLiteral s = some (v, rest)) :
    ∃ body, s = body ++ quote :: rest := by
  fun_induction readLiteral s generalizing v rest with
  | case1 => cases h
  | case2 => cases h; exact ⟨[], rfl⟩
  | case3 => cases h
  | case4 s ih =>
      obtain ⟨⟨v', rest'⟩, hr, heq⟩ := Option.map_eq_some_iff.mp h
      cases heq
      obtain ⟨body, hbody⟩ := ih hr
      exact ⟨quote :: quote :: body, by simp [hbody]⟩
  | case5 => cases h; exact ⟨[], rfl⟩
  | case6 c d s hc ih =>
      obtain ⟨⟨v', rest'⟩, hr, heq⟩ := Option.map_eq_some_iff.mp h
      cases heq
      obtain ⟨body, hbody⟩ := ih hr
      exact ⟨c :: body, by simp [hbody]⟩

/-- Of a text put between apostrophes and before a parenthesis the literal is
the text exactly when no apostrophe is in it. -/
theorem readLiteral_iff (s : CString) :
    (∃ rest, readLiteral (s ++ cstr "')") = some (s, rest)) ↔ quote ∉ s := by
  have hclose : cstr "')" = quote :: cstr ")" := rfl
  rw [hclose]
  constructor
  · rintro ⟨rest, h⟩
    have hlen := readLiteral_length h
    have hone : (s ++ quote :: cstr ")").length = s.length + 2 := by
      simp [cstr]
    cases rest with
    | nil =>
        -- the text ends with a parenthesis, not with an apostrophe
        obtain ⟨body, hbody⟩ := readLiteral_closed h
        have hlast := congrArg List.getLast? hbody
        simp [cstr, byteOfChar, quote] at hlast
    | cons d rest =>
        rw [hone, List.length_cons] at hlen
        exact List.count_eq_zero.mp (by omega)
  · intro h
    exact ⟨cstr ")", readLiteral_append h (by decide)⟩

/-! ## Statements -/

/-- A token; what does not matter here is kept as its text. -/
inductive Token where
  | string (value : CString)
  | semi
  | illegal
  | other (text : CString)
  deriving DecidableEq

/-- The statements of a token list, `cur` being the tokens since the last
semicolon.  Nothing between two semicolons is no statement. -/
def statementsFrom (cur : List Token) : List Token → List (List Token)
  | [] => if cur = [] then [] else [cur]
  | .semi :: tokens =>
      if cur = [] then statementsFrom [] tokens
      else cur :: statementsFrom [] tokens
  | token :: tokens => statementsFrom (cur ++ [token]) tokens

theorem statementsFrom_append {l : List Token} (h : .semi ∉ l)
    (cur tokens : List Token) :
    statementsFrom cur (l ++ tokens) = statementsFrom (cur ++ l) tokens := by
  induction l generalizing cur with
  | nil => simp
  | cons token l ih =>
      have hl : Token.semi ∉ l := fun hmem => h (List.mem_cons_of_mem _ hmem)
      have hrest := ih hl (cur ++ [token])
      rw [List.append_assoc, List.singleton_append] at hrest
      cases token with
      | semi => exact absurd List.mem_cons_self h
      | string value => exact hrest
      | illegal => exact hrest
      | other text => exact hrest

/-- The first statement starts with the tokens collected. -/
theorem statementsFrom_head {cur : List Token} (h : cur ≠ [])
    (tokens : List Token) :
    ∃ more rest, statementsFrom cur tokens = (cur ++ more) :: rest := by
  induction tokens generalizing cur with
  | nil => exact ⟨[], [], by simp [statementsFrom, h]⟩
  | cons token tokens ih =>
      have hnext : ∀ t : Token,
          ∃ more rest, statementsFrom (cur ++ [t]) tokens =
            (cur ++ more) :: rest := by
        intro t
        have hcur : cur ++ [t] ≠ [] := by simp
        obtain ⟨more, rest, heq⟩ := ih hcur
        exact ⟨t :: more, rest, by simp [heq]⟩
      cases token with
      | semi => exact ⟨[], statementsFrom [] tokens, by simp [statementsFrom, h]⟩
      | string value => exact hnext (.string value)
      | illegal => exact hnext .illegal
      | other text => exact hnext (.other text)

/-! ## `sqlite3_exec` -/

/-- An SQLite library: how it splits a text into tokens, what running one
statement on a database gives, none if it fails, and the table `Data` of a
database, if there is one. -/
structure Sqlite3 (Db : Type) where
  lex : CString → List Token
  run : Db → List Token → Option Db
  data : Db → Option Table

/-- What `sqlite3_exec` leaves: the database, the statements that were run,
and whether all of them were. -/
structure Exec (Db : Type) where
  db : Db
  executed : List (List Token)
  ok : Bool

section Exec

variable {Db : Type} (e : Sqlite3 Db)

/-- Run one statement after the other, up to the first that fails. -/
def runAll (db : Db) : List (List Token) → Exec Db
  | [] => { db := db, executed := [], ok := true }
  | statement :: rest =>
      match e.run db statement with
      | none => { db := db, executed := [], ok := false }
      | some db' =>
          let r := runAll db' rest
          { r with executed := statement :: r.executed }

/-- `sqlite3_exec(db, sql, 0, 0, NULL)`. -/
def exec (db : Db) (sql : CString) : Exec Db :=
  runAll e db (statementsFrom [] (e.lex sql))

theorem runAll_executed (db : Db) (l : List (List Token)) :
    (runAll e db l).executed <+: l := by
  induction l generalizing db with
  | nil => exact List.prefix_refl _
  | cons statement rest ih =>
      rw [runAll]
      cases e.run db statement with
      | none => exact List.nil_prefix
      | some db' => exact (List.prefix_cons_inj statement).mpr (ih db')

end Exec

/-! ## The INSERT of a payload -/

/-- The text before the literal. -/
def insertHead : CString := cstr "INSERT INTO Data (message) VALUES("

/-- `asprintf(&_insertSql, InsertSql, payload)`. -/
def insertSql (payload : CString) : CString :=
  cstr "INSERT INTO Data (message) VALUES('" ++ payload ++ cstr "')"

section Insert

variable {Db : Type} {e : Sqlite3 Db}

/-- The tokens of a text that begins inside a literal. -/
def literalTokens (e : Sqlite3 Db) (s : CString) : List Token :=
  match readLiteral s with
  | none => [.illegal]
  | some (value, rest) => .string value :: e.lex rest

/-- The statement that inserts one literal. -/
def insertStatement (e : Sqlite3 Db) (value : CString) : List Token :=
  e.lex insertHead ++ .string value :: e.lex (cstr ")")

/-- What the code relies on. -/
structure Conforms (e : Sqlite3 Db) : Prop where
  literal : ∀ s, e.lex (insertHead ++ quote :: s) =
    e.lex insertHead ++ literalTokens e s
  head : .semi ∉ e.lex insertHead
  close : .semi ∉ e.lex (cstr ")")
  insert : ∀ db t value, e.data db = some t →
    ∃ db', e.run db (insertStatement e value) = some db' ∧
      e.data db' = some (t.insert value)

theorem insertSql_eq (payload : CString) :
    insertSql payload = insertHead ++ quote :: (payload ++ cstr "')") := by
  have hhead : cstr "INSERT INTO Data (message) VALUES('" =
      insertHead ++ [quote] := by decide
  rw [insertSql, hhead]
  simp

/-- The first statement of the text inserts the literal that is read. -/
theorem statements_insertSql (h : Conforms e) {payload : CString}
    {l : List (List Token)} {value : CString}
    (hl : statementsFrom [] (e.lex (insertSql payload)) =
      insertStatement e value :: l) :
    ∃ rest, readLiteral (payload ++ cstr "')") = some (value, rest) := by
  rw [insertSql_eq, h.literal, statementsFrom_append h.head,
    List.nil_append, literalTokens] at hl
  cases hr : readLiteral (payload ++ cstr "')") with
  | none =>
      rw [hr] at hl
      simp [statementsFrom, insertStatement] at hl
  | some r =>
      obtain ⟨v, rest⟩ := r
      simp only [hr, statementsFrom] at hl
      have hcur : e.lex insertHead ++ [.string v] ≠ [] := by simp
      obtain ⟨more, others, heq⟩ := statementsFrom_head hcur (e.lex rest)
      rw [heq, List.cons.injEq, insertStatement, List.append_assoc,
        List.append_cancel_left_eq] at hl
      have hv : v = value := by simpa using congrArg List.head? hl.1
      exact ⟨rest, by rw [hv]⟩

/-- A payload without apostrophes is inserted by the one statement of the
text. -/
theorem exec_insertSql (h : Conforms e) {db : Db} {t : Table}
    (hdata : e.data db = some t) {payload : CString}
    (hq : quote ∉ payload) :
    (exec e db (insertSql payload)).executed = [insertStatement e payload] ∧
      e.data (exec e db (insertSql payload)).db = some (t.insert payload) := by
  have hread : readLiteral (payload ++ cstr "')") =
      some (payload, cstr ")") := readLiteral_append hq (by decide)
  have htokens : e.lex (insertSql payload) = insertStatement e payload := by
    rw [insertSql_eq, h.literal, literalTokens, hread]
    rfl
  have hsemi : Token.semi ∉ insertStatement e payload := by
    simp [insertStatement, h.head, h.close]
  have hone : statementsFrom [] (insertStatement e payload) =
      [insertStatement e payload] := by
    have happend := statementsFrom_append hsemi [] []
    rw [List.append_nil, List.nil_append] at happend
    rw [happend]
    simp [statementsFrom, insertStatement]
  obtain ⟨db', hrun, hdata'⟩ := h.insert db t payload hdata
  rw [exec, htokens, hone, runAll, hrun]
  exact ⟨rfl, hdata'⟩

/-- The text runs the INSERT of the payload and nothing else exactly when the
payload has no apostrophe. -/
theorem exec_insertSql_iff (h : Conforms e) {db : Db} {t : Table}
    (hdata : e.data db = some t) (payload : CString) :
    (exec e db (insertSql payload)).executed = [insertStatement e payload] ↔
      quote ∉ payload := by
  constructor
  · intro hexec
    rw [← readLiteral_iff]
    have hinit := runAll_executed e db
      (statementsFrom [] (e.lex (insertSql payload)))
    rw [← exec, hexec] at hinit
    obtain ⟨l, hl⟩ := hinit
    exact statements_insertSql h hl.symm
  · intro hq
    exact (exec_insertSql h hdata hq).1

end Insert

end DatahubEdge.Sqlite
