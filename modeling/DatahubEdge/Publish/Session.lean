import DatahubEdge.Publish.Offline
import DatahubEdge.Recover.InOrder
import Mathlib.Data.List.Perm.Subperm

/-!
# A session: samples, the connection and the recovery thread

`SendData` runs in the caller's thread while the recovery thread works on the
same table and the callbacks of mosquitto change `IsConnected`.  The call is
two steps here: up to the branch it takes, and what it does there; anything
may happen in between.  A payload that was to be published may then meet a
connection that is gone, and one that is stored a connection that is back.

## Main results

* `send_finish` — with nothing in between, the two steps are `sendData`.
* `Session.Traced.step` — a session does to the table what a run of the
  recovery model does.
* `handed_over_once` — what reaches `mosquitto_publish` on either way.
-/

namespace DatahubEdge.Publish

open DatahubEdge.Message DatahubEdge.Sqlite
open Lib.Fold
open scoped List

/-- Where the thread that calls `SendData` stands. -/
inductive Sender where
  | idle
  /-- in the branch `if(IsConnected)` -/
  | publishing (payload : CString)
  /-- in the `else` branch -/
  | storing (payload : CString)
  deriving DecidableEq

/-- The payload the sender holds. -/
def Sender.payload : Sender → List CString
  | .idle => []
  | .publishing payload => [payload]
  | .storing payload => [payload]

/-- What a call did with its payload. -/
inductive Fate where
  | published (payload : CString) (rc : Int)
  | stored (payload : CString)
  deriving DecidableEq

def Fate.payload : Fate → CString
  | .published payload _ => payload
  | .stored payload => payload

/-- The payloads the calls have handed to `mosquitto_publish`. -/
def livePayloads (calls : List Fate) : List CString :=
  calls.filterMap fun
    | .published payload _ => some payload
    | .stored _ => none

/-- The payloads the calls have put into an INSERT. -/
def storedPayloads (calls : List Fate) : List CString :=
  calls.filterMap fun
    | .published _ _ => none
    | .stored payload => some payload

theorem storedPayloads_append (calls calls' : List Fate) :
    storedPayloads (calls ++ calls') =
      storedPayloads calls ++ storedPayloads calls' :=
  List.filterMap_append

/-- The globals, the two threads, the texts of the payloads with data so far
and what became of those of the calls that are done. -/
structure Session where
  pPrevious : Previous
  pJsonRef : Option CJson
  sender : Sender
  recover : Recover.State
  built : List CString
  calls : List Fate

/-- A statement of some thread. -/
inductive Action where
  /-- `connect_callback` or `disconnect_callback` -/
  | connection (isConnected : Bool)
  /-- the recovery thread -/
  | recover (rc : Int)
  /-- `read_last_config` -/
  | config (pJsonRef : Option CJson)
  /-- `SendData` up to its branch; `now` is what `_getTime` prints -/
  | send (now : CString) (data : EdgeData)
  /-- the branch; `rc` is what `mosquitto_publish` returns -/
  | finish (rc : Int)

section Step

variable (sqlite : Sqlite3 Table) (printNumber : Rat → CString)

/-- One statement.  There is one calling thread: a call starts when the one
before it is done. -/
def Session.step (s : Session) : Action → Except Fault Session
  | .connection isConnected =>
      return { s with recover := { s.recover with isConnected := isConnected } }
  | .recover rc =>
      return { s with recover := Recover.recoverProc rc s.recover }
  | .config pJsonRef => return { s with pJsonRef := pJsonRef }
  | .send now data =>
      match s.sender with
      | .idle => do
          let sent ← sendDataMessage s.pJsonRef now s.pPrevious data
          let payload := printUnformatted printNumber sent.payload.toJson
          let s := { s with pPrevious := sent.pPrevious }
          if sent.dataExist then
            let s := { s with built := s.built ++ [payload] }
            if s.recover.isConnected then
              return { s with sender := .publishing payload }
            else return { s with sender := .storing payload }
          else return s
      | .publishing _ => return s
      | .storing _ => return s
  | .finish rc =>
      match s.sender with
      | .idle => return s
      | .publishing payload =>
          return { s with
            sender := .idle
            calls := s.calls ++ [.published payload rc] }
      | .storing payload =>
          let result := exec sqlite s.recover.table (insertSql payload)
          return { s with
            sender := .idle
            recover := { s.recover with table := result.db }
            calls := s.calls ++ [.stored payload] }

/-- A run of a session. -/
def Session.run (s : Session) (as : List Action) : Except Fault Session :=
  as.foldlM (Session.step sqlite printNumber) s

end Step

/-- The threads are created over the table the last session has left. -/
def Session.start (t : Table) (isConnected : Bool) : Session where
  pPrevious := initPrevious
  pJsonRef := none
  sender := .idle
  recover := Recover.start t isConnected
  built := []
  calls := []

/-- What `SendData` sees of a session. -/
def Session.client (s : Session) : Client Table where
  pPrevious := s.pPrevious
  pJsonRef := s.pJsonRef
  isConnected := s.recover.isConnected
  db := s.recover.table

section Session

variable {sqlite : Sqlite3 Table} {printNumber : Rat → CString} {s : Session}

/-- With nothing in between, the two steps of a call do what `sendData`
does. -/
theorem send_finish {now : CString} {data : EdgeData} {rc : Int}
    {out : Outcome Table} (hidle : s.sender = .idle)
    (h : sendData sqlite printNumber now rc s.client data = .ok out) :
    ∃ s', s.run sqlite printNumber [.send now data, .finish rc] = .ok s' ∧
      s'.client = out.client ∧ s'.sender = .idle ∧
      livePayloads s'.calls = livePayloads s.calls ++ out.published.toList := by
  obtain ⟨sent, hsent, hrest⟩ := bind_eq_ok h
  have hsent' : sendDataMessage s.pJsonRef now s.pPrevious data = .ok sent :=
    hsent
  have hconnected : s.client.isConnected = s.recover.isConnected := rfl
  dsimp only at hrest
  rw [hconnected] at hrest
  unfold Session.run
  simp only [List.foldlM_cons, List.foldlM_nil, Session.step, hidle, hsent',
    ok_bind]
  by_cases hexist : sent.dataExist = true
  · rw [if_pos hexist] at hrest ⊢
    by_cases hconn : s.recover.isConnected = true
    · rw [if_pos hconn] at hrest ⊢
      refine ⟨_, rfl, ?_⟩
      split at hrest
      · cases hrest
        exact ⟨rfl, rfl, by simp [livePayloads]⟩
      · cases hrest
        exact ⟨rfl, rfl, by simp [livePayloads]⟩
    · rw [if_neg hconn] at hrest ⊢
      refine ⟨_, rfl, ?_⟩
      cases hrest
      exact ⟨rfl, rfl, by simp [livePayloads]⟩
  · rw [if_neg hexist] at hrest ⊢
    simp only [pure, Except.pure, ok_bind]
    refine ⟨_, rfl, ?_⟩
    cases hrest
    exact ⟨rfl, rfl, by simp⟩

/-- The recovery thread's part of a session is a run of its model, in which
the others store what the calls have stored. -/
structure Session.Traced (t : Table) (isConnected : Bool) (s : Session) :
    Prop where
  recover : ∃ as, s.recover = Recover.run (Recover.start t isConnected) as ∧
    Recover.inserts as = storedPayloads s.calls
  built : s.built = s.calls.map Fate.payload ++ s.sender.payload
  plain : ∀ payload ∈ s.sender.payload, quote ∉ payload

variable {t : Table} {isConnected : Bool}

theorem Session.traced_start :
    Session.Traced t isConnected (Session.start t isConnected) where
  recover := ⟨[], rfl, rfl⟩
  built := rfl
  plain := fun _ hpayload => absurd hpayload List.not_mem_nil

/-- A step of the recovery model that stores nothing. -/
theorem Session.Traced.other (h : s.Traced t isConnected) {a : Recover.Action}
    (ha : Recover.inserts [a] = []) :
    ∃ as, Recover.step s.recover a =
        Recover.run (Recover.start t isConnected) as ∧
      Recover.inserts as = storedPayloads s.calls := by
  obtain ⟨as, has, hinserts⟩ := h.recover
  refine ⟨as ++ [a], ?_, ?_⟩
  · rw [has, Recover.run_snoc]
  · rw [Recover.inserts_append, ha, List.append_nil]
    exact hinserts

/-- Storing a payload without apostrophes is an insert of the recovery
model. -/
theorem Session.Traced.stored (hsqlite : Conforms sqlite)
    (hdata : ∀ table, sqlite.data table = some table)
    (h : s.Traced t isConnected) {payload : CString}
    (hplain : quote ∉ payload) :
    ∃ as, ({ s.recover with
          table := (exec sqlite s.recover.table (insertSql payload)).db } :
            Recover.State) =
        Recover.run (Recover.start t isConnected) as ∧
      Recover.inserts as = storedPayloads (s.calls ++ [.stored payload]) := by
  obtain ⟨as, has, hinserts⟩ := h.recover
  have hrow := (exec_insertSql hsqlite (hdata s.recover.table) hplain).2
  rw [hdata] at hrow
  refine ⟨as ++ [.insert payload], ?_, ?_⟩
  · rw [Recover.run_snoc, ← has, Option.some.inj hrow]
    rfl
  · rw [Recover.inserts_append, storedPayloads_append, hinserts]
    rfl

/-- No payload that is built in the step has an apostrophe. -/
def Plain (printNumber : Rat → CString) (s : Session) : Action → Prop
  | .connection _ => True
  | .recover _ => True
  | .config _ => True
  | .send now data =>
      ∀ sent, sendDataMessage s.pJsonRef now s.pPrevious data = .ok sent →
        quote ∉ printUnformatted printNumber sent.payload.toJson
  | .finish _ => True

theorem plain_send_iff {now : CString} {data : EdgeData} :
    (∀ sent ∈ (sendDataMessage s.pJsonRef now s.pPrevious data).toOption,
      quote ∉ printUnformatted printNumber sent.payload.toJson) ↔
        Plain printNumber s (.send now data) := by
  simp only [mem_toOption]
  rfl

instance (s : Session) :
    (a : Action) → Decidable (Plain printNumber s a)
  | .connection _ => .isTrue trivial
  | .recover _ => .isTrue trivial
  | .config _ => .isTrue trivial
  | .send _ _ => decidable_of_iff _ plain_send_iff
  | .finish _ => .isTrue trivial

/-- The first half of a call. -/
theorem Session.Traced.send (h : s.Traced t isConnected) {now : CString}
    {data : EdgeData} (hplain : Plain printNumber s (.send now data))
    {s' : Session} (hstep : s.step sqlite printNumber (.send now data) = .ok s') :
    s'.Traced t isConnected := by
  have hbuilt := h.built
  rw [Session.step] at hstep
  cases hsender : s.sender with
  | publishing payload =>
      rw [hsender] at hstep
      cases hstep
      exact h
  | storing payload =>
      rw [hsender] at hstep
      cases hstep
      exact h
  | idle =>
      rw [hsender] at hstep hbuilt
      obtain ⟨sent, hsent, hrest⟩ := bind_eq_ok hstep
      have hquote := hplain sent hsent
      have hone : ∀ payload ∈ [printUnformatted printNumber
          sent.payload.toJson], quote ∉ payload := by
        intro payload hpayload
        rw [List.mem_singleton.mp hpayload]
        exact hquote
      have hgrown : s.built ++ [printUnformatted printNumber
            sent.payload.toJson] =
          s.calls.map Fate.payload ++ [printUnformatted printNumber
            sent.payload.toJson] := by
        rw [hbuilt]
        simp [Sender.payload]
      dsimp only at hrest
      split at hrest
      · split at hrest
        · cases hrest
          exact ⟨h.recover, hgrown, hone⟩
        · cases hrest
          exact ⟨h.recover, hgrown, hone⟩
      · cases hrest
        exact ⟨h.recover, hbuilt, fun _ hpayload =>
          absurd hpayload List.not_mem_nil⟩

/-- The second half of a call. -/
theorem Session.Traced.finish (hsqlite : Conforms sqlite)
    (hdata : ∀ table, sqlite.data table = some table)
    (h : s.Traced t isConnected) {rc : Int} {s' : Session}
    (hstep : s.step sqlite printNumber (.finish rc) = .ok s') :
    s'.Traced t isConnected := by
  have hbuilt := h.built
  rw [Session.step] at hstep
  cases hsender : s.sender with
  | idle =>
      rw [hsender] at hstep
      cases hstep
      exact h
  | publishing payload =>
      rw [hsender] at hstep hbuilt
      cases hstep
      refine ⟨?_, ?_, fun _ hpayload => absurd hpayload List.not_mem_nil⟩
      · obtain ⟨as, has, hinserts⟩ := h.recover
        refine ⟨as, has, ?_⟩
        rw [hinserts, storedPayloads_append]
        exact (List.append_nil _).symm
      · rw [hbuilt]
        simp [Sender.payload, Fate.payload]
  | storing payload =>
      have hplain := h.plain payload (by simp [hsender, Sender.payload])
      rw [hsender] at hstep hbuilt
      cases hstep
      refine ⟨h.stored hsqlite hdata hplain, ?_,
        fun _ hpayload => absurd hpayload List.not_mem_nil⟩
      rw [hbuilt]
      simp [Sender.payload, Fate.payload]

theorem Session.Traced.step (hsqlite : Conforms sqlite)
    (hdata : ∀ table, sqlite.data table = some table)
    (h : s.Traced t isConnected) {a : Action} (hplain : Plain printNumber s a)
    {s' : Session} (hstep : s.step sqlite printNumber a = .ok s') :
    s'.Traced t isConnected := by
  cases a with
  | connection b =>
      cases hstep
      exact ⟨@Session.Traced.other s t isConnected h (.connection b) rfl,
        h.built, h.plain⟩
  | recover rc =>
      cases hstep
      exact ⟨@Session.Traced.other s t isConnected h (.recover rc) rfl,
        h.built, h.plain⟩
  | config pJsonRef =>
      cases hstep
      exact ⟨h.recover, h.built, h.plain⟩
  | send now data => exact h.send hplain hstep
  | finish rc => exact h.finish hsqlite hdata hstep

/-- Live or stored, a call that is done has handed its payload on. -/
theorem fates_perm (calls : List Fate) :
    livePayloads calls ++ storedPayloads calls ~ calls.map Fate.payload := by
  induction calls with
  | nil => exact List.Perm.refl _
  | cons fate calls ih =>
      cases fate with
      | published payload rc => exact ih.cons payload
      | stored payload => exact List.perm_middle.trans (ih.cons payload)

/-- **What reaches the broker.**  In every session whose payloads have no
apostrophe, with any connection changes and publish results and however the
threads interleave: live or recovered, a payload is handed to
`mosquitto_publish` no more often than calls have built it and the table held
it at the start; the recovered ones come in the order they were stored; and
what was stored and is not in the table was deleted. -/
theorem handed_over_once (hsqlite : Conforms sqlite)
    (hdata : ∀ table, sqlite.data table = some table) {as : List Action}
    (hplain : ∀ pre σ a, Visits (Session.step sqlite printNumber)
      (Session.start t isConnected) as pre σ a → Plain printNumber σ a)
    (hrun : (Session.start t isConnected).run sqlite printNumber as = .ok s) :
    let recovered := Recover.publishedPayloads s.recover.log
    let stored := t.rows.map Row.message ++ storedPayloads s.calls
    livePayloads s.calls ++ recovered <+~ t.rows.map Row.message ++ s.built ∧
      recovered <+ stored ∧
      stored = (Recover.deletedRows s.recover.log ++
        s.recover.table.rows).map Row.message := by
  have h : s.Traced t isConnected := by
    refine foldlM_invariant (P := fun _ σ => Session.Traced t isConnected σ)
      as s Session.traced_start ?_ hrun
    intro pre σ a σ' hvisit hσ hstep
    exact hσ.step hsqlite hdata (hplain pre σ a hvisit) hstep
  obtain ⟨as', hrecover, hinserts⟩ := h.recover
  have haccounts := Recover.accounts_run t isConnected as'
  rw [← hrecover] at haccounts
  have harchive := Recover.archive_messages t as'
  rw [hinserts] at harchive
  have hrecovered : Recover.publishedPayloads s.recover.log <+
      t.rows.map Row.message ++ storedPayloads s.calls := by
    rw [haccounts.payloads, ← harchive]
    exact haccounts.cursor.sublist.map _
  refine ⟨?_, hrecovered, ?_⟩
  · rw [h.built]
    have hstored : livePayloads s.calls ++
          Recover.publishedPayloads s.recover.log <+~
        livePayloads s.calls ++
          (t.rows.map Row.message ++ storedPayloads s.calls) :=
      (hrecovered.append_left _).subperm
    have hswap : livePayloads s.calls ++
          (t.rows.map Row.message ++ storedPayloads s.calls) ~
        t.rows.map Row.message ++
          (livePayloads s.calls ++ storedPayloads s.calls) := by
      rw [← List.append_assoc, ← List.append_assoc]
      exact List.perm_append_comm.append_right _
    have hdone : livePayloads s.calls ++ storedPayloads s.calls <+~
        s.calls.map Fate.payload ++ s.sender.payload :=
      (fates_perm s.calls).subperm.trans
        (List.sublist_append_left _ _).subperm
    exact hstored.trans (hswap.subperm.trans
      ((List.subperm_append_left _).mpr hdone))
  · rw [← harchive, haccounts.rows]

end Session

/-! ## A sample session -/

/-- A sample is published; two are stored while the connection is down, and
the recovery thread makes its first pass when it is back. -/
def sampleSession : List Action :=
  [.send [] (sampleText (cstr "a")), .finish 0, .connection false,
    .send [] (sampleText (cstr "b")), .finish 0,
    .send [] (sampleText (cstr "c")), .finish 0, .connection true] ++
    List.replicate 7 (.recover 0)

/-- One payload is handed over live and one of the two stored ones by the
recovery thread, which deletes both. -/
theorem sample_handed_over :
    ∃ s, (Session.start Table.empty true).run insertOnly wholeNumber
        sampleSession = .ok s ∧
      (livePayloads s.calls).length = 1 ∧
      (Recover.publishedPayloads s.recover.log).length = 1 ∧
      livePayloads s.calls ++ Recover.publishedPayloads s.recover.log <+~
        s.built ∧
      storedPayloads s.calls =
        (Recover.deletedRows s.recover.log).map Row.message := by
  obtain ⟨s, hrun, hval⟩ := exists_ok_of_any
    (x := (Session.start Table.empty true).run insertOnly wholeNumber
      sampleSession)
    (f := fun s => (livePayloads s.calls).length == 1 &&
      (Recover.publishedPayloads s.recover.log).length == 1 &&
      s.recover.table.rows.isEmpty)
    (by decide +kernel)
  simp only [Bool.and_eq_true, beq_iff_eq, List.isEmpty_iff] at hval
  obtain ⟨⟨hlive, hrecovered⟩, hempty⟩ := hval
  have hplain : ∀ v ∈ visits (Session.step insertOnly wholeNumber)
      (Session.start Table.empty true) sampleSession,
      Plain wholeNumber v.2.1 v.2.2 := by decide +kernel
  obtain ⟨honce, _, hstored⟩ := handed_over_once insertOnly_conforms
    (fun _ => rfl) (fun _ _ _ hv => hplain _ hv.mem_visits) hrun
  rw [hempty, List.append_nil] at hstored
  exact ⟨s, hrun, hlive, hrecovered, honce, hstored⟩

end DatahubEdge.Publish
