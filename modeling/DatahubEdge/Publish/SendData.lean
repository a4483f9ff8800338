import DatahubEdge.CJson.Print
import DatahubEdge.Message.Locality
import DatahubEdge.SqlText

/-!
# `SendData`

The entry point of the SDK for samples: build the payload, then hand it to
`mosquitto_publish`, or, while the connection is down, store it with an INSERT
for the recovery thread.  `SendDataMessage` has updated `pPrevious` by then,
whatever becomes of the payload.

Outside the model stand the text of a number (`printNumber`), SQLite
(`sqlite`), the time `_getTime` prints (`now`) and what `mosquitto_publish`
returns (`rc`).
-/

namespace DatahubEdge.Publish

open DatahubEdge.Message DatahubEdge.Sqlite Lib.Fold

/-- The globals `SendData` works on.  `pJsonRef` is what `cJSON_Parse` makes of
`json_ref`. -/
structure Client (Db : Type) (V : Type := Rat) where
  pPrevious : Previous V
  pJsonRef : Option CJson
  isConnected : Bool
  db : Db

/-- What a call of `SendData` does: the globals after it, its result, the
tree and the text of the payload, the result of `SendDataMessage`, the text
handed to `mosquitto_publish` and the statements run. -/
structure Outcome (Db : Type) (V : Type := Rat) where
  client : Client Db V
  returns : Int
  payload : Payload V
  text : CString
  valid : Bool
  published : Option CString
  executed : List (List Token)

section SendData

variable {Db V : Type} [AnalogValue V] (sqlite : Sqlite3 Db)
  (printNumber : Rat → CString)

/-- `SendData`.  The result of `sqlite3_exec` is not looked at. -/
def sendData (now : CString) (rc : Int) (s : Client Db V)
    (data : EdgeData V) : Except Fault (Outcome Db V) := do
  let sent ← sendDataMessage s.pJsonRef now s.pPrevious data
  let payload := printUnformatted printNumber sent.payload.toJson
  let s := { s with pPrevious := sent.pPrevious }
  let nothing : Outcome Db V := {
    client := s
    returns := 0
    payload := sent.payload
    text := payload
    valid := sent.dataExist
    published := none
    executed := [] }
  if sent.dataExist then
    if s.isConnected then
      if rc ≠ 0 then
        return { nothing with returns := 1, published := some payload }
      else return { nothing with published := some payload }
    else
      let result := exec sqlite s.db (insertSql payload)
      return { nothing with
        client := { s with db := result.db }
        executed := result.executed }
  else return nothing

variable {sqlite printNumber} {now : CString} {rc : Int} {s : Client Db V}
  {data : EdgeData V} {out : Outcome Db V}

/-- What every call does, whatever becomes of the payload. -/
theorem sendData_sent (h : sendData sqlite printNumber now rc s data = .ok out) :
    ∃ sent, sendDataMessage s.pJsonRef now s.pPrevious data = .ok sent ∧
      out.payload = sent.payload ∧ out.valid = sent.dataExist ∧
      out.text = printUnformatted printNumber out.payload.toJson ∧
      out.client.pPrevious = sent.pPrevious ∧
      out.client.pJsonRef = s.pJsonRef := by
  obtain ⟨sent, hsent, hrest⟩ := bind_eq_ok h
  refine ⟨sent, hsent, ?_⟩
  dsimp only at hrest
  split at hrest
  · split at hrest
    · split at hrest
      · cases hrest
        exact ⟨rfl, rfl, rfl, rfl, rfl⟩
      · cases hrest
        exact ⟨rfl, rfl, rfl, rfl, rfl⟩
    · cases hrest
      exact ⟨rfl, rfl, rfl, rfl, rfl⟩
  · cases hrest
    exact ⟨rfl, rfl, rfl, rfl, rfl⟩

/-- Offline, a payload with data is put into an INSERT. -/
theorem sendData_offline (h : sendData sqlite printNumber now rc s data = .ok out)
    (hoff : s.isConnected = false) (hvalid : out.valid = true) :
    out.executed = (exec sqlite s.db (insertSql out.text)).executed ∧
      out.client.db = (exec sqlite s.db (insertSql out.text)).db ∧
      out.returns = 0 := by
  obtain ⟨sent, hsent, hrest⟩ := bind_eq_ok h
  dsimp only at hrest
  rw [hoff] at hrest
  split at hrest
  · cases hrest
    exact ⟨rfl, rfl, rfl⟩
  · rename_i hno
    cases hrest
    exact absurd hvalid hno

/-- A call that hands its payload to `mosquitto_publish` in vain fails and
runs no statement. -/
theorem sendData_failed (h : sendData sqlite printNumber now rc s data = .ok out)
    (hconn : s.isConnected = true) (hvalid : out.valid = true) (hrc : rc ≠ 0) :
    out.returns = 1 ∧ out.executed = [] ∧
      out.client = { s with pPrevious := out.client.pPrevious } := by
  obtain ⟨sent, hsent, hrest⟩ := bind_eq_ok h
  dsimp only at hrest
  rw [if_pos hconn, if_pos hrc] at hrest
  split at hrest
  · cases hrest
    exact ⟨rfl, rfl, rfl⟩
  · rename_i hno
    cases hrest
    exact absurd hvalid hno

/-- Had the publish of a failed call succeeded, only the result would be
another. -/
theorem sendData_succeeded
    (h : sendData sqlite printNumber now rc s data = .ok out)
    (hconn : s.isConnected = true) (hvalid : out.valid = true) (hrc : rc ≠ 0) :
    sendData sqlite printNumber now 0 s data =
      .ok { out with returns := 0 } := by
  obtain ⟨sent, hsent, hrest⟩ := bind_eq_ok h
  dsimp only at hrest
  rw [if_pos hconn, if_pos hrc] at hrest
  split at hrest
  · rename_i hexist
    cases hrest
    unfold sendData
    rw [hsent]
    simp only [bind, Except.bind, hexist, hconn, if_true, ne_eq,
      not_true_eq_false, if_false]
    rfl
  · rename_i hno
    cases hrest
    exact absurd hvalid hno

end SendData

end DatahubEdge.Publish
