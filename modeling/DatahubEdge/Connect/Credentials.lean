import DatahubEdge.CJson.Parse
import DatahubEdge.CJson.Truncate
import DatahubEdge.EdgeData
import DatahubEdge.Lib.Fold

/-!
# `ParseConnectJson`

The response of the credential service is parsed and four of its members are
stored in the four outputs, one after the other and without looking whether
the member is there.  The texts on the console are left out; `cJSON_Print`
yields a text for every node, so the branch on it is on the node being there.

## Main results

* `parseConnectJson_true_iff` — the function returns true exactly when there
  is no message and the four members are there, of whatever type.
* `allOrNothing_iff` — on which responses it sets all outputs or none.
-/

namespace DatahubEdge.Connect

open Lib.Fold

/-- The outputs `pHost`, `pUser`, `pPwd` and `pPort`. -/
structure Credentials where
  host : Option CString
  user : Option CString
  pwd : Option CString
  port : Int
  deriving DecidableEq

/-- The node a pointer leads to, when one of its members is read. -/
def deref (node : Option CJson) : Except Fault CJson :=
  match node with
  | none => .error .nullDeref
  | some node => .ok node

section Response

variable (strtod : CString → Option (Rat × Nat)) (secure : Bool)

/-- The node of the protocol that is used. -/
def mqttssl (root : CJson) : Option CJson :=
  let cred := CJson.getItem (some root) (some (cstr "credential"))
  let protocols := CJson.getItem cred (some (cstr "protocols"))
  if secure then CJson.getItem protocols (some (cstr "mqtt+ssl"))
  else CJson.getItem protocols (some (cstr "mqtt"))

/-- The assignments of `ParseConnectJson`. -/
def assignOutputs (root : CJson) (out : Credentials) :
    Except Fault Credentials := do
  let host ← deref (CJson.getItem (some root) (some (cstr "serviceHost")))
  let out := { out with host := some (printString host.valuestring) }
  let mqttssl := mqttssl secure root
  let username := CJson.getItem mqttssl (some (cstr "username"))
  let password := CJson.getItem mqttssl (some (cstr "password"))
  let port := CJson.getItem mqttssl (some (cstr "port"))
  let username ← deref username
  let out := { out with user := some (printString username.valuestring) }
  let password ← deref password
  let out := { out with pwd := some (printString password.valuestring) }
  let port ← deref port
  return { out with port := port.valueint }

/-- `ParseConnectJson`: what it returns and the outputs after it. -/
def parseConnectJson (pMsg : CString) (out : Credentials) :
    Except Fault (Bool × Credentials) :=
  match cJSONParse strtod pMsg with
  | none => .ok (false, out)
  | some root =>
      match CJson.getItem (some root) (some (cstr "message")) with
      | some _ => .ok (false, out)
      | none => do
          let out ← assignOutputs secure root out
          return (true, out)

/-! ## All or nothing -/

/-- The root has the credentials: three strings and a number. -/
structure Holds (root : CJson) (c : Credentials) : Prop where
  host : ∃ host, c.host = some host ∧
    CJson.getItem (some root) (some (cstr "serviceHost")) = some (.string host)
  user : ∃ user, c.user = some user ∧
    CJson.getItem (mqttssl secure root) (some (cstr "username")) =
      some (.string user)
  pwd : ∃ pwd, c.pwd = some pwd ∧
    CJson.getItem (mqttssl secure root) (some (cstr "password")) =
      some (.string pwd)
  port : CJson.getItem (mqttssl secure root) (some (cstr "port")) =
    some (.number c.port)

/-- Either the response is an object without a message and the outputs are its
credentials, or the outputs are unchanged; and nothing absent is read or
printed. -/
def AllOrNothing (pMsg : CString) (out : Credentials) :
    Except Fault (Bool × Credentials) → Prop
  | .error _ => False
  | .ok (true, c) => ∃ child, cJSONParse strtod pMsg = some (.object child) ∧
      CJson.getItem (some (.object child)) (some (cstr "message")) = none ∧
      Holds secure (.object child) c
  | .ok (false, c) => c = out

/-- The four members are there: strings, and a whole number in the range of
`int`. -/
structure Complete (root : CJson) : Prop where
  host : ∃ host,
    CJson.getItem (some root) (some (cstr "serviceHost")) = some (.string host)
  user : ∃ user, CJson.getItem (mqttssl secure root) (some (cstr "username")) =
    some (.string user)
  pwd : ∃ pwd, CJson.getItem (mqttssl secure root) (some (cstr "password")) =
    some (.string pwd)
  port : ∃ n : Int, intMin ≤ n ∧ n ≤ intMax ∧
    CJson.getItem (mqttssl secure root) (some (cstr "port")) = some (.number n)

end Response

section Lemmas

variable {strtod : CString → Option (Rat × Nat)} {secure : Bool}

theorem deref_eq_ok {node : Option CJson} {item : CJson} :
    deref node = .ok item ↔ node = some item := by
  cases node with
  | none => simp [deref]
  | some node => simp [deref]

/-- What is assigned, once the four members are there. -/
theorem assignOutputs_eq_ok {root : CJson} {out c : Credentials} :
    assignOutputs secure root out = .ok c ↔
      ∃ host user pwd port,
        CJson.getItem (some root) (some (cstr "serviceHost")) = some host ∧
        CJson.getItem (mqttssl secure root) (some (cstr "username")) =
          some user ∧
        CJson.getItem (mqttssl secure root) (some (cstr "password")) =
          some pwd ∧
        CJson.getItem (mqttssl secure root) (some (cstr "port")) = some port ∧
        c = { host := some (printString host.valuestring)
              user := some (printString user.valuestring)
              pwd := some (printString pwd.valuestring)
              port := port.valueint } := by
  simp only [assignOutputs]
  constructor
  · intro h
    obtain ⟨host, hhost, h⟩ := bind_eq_ok h
    obtain ⟨user, huser, h⟩ := bind_eq_ok h
    obtain ⟨pwd, hpwd, h⟩ := bind_eq_ok h
    obtain ⟨port, hport, h⟩ := bind_eq_ok h
    cases h
    exact ⟨host, user, pwd, port, deref_eq_ok.mp hhost, deref_eq_ok.mp huser,
      deref_eq_ok.mp hpwd, deref_eq_ok.mp hport, rfl⟩
  · rintro ⟨host, user, pwd, port, hhost, huser, hpwd, hport, rfl⟩
    rw [hhost, huser, hpwd, hport]
    rfl

/-- The function returns true exactly when there is no message and the
outputs are assigned. -/
theorem parseConnectJson_true_iff {pMsg : CString} {out c : Credentials} :
    parseConnectJson strtod secure pMsg out = .ok (true, c) ↔
      ∃ root, cJSONParse strtod pMsg = some root ∧
        CJson.getItem (some root) (some (cstr "message")) = none ∧
        assignOutputs secure root out = .ok c := by
  unfold parseConnectJson
  cases cJSONParse strtod pMsg with
  | none => simp
  | some root =>
      dsimp only
      cases hmsg : CJson.getItem (some root) (some (cstr "message")) with
      | some msg => simp [hmsg]
      | none =>
          dsimp only
          constructor
          · intro h
            obtain ⟨c', hc', h⟩ := bind_eq_ok h
            cases h
            exact ⟨root, rfl, hmsg, hc'⟩
          · rintro ⟨root', hroot, _, hc⟩
            cases hroot
            rw [hc]
            rfl

/-- The function returns false exactly when the text does not parse or has a
message, and then assigns nothing. -/
theorem parseConnectJson_false_iff {pMsg : CString} {out c : Credentials} :
    parseConnectJson strtod secure pMsg out = .ok (false, c) ↔
      c = out ∧ ∀ root, cJSONParse strtod pMsg = some root →
        CJson.getItem (some root) (some (cstr "message")) ≠ none := by
  unfold parseConnectJson
  cases cJSONParse strtod pMsg with
  | none => simp [eq_comm]
  | some root =>
      dsimp only
      cases hmsg : CJson.getItem (some root) (some (cstr "message")) with
      | some msg => simp [hmsg, eq_comm]
      | none =>
          dsimp only
          constructor
          · intro h
            obtain ⟨c', _, h⟩ := bind_eq_ok h
            cases h
          · rintro ⟨_, h⟩
            exact absurd hmsg (h root rfl)

/-- All four outputs are overwritten, so what they were before plays no
role. -/
theorem parseConnectJson_true_congr {pMsg : CString} {out c : Credentials}
    (h : parseConnectJson strtod secure pMsg out = .ok (true, c))
    (out' : Credentials) :
    parseConnectJson strtod secure pMsg out' = .ok (true, c) := by
  obtain ⟨root, hroot, hmsg, hassign⟩ := parseConnectJson_true_iff.mp h
  have hassign' : assignOutputs secure root out' = .ok c :=
    assignOutputs_eq_ok.mpr (assignOutputs_eq_ok.mp hassign)
  exact parseConnectJson_true_iff.mpr ⟨root, hroot, hmsg, hassign'⟩

/-- Only an object has members. -/
theorem exists_object {root item : CJson} {name : Option CString}
    (h : CJson.getItem (some root) name = some item) :
    ∃ child, root = .object child := by
  cases name with
  | none => cases h
  | some name =>
      cases root with
      | object child => exact ⟨child, rfl⟩
      | null => cases h
      | bool value => cases h
      | number valuedouble => cases h
      | string valuestring => cases h
      | array child => cases h

theorem Complete.holds {root : CJson} (h : Complete secure root)
    (out : Credentials) :
    ∃ c, assignOutputs secure root out = .ok c ∧ Holds secure root c := by
  obtain ⟨⟨host, hhost⟩, ⟨user, huser⟩, ⟨pwd, hpwd⟩, ⟨n, hlo, hhi, hport⟩⟩ := h
  have hn : (CJson.number n).valueint = n := saturatedInt_intCast hlo hhi
  refine ⟨_, assignOutputs_eq_ok.mpr
    ⟨_, _, _, _, hhost, huser, hpwd, hport, rfl⟩, ⟨host, rfl, hhost⟩,
    ⟨user, rfl, huser⟩, ⟨pwd, rfl, hpwd⟩, ?_⟩
  show _ = some (CJson.number (CJson.number n).valueint)
  rw [hn, hport]

theorem Holds.complete {root : CJson} {out c : Credentials}
    (hc : assignOutputs secure root out = .ok c) (h : Holds secure root c) :
    Complete secure root := by
  obtain ⟨host, _, hhost⟩ := h.host
  obtain ⟨user, _, huser⟩ := h.user
  obtain ⟨pwd, _, hpwd⟩ := h.pwd
  have hmem : intMin ≤ c.port ∧ c.port ≤ intMax := by
    obtain ⟨_, _, _, port, _, _, _, hport, rfl⟩ := assignOutputs_eq_ok.mp hc
    have heq : port = .number (port.valueint : Int) := by
      rw [h.port] at hport
      exact (Option.some.inj hport).symm
    show intMin ≤ port.valueint ∧ port.valueint ≤ intMax
    rw [heq]
    exact saturatedInt_mem _
  exact ⟨⟨host, hhost⟩, ⟨user, huser⟩, ⟨pwd, hpwd⟩,
    ⟨c.port, hmem.1, hmem.2, h.port⟩⟩

end Lemmas

/-- A response is handled all or nothing exactly when it does not parse, has a
message, or has all four members: three strings, and a whole number in the
range of `int`. -/
theorem allOrNothing_iff (strtod : CString → Option (Rat × Nat))
    (secure : Bool) (pMsg : CString) (out : Credentials) :
    AllOrNothing strtod secure pMsg out
        (parseConnectJson strtod secure pMsg out) ↔
      ∀ root, cJSONParse strtod pMsg = some root →
        CJson.getItem (some root) (some (cstr "message")) ≠ none ∨
          Complete secure root := by
  constructor
  · intro h root hroot
    cases hr : parseConnectJson strtod secure pMsg out with
    | error e =>
        rw [hr] at h
        cases h
    | ok r =>
        obtain ⟨ok, c⟩ := r
        rw [hr] at h
        cases ok with
        | false =>
            exact .inl ((parseConnectJson_false_iff.mp hr).2 root hroot)
        | true =>
            obtain ⟨root', hroot', _, hc⟩ := parseConnectJson_true_iff.mp hr
            obtain ⟨child, hchild, _, hholds⟩ := h
            rw [hroot] at hroot' hchild
            cases hroot'
            cases hchild
            exact .inr (hholds.complete hc)
  · intro h
    -- without a message the members are there, and all of them are assigned
    by_cases hread : ∃ root, cJSONParse strtod pMsg = some root ∧
        CJson.getItem (some root) (some (cstr "message")) = none
    · obtain ⟨root, hroot, hnone⟩ := hread
      have hcomplete : Complete secure root :=
        (h root hroot).resolve_left (not_not_intro hnone)
      obtain ⟨c, hc, hholds⟩ := hcomplete.holds out
      obtain ⟨_, hhost⟩ := hcomplete.host
      obtain ⟨child, rfl⟩ := exists_object hhost
      rw [parseConnectJson_true_iff.mpr ⟨_, hroot, hnone, hc⟩]
      exact ⟨child, hroot, hnone, hholds⟩
    · have hmsg : ∀ root, cJSONParse strtod pMsg = some root →
          CJson.getItem (some root) (some (cstr "message")) ≠ none := by
        intro root hroot hnone
        exact hread ⟨root, hroot, hnone⟩
      rw [parseConnectJson_false_iff.mpr ⟨rfl, hmsg⟩]
      rfl

/-! ## Sample responses -/

/-- A response with the given password. -/
def response (pwd : CString) : CString :=
  cstr "\x7b\"serviceHost\":\"h\",\"credential\":\x7b\"protocols\":" ++
    cstr "\x7b\"mqtt\":\x7b\"username\":\"u\",\"password\":\"" ++ pwd ++
    cstr "\",\"port\":1883\x7d\x7d\x7d\x7d"

example :
    (parseConnectJson strtodWhole false (response (cstr "p"))
      { host := none, user := none, pwd := none, port := 0 }).toOption =
      some (true, {
        host := some (cstr "h")
        user := some (cstr "u")
        pwd := some (cstr "p")
        port := 1883 }) := by
  decide +kernel

/-- The response `{}` has no `serviceHost`, and NULL is dereferenced. -/
theorem empty_response_faults :
    ¬ AllOrNothing (fun _ => none) true (cstr "\x7b\x7d")
      { host := none, user := none, pwd := none, port := 0 }
      (parseConnectJson (fun _ => none) true (cstr "\x7b\x7d")
        { host := none, user := none, pwd := none, port := 0 }) := by
  intro h
  have hfault : parseConnectJson (fun _ => none) true (cstr "\x7b\x7d")
      { host := none, user := none, pwd := none, port := 0 } =
        .error .nullDeref := rfl
  rw [hfault] at h
  exact h

end DatahubEdge.Connect
