import DatahubEdge.CJson.Parse
import DatahubEdge.CJson.Print

/-!
# `message_callback` and `ParseEventJson`

A message on the command topic is parsed, and its members `d.Cmd` and `d.Val`
are handed to the registered callback.  `ParseEventJson` leaves NULL in the
places it does not reach; `message_callback` makes the call in any case.

The payload is followed by a zero byte, so its text ends at the first zero
byte.  Members are those `cJSON_GetObjectItem` finds.

## Main results

* `messageCallback_null_iff` — when the callback is handed a NULL command.
* `dispatches_iff` — on which payloads the callback is called exactly with the
  command of the payload.
-/

namespace DatahubEdge.Event

/-- The two arguments of the registered callback, which may be NULL. -/
structure Call where
  cmd : Option CString
  val : Option CString
  deriving DecidableEq

/-- What `message_callback` reads of a `struct mosquitto_message`. -/
structure MosquittoMessage where
  topic : CString
  payload : List UInt8

/-- A payload as a C string. -/
def text (payload : List UInt8) : CString := payload.takeWhile fun c => c ≠ 0

section Receive

variable (strtod : CString → Option (Rat × Nat)) (printNumber : Rat → CString)

/-- `ParseEventJson`: what is in `pCmd` and `pVal` after it. -/
def parseEventJson (pMsg : CString) : Call :=
  match cJSONParse strtod pMsg with
  | none => { cmd := none, val := none }
  | some root =>
      let d := CJson.getItem (some root) (some (cstr "d"))
      let cmd := CJson.getItem d (some (cstr "Cmd"))
      let val := CJson.getItem d (some (cstr "Val"))
      { cmd := cmd.map fun cmd => printString cmd.valuestring
        val := val.map fun val => printUnformatted printNumber val }

/-- `message_callback`: the call of `event_recieve.recieve` it makes. -/
def messageCallback (cmdTopic : CString) (message : MosquittoMessage) :
    Option Call :=
  if message.payload.length ≠ 0 then
    if message.topic = cmdTopic then
      some (parseEventJson strtod printNumber (text message.payload))
    else none
  else none

/-! ## The command of a text -/

/-- The member `d.Cmd` of the JSON text. -/
def cmdOf (pMsg : CString) : Option CJson :=
  (cJSONParse strtod pMsg).bind fun root =>
    CJson.getItem (CJson.getItem (some root) (some (cstr "d")))
      (some (cstr "Cmd"))

/-- The member `d.Val` of the JSON text. -/
def valOf (pMsg : CString) : Option CJson :=
  (cJSONParse strtod pMsg).bind fun root =>
    CJson.getItem (CJson.getItem (some root) (some (cstr "d")))
      (some (cstr "Val"))

/-- The text is a command: its `d.Cmd` is the string `cmd`, and `val` is the
text of its `d.Val`, NULL without one. -/
def IsCommand (pMsg : CString) (call : Call) : Prop :=
  ∃ cmd, cmdOf strtod pMsg = some (.string cmd) ∧ call.cmd = some cmd ∧
    call.val = (valOf strtod pMsg).map (printUnformatted printNumber)

/-- The callback is called with the command of the text and for a command
only. -/
def DispatchesExactly (pMsg : CString) (made : Option Call) : Prop :=
  ∀ call, made = some call ↔ IsCommand strtod printNumber pMsg call

variable {strtod printNumber}

theorem parseEventJson_eq (pMsg : CString) :
    parseEventJson strtod printNumber pMsg =
      { cmd := (cmdOf strtod pMsg).map fun cmd => printString cmd.valuestring
        val := (valOf strtod pMsg).map (printUnformatted printNumber) } := by
  unfold parseEventJson cmdOf valOf
  cases cJSONParse strtod pMsg with
  | none => rfl
  | some root => rfl

/-- Nothing but a text on the command topic leads to a call. -/
theorem messageCallback_some {cmdTopic : CString} {message : MosquittoMessage}
    {call : Call}
    (h : messageCallback strtod printNumber cmdTopic message = some call) :
    message.payload ≠ [] ∧ message.topic = cmdTopic ∧
      call = parseEventJson strtod printNumber (text message.payload) := by
  unfold messageCallback at h
  by_cases hlen : message.payload.length = 0
  · simp only [hlen, ne_eq, not_true, if_false] at h
    cases h
  · rw [if_pos hlen] at h
    by_cases htopic : message.topic = cmdTopic
    · rw [if_pos htopic] at h
      cases h
      have hne : message.payload ≠ [] := by
        intro hnil
        exact hlen (by rw [hnil]; rfl)
      exact ⟨hne, htopic, rfl⟩
    · rw [if_neg htopic] at h
      cases h

/-- Every text on the command topic leads to a call. -/
theorem messageCallback_cmdTopic (cmdTopic : CString) (c : UInt8)
    (rest : List UInt8) :
    messageCallback strtod printNumber cmdTopic
        { topic := cmdTopic, payload := c :: rest } =
      some (parseEventJson strtod printNumber (text (c :: rest))) := by
  simp [messageCallback]

/-- The command handed on is NULL exactly when the text does not parse or has
no `d.Cmd`. -/
theorem messageCallback_null_iff {cmdTopic : CString}
    {message : MosquittoMessage} {call : Call}
    (h : messageCallback strtod printNumber cmdTopic message = some call) :
    call.cmd = none ↔ cmdOf strtod (text message.payload) = none := by
  obtain ⟨_, _, rfl⟩ := messageCallback_some h
  rw [parseEventJson_eq, Option.map_eq_none_iff]

theorem parseEventJson_isCommand_iff (pMsg : CString) :
    IsCommand strtod printNumber pMsg
        (parseEventJson strtod printNumber pMsg) ↔
      ∃ cmd, cmdOf strtod pMsg = some (.string cmd) := by
  rw [parseEventJson_eq]
  constructor
  · rintro ⟨cmd, hcmd, _⟩
    exact ⟨cmd, hcmd⟩
  · rintro ⟨cmd, hcmd⟩
    refine ⟨cmd, hcmd, ?_, rfl⟩
    rw [hcmd]
    rfl

/-- A text carries at most one command. -/
theorem IsCommand.unique {pMsg : CString} {call call' : Call}
    (h : IsCommand strtod printNumber pMsg call)
    (h' : IsCommand strtod printNumber pMsg call') : call = call' := by
  obtain ⟨cmd, hcmd, hc, hv⟩ := h
  obtain ⟨cmd', hcmd', hc', hv'⟩ := h'
  have heq : cmd = cmd' := by
    rw [hcmd] at hcmd'
    cases hcmd'
    rfl
  cases call
  cases call'
  simp only at hc hv hc' hv'
  rw [hc, hv, hc', hv', heq]

end Receive

/-- For a payload on the command topic, the callback is called exactly with
the command of the payload if and only if the payload parses and its `d.Cmd`
is a string.  For any other payload it is called all the same. -/
theorem dispatches_iff (strtod : CString → Option (Rat × Nat))
    (printNumber : Rat → CString) (cmdTopic : CString) (c : UInt8)
    (rest : List UInt8) :
    DispatchesExactly strtod printNumber (text (c :: rest))
        (messageCallback strtod printNumber cmdTopic
          { topic := cmdTopic, payload := c :: rest }) ↔
      ∃ cmd, cmdOf strtod (text (c :: rest)) = some (.string cmd) := by
  rw [messageCallback_cmdTopic, ← parseEventJson_isCommand_iff]
  constructor
  · intro h
    exact (h _).mp rfl
  · intro h call
    constructor
    · intro hcall
      cases hcall
      exact h
    · intro hcall
      rw [h.unique hcall]

example : messageCallback (fun _ => none) (fun _ => []) (cstr "cmd")
    { topic := cstr "cmd"
      payload :=
        cstr "\x7b\"d\":\x7b\"Cmd\":\"WV\",\"Val\":\"1\"\x7d\x7d" } =
      some { cmd := some (cstr "WV"), val := some (cstr "\"1\"") } := by
  decide +kernel

/-- The payload `{}` is no command, and the callback is called with NULL. -/
theorem no_command_dispatched :
    ¬ DispatchesExactly (fun _ => none) (fun _ => []) (text (cstr "\x7b\x7d"))
      (messageCallback (fun _ => none) (fun _ => []) (cstr "cmd")
        { topic := cstr "cmd", payload := cstr "\x7b\x7d" }) := by
  intro h
  have hmade : messageCallback (fun _ => none) (fun _ => []) (cstr "cmd")
      { topic := cstr "cmd", payload := cstr "\x7b\x7d" } =
        some { cmd := none, val := none } := by decide +kernel
  obtain ⟨cmd, _, hcmd, _⟩ := (h { cmd := none, val := none }).mp hmade
  cases hcmd

end DatahubEdge.Event
