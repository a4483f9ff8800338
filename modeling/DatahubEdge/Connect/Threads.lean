import Mathlib.Logic.Function.Basic
import DatahubEdge.Connect.Credentials

/-!
# `Connect`, `reconnect_proc` and the network loop, statement by statement

With `ConnectType` `DCCS` the credentials are fetched before every attempt to
connect, and once more by `disconnect_callback`.  They are kept twice: in
`option.MQTT`, and in the client, which holds what was last given to
`mosquitto_username_pw_set` and `mosquitto_connect` and connects with that.

Thread 0 is the one that calls `Connect`; the others run `reconnect_proc`.
The loop thread of the client calls the callbacks and reconnects by itself
after a loss.  A fetch stores its four results at one moment.
-/

namespace DatahubEdge.Connect

/-- The options the threads read. -/
structure Options where
  useSecure : Bool
  autoReconnect : Bool

/-- The next statement of a thread.  `Connect` and `reconnect_proc` make an
attempt by the same statements. -/
inductive Pc where
  /-- in neither function -/
  | idle
  /-- `while(!IsConnected)` -/
  | loopTest
  /-- `getCredentialFromDCCS()` -/
  | fetch
  /-- `mosquitto_loop_start`, before the attempt -/
  | loopStart
  /-- `mosquitto_username_pw_set` -/
  | usernamePwSet
  /-- `mosquitto_connect` -/
  | connect
  /-- `mosquitto_loop_stop`, after a failed attempt -/
  | loopStop
  /-- `mosquitto_loop_start`, after a successful attempt -/
  | loopRestart
  /-- `if(option.AutoReconnect && bCreate)` -/
  | create
  deriving DecidableEq

structure State where
  /-- `option.MQTT` -/
  mqtt : Credentials
  isConnected : Bool
  /-- what was last given to the client -/
  client : Credentials
  /-- the client has a connection -/
  online : Bool
  /-- the loop thread runs -/
  looping : Bool
  /-- the loop thread is in `disconnect_callback` -/
  inCallback : Bool
  pc : Nat → Pc
  /-- the number of threads that were created -/
  created : Nat

/-- A statement of some thread.  `response` is the text the service sends, if
it sends one, `rc` the result of a library function. -/
inductive Event where
  /-- `Connect` is called -/
  | call
  | loopTest (t : Nat)
  | fetch (t : Nat) (response : Option CString)
  | loopStart (t : Nat)
  | usernamePwSet (t : Nat)
  | connect (t : Nat) (rc : Int)
  | loopStop (t : Nat)
  | loopRestart (t : Nat)
  | create (rc : Int)
  /-- the connection is lost, and `disconnect_callback` is called -/
  | lost
  /-- `getCredentialFromDCCS` in `disconnect_callback` -/
  | callbackFetch (response : Option CString)
  /-- `connect_callback` -/
  | connectCallback (result : Int)
  /-- the loop thread connects again -/
  | reconnect (rc : Int)

def State.goto (s : State) (t : Nat) (pc : Pc) : State :=
  { s with pc := Function.update s.pc t pc }

@[simp] theorem State.goto_pc_self (s : State) (t : Nat) (pc : Pc) :
    (s.goto t pc).pc t = pc := by
  simp [State.goto]

theorem State.goto_pc_ne (s : State) {t t' : Nat} (h : t' ≠ t) (pc : Pc) :
    (s.goto t pc).pc t' = s.pc t' := by
  simp [State.goto, h]

/-- Where a thread goes on after an attempt has failed. -/
def afterFailure (t : Nat) : Pc := if t = 0 then .create else .loopTest

section Steps

variable (strtod : CString → Option (Rat × Nat)) (option : Options)

/-- `getCredentialFromDCCS`, given what `curl_easy_perform` yields. -/
def getCredentialFromDCCS (response : Option CString) (mqtt : Credentials) :
    Except Fault (Bool × Credentials) :=
  match response with
  | none => .ok (false, mqtt)
  | some ptr => parseConnectJson strtod option.useSecure ptr mqtt

/-- The state after an event.  There is none if the event is not the next
statement of its thread, or if it ends in a fault. -/
def step (s : State) : Event → Option State
  | .call => if s.pc 0 = .idle then some (s.goto 0 .fetch) else none
  | .loopTest t =>
      if s.pc t = .loopTest then
        some (s.goto t (if s.isConnected then .idle else .fetch))
      else none
  | .fetch t response =>
      if s.pc t = .fetch then
        match getCredentialFromDCCS strtod option response s.mqtt with
        | .error _ => none
        | .ok (ok, mqtt) =>
            some ({ s with mqtt }.goto t
              (if ok then .loopStart else afterFailure t))
      else none
  | .loopStart t =>
      if s.pc t = .loopStart then
        some ({ s with looping := true }.goto t .usernamePwSet)
      else none
  | .usernamePwSet t =>
      if s.pc t = .usernamePwSet then
        let client := { s.client with user := s.mqtt.user, pwd := s.mqtt.pwd }
        some ({ s with client }.goto t .connect)
      else none
  | .connect t rc =>
      if s.pc t = .connect then
        let client :=
          { s.client with host := s.mqtt.host, port := s.mqtt.port }
        some ({ s with client, online := rc = 0 }.goto t
          (if rc ≠ 0 then .loopStop else .loopRestart))
      else none
  | .loopStop t =>
      -- the loop thread is cancelled, in the callback too
      if s.pc t = .loopStop then
        some ({ s with looping := false, inCallback := false }.goto t
          (afterFailure t))
      else none
  | .loopRestart t =>
      if s.pc t = .loopRestart then
        some ({ s with looping := true }.goto t .idle)
      else none
  | .create rc =>
      if s.pc 0 = .create then
        let s := s.goto 0 .idle
        if option.autoReconnect ∧ rc = 0 then
          some ({ s with created := s.created + 1 }.goto (s.created + 1)
            .loopTest)
        else some s
      else none
  | .lost =>
      if s.looping ∧ s.online ∧ ¬ s.inCallback then
        some { s with online := false, isConnected := false, inCallback := true }
      else none
  | .callbackFetch response =>
      if s.inCallback then
        match getCredentialFromDCCS strtod option response s.mqtt with
        | .error _ => none
        | .ok (_, mqtt) => some { s with mqtt, inCallback := false }
      else none
  | .connectCallback result =>
      if s.looping ∧ s.online ∧ ¬ s.inCallback then
        some { s with isConnected := result = 0 }
      else none
  | .reconnect rc =>
      -- without a host `mosquitto_reconnect` makes no attempt
      if s.looping ∧ ¬ s.online ∧ ¬ s.inCallback ∧ s.client.host ≠ none then
        some { s with online := rc = 0 }
      else none

/-- Before the first call of `Connect`; `mqtt` is as the caller set it. -/
def start (mqtt : Credentials) : State where
  mqtt := mqtt
  isConnected := false
  client := { host := none, user := none, pwd := none, port := 0 }
  online := false
  looping := false
  inCallback := false
  pc := fun _ => .idle
  created := 0

/-- The state after a run, if the events can occur in this order. -/
def run (mqtt : Credentials) (events : List Event) : Option State :=
  events.foldlM (step strtod option) (start mqtt)

variable {strtod option}

/-- The last event of a run, and the state before it. -/
theorem run_snoc {mqtt : Credentials} {past : List Event} {e : Event}
    {s' : State} (h : run strtod option mqtt (past ++ [e]) = some s') :
    ∃ s, run strtod option mqtt past = some s ∧
      step strtod option s e = some s' := by
  rw [run, List.foldlM_append] at h
  obtain ⟨s, hpast, hlast⟩ := Option.bind_eq_some_iff.mp h
  rw [List.foldlM_cons] at hlast
  obtain ⟨s'', hstep, hnil⟩ := Option.bind_eq_some_iff.mp hlast
  cases hnil
  exact ⟨s, hpast, hstep⟩

end Steps

end DatahubEdge.Connect
