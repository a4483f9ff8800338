import DatahubEdge.Connect.Threads

/-!
# Which credentials a connection attempt uses

The client connects with what it was given last, while a fetch only changes
`option.MQTT`.  So an attempt uses the credentials of the last successful
fetch if no fetch has changed them since they were given to the client, and
`disconnect_callback` gives the client nothing.

## Main results

* `Inv.step` — what one statement preserves: `option.MQTT` is as fetched last,
  the client as fetched when it was given its credentials.
* `attempt_iff` — when one attempt uses the newest credentials.
* `newest_used_iff` — in which runs every attempt does.
-/

namespace DatahubEdge.Connect

/-- What the events so far say about the credentials. -/
structure History where
  /-- of the last successful fetch -/
  fetched : Option Credentials
  /-- of the last successful fetch before the last `mosquitto_username_pw_set` -/
  given : Option Credentials
  /-- of the last successful fetch before the last `mosquitto_connect` -/
  connected : Option Credentials

/-- User name and password. -/
def Credentials.login (c : Credentials) : Option CString × Option CString :=
  (c.user, c.pwd)

/-- Host and port. -/
def Credentials.address (c : Credentials) : Option CString × Int :=
  (c.host, c.port)

theorem Credentials.eq_iff (c c' : Credentials) :
    c = c' ↔ c.login = c'.login ∧ c.address = c'.address := by
  cases c
  cases c'
  simp only [login, address, Credentials.mk.injEq, Prod.mk.injEq]
  constructor
  · rintro ⟨hhost, huser, hpwd, hport⟩
    exact ⟨⟨huser, hpwd⟩, hhost, hport⟩
  · rintro ⟨⟨huser, hpwd⟩, hhost, hport⟩
    exact ⟨hhost, huser, hpwd, hport⟩

section History

variable (strtod : CString → Option (Rat × Nat)) (option : Options)

/-- The credentials a response yields, if the fetch succeeds.  What the
outputs were before plays no role. -/
def responseCredentials (response : Option CString) : Option Credentials :=
  match getCredentialFromDCCS strtod option response
      { host := none, user := none, pwd := none, port := 0 } with
  | .ok (true, c) => some c
  | _ => none

def record (h : History) : Event → History
  | .fetch _ response =>
      { h with
        fetched := (responseCredentials strtod option response).or h.fetched }
  | .callbackFetch response =>
      { h with
        fetched := (responseCredentials strtod option response).or h.fetched }
  | .usernamePwSet _ => { h with given := h.fetched }
  | .connect _ _ => { h with connected := h.fetched }
  | _ => h

def history (events : List Event) : History :=
  events.foldl (record strtod option)
    { fetched := none, given := none, connected := none }

/-- The event is an attempt to connect. -/
def Event.IsAttempt : Event → Prop
  | .connect _ _ => True
  | .reconnect _ => True
  | _ => False

/-- Every attempt of the run is made with the credentials of the most recent
successful fetch. -/
def NewestUsed (mqtt : Credentials) (events : List Event) : Prop :=
  ∀ past e s, past ++ [e] <+: events → e.IsAttempt →
    run strtod option mqtt (past ++ [e]) = some s →
    (history strtod option past).fetched = some s.client

/-- An attempt of `mosquitto_connect` finds the user name and the password of
the last fetch as they were when the client was given them; one of the loop
thread finds the host and the port so as well. -/
def Unrotated (h : History) : Event → Prop
  | .connect _ _ =>
      h.fetched.map Credentials.login = h.given.map Credentials.login
  | .reconnect _ =>
      h.fetched.map Credentials.login = h.given.map Credentials.login ∧
        h.fetched.map Credentials.address = h.connected.map Credentials.address
  | _ => True

end History

/-! ## The invariant -/

/-- The thread is past its fetch and before the end of its attempt. -/
def Pc.AfterFetch : Pc → Prop
  | .loopStart => True
  | .usernamePwSet => True
  | .connect => True
  | _ => False

/-- What holds after every event of a run. -/
structure Inv (s : State) (h : History) : Prop where
  mqtt : ∀ c, h.fetched = some c → s.mqtt = c
  login : ∀ c, h.given = some c → s.client.login = c.login
  address : ∀ c, h.connected = some c → s.client.address = c.address
  fetched : ∀ t, (s.pc t).AfterFetch → h.fetched ≠ none
  given : ∀ t, s.pc t = .connect → h.given ≠ none
  connected : s.client.host ≠ none →
    h.fetched ≠ none ∧ h.given ≠ none ∧ h.connected ≠ none

section Preservation

variable {strtod : CString → Option (Rat × Nat)} {option : Options}
  {s s' : State} {h : History}

/-- The invariant speaks of the credentials and the threads only. -/
theorem Inv.congr (hinv : Inv s h) (hmqtt : s'.mqtt = s.mqtt)
    (hclient : s'.client = s.client) (hpc : s'.pc = s.pc) : Inv s' h where
  mqtt := by rw [hmqtt]; exact hinv.mqtt
  login := by rw [hclient]; exact hinv.login
  address := by rw [hclient]; exact hinv.address
  fetched := by rw [hpc]; exact hinv.fetched
  given := by rw [hpc]; exact hinv.given
  connected := by rw [hclient]; exact hinv.connected

theorem Inv.goto (hinv : Inv s h) {t : Nat} {pc : Pc}
    (hfetched : pc.AfterFetch → h.fetched ≠ none)
    (hgiven : pc = .connect → h.given ≠ none) : Inv (s.goto t pc) h where
  mqtt := hinv.mqtt
  login := hinv.login
  address := hinv.address
  fetched := by
    intro t' ht'
    by_cases heq : t' = t
    · subst heq
      rw [State.goto_pc_self] at ht'
      exact hfetched ht'
    · rw [State.goto_pc_ne s heq] at ht'
      exact hinv.fetched t' ht'
  given := by
    intro t' ht'
    by_cases heq : t' = t
    · subst heq
      rw [State.goto_pc_self] at ht'
      exact hgiven ht'
    · rw [State.goto_pc_ne s heq] at ht'
      exact hinv.given t' ht'
  connected := hinv.connected

/-- A fetch that succeeds stores what the response says, and one that fails
stores nothing. -/
theorem getCredentialFromDCCS_ok {response : Option CString}
    {mqtt mqtt' : Credentials} {ok : Bool}
    (hok : getCredentialFromDCCS strtod option response mqtt =
      .ok (ok, mqtt')) :
    responseCredentials strtod option response =
        (if ok then some mqtt' else none) ∧
      (ok = false → mqtt' = mqtt) := by
  cases response with
  | none =>
      cases hok
      exact ⟨rfl, fun _ => rfl⟩
  | some ptr =>
      cases ok with
      | true =>
          refine ⟨?_, nofun⟩
          rw [responseCredentials, getCredentialFromDCCS,
            parseConnectJson_true_congr hok]
          rfl
      | false =>
          obtain ⟨heq, hmsg⟩ := parseConnectJson_false_iff.mp hok
          refine ⟨?_, fun _ => heq⟩
          rw [responseCredentials, getCredentialFromDCCS,
            parseConnectJson_false_iff.mpr ⟨rfl, hmsg⟩]
          rfl

/-- The invariant after a fetch, in whichever thread. -/
theorem Inv.fetch (hinv : Inv s h) {response : Option CString}
    {mqtt : Credentials} {ok : Bool}
    (hok : getCredentialFromDCCS strtod option response s.mqtt =
      .ok (ok, mqtt)) :
    Inv { s with mqtt } { h with
      fetched := (responseCredentials strtod option response).or h.fetched } ∧
      (ok = true →
        (responseCredentials strtod option response).or h.fetched ≠ none) := by
  obtain ⟨hresponse, hunchanged⟩ := getCredentialFromDCCS_ok hok
  rw [hresponse]
  cases ok with
  | true =>
      exact ⟨{
        mqtt := fun c hc => Option.some.inj hc
        login := hinv.login
        address := hinv.address
        fetched := fun t ht => Option.some_ne_none _
        given := hinv.given
        connected := fun hhost =>
          ⟨Option.some_ne_none _, (hinv.connected hhost).2⟩ },
        fun _ => Option.some_ne_none _⟩
  | false =>
      rw [hunchanged rfl]
      exact ⟨hinv, nofun⟩

/-- After a failed attempt a thread is not inside one. -/
theorem Inv.goto_afterFailure (hinv : Inv s h) (t : Nat) :
    Inv (s.goto t (afterFailure t)) h := by
  unfold afterFailure
  by_cases ht : t = 0
  · rw [if_pos ht]
    exact hinv.goto nofun nofun
  · rw [if_neg ht]
    exact hinv.goto nofun nofun

/-- After `mosquitto_username_pw_set` the client has the user name and the
password of the last fetch. -/
theorem Inv.usernamePwSet (hinv : Inv s h) (hfetched : h.fetched ≠ none) :
    Inv
      { s with
        client := { s.client with user := s.mqtt.user, pwd := s.mqtt.pwd } }
      { h with given := h.fetched } where
  mqtt := hinv.mqtt
  login := by
    intro c hc
    show s.mqtt.login = c.login
    rw [hinv.mqtt c hc]
  address := hinv.address
  fetched := hinv.fetched
  given := fun _ _ => hfetched
  connected := by
    intro hhost
    obtain ⟨_, _, hconnected⟩ := hinv.connected hhost
    exact ⟨hfetched, hfetched, hconnected⟩

/-- After `mosquitto_connect` the client has the host and the port of the last
fetch. -/
theorem Inv.connect (hinv : Inv s h) (hfetched : h.fetched ≠ none)
    (hgiven : h.given ≠ none) (online : Bool) :
    Inv
      { s with
        client := { s.client with host := s.mqtt.host, port := s.mqtt.port }
        online }
      { h with connected := h.fetched } where
  mqtt := hinv.mqtt
  login := hinv.login
  address := by
    intro c hc
    show s.mqtt.address = c.address
    rw [hinv.mqtt c hc]
  fetched := hinv.fetched
  given := hinv.given
  connected := fun _ => ⟨hfetched, hgiven, hfetched⟩

theorem Inv.step {e : Event} (hinv : Inv s h)
    (hstep : step strtod option s e = some s') :
    Inv s' (record strtod option h e) := by
  cases e with
  | call =>
      obtain ⟨_, hs'⟩ := Option.ite_none_right_eq_some.mp hstep
      cases hs'
      exact hinv.goto nofun nofun
  | loopTest t =>
      obtain ⟨_, hs'⟩ := Option.ite_none_right_eq_some.mp hstep
      cases hs'
      cases s.isConnected with
      | true => exact hinv.goto nofun nofun
      | false => exact hinv.goto nofun nofun
  | fetch t response =>
      obtain ⟨_, hs'⟩ := Option.ite_none_right_eq_some.mp hstep
      cases hok : getCredentialFromDCCS strtod option response s.mqtt with
      | error e =>
          rw [hok] at hs'
          cases hs'
      | ok r =>
          obtain ⟨ok, mqtt⟩ := r
          rw [hok] at hs'
          cases hs'
          obtain ⟨hinv', hsome⟩ := hinv.fetch hok
          cases ok with
          | true => exact hinv'.goto (fun _ => hsome rfl) nofun
          | false => exact hinv'.goto_afterFailure t
  | loopStart t =>
      obtain ⟨hpc, hs'⟩ := Option.ite_none_right_eq_some.mp hstep
      cases hs'
      have hfetched : h.fetched ≠ none := hinv.fetched t (by rw [hpc]; trivial)
      have hinv' : Inv { s with looping := true } h := hinv.congr rfl rfl rfl
      exact hinv'.goto (fun _ => hfetched) nofun
  | usernamePwSet t =>
      obtain ⟨hpc, hs'⟩ := Option.ite_none_right_eq_some.mp hstep
      cases hs'
      have hfetched : h.fetched ≠ none := hinv.fetched t (by rw [hpc]; trivial)
      have hinv' := hinv.usernamePwSet hfetched
      exact hinv'.goto (fun _ => hfetched) (fun _ => hfetched)
  | connect t rc =>
      obtain ⟨hpc, hs'⟩ := Option.ite_none_right_eq_some.mp hstep
      cases hs'
      have hfetched : h.fetched ≠ none := hinv.fetched t (by rw [hpc]; trivial)
      have hgiven : h.given ≠ none := hinv.given t hpc
      have hinv' := hinv.connect hfetched hgiven (decide (rc = 0))
      by_cases hrc : rc ≠ 0
      · rw [if_pos hrc]
        exact hinv'.goto nofun nofun
      · rw [if_neg hrc]
        exact hinv'.goto nofun nofun
  | loopStop t =>
      obtain ⟨_, hs'⟩ := Option.ite_none_right_eq_some.mp hstep
      cases hs'
      have hinv' : Inv { s with looping := false, inCallback := false } h :=
        hinv.congr rfl rfl rfl
      exact hinv'.goto_afterFailure t
  | loopRestart t =>
      obtain ⟨_, hs'⟩ := Option.ite_none_right_eq_some.mp hstep
      cases hs'
      have hinv' : Inv { s with looping := true } h := hinv.congr rfl rfl rfl
      exact hinv'.goto nofun nofun
  | create rc =>
      obtain ⟨_, hs'⟩ := Option.ite_none_right_eq_some.mp hstep
      have hinv' : Inv (s.goto 0 .idle) h := hinv.goto nofun nofun
      split at hs'
      · cases hs'
        have hinv'' : Inv
            { s.goto 0 .idle with created := (s.goto 0 .idle).created + 1 } h :=
          hinv'.congr rfl rfl rfl
        exact hinv''.goto nofun nofun
      · cases hs'
        exact hinv'
  | lost =>
      obtain ⟨_, hs'⟩ := Option.ite_none_right_eq_some.mp hstep
      cases hs'
      exact hinv.congr rfl rfl rfl
  | callbackFetch response =>
      obtain ⟨_, hs'⟩ := Option.ite_none_right_eq_some.mp hstep
      cases hok : getCredentialFromDCCS strtod option response s.mqtt with
      | error e =>
          rw [hok] at hs'
          cases hs'
      | ok r =>
          obtain ⟨ok, mqtt⟩ := r
          rw [hok] at hs'
          cases hs'
          exact (hinv.fetch hok).1.congr rfl rfl rfl
  | connectCallback result =>
      obtain ⟨_, hs'⟩ := Option.ite_none_right_eq_some.mp hstep
      cases hs'
      exact hinv.congr rfl rfl rfl
  | reconnect rc =>
      obtain ⟨_, hs'⟩ := Option.ite_none_right_eq_some.mp hstep
      cases hs'
      exact hinv.congr rfl rfl rfl

theorem Inv.start (mqtt : Credentials) :
    Inv (start mqtt) { fetched := none, given := none, connected := none } where
  mqtt := nofun
  login := nofun
  address := nofun
  fetched := fun _ h => h.elim
  given := nofun
  connected := fun h => absurd rfl h

theorem history_snoc (events : List Event) (e : Event) :
    history strtod option (events ++ [e]) =
      record strtod option (history strtod option events) e := by
  rw [history, List.foldl_append]
  rfl

/-- The invariant holds after every run. -/
theorem run_inv {mqtt : Credentials} {events : List Event}
    (hrun : run strtod option mqtt events = some s) :
    Inv s (history strtod option events) := by
  induction events using List.reverseRecOn generalizing s with
  | nil =>
      cases hrun
      exact Inv.start mqtt
  | append_singleton past e ih =>
      obtain ⟨s₀, hpast, hstep⟩ := run_snoc hrun
      rw [history_snoc]
      exact (ih hpast).step hstep

/-! ## The attempts -/

/-- An attempt uses the newest credentials exactly when they have not changed
since the client was given its own. -/
theorem attempt_iff (hinv : Inv s h) {e : Event} (he : e.IsAttempt)
    (hstep : step strtod option s e = some s') :
    h.fetched = some s'.client ↔ Unrotated h e := by
  cases e with
  | connect t rc =>
      obtain ⟨hpc, hs'⟩ := Option.ite_none_right_eq_some.mp hstep
      cases hs'
      have hfetched : h.fetched ≠ none := hinv.fetched t (by rw [hpc]; trivial)
      obtain ⟨c, hc⟩ := Option.ne_none_iff_exists'.mp hfetched
      obtain ⟨g, hg⟩ := Option.ne_none_iff_exists'.mp (hinv.given t hpc)
      have hlogin := hinv.login g hg
      have hmqtt := hinv.mqtt c hc
      show h.fetched = some
        { s.client with host := s.mqtt.host, port := s.mqtt.port } ↔
          h.fetched.map Credentials.login = h.given.map Credentials.login
      rw [hc, hg, Option.some_inj, Option.map_some, Option.map_some,
        Option.some_inj, Credentials.eq_iff, ← hlogin, hmqtt]
      exact and_iff_left rfl
  | reconnect rc =>
      obtain ⟨⟨_, _, _, hhost⟩, hs'⟩ := Option.ite_none_right_eq_some.mp hstep
      cases hs'
      obtain ⟨hfetched, hgiven, hconnected⟩ := hinv.connected hhost
      obtain ⟨c, hc⟩ := Option.ne_none_iff_exists'.mp hfetched
      obtain ⟨g, hg⟩ := Option.ne_none_iff_exists'.mp hgiven
      obtain ⟨a, ha⟩ := Option.ne_none_iff_exists'.mp hconnected
      have hlogin := hinv.login g hg
      have haddress := hinv.address a ha
      show h.fetched = some s.client ↔
        h.fetched.map Credentials.login = h.given.map Credentials.login ∧
          h.fetched.map Credentials.address =
            h.connected.map Credentials.address
      rw [hc, hg, ha, Option.some_inj, Option.map_some, Option.map_some,
        Option.map_some, Option.map_some, Option.some_inj, Option.some_inj,
        Credentials.eq_iff, hlogin, haddress]
  | _ => exact he.elim

end Preservation

/-- In a run, every attempt uses the credentials of the most recent successful
fetch if and only if none comes after a fetch that has changed what the client
was given. -/
theorem newest_used_iff (strtod : CString → Option (Rat × Nat))
    (option : Options) (mqtt : Credentials) (events : List Event) :
    NewestUsed strtod option mqtt events ↔
      ∀ past e s, past ++ [e] <+: events → e.IsAttempt →
        run strtod option mqtt (past ++ [e]) = some s →
        Unrotated (history strtod option past) e := by
  constructor
  · intro hused past e s' hprefix he hrun
    obtain ⟨s, hpast, hstep⟩ := run_snoc hrun
    exact (attempt_iff (run_inv hpast) he hstep).mp
      (hused past e s' hprefix he hrun)
  · intro hunrotated past e s' hprefix he hrun
    obtain ⟨s, hpast, hstep⟩ := run_snoc hrun
    exact (attempt_iff (run_inv hpast) he hstep).mpr
      (hunrotated past e s' hprefix he hrun)

/-! ## A rotation -/

/-- `Connect` succeeds, the connection is lost after the service has changed
the password, and the loop thread connects again. -/
def rotation : List Event :=
  [.call, .fetch 0 (response (cstr "old")), .loopStart 0, .usernamePwSet 0,
    .connect 0 0, .loopRestart 0, .connectCallback 0, .lost,
    .callbackFetch (response (cstr "new"))]

/-- The loop thread connects with the old password. -/
theorem rotated_password_not_used :
    ¬ NewestUsed strtodWhole { useSecure := false, autoReconnect := true }
      { host := none, user := none, pwd := none, port := 0 }
      (rotation ++ [.reconnect 0]) := by
  intro hused
  have hrun : ((run strtodWhole { useSecure := false, autoReconnect := true }
      { host := none, user := none, pwd := none, port := 0 }
      (rotation ++ [.reconnect 0])).any fun s =>
        s.client.pwd = some (cstr "old")) = true := by decide +kernel
  have hfetched : (history strtodWhole
      { useSecure := false, autoReconnect := true } rotation).fetched.map
        Credentials.pwd = some (some (cstr "new")) := by decide +kernel
  obtain ⟨s, hs, hold⟩ := (Option.any_eq_true _ _).mp hrun
  have hnewest := hused rotation (.reconnect 0) s List.prefix_rfl trivial hs
  rw [hnewest, Option.map_some, of_decide_eq_true hold] at hfetched
  exact absurd hfetched (by decide)

end DatahubEdge.Connect
