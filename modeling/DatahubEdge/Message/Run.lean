import DatahubEdge.EdgeConfig
import DatahubEdge.Lib.Latest
import DatahubEdge.Message.Locality

/-!
# Runs of `SendDataMessage` calls

A run starts from `InitPrevious` and makes one call after the other.  The
session keeps the payloads produced so far; their analog values, in order,
are the history the filter is judged against.

## Main results

* `run_record` — the invariant rule for one device and tag: a relation between
  the retained record and the history that no foreign report disturbs and
  every turn over the tag preserves holds throughout the run.
-/

namespace DatahubEdge.Message

open Lib Lib.Fold Lib.Latest

/-- One call: what `cJSON_Parse` makes of the text `*json_ref`, the clock and
the data. -/
structure Call where
  pJsonRef : Option CJson
  now : CString
  data : EdgeData

/-- The spans and the deadband cached for a tag. -/
structure CachedTag where
  spanHigh : Rat
  spanLow : Rat
  deadband : Rat

/-- The `int`s read for a tag are the numbers cached for it. -/
structure TagConfig.Exact (config : TagConfig) (cached : CachedTag) : Prop where
  spanHigh : (config.spanHigh : Rat) = cached.spanHigh
  spanLow : (config.spanLow : Rat) = cached.spanLow
  deadband : (config.deadband : Rat) = cached.deadband

instance (config : TagConfig) (cached : CachedTag) :
    Decidable (config.Exact cached) :=
  decidable_of_iff
    ((config.spanHigh : Rat) = cached.spanHigh ∧
      (config.spanLow : Rat) = cached.spanLow ∧
      (config.deadband : Rat) = cached.deadband)
    ⟨fun h => ⟨h.1, h.2.1, h.2.2⟩, fun h => ⟨h.1, h.2, h.3⟩⟩

/-- The number cached under a key of the node of a tag. -/
def infoNumber (subJsonRefTag : CJson) (key : CString) : Option Rat :=
  (getObjectItem subJsonRefTag.fields (some key)).map CJson.valuedouble

namespace Call

/-- The node `d` of the cached configuration. -/
def refD (c : Call) : Option CJson :=
  CJson.getItem c.pJsonRef (some (cstr "d"))

/-- The cached configuration of a tag: none when the device or the tag is not
cached or its deadband is 0. -/
def cachedConfig (c : Call) (id name : CString) :
    Except Fault (Option TagConfig) :=
  readConfig (CJson.getItem c.refD (some id)) (some name)

/-- The spans and the deadband cached for a tag, as the numbers they are. -/
def cachedTag (c : Call) (id name : CString) : Option CachedTag := do
  let subJsonRefTag ←
    CJson.getItem (CJson.getItem c.refD (some id)) (some name)
  let spanHigh ← infoNumber subJsonRefTag (cstr "SH")
  let spanLow ← infoNumber subJsonRefTag (cstr "SL")
  let deadband ← infoNumber subJsonRefTag (cstr "Deadband")
  return { spanHigh, spanLow, deadband }

/-- The call lists the analog tag under the device. -/
def Lists (c : Call) (id name : CString) : Prop :=
  ∃ device ∈ c.data.devices, device.id = some id ∧
    ∃ tag ∈ device.analogTagList, tag.name = some name

end Call

private theorem infoNumber_of_infoInt {node : CJson} {key : CString} {n : Int}
    (h : infoInt node key = .ok n) : ∃ x, infoNumber node key = some x := by
  unfold infoInt at h
  cases hget : getObjectItem node.fields (some key) with
  | none =>
      rw [hget] at h
      cases h
  | some info => exact ⟨info.valuedouble, by rw [infoNumber, hget]; rfl⟩

/-- A configuration is read from cached numbers. -/
theorem Call.cachedTag_of_config {c : Call} {id name : CString}
    {config : TagConfig} (h : c.cachedConfig id name = .ok (some config)) :
    ∃ cached, c.cachedTag id name = some cached := by
  unfold cachedConfig readConfig at h
  unfold cachedTag
  cases hnode : CJson.getItem (CJson.getItem c.refD (some id)) (some name) with
  | none =>
      rw [hnode] at h
      cases h
  | some node =>
      rw [hnode] at h
      obtain ⟨spanHigh, hhigh, h⟩ := bind_eq_ok h
      obtain ⟨spanLow, hlow, h⟩ := bind_eq_ok h
      obtain ⟨deadband, hdeadband, _⟩ := bind_eq_ok h
      obtain ⟨high, hhigh⟩ := infoNumber_of_infoInt hhigh
      obtain ⟨low, hlow⟩ := infoNumber_of_infoInt hlow
      obtain ⟨band, hband⟩ := infoNumber_of_infoInt hdeadband
      refine ⟨⟨high, low, band⟩, ?_⟩
      rw [Option.bind_eq_bind, Option.bind_some, hhigh, hlow, hband]
      rfl

/-- The retained values and the payloads produced so far. -/
structure Session where
  pPrevious : Previous
  payloads : List Payload

/-- The session after `InitPrevious`. -/
def start : Session where
  pPrevious := initPrevious
  payloads := []

/-- The analog values put into a payload so far, oldest first. -/
def Session.reports (s : Session) : List (Key × Rat) :=
  s.payloads.flatMap Payload.reports

/-- One call in a session. -/
def callStep (s : Session) (c : Call) : Except Fault Session := do
  let sent ← sendDataMessage c.pJsonRef c.now s.pPrevious c.data
  return { pPrevious := sent.pPrevious, payloads := s.payloads ++ [sent.payload] }

/-- A run of calls. -/
def run (calls : List Call) : Except Fault Session := calls.foldlM callStep start

/-- A run of calls and the outcome of one more call after it. -/
def runThen (calls : List Call) (c : Call) : Except Fault (Session × Sent) := do
  let σ ← run calls
  let sent ← sendDataMessage c.pJsonRef c.now σ.pPrevious c.data
  return (σ, sent)

theorem runThen_ok {calls : List Call} {c : Call} {r : Session × Sent}
    (h : runThen calls c = .ok r) (more : List Call) :
    Visits callStep start (calls ++ c :: more) calls r.1 c ∧
      sendDataMessage c.pJsonRef c.now r.1.pPrevious c.data = .ok r.2 := by
  obtain ⟨σ, hrun, hrest⟩ := bind_eq_ok h
  obtain ⟨sent, hsent, hr⟩ := bind_eq_ok hrest
  cases hr
  exact ⟨⟨⟨more, rfl⟩, hrun⟩, hsent⟩

theorem sendDataMessage_ok {V : Type} [AnalogValue V]
    {pJsonRef : Option CJson} {now : CString} {p : Previous V}
    {data : EdgeData V} {sent : Sent V}
    (h : sendDataMessage pJsonRef now p data = .ok sent) :
    ∃ l', deviceLoop pJsonRef p data = .ok l' ∧
      sent.pPrevious = l'.pPrevious ∧ sent.payload.d = l'.subJsonD ∧
      sent.dataExist = l'.dataExist := by
  obtain ⟨l', hloop, hrest⟩ := bind_eq_ok h
  obtain ⟨ts, _, hsent⟩ := bind_eq_ok hrest
  cases hsent
  exact ⟨l', hloop, rfl, rfl, rfl⟩

theorem callStep_ok {s s' : Session} {c : Call} (h : callStep s c = .ok s') :
    ∃ l', c.data.devices.foldlM (deviceStep c.refD) (startLoop s.pPrevious) =
        .ok l' ∧
      s'.pPrevious = l'.pPrevious ∧
      s'.reports = s.reports ++ reports l'.subJsonD := by
  obtain ⟨sent, hsent, hs'⟩ := bind_eq_ok h
  obtain ⟨l', hloop, hprev, hd, _⟩ := sendDataMessage_ok hsent
  cases hs'
  refine ⟨l', hloop, hprev, ?_⟩
  simp [Session.reports, Payload.reports, hd]

/-- The calls of a run reach the turn of the analog loop over `tag` of
`device` in call `c`, made in session `σ`. -/
structure TurnOf (calls : List Call) (σ : Session) (c : Call)
    (l : DeviceLoop) (device : EdgeDevice) (t : TagLoop) (tag : AnalogTag) :
    Prop where
  call : ∃ pre, Visits callStep start calls pre σ c
  reaches : Reaches c.refD σ.pPrevious c.data.devices l device t tag

/-- The flag `match_previous_tag` in force is one an earlier device left set:
the device is not in `pPrevious`, so the flag was not refreshed for it. -/
def StaleFlag (l : DeviceLoop) (device : EdgeDevice) (t : TagLoop) : Prop :=
  knownDevice l.pPrevious device = false ∧ t.matchPreviousTag = true

instance (l : DeviceLoop) (device : EdgeDevice) (t : TagLoop) :
    Decidable (StaleFlag l device t) :=
  inferInstanceAs (Decidable (knownDevice l.pPrevious device = false ∧
    t.matchPreviousTag = true))

/-! ## Names -/

/-- The ids of a run are pairwise distinct ignoring case, and so are the
analog tag names of each device: within a call none is listed twice, and over
the run two that agree ignoring case are the same. -/
structure NamesDistinct (calls : List Call) : Prop where
  ids : ∀ c ∈ calls, Distinct (c.data.devices.map EdgeDevice.id)
  tags : ∀ c ∈ calls, ∀ device ∈ c.data.devices,
    Distinct (device.analogTagList.map EdgeTag.name)
  sameId : ∀ c ∈ calls, ∀ c' ∈ calls, ∀ a ∈ c.data.devices,
    ∀ b ∈ c'.data.devices, ∀ i j, a.id = some i → b.id = some j →
      lower i = lower j → i = j
  sameTag : ∀ c ∈ calls, ∀ c' ∈ calls, ∀ id m n, c.Lists id m →
    c'.Lists id n → lower m = lower n → m = n

/-- The elements of an array tag with the same index have the same value. -/
def IndexFunctional (tag : AnalogTag) : Prop :=
  ∀ a ∈ tag.elements, ∀ b ∈ tag.elements, a.index = b.index →
    a.value = b.value

instance (tag : AnalogTag) : Decidable (IndexFunctional tag) :=
  inferInstanceAs (Decidable (∀ a ∈ tag.elements, ∀ b ∈ tag.elements,
    a.index = b.index → a.value = b.value))

/-! ## The invariant rule -/

/-- A call that does not list a tag keeps its record. -/
theorem call_record_frame {calls : List Call} (hnames : NamesDistinct calls)
    {c c' : Call} (hc : c ∈ calls) (hc' : c' ∈ calls) {id name : CString}
    (hlists : c'.Lists id name) (hnot : ¬ c.Lists id name) {p : Previous}
    {l' : DeviceLoop}
    (h : c.data.devices.foldlM (deviceStep c.refD) (startLoop p) = .ok l') :
    record l'.pPrevious id name = record p id name := by
  have hlisted := hlists
  obtain ⟨device', hdevice', hid', _⟩ := hlisted
  refine deviceLoop_record_frame (l := startLoop p) ?_ h
  intro device hdevice i hi hid tag htag n hn hname
  have : i = id :=
    hnames.sameId c hc c' hc' device hdevice device' hdevice' i id hi hid' hid
  subst this
  have hl : c.Lists i n := ⟨device, hdevice, hi, tag, htag, hn⟩
  have : n = name := hnames.sameTag c hc c' hc' i n name hl hlists hname
  subst this
  exact hnot hl

/-- The turn of a call over a tag it lists. -/
theorem call_turn {calls : List Call} (hnames : NamesDistinct calls)
    {c : Call} (hc : c ∈ calls) {device : EdgeDevice} {id : CString}
    {tag : AnalogTag} {name : CString} (hdevice : device ∈ c.data.devices)
    (hid : device.id = some id) (htag : tag ∈ device.analogTagList)
    (hname : tag.name = some name) {p : Previous} {l' : DeviceLoop}
    (h : c.data.devices.foldlM (deviceStep c.refD) (startLoop p) = .ok l') :
    ∃ l t config s, CallTurn c.refD p c.data.devices l' device id tag name
      l t config s :=
  deviceLoop_turn (hnames.ids c hc) hdevice hid (hnames.tags c hc device hdevice)
    htag hname h

/-- Invariant rule for the record of one tag. -/
theorem run_record {calls : List Call} (hnames : NamesDistinct calls)
    {P : Option Record → List (Key × Rat) → Prop} {id name : CString}
    {c₀ : Call} (hc₀ : c₀ ∈ calls) (hlists : c₀.Lists id name)
    (hstart : P none [])
    (hframe : ∀ r h h', (∀ idx v, ((id, name, idx), v) ∉ h') → P r h →
      P r (h ++ h'))
    (hturn : ∀ σ c l' device tag l t config s,
      TurnOf calls σ c l device t tag →
      device.id = some id → tag.name = some name →
      CallTurn c.refD σ.pPrevious c.data.devices l' device id tag name
        l t config s →
      P (record σ.pPrevious id name) σ.reports →
      P (record l'.pPrevious id name) (σ.reports ++ reports l'.subJsonD)) :
    ∀ pre σ, pre <+: calls → pre.foldlM callStep start = .ok σ →
      P (record σ.pPrevious id name) σ.reports := by
  rintro pre σ ⟨post, rfl⟩ hrun
  have hinit : P (record start.pPrevious id name) start.reports := hstart
  refine foldlM_invariant
    (P := fun _ σ => P (record σ.pPrevious id name) σ.reports)
    pre σ hinit ?_ hrun
  intro done σ c σ' hvisit hP hstep
  have hv := hvisit.append post
  obtain ⟨l', hloop, hprev, hreports⟩ := callStep_ok hstep
  rw [hprev, hreports]
  by_cases hl : c.Lists id name
  · obtain ⟨device, hdevice, hid, tag, htag, hname⟩ := hl
    obtain ⟨l, t, config, s, hct⟩ :=
      call_turn hnames hv.mem hdevice hid htag hname hloop
    exact hturn σ c l' device tag l t config s ⟨⟨done, hv⟩, hct.reaches⟩
      hid hname hct hP
  · rw [call_record_frame hnames hv.mem hc₀ hlists hl hloop]
    refine hframe _ _ _ ?_ hP
    intro idx v hmem
    exact hl (deviceLoop_reports_listed hloop hmem)

/-! ## Runs over the same tags -/

/-- The ids of the devices of a call, each with the names of its analog
tags. -/
def Call.names (c : Call) : List (Option CString × List (Option CString)) :=
  c.data.devices.map fun device =>
    (device.id, device.analogTagList.map EdgeTag.name)

/-- A run whose calls all list the same distinct names. -/
theorem namesDistinct_of_names {calls : List Call}
    {names : List (Option CString × List (Option CString))}
    (hcalls : ∀ c ∈ calls, c.names = names)
    (hids : Distinct (names.map Prod.fst))
    (htags : ∀ e ∈ names, Distinct e.2) : NamesDistinct calls := by
  have hdevice : ∀ c ∈ calls, ∀ device ∈ c.data.devices,
      (device.id, device.analogTagList.map EdgeTag.name) ∈ names := by
    intro c hc device hmem
    rw [← hcalls c hc]
    exact List.mem_map_of_mem hmem
  refine ⟨?_, ?_, ?_, ?_⟩
  · intro c hc
    rw [← hcalls c hc, Call.names, List.map_map] at hids
    exact hids
  · intro c hc device hmem
    exact htags _ (hdevice c hc device hmem)
  · intro c hc c' hc' a ha b hb i j hi hj hlower
    have heq := hids.eq_of_lower (hdevice c hc a ha) (hdevice c' hc' b hb)
      hi hj hlower
    have hid : a.id = b.id := congrArg Prod.fst heq
    rw [hi, hj] at hid
    exact Option.some.inj hid
  · rintro c hc c' hc' id m n ⟨a, ha, hida, x, hx, hm⟩ ⟨b, hb, hidb, y, hy, hn⟩
      hlower
    have hentry := hids.eq_of_lower (hdevice c hc a ha) (hdevice c' hc' b hb)
      hida hidb rfl
    have hnames : a.analogTagList.map EdgeTag.name =
        b.analogTagList.map EdgeTag.name := congrArg Prod.snd hentry
    have hdistinct := htags _ (hdevice c hc a ha)
    have hmem : some m ∈ a.analogTagList.map EdgeTag.name :=
      hm ▸ List.mem_map_of_mem hx
    have hmem' : some n ∈ a.analogTagList.map EdgeTag.name := by
      rw [hnames]
      exact hn ▸ List.mem_map_of_mem hy
    rw [← List.map_id (a.analogTagList.map EdgeTag.name)] at hdistinct
    exact Option.some.inj
      (hdistinct.eq_of_lower hmem hmem' rfl rfl hlower)

/-! ## The turns of a given run -/

/-- A turn of the analog loop and what was done before it. -/
structure VisitedTurn where
  pre : List Call
  σ : Session
  c : Call
  preD : List EdgeDevice
  l : DeviceLoop
  device : EdgeDevice
  preT : List AnalogTag
  t : TagLoop
  tag : AnalogTag

/-- The turns of a run in their order, for conditions that are checked by
evaluation. -/
def turns (calls : List Call) : List VisitedTurn :=
  (visits callStep start calls).flatMap fun (pre, σ, c) =>
    (visits (deviceStep c.refD) (startLoop σ.pPrevious)
      c.data.devices).flatMap fun (preD, l, device) =>
        (visits (analogStep (CJson.getItem c.refD device.id)
          (knownDevice l.pPrevious device)) (enterDevice c.refD l device)
          device.analogTagList).map fun (preT, t, tag) =>
            { pre, σ, c, preD, l, device, preT, t, tag }

theorem mem_turns {calls pre : List Call} {σ : Session} {c : Call}
    {preD : List EdgeDevice} {l : DeviceLoop} {device : EdgeDevice}
    {preT : List AnalogTag} {t : TagLoop} {tag : AnalogTag}
    (hcall : Visits callStep start calls pre σ c)
    (hdevice : Visits (deviceStep c.refD) (startLoop σ.pPrevious)
      c.data.devices preD l device)
    (htag : Visits (analogStep (CJson.getItem c.refD device.id)
      (knownDevice l.pPrevious device)) (enterDevice c.refD l device)
      device.analogTagList preT t tag) :
    { pre, σ, c, preD, l, device, preT, t, tag } ∈ turns calls :=
  List.mem_flatMap.mpr ⟨_, hcall.mem_visits,
    List.mem_flatMap.mpr ⟨_, hdevice.mem_visits,
      List.mem_map.mpr ⟨_, htag.mem_visits, rfl⟩⟩⟩

/-- What holds of all listed turns holds of every turn. -/
theorem TurnOf.of_turns {calls : List Call} {P : VisitedTurn → Prop}
    (h : ∀ x ∈ turns calls, P x) {σ : Session} {c : Call} {l : DeviceLoop}
    {device : EdgeDevice} {t : TagLoop} {tag : AnalogTag}
    (hturn : TurnOf calls σ c l device t tag) :
    ∃ pre preD preT, P { pre, σ, c, preD, l, device, preT, t, tag } := by
  obtain ⟨pre, hcall⟩ := hturn.call
  obtain ⟨preD, hdevice⟩ := hturn.reaches.inDevices
  obtain ⟨preT, htag⟩ := hturn.reaches.inTags
  exact ⟨pre, preD, preT, h _ (mem_turns hcall hdevice htag)⟩

/-! ## Sample calls -/

/-- A scalar tag. -/
def sampleTag (name : CString) (value : Rat) : AnalogTag where
  name := some name
  value := value

/-- A tag with a deadband of 10 percent of the span from 0 to 100. -/
def sampleTagConfig (name : CString) : AnalogTagConfig where
  name := some name
  deadband := 10
  spanHigh := 100
  spanLow := 0

/-- A cached configuration with the tags `x` and `z` of device `A` and `y` of
device `B`. -/
def sampleConfig : NodeConfig where
  deviceList := some
    [{ id := some (cstr "A")
       analogTagList :=
         [sampleTagConfig (cstr "x"), sampleTagConfig (cstr "z")] },
     { id := some (cstr "B"), analogTagList := [sampleTagConfig (cstr "y")] }]

/-- A call over analog tags under the sample configuration. -/
def sampleCall (devices : List (CString × List AnalogTag)) : Call where
  pJsonRef := some (saveConfig sampleConfig)
  now := []
  data := {
    deviceList := some <| devices.map fun d =>
      { id := some d.1, analogTagList := d.2 } }

/-- An array tag. -/
def sampleArray (name : CString) (elements : List (ArrayTag Rat)) :
    AnalogTag where
  name := some name
  value := 0
  arraySize := elements.length
  arrayList := some elements
  fits := by
    intro l h
    cases h
    exact le_refl _

/-- Two calls over an array tag and a scalar tag of device `A` and a scalar
tag of device `B`.  In the second one the values of `A` leave the deadband and
that of `B` does not. -/
def sampleRun : List Call :=
  [sampleCall
      [(cstr "A", [sampleArray (cstr "x") [⟨1, 5⟩, ⟨2, 5⟩],
        sampleTag (cstr "z") 5]),
      (cstr "B", [sampleTag (cstr "y") 5])],
    sampleCall
      [(cstr "A", [sampleArray (cstr "x") [⟨1, 50⟩, ⟨2, 60⟩],
        sampleTag (cstr "z") 50]),
      (cstr "B", [sampleTag (cstr "y") 6])]]

theorem sampleRun_names : NamesDistinct sampleRun := by
  have hcalls : ∀ c ∈ sampleRun, c.names =
      [(some (cstr "A"), [some (cstr "x"), some (cstr "z")]),
        (some (cstr "B"), [some (cstr "y")])] := by
    intro c hc
    simp only [sampleRun, List.mem_cons, List.not_mem_nil, or_false] at hc
    rcases hc with rfl | rfl
    · rfl
    · rfl
  refine namesDistinct_of_names hcalls ?_ ?_
  · decide
  · decide

end DatahubEdge.Message
