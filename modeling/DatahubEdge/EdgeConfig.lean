import DatahubEdge.CJson.Print

/-!
# The configuration structures of `EDGE_CONFIG.h` and `SaveConfig`

`SaveConfig` caches the analog part of a node configuration in the file
`config.json`; `SendDataMessage` later reads the deadband and the spans of a
tag from that text.

## Main results

* `saveConfig_tag` — every tag node of the cached tree carries `Deadband`,
  `SH` and `SL`.
-/

namespace DatahubEdge

/-- `ANALOG_TAG_CONFIG`. -/
structure AnalogTagConfig where
  name : Option CString
  description : Option CString := none
  readOnly : Bool := false
  arraySize : Int := 0
  alarmStatus : Bool := false
  needLog : Bool := false
  deadband : Int
  spanHigh : Rat
  spanLow : Rat
  engineerUnit : Option CString := none
  integerDisplayFormat : Int := 0
  fractionDisplayFormat : Int := 0
  hhPriority : Int := 0
  hhAlarmLimit : Rat := 0
  highPriority : Int := 0
  highAlarmLimit : Rat := 0
  lowPriority : Int := 0
  lowAlarmLimit : Rat := 0
  llPriority : Int := 0
  llAlarmLimit : Rat := 0

/-- `DISCRETE_TAG_CONFIG`; the states and their priorities are in order. -/
structure DiscreteTagConfig where
  name : Option CString
  description : Option CString := none
  readOnly : Bool := false
  arraySize : Int := 0
  alarmStatus : Bool := false
  needLog : Bool := false
  state : Fin 8 → Option CString := fun _ => none
  stateAlarmPriority : Fin 8 → Int := fun _ => 0

/-- `TEXT_TAG_CONFIG`. -/
structure TextTagConfig where
  name : Option CString
  description : Option CString := none
  readOnly : Bool := false
  arraySize : Int := 0
  alarmStatus : Bool := false
  needLog : Bool := false

/-- `DEVICE_CONFIG_STRUCT`. -/
structure DeviceConfig where
  id : Option CString
  name : Option CString := none
  comPortNumber : Int := 0
  retentionPolicyName : Option CString := none
  type : Option CString := none
  description : Option CString := none
  analogTagList : List AnalogTagConfig
  discreteTagList : List DiscreteTagConfig := []
  textTagList : List TextTagConfig := []

/-- `NODEConfigType`. -/
inductive NodeConfigType where
  | node | gateway | virtualGroup

/-- `NODE_CONFIG_STRUCT`. -/
structure NodeConfig where
  id : Option CString := none
  name : Option CString := none
  description : Option CString := none
  type : NodeConfigType := .node
  deviceList : Option (List DeviceConfig)

/-! ## `SaveConfig` -/

/-- The node of one analog tag.  Zero spans are cached as 1000 and 0. -/
def saveTag (tag : AnalogTagConfig) : CJson :=
  .object <|
    [(cstr "Deadband", .number tag.deadband)] ++
    (if tag.fractionDisplayFormat ≠ 0 then
      [(cstr "FDF", .number tag.fractionDisplayFormat)] else []) ++
    [(cstr "SH", .number (if tag.spanHigh ≠ 0 then tag.spanHigh else 1000)),
      (cstr "SL", .number (if tag.spanLow ≠ 0 then tag.spanLow else 0))]

def saveDevice (device : DeviceConfig) : CJson :=
  .object <| device.analogTagList.foldl
    (fun node tag => addItemToObject node tag.name (saveTag tag)) []

/-- The tree `SaveConfig` prints into `config.json`. -/
def saveConfig (config : NodeConfig) : CJson :=
  match config.deviceList with
  | none => .object []
  | some deviceList =>
      .object [(cstr "d", .object <| deviceList.foldl
        (fun node device => addItemToObject node device.id (saveDevice device))
        [])]

/-! ## What a lookup in the cached tree yields -/

/-- A tag found by name under a device of the cached `d` node was written by
`saveTag`. -/
theorem saveConfig_tag {config : NodeConfig} {id name : Option CString}
    {node : CJson}
    (h : CJson.getItem
      (CJson.getItem
        (CJson.getItem (some (saveConfig config)) (some (cstr "d"))) id) name =
      some node) : ∃ tag, node = saveTag tag := by
  cases hl : config.deviceList with
  | none =>
      simp [saveConfig, hl, CJson.getItem, CJson.fields, getObjectItem,
        findItem] at h
  | some deviceList =>
      obtain ⟨dev, hdev, hname⟩ := Option.bind_eq_some_iff.mp h
      obtain ⟨d, hd, hid⟩ := Option.bind_eq_some_iff.mp hdev
      obtain ⟨_, hroot, hd⟩ := Option.bind_eq_some_iff.mp hd
      cases hroot
      obtain ⟨_, hmem⟩ := mem_of_getObjectItem hd
      simp only [saveConfig, hl, CJson.fields, List.mem_singleton,
        Prod.mk.injEq] at hmem
      rw [hmem.2] at hid
      obtain ⟨_, hmem⟩ := mem_of_getObjectItem hid
      rcases mem_foldl_addItemToObject hmem with hmem | ⟨device, _, hdevice⟩
      · cases hmem
      · have hdevice : dev = saveDevice device := hdevice
        rw [hdevice] at hname
        obtain ⟨_, hmem⟩ := mem_of_getObjectItem hname
        rcases mem_foldl_addItemToObject hmem with hmem | ⟨tag, _, htag⟩
        · cases hmem
        · exact ⟨tag, htag⟩

end DatahubEdge
