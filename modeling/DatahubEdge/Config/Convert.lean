import DatahubEdge.CJson.Build
import DatahubEdge.EdgeConfig

/-!
# `ConvertCreateOrUpdateConfig` and `ConvertDeleteConfig`

The messages that announce a node configuration.  A member guarded by a test
of its own value is an optional slot: a text is written unless it is NULL, a
number unless it is zero.  `cJSON_AddStringToObject` adds nothing for a NULL
text, guarded or not, and `cJSON_AddItemToObject` nothing under a NULL name.

The two alarm fields of an analog tag that the source takes from another
member of the structure are taken from there.
-/

namespace DatahubEdge.Config

/-! ## The tags -/

/-- A `bool` added as a number. -/
def boolNumber (b : Bool) : CJson := .number (if b then 1 else 0)

/-- The members all three kinds of tags start with. -/
def commonSlots (description : Option CString) (type : Rat) (readOnly : Bool)
    (arraySize : Int) (alarmStatus needLog : Bool) :
    List (CString × Option CJson) :=
  [(cstr "Desc", textMember description),
    (cstr "Type", some (.number type)),
    (cstr "Ro", some (boolNumber readOnly)),
    (cstr "Ary", numberMember arraySize),
    (cstr "Alm", some (boolNumber alarmStatus)),
    (cstr "Log", some (boolNumber needLog))]

def analogSlots (tag : AnalogTagConfig) : List (CString × Option CJson) :=
  commonSlots tag.description 1 tag.readOnly tag.arraySize tag.alarmStatus
      tag.needLog ++
    [(cstr "SH", numberMember tag.spanHigh),
      (cstr "SL", numberMember tag.spanLow),
      (cstr "EU", textMember tag.engineerUnit),
      (cstr "IDF", numberMember tag.integerDisplayFormat),
      (cstr "FDF", numberMember tag.fractionDisplayFormat),
      -- `HHPriority` is not looked at
      (cstr "HHP", numberMember tag.highPriority),
      (cstr "HHA", numberMember tag.hhAlarmLimit),
      (cstr "HiP", numberMember tag.highPriority),
      (cstr "HiA", numberMember tag.highAlarmLimit),
      (cstr "LoP", numberMember tag.lowPriority),
      -- `LowAlarmLimit` is not looked at
      (cstr "LoA", numberMember tag.lowPriority),
      (cstr "LLP", numberMember tag.llPriority),
      (cstr "LLA", numberMember tag.llAlarmLimit)]

/-- The keys `S0` to `S7`. -/
def stateKey (i : Fin 8) : CString := cstr "S" ++ printNat i

/-- The keys `S0P` to `S7P`. -/
def priorityKey (i : Fin 8) : CString := stateKey i ++ cstr "P"

def discreteSlots (tag : DiscreteTagConfig) : List (CString × Option CJson) :=
  commonSlots tag.description 2 tag.readOnly tag.arraySize tag.alarmStatus
      tag.needLog ++
    (List.finRange 8).map (fun i => (stateKey i, textMember (tag.state i))) ++
    (List.finRange 8).map fun i =>
      (priorityKey i, numberMember (tag.stateAlarmPriority i))

def textSlots (tag : TextTagConfig) : List (CString × Option CJson) :=
  commonSlots tag.description 3 tag.readOnly tag.arraySize tag.alarmStatus
    tag.needLog

def analogTagNode (tag : AnalogTagConfig) : CJson :=
  .object (members (analogSlots tag))

def discreteTagNode (tag : DiscreteTagConfig) : CJson :=
  .object (members (discreteSlots tag))

def textTagNode (tag : TextTagConfig) : CJson :=
  .object (members (textSlots tag))

/-- The three loops over the tags of a device, which add to one object. -/
def tagObject (analog : AnalogTagConfig → CJson)
    (discrete : DiscreteTagConfig → CJson) (text : TextTagConfig → CJson)
    (device : DeviceConfig) : Obj CJson :=
  let o := device.analogTagList.foldl
    (fun o tag => addItemToObject o tag.name (analog tag)) []
  let o := device.discreteTagList.foldl
    (fun o tag => addItemToObject o tag.name (discrete tag)) o
  device.textTagList.foldl
    (fun o tag => addItemToObject o tag.name (text tag)) o

/-! ## The message -/

/-- The value of a constant of the enumeration. -/
def typeNumber : NodeConfigType → Rat
  | .node => 0
  | .gateway => 1
  | .virtualGroup => 2

def deviceNode (device : DeviceConfig) : CJson :=
  .object <| members
    [(cstr "Name", textMember device.name),
      (cstr "Type", textMember device.type),
      (cstr "Desc", textMember device.description),
      (cstr "PNbr", some (.number device.comPortNumber)),
      (cstr "RP", textMember device.retentionPolicyName),
      (cstr "Tag", some (.object
        (tagObject analogTagNode discreteTagNode textTagNode device)))]

/-- The loop over the devices. -/
def deviceObject (node : DeviceConfig → CJson) (config : NodeConfig) :
    Option CJson :=
  config.deviceList.map fun deviceList => .object <| deviceList.foldl
    (fun o device => addItemToObject o device.id (node device)) []

/-- The root of a configuration message around the node of the SCADA node. -/
def configMessage (action : Int) (config : NodeConfig) (node : CJson)
    (ts : CString) : CJson :=
  .object
    [(cstr "d", .object
      [(cstr "Action", .number action),
        (cstr "Scada", .object (addItemToObject [] config.id node))]),
      (cstr "ts", .string ts)]

/-- The tree `ConvertCreateOrUpdateConfig` prints. -/
def convertCreateOrUpdateConfig (action : Int) (config : NodeConfig)
    (hbt : Int) (ts : CString) : CJson :=
  configMessage action config (.object <| members
    [(cstr "Device", deviceObject deviceNode config),
      (cstr "Name", textMember config.name),
      (cstr "Desc", textMember config.description),
      (cstr "Type", some (.number (typeNumber config.type))),
      (cstr "Hbt", some (.number hbt))]) ts

/-- The node of a device in a deletion; its tags are empty objects. -/
def deletedDeviceNode (device : DeviceConfig) : CJson :=
  .object <| members
    [(cstr "Name", textMember device.name),
      (cstr "Tag", some (.object (tagObject (fun _ => .object [])
        (fun _ => .object []) (fun _ => .object []) device)))]

/-- The tree `ConvertDeleteConfig` prints. -/
def convertDeleteConfig (action : Int) (config : NodeConfig) (ts : CString) :
    CJson :=
  configMessage action config (.object <| members
    [(cstr "Device", deviceObject deletedDeviceNode config),
      (cstr "Name", textMember config.name)]) ts

end DatahubEdge.Config
