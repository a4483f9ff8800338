import DatahubEdge.Config.ReadBack

/-!
# The items the three configuration encoders address

An encoder addresses the node, the devices and the tags whose keys are in its
tree.  `ConvertCreateOrUpdateConfig` and `ConvertDeleteConfig` put the tags of
a device under `Tag`; `SaveConfig` puts the analog ones straight into the
device.  All three leave out what has no name.

## Main results

* `tagKeys_deviceNode`, `tagKeys_deletedDeviceNode` — the tag keys of one
  device.
* `same_items` — the three trees address the same items, if the node has an
  id.
-/

namespace DatahubEdge.Config

open Lib

/-! ## What a tree addresses -/

/-- The keys under `Tag` whose nodes are kept, none without a `Tag`. -/
def tagKeys (keep : CJson → Bool) (device : CJson) : Option (List CString) :=
  (member device (cstr "Tag")).map fun tags =>
    (tags.fields.filter fun e => keep e.2).map Prod.fst

/-- The keys under `Device`, each with its tag keys. -/
def deviceItems (keep : CJson → Bool) (node : CJson) :
    Option (List (CString × Option (List CString))) :=
  (member node (cstr "Device")).map fun devices =>
    devices.fields.map fun e => (e.1, tagKeys keep e.2)

/-- The children of `d.Scada` of a message. -/
def scadaNodes (message : CJson) : Obj CJson :=
  match (member message (cstr "d")).bind (member · (cstr "Scada")) with
  | some scada => scada.fields
  | none => []

/-- The node keys of a message, each with its devices and their tags. -/
def messageItems (message : CJson) :
    List (CString × Option (List (CString × Option (List CString)))) :=
  (scadaNodes message).map fun e => (e.1, deviceItems (fun _ => true) e.2)

/-- The keys under `d` of the cached tree, each with the keys it holds. -/
def savedItems (tree : CJson) :
    Option (List (CString × Option (List CString))) :=
  (member tree (cstr "d")).map fun d =>
    d.fields.map fun e => (e.1, some (e.2.fields.map Prod.fst))

/-- The node of an analog tag. -/
def isAnalog (node : CJson) : Bool :=
  decide (readNumber node (cstr "Type") = 1)

/-! ## The tags of one device -/

theorem tagKeys_deviceNode (device : DeviceConfig) :
    tagKeys (fun _ => true) (deviceNode device) =
      some ((tagsOf device).filterMap Tag.name) := by
  rw [tagKeys, member_tag, Option.map_some, CJson.fields, List.filter_true,
    keys_built]

theorem tagKeys_deletedDeviceNode (device : DeviceConfig) :
    tagKeys (fun _ => true) (deletedDeviceNode device) =
      some ((tagsOf device).filterMap Tag.name) := by
  have htag : member (deletedDeviceNode device) (cstr "Tag") =
      some (.object (tagObject (fun _ => .object []) (fun _ => .object [])
        (fun _ => .object []) device)) := by
    apply member_members
    · show ([cstr "Name", cstr "Tag"]).Nodup
      decide
    · simp
  rw [tagKeys, htag, Option.map_some, CJson.fields, List.filter_true,
    tagObject_built, keys_built]

theorem isAnalog_node (tag : Tag) :
    isAnalog tag.node = decide (tag.type = 1) := by
  rw [isAnalog, tag.readNumber_type]

/-- The type tells the analog tags. -/
theorem filter_tagsOf (device : DeviceConfig) :
    (tagsOf device).filter (fun tag => isAnalog tag.node) =
      device.analogTagList.map .analog := by
  have hanalog : (device.analogTagList.map Tag.analog).filter
      (fun tag => isAnalog tag.node) = device.analogTagList.map .analog := by
    rw [List.filter_eq_self]
    intro tag htag
    obtain ⟨t, -, rfl⟩ := List.mem_map.mp htag
    rw [isAnalog_node]
    exact decide_eq_true (rfl : (1 : Rat) = 1)
  have hdiscrete : (device.discreteTagList.map Tag.discrete).filter
      (fun tag => isAnalog tag.node) = [] := by
    rw [List.filter_eq_nil_iff]
    intro tag htag
    obtain ⟨t, -, rfl⟩ := List.mem_map.mp htag
    rw [isAnalog_node]
    show ¬ decide ((2 : Rat) = 1) = true
    decide
  have htext : (device.textTagList.map Tag.text).filter
      (fun tag => isAnalog tag.node) = [] := by
    rw [List.filter_eq_nil_iff]
    intro tag htag
    obtain ⟨t, -, rfl⟩ := List.mem_map.mp htag
    rw [isAnalog_node]
    show ¬ decide ((3 : Rat) = 1) = true
    decide
  rw [tagsOf, List.filter_append, List.filter_append, hanalog, hdiscrete,
    htext, List.append_nil, List.append_nil]

/-- The analog part of the tag keys is what `SaveConfig` puts into the
device. -/
theorem analog_tagKeys_deviceNode (device : DeviceConfig) :
    tagKeys isAnalog (deviceNode device) =
      some ((saveDevice device).fields.map Prod.fst) := by
  have hsaved : (saveDevice device).fields =
      built AnalogTagConfig.name saveTag device.analogTagList := by
    rw [saveDevice, CJson.fields,
      foldl_addItemToObject AnalogTagConfig.name saveTag, List.nil_append]
  rw [tagKeys, member_tag, Option.map_some, CJson.fields, filter_built,
    filter_tagsOf, keys_built, hsaved, keys_built, List.filterMap_map]
  rfl

/-! ## The devices -/

/-- The items of a node whose `Device` member is the one given. -/
theorem deviceItems_of_member (keep : CJson → Bool) {node : CJson}
    {config : NodeConfig} {device : DeviceConfig → CJson}
    (h : member node (cstr "Device") = deviceObject device config) :
    deviceItems keep node = config.deviceList.map
      (built DeviceConfig.id fun d => tagKeys keep (device d)) := by
  rw [deviceItems, h, deviceObject_eq]
  cases config.deviceList with
  | none => rfl
  | some deviceList =>
      exact congrArg some (map_built (tagKeys keep) deviceList)

theorem savedItems_saveConfig (config : NodeConfig) :
    savedItems (saveConfig config) = config.deviceList.map
      (built DeviceConfig.id fun d => tagKeys isAnalog (deviceNode d)) := by
  rw [saveConfig]
  cases config.deviceList with
  | none => rfl
  | some deviceList =>
      have hd : ∀ devices : Obj CJson,
          savedItems (.object [(cstr "d", .object devices)]) = some
            (devices.map fun e => (e.1, some (e.2.fields.map Prod.fst))) :=
        fun _ => rfl
      dsimp only
      rw [foldl_addItemToObject DeviceConfig.id saveDevice, List.nil_append,
        hd, map_built (fun node : CJson => some (node.fields.map Prod.fst))]
      simp only [analog_tagKeys_deviceNode]
      rfl

/-! ## The message -/

theorem scadaNodes_configMessage (action : Int) (config : NodeConfig)
    (node : CJson) (ts : CString) :
    scadaNodes (configMessage action config node ts) =
      addItemToObject [] config.id node :=
  rfl

theorem member_deletedDevice (config : NodeConfig) :
    member (.object (members
      [(cstr "Device", deviceObject deletedDeviceNode config),
        (cstr "Name", textMember config.name)])) (cstr "Device") =
      deviceObject deletedDeviceNode config := by
  apply member_members
  · show ([cstr "Device", cstr "Name"]).Nodup
    decide
  · exact List.mem_cons_self

section Config

variable (config : NodeConfig) (action hbt : Int) (ts : CString)

/-- The message has one node under the id of the node, which holds the devices
with the analog tags that are cached. -/
theorem scadaNodes_create {id : CString} (hid : config.id = some id) :
    ∃ node, scadaNodes (convertCreateOrUpdateConfig action config hbt ts) =
        [(id, node)] ∧
      savedItems (saveConfig config) = deviceItems isAnalog node := by
  rw [convertCreateOrUpdateConfig, scadaNodes_configMessage, hid]
  refine ⟨_, rfl, ?_⟩
  rw [savedItems_saveConfig]
  exact (deviceItems_of_member isAnalog (member_device config hbt)).symm

theorem messageItems_delete (action' : Int) (ts' : CString) :
    messageItems (convertDeleteConfig action' config ts') =
      messageItems (convertCreateOrUpdateConfig action config hbt ts) := by
  have hcreated :=
    deviceItems_of_member (fun _ => true) (member_device config hbt)
  have hdeleted :=
    deviceItems_of_member (fun _ => true) (member_deletedDevice config)
  simp only [tagKeys_deviceNode] at hcreated
  simp only [tagKeys_deletedDeviceNode] at hdeleted
  rw [messageItems, messageItems, convertDeleteConfig,
    convertCreateOrUpdateConfig, scadaNodes_configMessage,
    scadaNodes_configMessage]
  cases config.id with
  | none => rfl
  | some id =>
      show [(id, deviceItems _ _)] = [(id, deviceItems _ _)]
      rw [hcreated, hdeleted]

end Config

/-- For a node with an id the three trees address the same items: the deletion
the same as the creation, and the cached tree the devices of the one node of
the creation with the analog part of their tags. -/
theorem same_items {config : NodeConfig} (hid : config.id ≠ none)
    (action action' hbt : Int) (ts ts' : CString) :
    messageItems (convertDeleteConfig action' config ts') =
        messageItems (convertCreateOrUpdateConfig action config hbt ts) ∧
      ∃ id node, config.id = some id ∧
        scadaNodes (convertCreateOrUpdateConfig action config hbt ts) =
          [(id, node)] ∧
        savedItems (saveConfig config) = deviceItems isAnalog node := by
  obtain ⟨id, hsome⟩ := Option.ne_none_iff_exists'.mp hid
  obtain ⟨node, hnode, hsaved⟩ :=
    scadaNodes_create config action hbt ts hsome
  exact ⟨messageItems_delete config action hbt ts action' ts', id, node, hsome,
    hnode, hsaved⟩

/-! ## A device with a tag -/

def sampleTag : AnalogTagConfig where
  name := some (cstr "x")
  deadband := 10
  spanHigh := 100
  spanLow := 0

/-- A configuration of a device with an analog and a text tag. -/
def sampleConfig (id : Option CString) : NodeConfig where
  id
  deviceList := some
    [{ id := some (cstr "A"), analogTagList := [sampleTag],
       textTagList := [{ name := some (cstr "s") }] }]

theorem sample_same_items :
    messageItems (convertDeleteConfig 2 (sampleConfig (some (cstr "N"))) []) =
        messageItems (convertCreateOrUpdateConfig 1
          (sampleConfig (some (cstr "N"))) 60 []) ∧
      ∃ id node, (sampleConfig (some (cstr "N"))).id = some id ∧
        scadaNodes (convertCreateOrUpdateConfig 1
          (sampleConfig (some (cstr "N"))) 60 []) = [(id, node)] ∧
        savedItems (saveConfig (sampleConfig (some (cstr "N")))) =
          deviceItems isAnalog node :=
  same_items (Option.some_ne_none _) 1 2 60 [] []

/-- Without an id of the node the messages have no node, and no devices, but
the cached tree has the device. -/
theorem unnamed_node :
    scadaNodes (convertCreateOrUpdateConfig 1 (sampleConfig none) 60 []) = [] ∧
      scadaNodes (convertDeleteConfig 2 (sampleConfig none) []) = [] ∧
      savedItems (saveConfig (sampleConfig none)) =
        some [(cstr "A", some [cstr "x"])] := by
  refine ⟨rfl, rfl, ?_⟩
  decide

end DatahubEdge.Config
