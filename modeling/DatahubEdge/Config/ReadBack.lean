import DatahubEdge.Config.Convert

/-!
# Reading a configuration message back

A reader of the message that `ConvertCreateOrUpdateConfig` builds finds the
node of a tag by the keys on its path and the fields of the tag by theirs.
The two alarm fields that are taken from another member come back wrong; all
others, apart from the deadband, which is not sent, come back as they were.

## Main results

* `Tag.carried_iff` — the tags whose fields come back.
* `carries_iff` — the configurations all of whose tags come back, and that no
  two of them that differ in a tag have the same message.
-/

namespace DatahubEdge.Config

open Lib

/-! ## The tags of a device -/

/-- A tag of one of the three kinds. -/
inductive Tag where
  | analog (tag : AnalogTagConfig)
  | discrete (tag : DiscreteTagConfig)
  | text (tag : TextTagConfig)

/-- The tags of a device in the order of the loops. -/
def tagsOf (device : DeviceConfig) : List Tag :=
  device.analogTagList.map .analog ++ device.discreteTagList.map .discrete ++
    device.textTagList.map .text

/-- The devices of a configuration; a NULL list is an empty one. -/
def devicesOf (config : NodeConfig) : List DeviceConfig :=
  config.deviceList.getD []

def Tag.name : Tag → Option CString
  | analog tag => tag.name
  | discrete tag => tag.name
  | text tag => tag.name

/-- The node of a tag in the message. -/
def Tag.node : Tag → CJson
  | analog tag => analogTagNode tag
  | discrete tag => discreteTagNode tag
  | text tag => textTagNode tag

/-- The node of a tag, by its kind. -/
def Tag.nodeBy (analog : AnalogTagConfig → CJson)
    (discrete : DiscreteTagConfig → CJson) (text : TextTagConfig → CJson) :
    Tag → CJson
  | .analog tag => analog tag
  | .discrete tag => discrete tag
  | .text tag => text tag

theorem tagObject_built (analog : AnalogTagConfig → CJson)
    (discrete : DiscreteTagConfig → CJson) (text : TextTagConfig → CJson)
    (device : DeviceConfig) :
    tagObject analog discrete text device =
      built Tag.name (Tag.nodeBy analog discrete text) (tagsOf device) := by
  rw [tagObject, foldl_addItemToObject AnalogTagConfig.name analog,
    foldl_addItemToObject DiscreteTagConfig.name discrete,
    foldl_addItemToObject TextTagConfig.name text, tagsOf, built, built,
    built, built, List.filterMap_append, List.filterMap_append,
    List.filterMap_map, List.filterMap_map, List.filterMap_map]
  rfl

theorem tagObject_eq (device : DeviceConfig) :
    tagObject analogTagNode discreteTagNode textTagNode device =
      built Tag.name Tag.node (tagsOf device) := by
  have hnode : Tag.nodeBy analogTagNode discreteTagNode textTagNode =
      Tag.node := by
    funext tag
    cases tag with
    | analog tag => rfl
    | discrete tag => rfl
    | text tag => rfl
  rw [tagObject_built, hnode]

theorem deviceObject_eq (node : DeviceConfig → CJson) (config : NodeConfig) :
    deviceObject node config = config.deviceList.map fun deviceList =>
      .object (built DeviceConfig.id node deviceList) := by
  rw [deviceObject]
  refine congrArg (fun f => config.deviceList.map f) (funext fun l => ?_)
  rw [foldl_addItemToObject, List.nil_append]

/-! ## Reading a tag -/

def readInt (node : CJson) (key : CString) : Int := (readNumber node key).num

def readBool (node : CJson) (key : CString) : Bool :=
  decide (readNumber node key ≠ 0)

/-- The analog tag a node stands for.  The deadband is not sent. -/
def readAnalogTag (name : Option CString) (node : CJson) :
    AnalogTagConfig where
  name := name
  description := readText node (cstr "Desc")
  readOnly := readBool node (cstr "Ro")
  arraySize := readInt node (cstr "Ary")
  alarmStatus := readBool node (cstr "Alm")
  needLog := readBool node (cstr "Log")
  deadband := 0
  spanHigh := readNumber node (cstr "SH")
  spanLow := readNumber node (cstr "SL")
  engineerUnit := readText node (cstr "EU")
  integerDisplayFormat := readInt node (cstr "IDF")
  fractionDisplayFormat := readInt node (cstr "FDF")
  hhPriority := readInt node (cstr "HHP")
  hhAlarmLimit := readNumber node (cstr "HHA")
  highPriority := readInt node (cstr "HiP")
  highAlarmLimit := readNumber node (cstr "HiA")
  lowPriority := readInt node (cstr "LoP")
  lowAlarmLimit := readNumber node (cstr "LoA")
  llPriority := readInt node (cstr "LLP")
  llAlarmLimit := readNumber node (cstr "LLA")

/-- The discrete tag a node stands for. -/
def readDiscreteTag (name : Option CString) (node : CJson) :
    DiscreteTagConfig where
  name := name
  description := readText node (cstr "Desc")
  readOnly := readBool node (cstr "Ro")
  arraySize := readInt node (cstr "Ary")
  alarmStatus := readBool node (cstr "Alm")
  needLog := readBool node (cstr "Log")
  state := fun i => readText node (stateKey i)
  stateAlarmPriority := fun i => readInt node (priorityKey i)

/-- The text tag a node stands for. -/
def readTextTag (name : Option CString) (node : CJson) : TextTagConfig where
  name := name
  description := readText node (cstr "Desc")
  readOnly := readBool node (cstr "Ro")
  arraySize := readInt node (cstr "Ary")
  alarmStatus := readBool node (cstr "Alm")
  needLog := readBool node (cstr "Log")

attribute [ext] AnalogTagConfig DiscreteTagConfig TextTagConfig

section Slots

variable {slots : List (CString × Option CJson)} {key : CString}

theorem readInt_members (h : (slots.map Prod.fst).Nodup) {n : Int}
    (hmem : (key, numberMember n) ∈ slots) :
    readInt (.object (members slots)) key = n := by
  rw [readInt, readNumber_members h hmem, Rat.num_intCast]

theorem readBool_members (h : (slots.map Prod.fst).Nodup) {b : Bool}
    (hmem : (key, some (boolNumber b)) ∈ slots) :
    readBool (.object (members slots)) key = b := by
  rw [readBool, readNumber_members_some h hmem]
  cases b with
  | true => decide
  | false => decide

theorem analogSlots_keys (tag : AnalogTagConfig) :
    ((analogSlots tag).map Prod.fst).Nodup := by
  show ([cstr "Desc", cstr "Type", cstr "Ro", cstr "Ary", cstr "Alm",
    cstr "Log", cstr "SH", cstr "SL", cstr "EU", cstr "IDF", cstr "FDF",
    cstr "HHP", cstr "HHA", cstr "HiP", cstr "HiA", cstr "LoP", cstr "LoA",
    cstr "LLP", cstr "LLA"]).Nodup
  decide

theorem textSlots_keys (tag : TextTagConfig) :
    ((textSlots tag).map Prod.fst).Nodup := by
  show ([cstr "Desc", cstr "Type", cstr "Ro", cstr "Ary", cstr "Alm",
    cstr "Log"]).Nodup
  decide

theorem discreteSlots_keys (tag : DiscreteTagConfig) :
    ((discreteSlots tag).map Prod.fst).Nodup := by
  have hkeys : (discreteSlots tag).map Prod.fst =
      [cstr "Desc", cstr "Type", cstr "Ro", cstr "Ary", cstr "Alm",
        cstr "Log"] ++ (List.finRange 8).map stateKey ++
        (List.finRange 8).map priorityKey := by
    rw [discreteSlots, List.map_append, List.map_append, List.map_map,
      List.map_map]
    rfl
  rw [hkeys]
  decide

/-- An analog tag comes back but for the deadband and the two fields that are
taken from another member. -/
theorem readAnalogTag_node (tag : AnalogTagConfig) :
    readAnalogTag tag.name (analogTagNode tag) =
      { tag with
        deadband := 0
        hhPriority := tag.highPriority
        lowAlarmLimit := tag.lowPriority } := by
  have h := analogSlots_keys tag
  ext1
  case name => rfl
  case deadband => rfl
  case description => exact readText_members h (by simp [analogSlots, commonSlots])
  case engineerUnit => exact readText_members h (by simp [analogSlots])
  case readOnly => exact readBool_members h (by simp [analogSlots, commonSlots])
  case alarmStatus =>
    exact readBool_members h (by simp [analogSlots, commonSlots])
  case needLog => exact readBool_members h (by simp [analogSlots, commonSlots])
  case spanHigh => exact readNumber_members h (by simp [analogSlots])
  case spanLow => exact readNumber_members h (by simp [analogSlots])
  case hhAlarmLimit => exact readNumber_members h (by simp [analogSlots])
  case highAlarmLimit => exact readNumber_members h (by simp [analogSlots])
  case lowAlarmLimit => exact readNumber_members h (by simp [analogSlots])
  case llAlarmLimit => exact readNumber_members h (by simp [analogSlots])
  case arraySize => exact readInt_members h (by simp [analogSlots, commonSlots])
  all_goals exact readInt_members h (by simp [analogSlots])

theorem readDiscreteTag_node (tag : DiscreteTagConfig) :
    readDiscreteTag tag.name (discreteTagNode tag) = tag := by
  have h := discreteSlots_keys tag
  ext1
  case name => rfl
  case description =>
    exact readText_members h (by simp [discreteSlots, commonSlots])
  case arraySize =>
    exact readInt_members h (by simp [discreteSlots, commonSlots])
  case state =>
    funext i
    exact readText_members h (List.mem_append_left _ (List.mem_append_right _
      (List.mem_map.mpr ⟨i, List.mem_finRange i, rfl⟩)))
  case stateAlarmPriority =>
    funext i
    exact readInt_members h (List.mem_append_right _
      (List.mem_map.mpr ⟨i, List.mem_finRange i, rfl⟩))
  all_goals exact readBool_members h (by simp [discreteSlots, commonSlots])

theorem readTextTag_node (tag : TextTagConfig) :
    readTextTag tag.name (textTagNode tag) = tag := by
  have h := textSlots_keys tag
  ext1
  case name => rfl
  case description => exact readText_members h (by simp [textSlots, commonSlots])
  case arraySize => exact readInt_members h (by simp [textSlots, commonSlots])
  all_goals exact readBool_members h (by simp [textSlots, commonSlots])

end Slots

/-! ## What comes back of one tag -/

/-- The number under `Type`. -/
def Tag.type : Tag → Rat
  | analog _ => 1
  | discrete _ => 2
  | text _ => 3

/-- All fields of the tag are read back from the node, the deadband apart. -/
def Tag.Carried : Tag → CJson → Prop
  | analog tag, node =>
      readAnalogTag tag.name node = { tag with deadband := 0 }
  | discrete tag, node => readDiscreteTag tag.name node = tag
  | text tag, node => readTextTag tag.name node = tag

/-- The two fields that are taken from another member agree with it. -/
def Tag.Matches : Tag → Prop
  | analog tag => tag.hhPriority = tag.highPriority ∧
      tag.lowAlarmLimit = tag.lowPriority
  | _ => True

/-- The tag without its deadband. -/
def Tag.sent : Tag → Tag
  | analog tag => analog { tag with deadband := 0 }
  | tag => tag

theorem Tag.readNumber_type (tag : Tag) :
    readNumber tag.node (cstr "Type") = tag.type := by
  cases tag with
  | analog tag =>
      exact readNumber_members_some (analogSlots_keys tag)
        (by simp [analogSlots, commonSlots, Tag.type])
  | discrete tag =>
      exact readNumber_members_some (discreteSlots_keys tag)
        (by simp [discreteSlots, commonSlots, Tag.type])
  | text tag =>
      exact readNumber_members_some (textSlots_keys tag)
        (by simp [textSlots, commonSlots, Tag.type])

/-- A tag comes back exactly when the two fields agree. -/
theorem Tag.carried_iff (tag : Tag) : tag.Carried tag.node ↔ tag.Matches := by
  cases tag with
  | analog tag =>
      show readAnalogTag tag.name (analogTagNode tag) = _ ↔ _
      rw [readAnalogTag_node]
      constructor
      · intro h
        have hhh := congrArg AnalogTagConfig.hhPriority h
        have hlow := congrArg AnalogTagConfig.lowAlarmLimit h
        exact ⟨hhh.symm, hlow.symm⟩
      · rintro ⟨hhh, hlow⟩
        rw [← hhh, ← hlow]
  | discrete tag => exact iff_of_true (readDiscreteTag_node tag) trivial
  | text tag => exact iff_of_true (readTextTag_node tag) trivial

/-- Tags of one name that come back from one node are the same, up to the
deadband. -/
theorem Tag.sent_eq {tag tag' : Tag} (hname : tag.name = tag'.name)
    (hnode : tag.node = tag'.node) (h : tag.Matches) (h' : tag'.Matches) :
    tag.sent = tag'.sent := by
  have hcarried := tag.carried_iff.mpr h
  have hcarried' := tag'.carried_iff.mpr h'
  rw [← hnode] at hcarried'
  have htype : tag.type = tag'.type := by
    rw [← tag.readNumber_type, hnode, tag'.readNumber_type]
  cases tag with
  | analog tag =>
      cases tag' with
      | analog tag' =>
          have hname : tag.name = tag'.name := hname
          have hsame : { tag with deadband := 0 } =
              ({ tag' with deadband := 0 } : AnalogTagConfig) := by
            rw [← hcarried, ← hcarried', hname]
          rw [Tag.sent, Tag.sent, hsame]
      | discrete tag' => exact absurd htype (show (1 : Rat) ≠ 2 by decide)
      | text tag' => exact absurd htype (show (1 : Rat) ≠ 3 by decide)
  | discrete tag =>
      cases tag' with
      | analog tag' => exact absurd htype (show (2 : Rat) ≠ 1 by decide)
      | discrete tag' =>
          have hname : tag.name = tag'.name := hname
          have hsame : tag = tag' := by rw [← hcarried, ← hcarried', hname]
          rw [hsame]
      | text tag' => exact absurd htype (show (2 : Rat) ≠ 3 by decide)
  | text tag =>
      cases tag' with
      | analog tag' => exact absurd htype (show (3 : Rat) ≠ 1 by decide)
      | discrete tag' => exact absurd htype (show (3 : Rat) ≠ 2 by decide)
      | text tag' =>
          have hname : tag.name = tag'.name := hname
          have hsame : tag = tag' := by rw [← hcarried, ← hcarried', hname]
          rw [hsame]

/-! ## The path of a tag -/

/-- The node of a tag in a message, found by the exact keys of its path. -/
def messageTag (message : CJson) (nodeId id name : Option CString) :
    Option CJson := do
  let d ← member message (cstr "d")
  let scada ← member d (cstr "Scada")
  let node ← member scada (← nodeId)
  let devices ← member node (cstr "Device")
  let device ← member devices (← id)
  let tags ← member device (cstr "Tag")
  member tags (← name)

section Path

variable {action hbt : Int} {config : NodeConfig} {ts : CString}

theorem member_tag (device : DeviceConfig) :
    member (deviceNode device) (cstr "Tag") =
      some (.object (built Tag.name Tag.node (tagsOf device))) := by
  rw [← tagObject_eq]
  refine member_members ?_ (by simp)
  show ([cstr "Name", cstr "Type", cstr "Desc", cstr "PNbr", cstr "RP",
    cstr "Tag"]).Nodup
  decide

theorem member_device (config : NodeConfig) (hbt : Int) :
    member (.object (members
      [(cstr "Device", deviceObject deviceNode config),
        (cstr "Name", textMember config.name),
        (cstr "Desc", textMember config.description),
        (cstr "Type", some (.number (typeNumber config.type))),
        (cstr "Hbt", some (.number hbt))])) (cstr "Device") =
      deviceObject deviceNode config := by
  refine member_members ?_ List.mem_cons_self
  show ([cstr "Device", cstr "Name", cstr "Desc", cstr "Type",
    cstr "Hbt"]).Nodup
  decide

/-- The message has one node, under its id, and in it the built devices. -/
theorem messageTag_eq (i j n : CString) :
    messageTag (convertCreateOrUpdateConfig action config hbt ts) (some i)
        (some j) (some n) =
      if config.id = some i then
        (KeyedList.get id j
          (built DeviceConfig.id deviceNode (devicesOf config))).bind
            fun device => (member device (cstr "Tag")).bind
              fun tags => member tags n
      else none := by
  have hdevice := member_device config hbt
  have hd : ∀ a b : CJson, member (.object [(cstr "d", a), (cstr "ts", b)])
      (cstr "d") = some a := fun _ _ => rfl
  have hscada : ∀ a b : CJson,
      member (.object [(cstr "Action", a), (cstr "Scada", b)])
        (cstr "Scada") = some b := fun _ _ => rfl
  have hnode : ∀ node : CJson,
      member (.object (addItemToObject [] config.id node)) i =
        if config.id = some i then some node else none := by
    intro node
    cases hid : config.id with
    | none => rfl
    | some k =>
        by_cases hk : i = k
        · simp [member, CJson.fields, KeyedList.get, hk]
        · simp [member, CJson.fields, KeyedList.get, hk, Ne.symm hk]
  unfold messageTag convertCreateOrUpdateConfig configMessage
  simp only [hd, hscada, hnode, Option.bind_eq_bind, Option.bind_some]
  split
  · rw [Option.bind_some, hdevice, deviceObject_eq, devicesOf]
    cases config.deviceList with
    | none => rfl
    | some deviceList => rfl
  · rfl

/-- The node of a tag lies under the keys of its path. -/
theorem messageTag_of_mem {device : DeviceConfig} {tag : Tag} {i j n : CString}
    (hids : ((devicesOf config).map DeviceConfig.id).Nodup)
    (hnames : ((tagsOf device).map Tag.name).Nodup)
    (hnode : config.id = some i) (hdevice : device ∈ devicesOf config)
    (hid : device.id = some j) (htag : tag ∈ tagsOf device)
    (hname : tag.name = some n) :
    messageTag (convertCreateOrUpdateConfig action config hbt ts) (some i)
      (some j) (some n) = some tag.node := by
  rw [messageTag_eq, if_pos hnode, get_built hids hdevice hid,
    Option.bind_some, member_tag, Option.bind_some]
  exact get_built hnames htag hname

/-- What lies under the keys of a path is the node of a tag. -/
theorem mem_of_messageTag {i j n : CString} {node : CJson}
    (h : messageTag (convertCreateOrUpdateConfig action config hbt ts)
      (some i) (some j) (some n) = some node) :
    ∃ device ∈ devicesOf config, device.id = some j ∧
      ∃ tag ∈ tagsOf device, tag.name = some n ∧ tag.node = node := by
  rw [messageTag_eq] at h
  split at h
  · obtain ⟨dev, hdev, htags⟩ := Option.bind_eq_some_iff.mp h
    obtain ⟨j', hj, hmem⟩ := KeyedList.exists_mem_of_get hdev
    obtain ⟨device, hdevice, hid, rfl⟩ := mem_built.mp hmem
    rw [member_tag, Option.bind_some] at htags
    obtain ⟨n', hn, hmem⟩ := KeyedList.exists_mem_of_get htags
    obtain ⟨tag, htag, hname, hnode⟩ := mem_built.mp hmem
    have hj : j = j' := hj
    have hn : n = n' := hn
    exact ⟨device, hdevice, by rw [hid, hj], tag, htag, by rw [hname, hn],
      hnode⟩
  · cases h

end Path

/-! ## The message of a configuration -/

/-- The ids of the devices are pairwise distinct, and the tag names of each
device are not NULL and pairwise distinct over its three kinds of tags. -/
structure Named (config : NodeConfig) : Prop where
  ids : ((devicesOf config).map DeviceConfig.id).Nodup
  names : ∀ device ∈ devicesOf config, ((tagsOf device).map Tag.name).Nodup
  notNull : ∀ device ∈ devicesOf config, ∀ tag ∈ tagsOf device,
    tag.name.isSome = true

/-- Every tag of the configuration is found in the message with all its
fields. -/
def CarriesFields (config : NodeConfig) (message : CJson) : Prop :=
  ∀ device ∈ devicesOf config, ∀ tag ∈ tagsOf device,
    ∃ node, messageTag message config.id device.id tag.name = some node ∧
      tag.Carried node

/-- The node and the devices that have tags have ids, and in every analog tag
`HHPriority` agrees with `HighPriority` and `LowAlarmLimit` with
`LowPriority`. -/
structure FieldsMatch (config : NodeConfig) : Prop where
  ids : ∀ device ∈ devicesOf config, tagsOf device ≠ [] →
    config.id.isSome = true ∧ device.id.isSome = true
  tags : ∀ device ∈ devicesOf config, ∀ tag ∈ tagsOf device, tag.Matches

/-- Every tag of the one configuration is in the other one, under the same
device and with the same fields, the deadband apart. -/
def TagsIn (config config' : NodeConfig) : Prop :=
  ∀ device ∈ devicesOf config, ∀ tag ∈ tagsOf device,
    ∃ device' ∈ devicesOf config', device'.id = device.id ∧
      ∃ tag' ∈ tagsOf device', tag'.sent = tag.sent

section Message

variable {config config' : NodeConfig} {action hbt : Int} {ts : CString}

theorem FieldsMatch.carries (hnamed : Named config) (h : FieldsMatch config) :
    CarriesFields config
      (convertCreateOrUpdateConfig action config hbt ts) := by
  intro device hdevice tag htag
  obtain ⟨hnode, hdev⟩ := h.ids device hdevice (List.ne_nil_of_mem htag)
  obtain ⟨i, hi⟩ := Option.isSome_iff_exists.mp hnode
  obtain ⟨j, hj⟩ := Option.isSome_iff_exists.mp hdev
  obtain ⟨n, hn⟩ :=
    Option.isSome_iff_exists.mp (hnamed.notNull device hdevice tag htag)
  refine ⟨tag.node, ?_, tag.carried_iff.mpr (h.tags device hdevice tag htag)⟩
  rw [hi, hj, hn]
  exact messageTag_of_mem hnamed.ids (hnamed.names device hdevice) hi hdevice
    hj htag hn

theorem CarriesFields.matches (hnamed : Named config)
    (h : CarriesFields config
      (convertCreateOrUpdateConfig action config hbt ts)) :
    FieldsMatch config := by
  have hids : ∀ device ∈ devicesOf config, ∀ tag ∈ tagsOf device,
      config.id.isSome = true ∧ device.id.isSome = true := by
    intro device hdevice tag htag
    obtain ⟨node, hnode, _⟩ := h device hdevice tag htag
    cases hi : config.id with
    | none =>
        rw [hi] at hnode
        simp [messageTag] at hnode
    | some i =>
        cases hj : device.id with
        | none =>
            rw [hj] at hnode
            simp [messageTag] at hnode
        | some j => exact ⟨rfl, rfl⟩
  refine ⟨?_, ?_⟩
  · intro device hdevice hne
    obtain ⟨tag, htag⟩ := List.exists_mem_of_ne_nil _ hne
    exact hids device hdevice tag htag
  · intro device hdevice tag htag
    obtain ⟨node, hnode, hcarried⟩ := h device hdevice tag htag
    obtain ⟨hi, hj⟩ := hids device hdevice tag htag
    obtain ⟨i, hi⟩ := Option.isSome_iff_exists.mp hi
    obtain ⟨j, hj⟩ := Option.isSome_iff_exists.mp hj
    obtain ⟨n, hn⟩ :=
      Option.isSome_iff_exists.mp (hnamed.notNull device hdevice tag htag)
    rw [hi, hj, hn, messageTag_of_mem hnamed.ids (hnamed.names device hdevice)
      hi hdevice hj htag hn] at hnode
    rw [← Option.some.inj hnode] at hcarried
    exact tag.carried_iff.mp hcarried

/-- The tags of a configuration can be told from its message. -/
theorem tagsIn_of_message_eq (hnamed : Named config) (h : FieldsMatch config)
    (h' : FieldsMatch config')
    (heq : convertCreateOrUpdateConfig action config hbt ts =
      convertCreateOrUpdateConfig action config' hbt ts) :
    TagsIn config config' := by
  intro device hdevice tag htag
  obtain ⟨hnode, hdev⟩ := h.ids device hdevice (List.ne_nil_of_mem htag)
  obtain ⟨i, hi⟩ := Option.isSome_iff_exists.mp hnode
  obtain ⟨j, hj⟩ := Option.isSome_iff_exists.mp hdev
  obtain ⟨n, hn⟩ :=
    Option.isSome_iff_exists.mp (hnamed.notNull device hdevice tag htag)
  have hfound : messageTag (convertCreateOrUpdateConfig action config hbt ts)
      (some i) (some j) (some n) = some tag.node :=
    messageTag_of_mem hnamed.ids (hnamed.names device hdevice) hi hdevice hj
      htag hn
  rw [heq] at hfound
  obtain ⟨device', hdevice', hid', tag', htag', hname', hsame⟩ :=
    mem_of_messageTag hfound
  refine ⟨device', hdevice', hid'.trans hj.symm, tag', htag', ?_⟩
  exact Tag.sent_eq (hname'.trans hn.symm) hsame
    (h'.tags device' hdevice' tag' htag') (h.tags device hdevice tag htag)

end Message

/-- All fields of all tags are read back from the message exactly when the ids
on their paths are set and the two alarm fields agree with the members they
are taken from; and two such configurations with the same message have the
same tags. -/
theorem carries_iff {config : NodeConfig} (hnamed : Named config)
    (action hbt : Int) (ts : CString) :
    (CarriesFields config (convertCreateOrUpdateConfig action config hbt ts) ↔
      FieldsMatch config) ∧
    (FieldsMatch config → ∀ config', Named config' → FieldsMatch config' →
      convertCreateOrUpdateConfig action config hbt ts =
        convertCreateOrUpdateConfig action config' hbt ts →
      TagsIn config config' ∧ TagsIn config' config) := by
  refine ⟨⟨fun h => h.matches hnamed, fun h => h.carries hnamed⟩, ?_⟩
  intro h config' hnamed' h' heq
  exact ⟨tagsIn_of_message_eq hnamed h h' heq,
    tagsIn_of_message_eq hnamed' h' h heq.symm⟩

/-! ## Sample configurations -/

/-- A node with one analog tag, with the given values of `HHPriority` and
`HighPriority`. -/
def alarmConfig (hh high : Int) : NodeConfig where
  id := some (cstr "n")
  deviceList := some [{
    id := some (cstr "A")
    analogTagList := [{
      name := some (cstr "x")
      deadband := 0
      spanHigh := 100
      spanLow := 0
      hhPriority := hh
      highPriority := high }] }]

theorem alarmConfig_named (hh high : Int) : Named (alarmConfig hh high) := by
  refine ⟨by simp [devicesOf, alarmConfig], ?_, ?_⟩
  · intro device hdevice
    rw [List.mem_singleton.mp hdevice]
    simp [tagsOf]
  · intro device hdevice tag htag
    rw [List.mem_singleton.mp hdevice] at htag
    rw [List.mem_singleton.mp htag]
    rfl

/-- With equal priorities all fields come back. -/
theorem equal_priorities_carried :
    CarriesFields (alarmConfig 1 1)
      (convertCreateOrUpdateConfig 1 (alarmConfig 1 1) 60 []) := by
  refine (carries_iff (alarmConfig_named 1 1) 1 60 []).1.mpr ⟨?_, ?_⟩
  · intro device hdevice _
    rw [List.mem_singleton.mp hdevice]
    exact ⟨rfl, rfl⟩
  · intro device hdevice tag htag
    rw [List.mem_singleton.mp hdevice] at htag
    rw [List.mem_singleton.mp htag]
    exact ⟨rfl, rfl⟩

/-- An `HHPriority` of 2 beside a `HighPriority` of 1 is not in the message,
which is the same as for an `HHPriority` of 1. -/
theorem priority_lost :
    Named (alarmConfig 2 1) ∧
      ¬ CarriesFields (alarmConfig 2 1)
        (convertCreateOrUpdateConfig 1 (alarmConfig 2 1) 60 []) ∧
      convertCreateOrUpdateConfig 1 (alarmConfig 2 1) 60 [] =
        convertCreateOrUpdateConfig 1 (alarmConfig 1 1) 60 [] := by
  refine ⟨alarmConfig_named 2 1, ?_, rfl⟩
  intro h
  have hmatch := (h.matches (alarmConfig_named 2 1)).tags _
    (List.mem_singleton_self _) _ (List.mem_singleton_self _)
  exact absurd hmatch.1 (by decide)

end DatahubEdge.Config
