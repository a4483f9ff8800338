import DatahubEdge.CJson.Leaves
import DatahubEdge.Message.Run

/-!
# The leaves of a payload

What a message submits and what its payload carries, both as values under the
path device, tag and, for array tags, printed index.  The nodes of the
discrete and the text tags carry exactly what is submitted; those of the
analog tags carry what the turns of the analog loop decide.

## Main results

* `leafPaths_dJson` — the leaves under `d`, device by device.
* `tagLeaves_plain` — the discrete and text nodes carry what is submitted.
* `dataExist_iff` — `SendDataMessage` returns true exactly when there is a
  leaf under `d`.
* `hasValue_iff` — unless an analog value is infinite or NaN, the leaves are
  numbers and strings.
-/

namespace DatahubEdge.Message

open Lib Lib.Fold

/-- Values under their paths. -/
abbrev Leaves := List (List CString × CJson)

/-- The values below a further key. -/
def Leaves.below (key : CString) (leaves : Leaves) : Leaves :=
  leaves.map fun l => (key :: l.1, l.2)

theorem Leaves.mem_below {key : CString} {leaves : Leaves}
    {path : List CString} {leaf : CJson} :
    (path, leaf) ∈ leaves.below key ↔
      ∃ rest, (rest, leaf) ∈ leaves ∧ path = key :: rest := by
  simp only [below, List.mem_map, Prod.mk.injEq, Prod.exists]
  constructor
  · rintro ⟨rest, v, h, rfl, rfl⟩
    exact ⟨rest, h, rfl⟩
  · rintro ⟨rest, h, rfl⟩
    exact ⟨rest, leaf, h, rfl, rfl⟩

theorem Leaves.below_eq_nil {key : CString} {leaves : Leaves} :
    leaves.below key = [] ↔ leaves = [] := List.map_eq_nil_iff

/-! ## What a message submits -/

/-- The values a tag submits.  A value `leaf` has no node for is NULL. -/
def tagSubmits {β : Type} (leaf : β → Option CJson) (tag : EdgeTag β) :
    Leaves :=
  match tag.name with
  | none => []
  | some name =>
      if tag.isArray then
        tag.elements.filterMap fun element =>
          (leaf element.value).map fun v =>
            ([name, printInt element.index], v)
      else ((leaf tag.value).map fun v => ([name], v)).toList

section Submits

variable {V : Type}

def analogLeaf [AnalogValue V] (value : V) : Option CJson :=
  some (analogJson value)

def discreteLeaf (value : UInt32) : Option CJson := some (.number value.toNat)

def textLeaf (value : Option CString) : Option CJson := value.map .string

/-- The analog values a device submits. -/
def analogSubmits [AnalogValue V] (device : EdgeDevice V) : Leaves :=
  device.analogTagList.flatMap (tagSubmits analogLeaf)

/-- The discrete and text values a device submits. -/
def plainSubmits (device : EdgeDevice V) : Leaves :=
  device.discreteTagList.flatMap (tagSubmits discreteLeaf) ++
    device.textTagList.flatMap (tagSubmits textLeaf)

/-- The values all devices with an id submit. -/
def submits (values : EdgeDevice V → Leaves) (devices : List (EdgeDevice V)) :
    Leaves :=
  devices.flatMap fun device =>
    device.id.elim [] fun id => (values device).below id

theorem mem_submits {values : EdgeDevice V → Leaves}
    {devices : List (EdgeDevice V)} {l : List CString × CJson} :
    l ∈ submits values devices ↔
      ∃ device ∈ devices, ∃ id, device.id = some id ∧
        l ∈ (values device).below id := by
  simp only [submits, List.mem_flatMap]
  refine exists_congr fun device => and_congr_right fun _ => ?_
  cases device.id with
  | none => simp
  | some id => simp

/-- Ids, tag names and text values are not NULL. -/
structure Complete (data : EdgeData V) : Prop where
  ids : ∀ device ∈ data.devices, device.id.isSome = true
  analog : ∀ device ∈ data.devices, ∀ tag ∈ device.analogTagList,
    tag.name.isSome = true
  discrete : ∀ device ∈ data.devices, ∀ tag ∈ device.discreteTagList,
    tag.name.isSome = true
  text : ∀ device ∈ data.devices, ∀ tag ∈ device.textTagList,
    tag.name.isSome = true
  values : ∀ device ∈ data.devices, ∀ tag ∈ device.textTagList,
    if tag.isArray then ∀ element ∈ tag.elements, element.value.isSome = true
    else tag.value.isSome = true

/-- No analog value is infinite or NaN. -/
def FiniteValues [AnalogValue V] (data : EdgeData V) : Prop :=
  ∀ device ∈ data.devices, ∀ tag ∈ device.analogTagList, ∀ leaf ∈ leaves tag,
    (AnalogValue.number leaf.2).isSome = true

end Submits

/-! ## What a payload carries -/

/-- The node `d` of the payload. -/
def Payload.dJson {V : Type} [AnalogValue V] (payload : Payload V) : CJson :=
  .object (payload.d.map fun e => (e.1, e.2.toJson))

/-- The leaves of the tags of one kind under a device. -/
def tagLeaves {α : Type} (leaf : α → CJson) (nodes : Obj (TagNode α)) :
    Leaves := (CJson.object (tagsToJson leaf nodes)).leafPaths

section TagLeaves

variable {α : Type} (leaf : α → CJson)

@[simp] theorem tagLeaves_nil : tagLeaves leaf [] = [] := by
  simp [tagLeaves, tagsToJson, CJson.leafPaths_object]

@[simp] theorem tagLeaves_append (nodes more : Obj (TagNode α)) :
    tagLeaves leaf (nodes ++ more) =
      tagLeaves leaf nodes ++ tagLeaves leaf more := by
  simp [tagLeaves, tagsToJson, CJson.leafPaths_object]

variable {leaf}

/-- `leaf` makes a value a node without children. -/
def Atomic (leaf : α → CJson) : Prop :=
  ∀ v, (leaf v).leafPaths = [([], leaf v)]

theorem atomic_analog {V : Type} [AnalogValue V] :
    Atomic (analogJson : V → CJson) := by
  intro v
  unfold analogJson
  cases AnalogValue.number v with
  | none => rw [CJson.leafPaths]
  | some q => rw [CJson.leafPaths]

theorem atomic_discrete : Atomic fun v : UInt32 => CJson.number v.toNat :=
  fun _ => by rw [CJson.leafPaths]

theorem atomic_string : Atomic CJson.string := fun _ => by
  rw [CJson.leafPaths]

theorem tagLeaves_value (h : Atomic leaf) (name : CString) (v : α) :
    tagLeaves leaf [(name, .value v)] = [([name], leaf v)] := by
  simp [tagLeaves, tagsToJson, CJson.leafPaths_object, TagNode.toJson, h v]

theorem tagLeaves_array (h : Atomic leaf) (name : CString) (child : Obj α) :
    tagLeaves leaf [(name, .array child)] =
      child.map fun e => ([name, e.1], leaf e.2) := by
  simp only [tagLeaves, tagsToJson, TagNode.toJson, List.map_cons,
    List.map_nil, CJson.leafPaths_object, List.flatMap_cons,
    List.flatMap_nil, List.append_nil, List.map_flatMap, List.flatMap_map]
  induction child with
  | nil => rfl
  | cons e child ih =>
      rw [List.flatMap_cons, ih, h e.2]
      rfl

variable {β : Type} {item : β → Option α}

theorem tagLeaves_plainNode (h : Atomic leaf) (tag : EdgeTag β) :
    tagLeaves leaf (plainNode item tag) =
      tagSubmits (fun b => (item b).map leaf) tag := by
  unfold plainNode tagSubmits
  cases tag.name with
  | none => simp
  | some name =>
      dsimp only
      split
      · rw [tagLeaves_array h, List.map_filterMap]
        simp [Option.map_map, Function.comp_def]
      · cases item tag.value with
        | none => simp
        | some v => simpa using tagLeaves_value h name v

/-- The nodes of the discrete and text tags carry what the tags submit. -/
theorem tagLeaves_plain (h : Atomic leaf) (tags : List (EdgeTag β)) :
    tagLeaves leaf (tags.flatMap (plainNode item)) =
      tags.flatMap (tagSubmits fun b => (item b).map leaf) := by
  induction tags with
  | nil => simp
  | cons tag tags ih =>
      rw [List.flatMap_cons, List.flatMap_cons, tagLeaves_append, ih,
        tagLeaves_plainNode h]

end TagLeaves

/-- The leaves under a tag are values of the tag itself or under an index. -/
theorem mem_tagLeaves {α : Type} {leaf : α → CJson} (h : Atomic leaf)
    {nodes : Obj (TagNode α)} {l : List CString × CJson}
    (hl : l ∈ tagLeaves leaf nodes) :
    (∃ e ∈ nodes, ∃ x ∈ e.2.leaves, l.2 = leaf x.2) ∧
      ∃ name, l.1 = [name] ∨ ∃ idx, l.1 = [name, idx] := by
  induction nodes with
  | nil => simp at hl
  | cons e nodes ih =>
      have hcons : e :: nodes = [(e.1, e.2)] ++ nodes := rfl
      rw [hcons, tagLeaves_append, List.mem_append] at hl
      rcases hl with hl | hl
      · obtain ⟨name, node⟩ := e
        cases node with
        | value v =>
            rw [tagLeaves_value h, List.mem_singleton] at hl
            rw [hl]
            exact ⟨⟨_, List.mem_cons_self, _, List.mem_singleton_self _, rfl⟩,
              name, .inl rfl⟩
        | array child =>
            rw [tagLeaves_array h] at hl
            obtain ⟨x, hx, rfl⟩ := List.mem_map.mp hl
            exact ⟨⟨_, List.mem_cons_self, x, hx, rfl⟩,
              name, .inr ⟨x.1, rfl⟩⟩
      · obtain ⟨⟨e', he', hx⟩, hpath⟩ := ih hl
        exact ⟨⟨e', List.mem_cons_of_mem _ he', hx⟩, hpath⟩

section Devices

variable {V : Type} [AnalogValue V]

theorem leafPaths_toJson (node : DeviceNode V) :
    node.toJson.leafPaths = tagLeaves analogJson node.analog ++
      tagLeaves (fun v => .number v.toNat) node.discrete ++
      tagLeaves .string node.text := by
  simp [DeviceNode.toJson, tagLeaves, CJson.leafPaths_object]

/-- The leaves of the node of a device. -/
theorem leafPaths_deviceNode (device : EdgeDevice V) (t : TagLoop V) :
    (deviceNode device t).toJson.leafPaths =
      tagLeaves analogJson t.subJsonNodeDev ++ plainSubmits device := by
  rw [leafPaths_toJson, deviceNode, discreteNodes, textNodes,
    tagLeaves_plain atomic_discrete, tagLeaves_plain atomic_string,
    plainSubmits, List.append_assoc]
  rfl

/-- The leaves under the devices of `d`. -/
def deviceLeaves (d : Obj (DeviceNode V)) : Leaves :=
  (CJson.object (d.map fun e => (e.1, e.2.toJson))).leafPaths

theorem leafPaths_dJson (payload : Payload V) :
    payload.dJson.leafPaths = deviceLeaves payload.d := rfl

theorem deviceLeaves_eq (d : Obj (DeviceNode V)) :
    deviceLeaves d = d.flatMap fun e =>
      Leaves.below e.1 e.2.toJson.leafPaths := by
  rw [deviceLeaves, CJson.leafPaths_object, List.flatMap_map]
  rfl

/-- A device adds its leaves below its id. -/
theorem deviceLeaves_add (d : Obj (DeviceNode V)) (id : CString)
    (node : DeviceNode V) :
    deviceLeaves (addItemToObject d (some id) node) =
      deviceLeaves d ++ Leaves.below id node.toJson.leafPaths := by
  simp [deviceLeaves_eq]

end Devices

/-! ## What is found under `d` -/

section Payload

variable {V : Type} [AnalogValue V]

/-- The node is a number or a string. -/
def IsValue : CJson → Prop
  | .number _ => True
  | .string _ => True
  | _ => False

instance : DecidablePred IsValue
  | .null => .isFalse not_false
  | .bool _ => .isFalse not_false
  | .number _ => .isTrue trivial
  | .string _ => .isTrue trivial
  | .array _ => .isFalse not_false
  | .object _ => .isFalse not_false

/-- The payload has a leaf of a kind under a tag, or under an index of a tag,
of a device under `d`. -/
def Payload.Has (kind : CJson → Prop) (payload : Payload V) : Prop :=
  ∃ id name leaf, kind leaf ∧
    (([id, name], leaf) ∈ payload.dJson.leafPaths ∨
      ∃ idx, ([id, name, idx], leaf) ∈ payload.dJson.leafPaths)

/-- The payload has a number or a string under `d`. -/
def Payload.HasValue (payload : Payload V) : Prop := payload.Has IsValue

/-- The payload has a number, a string, or the null an infinite value or NaN
is printed as, under `d`. -/
def Payload.HasLeaf (payload : Payload V) : Prop :=
  payload.Has fun leaf => IsValue leaf ∨ leaf = .null

/-- The leaves under a device are those of its analog nodes and values. -/
theorem mem_leafPaths_toJson {node : DeviceNode V}
    {l : List CString × CJson} (hl : l ∈ node.toJson.leafPaths) :
    (IsValue l.2 ∨ ∃ e ∈ node.analog, ∃ x ∈ e.2.leaves,
      l.2 = analogJson x.2) ∧
      ∃ name, l.1 = [name] ∨ ∃ idx, l.1 = [name, idx] := by
  rw [leafPaths_toJson, List.mem_append, List.mem_append] at hl
  rcases hl with (hl | hl) | hl
  · obtain ⟨hanalog, hpath⟩ := mem_tagLeaves atomic_analog hl
    exact ⟨.inr hanalog, hpath⟩
  · obtain ⟨⟨_, _, x, _, hv⟩, hpath⟩ := mem_tagLeaves atomic_discrete hl
    exact ⟨.inl (by rw [hv]; trivial), hpath⟩
  · obtain ⟨⟨_, _, x, _, hv⟩, hpath⟩ := mem_tagLeaves atomic_string hl
    exact ⟨.inl (by rw [hv]; trivial), hpath⟩

/-- When the leaves of all devices are of a kind, the payload has one of the
kind unless it has no leaves. -/
theorem has_iff {kind : CJson → Prop} {payload : Payload V}
    (hkind : ∀ e ∈ payload.d, ∀ l ∈ e.2.toJson.leafPaths, kind l.2) :
    payload.Has kind ↔ payload.dJson.leafPaths ≠ [] := by
  constructor
  · rintro ⟨id, name, leaf, _, h | ⟨idx, h⟩⟩
    · exact List.ne_nil_of_mem h
    · exact List.ne_nil_of_mem h
  · intro hne
    obtain ⟨l, hl⟩ := List.exists_mem_of_ne_nil _ hne
    have hmem := hl
    rw [leafPaths_dJson, deviceLeaves_eq, List.mem_flatMap] at hmem
    obtain ⟨e, he, hbelow⟩ := hmem
    obtain ⟨rest, hrest, hpath⟩ := Leaves.mem_below.mp hbelow
    obtain ⟨_, name, hname⟩ := mem_leafPaths_toJson hrest
    have hpair : l = (e.1 :: rest, l.2) := by rw [← hpath]
    rw [hpair] at hl
    refine ⟨e.1, name, l.2, hkind e he (rest, l.2) hrest, ?_⟩
    rcases hname with rfl | ⟨idx, rfl⟩
    · exact .inl hl
    · exact .inr ⟨idx, hl⟩

/-- The node of an analog value is a number or a null. -/
theorem analogJson_kind (v : V) :
    IsValue (analogJson v) ∨ analogJson v = .null := by
  unfold analogJson
  cases AnalogValue.number v with
  | none => exact .inr rfl
  | some q => exact .inl trivial

theorem isValue_analogJson {v : V} (h : (AnalogValue.number v).isSome = true) :
    IsValue (analogJson v) := by
  obtain ⟨q, hq⟩ := Option.isSome_iff_exists.mp h
  rw [analogJson, hq]
  trivial

/-- All leaves under `d` are numbers, strings and nulls. -/
theorem hasLeaf_iff (payload : Payload V) :
    payload.HasLeaf ↔ payload.dJson.leafPaths ≠ [] := by
  refine has_iff ?_
  intro e _ l hl
  obtain ⟨hvalue | ⟨_, _, x, _, hx⟩, _⟩ := mem_leafPaths_toJson hl
  · exact .inl hvalue
  · rw [hx]
    exact analogJson_kind x.2

/-- The analog values of a message without infinite values and NaN are
numbers in the payload too. -/
theorem hasValue_iff {pJsonRef : Option CJson} {now : CString}
    {p : Previous V} {data : EdgeData V} {sent : Sent V} (hfinite : FiniteValues data)
    (h : sendDataMessage pJsonRef now p data = .ok sent) :
    sent.payload.HasValue ↔ sent.payload.dJson.leafPaths ≠ [] := by
  obtain ⟨l', hloop, _, hd, _⟩ := sendDataMessage_ok h
  obtain ⟨added, hadded, hlisted⟩ := deviceLoop_nodes hloop
  refine has_iff ?_
  intro e he l hl
  obtain ⟨hvalue | ⟨node, hnode, x, hx, hleaf⟩, _⟩ := mem_leafPaths_toJson hl
  · exact hvalue
  · rw [hd, hadded] at he
    obtain ⟨device, hdevice, hentry⟩ := hlisted e he
    obtain ⟨tag, htag, hstems⟩ := hentry.analog node hnode
    rw [hleaf]
    exact isValue_analogJson
      (hfinite device hdevice tag htag x (hstems.values x hx))

end Payload

/-! ## The result of the call -/

section DataExist

variable {V : Type} [AnalogValue V]

/-- The nodes of a turn have a leaf when a value passes. -/
theorem tagLeaves_tagNodes_ne_nil {name : CString} {tag : AnalogTag V}
    {pass : Record V} (h : pass ≠ []) :
    tagLeaves analogJson (tagNodes name tag pass true) ≠ [] := by
  unfold tagNodes
  by_cases harr : tag.isArray = true
  · rw [if_pos harr, if_pos rfl, tagLeaves_array atomic_analog]
    simpa using h
  · rw [if_neg harr, if_pos rfl, tagLeaves_append,
      tagLeaves_value atomic_analog]
    simp

/-- In the analog loop `data_exist` follows `valid`, and `valid` is set once
the node of the device has a leaf. -/
structure ValidTracks (start : Bool) (t : TagLoop V) : Prop where
  exist : t.dataExist = (start || t.valid)
  leaf : t.valid = true ↔ tagLeaves analogJson t.subJsonNodeDev ≠ []

theorem ValidTracks.step {start : Bool} {subJsonRefDev : Option CJson}
    {matchPreviousDev : Bool} {t u : TagLoop V} {tag : AnalogTag V}
    (ht : ValidTracks start t)
    (h : analogStep subJsonRefDev matchPreviousDev t tag = .ok u) :
    ValidTracks start u := by
  cases hname : tag.name with
  | none =>
      obtain ⟨config, rfl⟩ := analogStep_ok_noname hname h
      exact ⟨by simpa using ht.exist, by simpa using ht.leaf⟩
  | some name =>
      obtain ⟨config, s, hturn⟩ := analogStep_ok hname h
      refine ⟨?_, ?_⟩
      · have hexist : u.dataExist =
            (t.dataExist || validAfter config s tag) := by
          rw [hturn.sent, sentTag, hturn.looked, lookedUp_dataExist]
        have hmono : t.valid = true → validAfter config s tag = true := by
          intro hv
          rw [validAfter, hturn.valid, hv, Bool.true_or]
        rw [hexist, ht.exist, hturn.valid_after]
        cases hv : t.valid with
        | false => simp
        | true => simp [hmono hv]
      · rw [hturn.valid_after, hturn.nodes, tagLeaves_append]
        cases hva : validAfter config s tag with
        | false =>
            have hold := (passing_of_not_validAfter hva).1
            rw [hturn.valid] at hold
            have hnone : tagLeaves analogJson t.subJsonNodeDev = [] := by
              by_contra hne
              rw [ht.leaf.mpr hne] at hold
              cases hold
            rw [← hva, tagNodes_of_not_valid hva, hnone, hva]
            simp
        | true =>
            simp only [true_iff]
            rw [validAfter, Bool.or_eq_true, hturn.valid] at hva
            intro hnil
            rw [List.append_eq_nil_iff] at hnil
            rcases hva with hva | hpass
            · exact ht.leaf.mp hva hnil.1
            · exact tagLeaves_tagNodes_ne_nil (by simpa using hpass) hnil.2

theorem analogLoop_validTracks {subJsonRefD : Option CJson} {l : DeviceLoop V}
    {device : EdgeDevice V} {t : TagLoop V}
    (h : analogLoop subJsonRefD l device = .ok t) :
    ValidTracks l.dataExist t := by
  refine foldlM_invariant (P := fun _ t => ValidTracks l.dataExist t)
    device.analogTagList t ?_ ?_ h
  · exact ⟨by simp [enterDevice], by simp [enterDevice]⟩
  · intro pre t tag u _ ht hstep
    exact ht.step hstep

/-- A tag of the discrete or text list sets `data_exist` when it submits a
value. -/
theorem plainStep_fst {β α : Type} (item : β → Option α) (leaf : α → CJson)
    {tag : EdgeTag β} (hname : tag.name.isSome = true)
    (hvalue : tag.isArray = true → ∀ element ∈ tag.elements,
      (item element.value).isSome = true) (s : Bool × Obj (TagNode α)) :
    (plainStep item s tag).1 = true ↔
      s.1 = true ∨ tagSubmits (fun b => (item b).map leaf) tag ≠ [] := by
  obtain ⟨name, hname⟩ := Option.isSome_iff_exists.mp hname
  simp only [plainStep, tagSubmits, hname]
  by_cases harr : tag.isArray = true
  · rw [if_pos harr, if_pos harr]
    have hvalue := hvalue harr
    cases hel : tag.elements with
    | nil => simp
    | cons element elements =>
        rw [hel] at hvalue
        obtain ⟨v, hv⟩ := Option.isSome_iff_exists.mp
          (hvalue element List.mem_cons_self)
        simp [hv]
  · rw [if_neg harr, if_neg harr]
    cases item tag.value with
    | none => simp
    | some v => simp

theorem plainLoop_fst {β α : Type} (item : β → Option α) (leaf : α → CJson)
    {tags : List (EdgeTag β)} (hname : ∀ tag ∈ tags, tag.name.isSome = true)
    (hvalue : ∀ tag ∈ tags, tag.isArray = true → ∀ element ∈ tag.elements,
      (item element.value).isSome = true) (s : Bool × Obj (TagNode α)) :
    (tags.foldl (plainStep item) s).1 = true ↔ s.1 = true ∨
      tags.flatMap (tagSubmits fun b => (item b).map leaf) ≠ [] := by
  induction tags generalizing s with
  | nil => simp
  | cons tag tags ih =>
      rw [List.foldl_cons, ih (fun b hb => hname b (List.mem_cons_of_mem _ hb))
        (fun b hb => hvalue b (List.mem_cons_of_mem _ hb)),
        plainStep_fst item leaf (hname tag List.mem_cons_self)
          (hvalue tag List.mem_cons_self), List.flatMap_cons, or_assoc,
        ← not_and_or, ← List.append_eq_nil_iff]

omit [AnalogValue V] in
/-- The discrete and the text loop set `data_exist` when the device submits a
discrete or text value. -/
theorem plainLoops_exist {data : EdgeData V} {device : EdgeDevice V}
    (hcomplete : Complete data) (hdevice : device ∈ data.devices)
    (start : Bool) :
    (device.textTagList.foldl textStep
      ((device.discreteTagList.foldl discreteStep (start, [])).1,
        [])).1 = true ↔ start = true ∨ plainSubmits device ≠ [] := by
  have htexts : ∀ tag ∈ device.textTagList, tag.isArray = true →
      ∀ element ∈ tag.elements, (id element.value).isSome = true := by
    intro tag htag harr
    have hvalues := hcomplete.values device hdevice tag htag
    rw [if_pos harr] at hvalues
    exact hvalues
  have hdiscrete := plainLoop_fst some (fun v : UInt32 => .number v.toNat)
    (hcomplete.discrete device hdevice) (by simp) (start, [])
  have htext := plainLoop_fst id CJson.string
    (hcomplete.text device hdevice) htexts
    ((device.discreteTagList.foldl discreteStep (start, [])).1, [])
  have hplain : plainSubmits device ≠ [] ↔
      device.discreteTagList.flatMap (tagSubmits discreteLeaf) ≠ [] ∨
        device.textTagList.flatMap (tagSubmits textLeaf) ≠ [] := by
    rw [plainSubmits, Ne, List.append_eq_nil_iff, not_and_or]
  rw [hplain, ← or_assoc]
  exact htext.trans (or_congr_left hdiscrete)

/-- A device sets `data_exist` when its node has a leaf. -/
theorem deviceStep_dataExist {subJsonRefD : Option CJson} {l m : DeviceLoop V}
    {data : EdgeData V} {device : EdgeDevice V} (hcomplete : Complete data)
    (hdevice : device ∈ data.devices)
    (h : deviceStep subJsonRefD l device = .ok m)
    (hl : l.dataExist = true ↔ deviceLeaves l.subJsonD ≠ []) :
    m.dataExist = true ↔ deviceLeaves m.subJsonD ≠ [] := by
  obtain ⟨i, hi⟩ := Option.isSome_iff_exists.mp (hcomplete.ids device hdevice)
  obtain ⟨t, hloop, ht⟩ := bind_eq_ok h
  obtain ⟨t', hloop', _, _, _, _, hd⟩ := deviceStep_ok h
  have heq : t' = t := Except.ok.inj (hloop'.symm.trans hloop)
  rw [heq] at hd
  have htracks := analogLoop_validTracks hloop
  have hexist : m.dataExist = true ↔
      t.dataExist = true ∨ plainSubmits device ≠ [] := by
    cases ht
    exact plainLoops_exist hcomplete hdevice t.dataExist
  rw [hexist, htracks.exist, Bool.or_eq_true, hl, htracks.leaf, hd, hi,
    deviceLeaves_add, leafPaths_deviceNode]
  simp only [Ne, List.append_eq_nil_iff, Leaves.below_eq_nil, not_and_or,
    or_assoc]

/-- `SendDataMessage` returns true exactly when the payload has a leaf under
`d`. -/
theorem dataExist_iff {pJsonRef : Option CJson} {now : CString}
    {p : Previous V} {data : EdgeData V} {sent : Sent V}
    (hcomplete : Complete data)
    (h : sendDataMessage pJsonRef now p data = .ok sent) :
    sent.dataExist = true ↔ sent.payload.HasLeaf := by
  obtain ⟨l', hloop, _, hd, hexist⟩ := sendDataMessage_ok h
  rw [hasLeaf_iff, hexist, leafPaths_dJson, hd]
  refine foldlM_invariant
    (P := fun _ l => l.dataExist = true ↔ deviceLeaves l.subJsonD ≠ [])
    data.devices l' ?_ ?_ hloop
  · simp [startLoop, deviceLeaves_eq]
  · intro pre l device m hvisit hl hstep
    exact deviceStep_dataExist hcomplete hvisit.mem hstep hl

end DataExist

end DatahubEdge.Message
