import Mathlib.Algebra.Order.Ring.Rat
import DatahubEdge.CJson.Tree
import DatahubEdge.EdgeData
import DatahubEdge.Timestamp

/-!
# `SendDataMessage`

The function that turns one batch of samples into a payload.  Between calls
it keeps `pPrevious`, for every device and analog tag the record of the
values last put into a payload; an analog value is left out when the cached
configuration has a deadband for its tag and the value is within it.

The loops are folds over explicit states: `TagLoop` holds the variables the
analog loop works on, `DeviceLoop` those that live across devices.  Reading a
member of a missing or deleted node, leaving the range of `int` and writing
past the timestamp buffer are `Fault`s.

The node `subJsonPre_dev` of a known device lives inside `pPrevious` and is
written in place.  The model takes a copy and puts it back with the commit at
the end of the device: the node is written only after `valid` is set, and
then the commit is executed.
-/

namespace DatahubEdge.Message

/-- The record of one analog tag: the value last retained under each index. -/
abbrev Record (V : Type := Rat) := Obj V

/-- The tree `pPrevious`: device, tag, index. -/
abbrev Previous (V : Type := Rat) := Obj (Obj (Record V))

/-- A `cJSON *`. -/
inductive Pointer (α : Type) where
  | null
  | live (node : α)
  | freed

/-! ## The cached configuration of a tag -/

/-- The three numbers read from the cached node of a tag. -/
structure TagConfig where
  spanHigh : Int
  spanLow : Int
  deadband : Int

/-- `cJSON_GetObjectItem(subJsonRef_tag, key)->valueint`. -/
def infoInt (subJsonRefTag : CJson) (key : CString) : Except Fault Int :=
  match getObjectItem subJsonRefTag.fields (some key) with
  | none => .error .nullDeref
  | some subJsonRefInfo => .ok subJsonRefInfo.valueint

/-- The configuration lookup of the analog loop while `match_config` holds.
It yields a configuration exactly when `match_config` still holds afterwards:
the tag is cached with a nonzero deadband. -/
def readConfig (subJsonRefDev : Option CJson) (name : Option CString) :
    Except Fault (Option TagConfig) :=
  match CJson.getItem subJsonRefDev name with
  | none => .ok none
  | some subJsonRefTag => do
      let spanHigh ← infoInt subJsonRefTag (cstr "SH")
      let spanLow ← infoInt subJsonRefTag (cstr "SL")
      let deadband ← infoInt subJsonRefTag (cstr "Deadband")
      if deadband = 0 then return none
      else return some { spanHigh, spanLow, deadband }

/-- The configuration lookup of the analog loop. -/
def lookupConfig (subJsonRefDev : Option CJson) (matchConfig : Bool)
    (name : Option CString) : Except Fault (Option TagConfig) :=
  if matchConfig then readConfig subJsonRefDev name else .ok none

/-! ## The values of the analog tags -/

/-- `range >= threshold`.  With equal spans the quotient is infinite, or not
a number when the value has not changed. -/
def exceeds (config : TagConfig) (value last : Rat) : Bool :=
  let span : Rat := config.spanHigh - config.spanLow
  if span = 0 then value ≠ last
  else (config.deadband : Rat) / 100 ≤ |value - last| / span

/-- What the code does with an analog value: the comparison with the value
retained last, and the number a node with the value is printed as, unless it
is infinite or NaN. -/
class AnalogValue (V : Type) where
  exceeds : TagConfig → V → V → Bool
  number : V → Option Rat

instance : AnalogValue Rat where
  exceeds := exceeds
  number := some

@[simp] theorem exceeds_rat (config : TagConfig) (value last : Rat) :
    AnalogValue.exceeds config value last = exceeds config value last := rfl

/-- A `double`: a number, an infinity or NaN.  The arithmetic of numbers is
exact. -/
inductive Double where
  | finite (value : Rat)
  | infinite (negative : Bool)
  | nan

/-- `range >= threshold` on doubles.  A difference with one infinity is
infinite and one of equal infinities is NaN; the quotient has the sign of the
span, where 0 counts as positive. -/
def Double.exceeds (config : TagConfig) : Double → Double → Bool
  | .finite value, .finite last => Message.exceeds config value last
  | .finite _, .infinite _ => config.spanLow ≤ config.spanHigh
  | .infinite _, .finite _ => config.spanLow ≤ config.spanHigh
  | .infinite negative, .infinite negative' =>
      negative != negative' && decide (config.spanLow ≤ config.spanHigh)
  | _, _ => false

/-- `(d * 0) != 0` holds of the infinities and of NaN. -/
def Double.number : Double → Option Rat
  | .finite value => some value
  | _ => none

instance : AnalogValue Double where
  exceeds := Double.exceeds
  number := Double.number

/-- The node of an analog value, as its text shows it: `print_number` writes
`null` for what is infinite or NaN. -/
def analogJson {V : Type} [AnalogValue V] (value : V) : CJson :=
  match AnalogValue.number value with
  | none => .null
  | some q => .number q

variable {V : Type}

/-! ## The decision about one value -/

/-- `cJSON_GetObjectItem(subJsonPre_tag, idx)->valuedouble`. -/
def lastData (subJsonPreTag : Pointer (Record V)) (idx : CString) :
    Except Fault V :=
  match subJsonPreTag with
  | .null => .error .nullDeref
  | .freed => .error .useAfterFree
  | .live record =>
      match getObjectItem record (some idx) with
      | none => .error .nullDeref
      | some valuedouble => .ok valuedouble

/-- The comparison, with the `int` subtraction `span_high - span_low`. -/
def compareRange [AnalogValue V] (config : TagConfig) (value last : V) :
    Except Fault Bool :=
  let span := config.spanHigh - config.spanLow
  if intMin ≤ span ∧ span ≤ intMax then
    .ok (AnalogValue.exceeds config value last)
  else .error .intOverflow

/-- Whether a value is reported.  There is a filter when
`match_previous_tag && match_config`; otherwise the value is first data or
has no deadband. -/
def report [AnalogValue V] (filter : Option (TagConfig × Pointer (Record V)))
    (idx : CString) (value : V) : Except Fault Bool :=
  match filter with
  | none => .ok true
  | some (config, subJsonPreTag) => do
      let last ← lastData subJsonPreTag idx
      compareRange config value last

/-! ## The analog loop -/

/-- A tag under a device of the payload. -/
inductive TagNode (α : Type) where
  | value (v : α)
  | array (child : Obj α)

/-- The variables of the analog loop. -/
structure TagLoop (V : Type := Rat) where
  dataExist : Bool
  anaExist : Bool
  matchConfig : Bool
  matchPreviousTag : Bool
  subJsonPreTag : Pointer (Record V)
  valid : Bool
  subJsonPreDev : Obj (Record V)
  subJsonNodeDev : Obj (TagNode V)

/-- The variables of the loop over the elements of an array tag. -/
structure ArrayLoop (V : Type := Rat) where
  valid : Bool
  subJsonNodeArray : Record V
  subJsonPreArray : Record V

def arrayStep [AnalogValue V]
    (filter : Option (TagConfig × Pointer (Record V))) (s : ArrayLoop V)
    (element : ArrayTag V) : Except Fault (ArrayLoop V) := do
  let idx := printInt element.index
  if ← report filter idx element.value then
    return {
      valid := true
      subJsonNodeArray :=
        addItemToObject s.subJsonNodeArray (some idx) element.value
      subJsonPreArray :=
        addItemToObject s.subJsonPreArray (some idx) element.value }
  else return s

/-- The lookup of the previous record, made for known devices only. -/
def readPrevious (matchPreviousDev : Bool) (s : TagLoop V)
    (name : Option CString) : TagLoop V :=
  if matchPreviousDev then
    match getObjectItem s.subJsonPreDev name with
    | none => { s with subJsonPreTag := .null, matchPreviousTag := false }
    | some record =>
        { s with subJsonPreTag := .live record, matchPreviousTag := true }
  else s

/-- Retain the record just built.  A replacement deletes the node it
replaces, which is the one `subJsonPre_tag` points to: an item is found only
in a known device, where the pointer comes from the same lookup. -/
def storeRecord (s : TagLoop V) (name : Option CString)
    (subJsonPreArray : Record V) : TagLoop V :=
  if s.matchPreviousTag then
    { s with
      subJsonPreDev := replaceItemInObject s.subJsonPreDev name subJsonPreArray
      subJsonPreTag :=
        if (getObjectItem s.subJsonPreDev name).isSome then .freed
        else s.subJsonPreTag }
  else
    { s with
      subJsonPreDev := addItemToObject s.subJsonPreDev name subJsonPreArray }

/-- The filter `match_previous_tag && match_config` asks for. -/
def filterOf (config : Option TagConfig) (s : TagLoop V) :
    Option (TagConfig × Pointer (Record V)) :=
  if s.matchPreviousTag then config.map fun c => (c, s.subJsonPreTag)
  else none

/-- The array case. -/
def sendArray [AnalogValue V] (config : Option TagConfig) (s : TagLoop V)
    (name : CString) (tag : AnalogTag V) : Except Fault (TagLoop V) := do
  let a ← tag.elements.foldlM (arrayStep (filterOf config s))
    { valid := s.valid, subJsonNodeArray := [], subJsonPreArray := [] }
  let s := { s with valid := a.valid }
  if s.valid then
    let s := storeRecord { s with dataExist := true } (some name)
      a.subJsonPreArray
    return { s with
      subJsonNodeDev := addItemToObject s.subJsonNodeDev (some name)
        (.array a.subJsonNodeArray) }
  else return s

/-- The normal case.  A value that is reported is added to the payload here
and, like every value of a device whose `valid` is set, once more below. -/
def sendScalar [AnalogValue V] (config : Option TagConfig) (s : TagLoop V)
    (name : CString) (tag : AnalogTag V) : Except Fault (TagLoop V) := do
  let idx := cstr "0"
  let reported ← report (filterOf config s) idx tag.value
  let subJsonPreArray :=
    if reported then addItemToObject [] (some idx) tag.value else []
  let s :=
    if reported then
      { s with
        valid := true
        subJsonNodeDev :=
          addItemToObject s.subJsonNodeDev (some name) (.value tag.value) }
    else s
  if s.valid then
    let s := storeRecord { s with dataExist := true } (some name)
      subJsonPreArray
    return { s with
      subJsonNodeDev :=
        addItemToObject s.subJsonNodeDev (some name) (.value tag.value) }
  else return s

/-- The part of the loop body after the two lookups. -/
def sendTag [AnalogValue V] (config : Option TagConfig) (s : TagLoop V)
    (tag : AnalogTag V) : Except Fault (TagLoop V) :=
  match tag.name with
  | none => .ok s
  | some name =>
      if tag.isArray then sendArray config s name tag
      else sendScalar config s name tag

/-- One turn of the analog loop. -/
def analogStep [AnalogValue V] (subJsonRefDev : Option CJson)
    (matchPreviousDev : Bool) (s : TagLoop V) (tag : AnalogTag V) : Except Fault (TagLoop V) := do
  let config ← lookupConfig subJsonRefDev s.matchConfig tag.name
  let s := { s with anaExist := true, matchConfig := config.isSome }
  sendTag config (readPrevious matchPreviousDev s tag.name) tag

/-! ## The discrete and the text loop -/

/-- One turn of the discrete loop (`item := some`) or of the text loop
(`item := id`, where a NULL text adds nothing). -/
def plainStep {β α : Type} (item : β → Option α)
    (s : Bool × Obj (TagNode α)) (tag : EdgeTag β) :
    Bool × Obj (TagNode α) :=
  match tag.name with
  | none => s
  | some name =>
      if tag.isArray then
        let child : Obj α := tag.elements.foldl (fun o element =>
          match item element.value with
          | none => o
          | some v => addItemToObject o (some (printInt element.index)) v) []
        (s.1 || !tag.elements.isEmpty,
          addItemToObject s.2 (some name) (.array child))
      else
        match item tag.value with
        | none => s
        | some v => (true, addItemToObject s.2 (some name) (.value v))

def discreteStep (s : Bool × Obj (TagNode UInt32)) (tag : DiscreteTag) :
    Bool × Obj (TagNode UInt32) := plainStep some s tag

def textStep (s : Bool × Obj (TagNode CString)) (tag : TextTag) :
    Bool × Obj (TagNode CString) := plainStep id s tag

/-! ## The device loop -/

/-- The node of a device in the payload.  Its children are appended by the
three loops in this order. -/
structure DeviceNode (V : Type := Rat) where
  analog : Obj (TagNode V)
  discrete : Obj (TagNode UInt32)
  text : Obj (TagNode CString)

/-- The variables of the device loop. -/
structure DeviceLoop (V : Type := Rat) where
  dataExist : Bool
  anaExist : Bool
  matchPreviousTag : Bool
  subJsonPreTag : Pointer (Record V)
  pPrevious : Previous V
  subJsonD : Obj (DeviceNode V)

/-- `match_previous_dev`. -/
def knownDevice (pPrevious : Previous V) (device : EdgeDevice V) : Bool :=
  (getObjectItem pPrevious device.id).isSome

/-- The variables of the analog loop when a device is entered. -/
def enterDevice (subJsonRefD : Option CJson) (s : DeviceLoop V)
    (device : EdgeDevice V) : TagLoop V where
  dataExist := s.dataExist
  anaExist := s.anaExist
  matchConfig := (CJson.getItem subJsonRefD device.id).isSome
  matchPreviousTag := s.matchPreviousTag
  subJsonPreTag := s.subJsonPreTag
  valid := false
  subJsonPreDev := (getObjectItem s.pPrevious device.id).getD []
  subJsonNodeDev := []

/-- The analog loop over the tags of a device. -/
def analogLoop [AnalogValue V] (subJsonRefD : Option CJson) (s : DeviceLoop V)
    (device : EdgeDevice V) : Except Fault (TagLoop V) :=
  device.analogTagList.foldlM
    (analogStep (CJson.getItem subJsonRefD device.id)
      (knownDevice s.pPrevious device))
    (enterDevice subJsonRefD s device)

/-- The commit of a device into `pPrevious`. -/
def commitDevice (pPrevious : Previous V) (device : EdgeDevice V)
    (t : TagLoop V) : Previous V :=
  if t.anaExist && t.valid then
    if knownDevice pPrevious device then
      replaceItemInObject pPrevious device.id t.subJsonPreDev
    else addItemToObject pPrevious device.id t.subJsonPreDev
  else pPrevious

/-- One turn of the device loop. -/
def deviceStep [AnalogValue V] (subJsonRefD : Option CJson) (s : DeviceLoop V)
    (device : EdgeDevice V) : Except Fault (DeviceLoop V) := do
  let t ← analogLoop subJsonRefD s device
  let discrete := device.discreteTagList.foldl discreteStep (t.dataExist, [])
  let text := device.textTagList.foldl textStep (discrete.1, [])
  return {
    dataExist := text.1
    anaExist := t.anaExist
    matchPreviousTag := t.matchPreviousTag
    subJsonPreTag := t.subJsonPreTag
    pPrevious := commitDevice s.pPrevious device t
    subJsonD := addItemToObject s.subJsonD device.id
      { analog := t.subJsonNodeDev, discrete := discrete.2, text := text.2 } }

/-! ## The payload -/

/-- The tree `pJsonRoot`: its members `d` and, if there is one, `ts`. -/
structure Payload (V : Type := Rat) where
  d : Obj (DeviceNode V)
  ts : Option CString

section ToJson

variable {α : Type} (leaf : α → CJson)

def TagNode.toJson : TagNode α → CJson
  | .value v => leaf v
  | .array child => .object (child.map fun e => (e.1, leaf e.2))

def tagsToJson (tags : Obj (TagNode α)) : Obj CJson :=
  tags.map fun e => (e.1, e.2.toJson leaf)

end ToJson

def DeviceNode.toJson [AnalogValue V] (node : DeviceNode V) : CJson :=
  .object (tagsToJson analogJson node.analog ++
    tagsToJson (fun v => .number v.toNat) node.discrete ++
    tagsToJson .string node.text)

def Payload.toJson [AnalogValue V] (payload : Payload V) : CJson :=
  .object ((cstr "d", .object (payload.d.map fun e => (e.1, e.2.toJson))) ::
    match payload.ts with
    | none => []
    | some ts => [(cstr "ts", .string ts)])

/-! ## The function -/

/-- What a call leaves behind: the retained values, the payload and the
result. -/
structure Sent (V : Type := Rat) where
  pPrevious : Previous V
  payload : Payload V
  dataExist : Bool

/-- The variables of the device loop when a call starts. -/
def startLoop (pPrevious : Previous V) : DeviceLoop V where
  dataExist := false
  anaExist := false
  matchPreviousTag := false
  subJsonPreTag := .null
  pPrevious := pPrevious
  subJsonD := []

/-- The device loop of a call. -/
def deviceLoop [AnalogValue V] (pJsonRef : Option CJson) (pPrevious : Previous V)
    (data : EdgeData V) : Except Fault (DeviceLoop V) :=
  data.devices.foldlM
    (deviceStep (CJson.getItem pJsonRef (some (cstr "d"))))
    (startLoop pPrevious)

/-- `SendDataMessage`.  `pJsonRef` is what `cJSON_Parse` makes of the text
`*json_ref`, `now` what `_getTime` prints. -/
def sendDataMessage [AnalogValue V] (pJsonRef : Option CJson) (now : CString)
    (pPrevious : Previous V) (data : EdgeData V) : Except Fault (Sent V) := do
  let s ← deviceLoop pJsonRef pPrevious data
  let ts ← Timestamp.tsMember data.time now
  return {
    pPrevious := s.pPrevious
    payload := { d := s.subJsonD, ts := ts }
    dataExist := s.dataExist }

/-- `InitPrevious`. -/
def initPrevious : Previous V := []

end DatahubEdge.Message
