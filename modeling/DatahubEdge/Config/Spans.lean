import DatahubEdge.CJson.Build
import DatahubEdge.CJson.Truncate
import DatahubEdge.EdgeConfig
import DatahubEdge.Message.SendDataMessage

/-!
# The spans and the deadband that are applied

`SaveConfig` writes the spans of a tag as real numbers, a missing one as 1000
or 0; `SendDataMessage` reads them back as `int`s and subtracts them.  The
text in between is left out: the tree that is read is the one written.

## Main results

* `loadTag_saved` — what is read for a tag of the configuration.
* `applied_iff` — the span applied is the one configured exactly when
  truncation takes the same from both ends and their distance is an `int`.
-/

namespace DatahubEdge.Config

open Message

/-! ## Reading a tag -/

/-- The three numbers `SendDataMessage` reads from the node of a tag, before
it looks whether the deadband is zero. -/
def loadTag (subJsonRefTag : CJson) : Except Fault TagConfig := do
  let spanHigh ← infoInt subJsonRefTag (cstr "SH")
  let spanLow ← infoInt subJsonRefTag (cstr "SL")
  let deadband ← infoInt subJsonRefTag (cstr "Deadband")
  return { spanHigh, spanLow, deadband }

theorem readConfig_eq (subJsonRefDev : Option CJson) (name : Option CString) :
    readConfig subJsonRefDev name =
      match CJson.getItem subJsonRefDev name with
      | none => .ok none
      | some subJsonRefTag => do
          let config ← loadTag subJsonRefTag
          return if config.deadband = 0 then none else some config := by
  unfold readConfig
  cases CJson.getItem subJsonRefDev name with
  | none => rfl
  | some node =>
      dsimp only
      unfold loadTag
      cases infoInt node (cstr "SH") with
      | error e => rfl
      | ok spanHigh =>
          cases infoInt node (cstr "SL") with
          | error e => rfl
          | ok spanLow =>
              cases infoInt node (cstr "Deadband") with
              | error e => rfl
              | ok deadband =>
                  by_cases hd : deadband = 0
                  · simp [bind, Except.bind, pure, Except.pure, hd]
                  · simp [bind, Except.bind, pure, Except.pure, hd]

/-- The node of a tag in the tree that is read. -/
def tagNode (pJsonRef : Option CJson) (id name : Option CString) :
    Option CJson :=
  CJson.getItem (CJson.getItem (CJson.getItem pJsonRef (some (cstr "d"))) id)
    name

/-- What is read from the node `SaveConfig` writes for a tag. -/
theorem loadTag_saveTag (tag : AnalogTagConfig) :
    loadTag (saveTag tag) = .ok {
      spanHigh :=
        saturatedInt (if tag.spanHigh ≠ 0 then tag.spanHigh else 1000)
      spanLow := saturatedInt tag.spanLow
      deadband := saturatedInt tag.deadband } := by
  have hlow : (if tag.spanLow ≠ 0 then tag.spanLow else 0) = tag.spanLow := by
    split
    · rfl
    · rename_i h
      exact (not_not.mp h).symm
  unfold loadTag infoInt saveTag
  rw [hlow]
  by_cases hfdf : tag.fractionDisplayFormat = 0
  · rw [if_neg (not_not.mpr hfdf)]
    rfl
  · rw [if_pos hfdf]
    rfl

/-- The ids of the devices, and the tag names of each, are pairwise distinct
ignoring case. -/
structure NamesDistinct (deviceList : List DeviceConfig) : Prop where
  ids : Distinct (deviceList.map DeviceConfig.id)
  tags : ∀ device ∈ deviceList,
    Distinct (device.analogTagList.map AnalogTagConfig.name)

section Saved

variable {config : NodeConfig} {deviceList : List DeviceConfig}
  {device : DeviceConfig} {tag : AnalogTagConfig} {id name : CString}

/-- The node of a configured tag is found. -/
theorem tagNode_saved (hlist : config.deviceList = some deviceList)
    (hnames : NamesDistinct deviceList) (hdevice : device ∈ deviceList)
    (hid : device.id = some id) (htag : tag ∈ device.analogTagList)
    (hname : tag.name = some name) :
    tagNode (some (saveConfig config)) (some id) (some name) =
      some (saveTag tag) := by
  have hd : CJson.getItem (some (saveConfig config)) (some (cstr "d")) =
      some (.object (built DeviceConfig.id saveDevice deviceList)) := by
    rw [saveConfig, hlist, CJson.getItem, Option.bind_some]
    have hfold := foldl_addItemToObject DeviceConfig.id saveDevice deviceList []
    rw [List.nil_append] at hfold
    rw [← hfold]
    rfl
  have hdev : CJson.getItem
      (some (.object (built DeviceConfig.id saveDevice deviceList)))
      (some id) = some (saveDevice device) :=
    getObjectItem_built hnames.ids hdevice hid
  have hnode : CJson.getItem (some (saveDevice device)) (some name) =
      some (saveTag tag) := by
    have hfold := foldl_addItemToObject AnalogTagConfig.name saveTag
      device.analogTagList []
    rw [List.nil_append] at hfold
    rw [saveDevice, hfold]
    exact getObjectItem_built (hnames.tags device hdevice) htag hname
  rw [tagNode, hd, hdev, hnode]

/-- What is read for a tag of the configuration. -/
theorem loadTag_saved (hlist : config.deviceList = some deviceList)
    (hnames : NamesDistinct deviceList) (hdevice : device ∈ deviceList)
    (hid : device.id = some id) (htag : tag ∈ device.analogTagList)
    (hname : tag.name = some name) {node : CJson} {loaded : TagConfig}
    (hnode : tagNode (some (saveConfig config)) (some id) (some name) =
      some node) (hload : loadTag node = .ok loaded) :
    loaded = {
      spanHigh :=
        saturatedInt (if tag.spanHigh ≠ 0 then tag.spanHigh else 1000)
      spanLow := saturatedInt tag.spanLow
      deadband := saturatedInt tag.deadband } := by
  rw [tagNode_saved hlist hnames hdevice hid htag hname] at hnode
  cases hnode
  rw [loadTag_saveTag] at hload
  exact (Except.ok.inj hload).symm

end Saved

/-! ## What is applied and what is configured -/

/-- The tag is loaded, with the deadband and the span configured, and the span
is an `int` other than zero. -/
def Applied (pJsonRef : Option CJson) (id : Option CString)
    (tag : AnalogTagConfig) : Prop :=
  ∃ node loaded, tagNode pJsonRef id tag.name = some node ∧
    loadTag node = .ok loaded ∧ loaded.deadband = tag.deadband ∧
    ((loaded.spanHigh - loaded.spanLow : Int) : Rat) =
      tag.spanHigh - tag.spanLow ∧
    intMin ≤ loaded.spanHigh - loaded.spanLow ∧
    loaded.spanHigh - loaded.spanLow ≤ intMax ∧
    loaded.spanHigh - loaded.spanLow ≠ 0

/-- The spans of a tag that survive: the upper one is set, their distance is a
whole number and an `int`, neither leaves the range of `int` by one or more,
and if they are no whole numbers they have the same sign. -/
structure SpansExact (tag : AnalogTagConfig) : Prop where
  high : tag.spanHigh ≠ 0
  whole : ∃ d : Int, tag.spanHigh - tag.spanLow = d ∧ d ≤ intMax
  sign : (∃ n : Int, tag.spanLow = n) ∨ 0 < tag.spanLow ∨ tag.spanHigh < 0
  low : (intMin : Rat) - 1 < tag.spanLow
  bound : tag.spanHigh < intMax + 1

section Spans

variable {tag : AnalogTagConfig}

/-- Exact spans keep their distance. -/
theorem SpansExact.sub_eq (h : SpansExact tag)
    (hspan : tag.spanLow < tag.spanHigh) :
    ((saturatedInt tag.spanHigh - saturatedInt tag.spanLow : Int) : Rat) =
      tag.spanHigh - tag.spanLow := by
  obtain ⟨d, hd, _⟩ := h.whole
  have hlow := h.low
  have hbound := h.bound
  have hhigh : tag.spanHigh = tag.spanLow + d := by linarith
  have hsat : saturatedInt tag.spanHigh = saturatedInt tag.spanLow + d := by
    rcases h.sign with ⟨n, hn⟩ | hpos | hneg
    · have hsum : tag.spanHigh = ((n + d : Int) : Rat) := by
        rw [hhigh, hn]
        push_cast
        rfl
      rw [hn] at hlow
      rw [hsum] at hbound
      rw [hn, hsum] at hspan
      have hlow : intMin - 1 < n := by exact_mod_cast hlow
      have hbound : n + d < intMax + 1 := by exact_mod_cast hbound
      have hspan : n < n + d := by exact_mod_cast hspan
      rw [hsum, hn, saturatedInt_intCast (by omega) (by omega),
        saturatedInt_intCast (by omega) (by omega)]
    · rw [saturatedInt_of_nonneg (by linarith) hbound,
        saturatedInt_of_nonneg hpos.le (by linarith), hhigh,
        Int.floor_add_intCast]
    · rw [saturatedInt_of_nonpos hneg.le (by linarith),
        saturatedInt_of_nonpos (by linarith) hlow, hhigh,
        Int.ceil_add_intCast]
  rw [hsat, hd]
  push_cast
  ring

/-- Spans that keep their distance are exact. -/
theorem spansExact_of_sub_eq (hspan : tag.spanLow < tag.spanHigh)
    (hhigh : tag.spanHigh ≠ 0)
    (hsub : ((saturatedInt tag.spanHigh - saturatedInt tag.spanLow : Int) :
      Rat) = tag.spanHigh - tag.spanLow)
    (hmax : saturatedInt tag.spanHigh - saturatedInt tag.spanLow ≤ intMax) :
    SpansExact tag := by
  have hpos : saturatedInt tag.spanLow < saturatedInt tag.spanHigh := by
    have : (0 : Rat) <
        ((saturatedInt tag.spanHigh - saturatedInt tag.spanLow : Int) : Rat) := by
      rw [hsub]
      linarith
    have : 0 < saturatedInt tag.spanHigh - saturatedInt tag.spanLow := by
      exact_mod_cast this
    omega
  have hshi := (saturatedInt_mem tag.spanHigh).2
  have hslo := (saturatedInt_mem tag.spanLow).1
  push_cast at hsub
  -- the lower span is below the end of `int`, the upper one above it
  have hlmax : tag.spanLow < intMax := by
    by_contra h
    rw [saturatedInt_of_ge (not_lt.mp h)] at hpos
    omega
  have hhmin : (intMin : Rat) < tag.spanHigh := by
    by_contra h
    rw [saturatedInt_of_le (not_lt.mp h)] at hpos
    omega
  have hcutl : tag.spanLow - saturatedInt tag.spanLow < 1 :=
    sub_saturatedInt_lt_one (by linarith)
  have hcuth : -1 < tag.spanHigh - saturatedInt tag.spanHigh :=
    neg_one_lt_sub_saturatedInt (by linarith)
  have hshi : (saturatedInt tag.spanHigh : Rat) ≤ intMax := by
    exact_mod_cast hshi
  have hslo : (intMin : Rat) ≤ saturatedInt tag.spanLow := by
    exact_mod_cast hslo
  have hlow : (intMin : Rat) - 1 < tag.spanLow := by linarith
  have hbound : tag.spanHigh < intMax + 1 := by linarith
  refine ⟨hhigh, ?_, ?_, hlow, hbound⟩
  · refine ⟨saturatedInt tag.spanHigh - saturatedInt tag.spanLow, ?_, hmax⟩
    push_cast
    exact hsub.symm
  · by_contra hsign
    rw [not_or, not_or] at hsign
    obtain ⟨hwhole, hlpos, hhneg⟩ := hsign
    rw [not_lt] at hlpos hhneg
    rw [saturatedInt_of_nonneg hhneg hbound,
      saturatedInt_of_nonpos hlpos hlow] at hsub
    have h1 := Int.floor_le tag.spanHigh
    have h2 := Int.le_ceil tag.spanLow
    exact hwhole ⟨⌈tag.spanLow⌉, by linarith⟩

/-- Without an upper span the distance is lost: the default 1000 is too far
from any lower span. -/
theorem default_span_differs {low : Rat}
    (hsub : ((saturatedInt 1000 - saturatedInt low : Int) : Rat) = 0 - low) :
    intMax < saturatedInt 1000 - saturatedInt low := by
  have h1000 : saturatedInt 1000 = 1000 :=
    saturatedInt_intCast (n := 1000) (by decide) (by decide)
  rw [h1000] at hsub ⊢
  push_cast at hsub
  have hcut : low - saturatedInt low = -1000 := by linarith
  by_cases h : (intMin : Rat) - 1 < low
  · have := neg_one_lt_sub_saturatedInt h
    linarith
  · rw [not_lt] at h
    rw [saturatedInt_of_le (by linarith)]
    decide

end Spans

/-- After `SaveConfig` a tag is applied as it is configured exactly when its
device has an id and its spans are exact. -/
theorem applied_iff {config : NodeConfig} {deviceList : List DeviceConfig}
    (hlist : config.deviceList = some deviceList)
    (hnames : NamesDistinct deviceList)
    {device : DeviceConfig} (hdevice : device ∈ deviceList)
    {tag : AnalogTagConfig} (htag : tag ∈ device.analogTagList)
    (hname : tag.name.isSome = true)
    (hint : intMin ≤ tag.deadband ∧ tag.deadband ≤ intMax)
    (hspan : tag.spanLow < tag.spanHigh) :
    Applied (some (saveConfig config)) device.id tag ↔
      device.id.isSome = true ∧ SpansExact tag := by
  obtain ⟨name, hname⟩ := Option.isSome_iff_exists.mp hname
  have hdeadband := saturatedInt_intCast hint.1 hint.2
  constructor
  · rintro ⟨node, loaded, hnode, hload, _, hsub, hmin, hmax, hne⟩
    cases hid : device.id with
    | none =>
        rw [tagNode, hid] at hnode
        simp [CJson.getItem] at hnode
    | some id =>
        refine ⟨rfl, ?_⟩
        rw [hid, hname] at hnode
        rw [loadTag_saved hlist hnames hdevice hid htag hname hnode hload]
          at hsub hmax
        by_cases hzero : tag.spanHigh = 0
        · rw [if_neg (not_not.mpr hzero)] at hsub hmax
          rw [hzero] at hsub
          have hfar := default_span_differs hsub
          exact absurd hmax (not_le.mpr hfar)
        · rw [if_pos hzero] at hsub hmax
          exact spansExact_of_sub_eq hspan hzero hsub hmax
  · rintro ⟨hsome, hexact⟩
    obtain ⟨id, hid⟩ := Option.isSome_iff_exists.mp hsome
    obtain ⟨d, hd, hdmax⟩ := hexact.whole
    have hsub := hexact.sub_eq hspan
    have hsat : saturatedInt tag.spanHigh - saturatedInt tag.spanLow = d := by
      have : ((saturatedInt tag.spanHigh - saturatedInt tag.spanLow : Int) :
          Rat) = (d : Rat) := hsub.trans hd
      exact_mod_cast this
    have hdpos : 0 < d := by
      have : (0 : Rat) < (d : Rat) := by
        rw [← hd]
        linarith
      exact_mod_cast this
    have hmin : intMin ≤ 0 := by decide
    refine ⟨saveTag tag, _, ?_, loadTag_saveTag tag, hdeadband, ?_⟩
    · rw [hid, hname]
      exact tagNode_saved hlist hnames hdevice hid htag hname
    · dsimp only
      rw [if_pos hexact.high]
      refine ⟨hsub, ?_, ?_, ?_⟩
      · omega
      · omega
      · omega

/-! ## Sample configurations -/

/-- A tag `x` of a device `A` with the given spans. -/
def spanTag (high low : Rat) : AnalogTagConfig where
  name := some (cstr "x")
  deadband := 10
  spanHigh := high
  spanLow := low

def spanDevice (high low : Rat) : DeviceConfig where
  id := some (cstr "A")
  analogTagList := [spanTag high low]

def spanConfig (high low : Rat) : NodeConfig where
  deviceList := some [spanDevice high low]

theorem spanConfig_names (high low : Rat) :
    NamesDistinct [spanDevice high low] := by
  refine ⟨List.pairwise_singleton _ _, ?_⟩
  intro device hdevice
  rw [List.mem_singleton.mp hdevice]
  exact List.pairwise_singleton _ _

/-- Spans from 0 to 100 are applied as configured. -/
theorem whole_spans_applied :
    Applied (some (saveConfig (spanConfig 100 0))) (some (cstr "A"))
      (spanTag 100 0) := by
  refine (applied_iff rfl (spanConfig_names 100 0) (List.mem_singleton_self _)
    (List.mem_singleton_self _) rfl (by decide) (by decide +kernel)).mpr
    ⟨rfl, ?_⟩
  refine ⟨by decide +kernel, ⟨100, by decide +kernel, by decide⟩,
    .inl ⟨0, by decide +kernel⟩, by decide +kernel, by decide +kernel⟩

/-- Spans from a quarter to a half are read as 0 and 0, and their distance, by
which the change of a value is divided, is 0. -/
theorem fraction_not_applied :
    NamesDistinct [spanDevice (1 / 2) (1 / 4)] ∧
      (spanTag (1 / 2) (1 / 4)).spanLow < (spanTag (1 / 2) (1 / 4)).spanHigh ∧
      ¬ Applied (some (saveConfig (spanConfig (1 / 2) (1 / 4))))
        (some (cstr "A")) (spanTag (1 / 2) (1 / 4)) := by
  refine ⟨spanConfig_names _ _, by decide +kernel, ?_⟩
  rintro ⟨node, loaded, hnode, hload, _, _, _, _, hne⟩
  have hlist : (spanConfig (1 / 2) (1 / 4)).deviceList =
      some [spanDevice (1 / 2) (1 / 4)] := rfl
  have hloaded := loadTag_saved hlist (spanConfig_names _ _)
    (List.mem_singleton_self _) rfl (List.mem_singleton_self _) rfl hnode hload
  rw [hloaded] at hne
  exact hne (by decide +kernel)

end DatahubEdge.Config
