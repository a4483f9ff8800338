import DatahubEdge.Message.PayloadLeaves

/-!
# Every value once

The objects of a payload are append-only lists that accept a key twice.  The
scalar branch of the analog loop appends a value that is reported at the
comparison, and again in the block under `if(valid)`.

## Main results

* `carriesOnce_iff` — a payload carries no value twice, loses no discrete or
  text value and invents none exactly when no turn reports a scalar at the
  comparison.
-/

namespace DatahubEdge.Message

open Lib Lib.Fold

/-! ## Messages and payloads without repetitions -/

/-- The names of all tags of a device. -/
def tagNames (device : EdgeDevice) : List (Option CString) :=
  device.analogTagList.map EdgeTag.name ++
    device.discreteTagList.map EdgeTag.name ++
    device.textTagList.map EdgeTag.name

/-- The indices of an array tag are distinct. -/
def IndicesDistinct {β : Type} (tag : EdgeTag β) : Prop :=
  (tag.elements.map ArrayTag.index).Nodup

/-- The device ids are distinct, and within a device the tag names and within
an array tag the indices. -/
structure NoRepeats (data : EdgeData) : Prop where
  ids : (data.devices.map EdgeDevice.id).Nodup
  names : ∀ device ∈ data.devices, (tagNames device).Nodup
  analog : ∀ device ∈ data.devices, ∀ tag ∈ device.analogTagList,
    IndicesDistinct tag
  discrete : ∀ device ∈ data.devices, ∀ tag ∈ device.discreteTagList,
    IndicesDistinct tag
  text : ∀ device ∈ data.devices, ∀ tag ∈ device.textTagList,
    IndicesDistinct tag

/-- No key is repeated, so that every path has at most one leaf; every
submitted discrete and text value has its leaf; and every leaf is a submitted
value at its path. -/
structure CarriesOnce (data : EdgeData) (payload : Payload) : Prop where
  keys : payload.toJson.KeysDistinct
  paths : (payload.dJson.leafPaths.map Prod.fst).Nodup
  plain : ∀ l ∈ submits plainSubmits data.devices,
    l ∈ payload.dJson.leafPaths
  submitted : ∀ l ∈ payload.dJson.leafPaths,
    l ∈ submits plainSubmits data.devices ∨
      l ∈ submits analogSubmits data.devices

/-- The turn reports the value of a scalar tag at the comparison: it is not
filtered, or not within its deadband. -/
def ScalarPasses (subJsonRefD : Option CJson) (l : DeviceLoop)
    (device : EdgeDevice) (t : TagLoop) (tag : AnalogTag) : Prop :=
  tag.name.isSome = true ∧ tag.isArray = false ∧
    ∃ config, lookupConfig (CJson.getItem subJsonRefD device.id)
        t.matchConfig tag.name = .ok config ∧
      passes (filterOf config
        (lookedUp config (knownDevice l.pPrevious device) t tag.name))
        (cstr "0", tag.value) = true

/-! ## Nodes of one kind of tags -/

section Nodes

variable {α β : Type} {leaf : α → CJson} {item : β → Option α}

/-- The keys of tag nodes, and those within an array node, are distinct. -/
structure NodesDistinct (names : List CString) (leaf : α → CJson)
    (nodes : Obj (TagNode α)) : Prop where
  keys : (nodes.map Prod.fst).Sublist names
  below : ∀ e ∈ nodes, (e.2.toJson leaf).KeysDistinct

theorem NodesDistinct.nil : NodesDistinct [] leaf [] :=
  ⟨List.Sublist.refl _, by simp⟩

theorem NodesDistinct.append {names more : List CString}
    {nodes added : Obj (TagNode α)} (h : NodesDistinct names leaf nodes)
    (h' : NodesDistinct more leaf added) :
    NodesDistinct (names ++ more) leaf (nodes ++ added) := by
  refine ⟨?_, ?_⟩
  · rw [List.map_append]
    exact h.keys.append h'.keys
  · intro e he
    rcases List.mem_append.mp he with he | he
    · exact h.below e he
    · exact h'.below e he

theorem keysDistinct_array (hleaf : ∀ v, (leaf v).KeysDistinct)
    {child : Obj α} (h : (child.map Prod.fst).Nodup) :
    ((TagNode.array child).toJson leaf).KeysDistinct := by
  rw [TagNode.toJson, CJson.keysDistinct_object]
  refine ⟨by simpa [Function.comp_def] using h, ?_⟩
  intro e he
  obtain ⟨x, _, rfl⟩ := List.mem_map.mp he
  exact hleaf x.2

/-- At most one node under the name of a tag. -/
theorem nodesDistinct_single (hleaf : ∀ v, (leaf v).KeysDistinct)
    {name : CString} {nodes : Obj (TagNode α)}
    (h : nodes = [] ∨ (∃ v, nodes = [(name, .value v)]) ∨
      ∃ child, nodes = [(name, .array child)] ∧
        (child.map Prod.fst).Nodup) :
    NodesDistinct [name] leaf nodes := by
  rcases h with rfl | ⟨v, rfl⟩ | ⟨child, rfl, hchild⟩
  · exact ⟨List.nil_sublist _, by simp⟩
  · refine ⟨List.Sublist.refl _, ?_⟩
    intro e he
    rw [List.mem_singleton.mp he]
    exact hleaf v
  · refine ⟨List.Sublist.refl _, ?_⟩
    intro e he
    rw [List.mem_singleton.mp he]
    exact keysDistinct_array hleaf hchild

/-- Printed distinct indices are distinct keys. -/
theorem nodup_printInt {tag : EdgeTag β} (h : IndicesDistinct tag) :
    (tag.elements.map fun element => printInt element.index).Nodup := by
  have hmap : (tag.elements.map fun element => printInt element.index) =
      (tag.elements.map ArrayTag.index).map printInt := by
    rw [List.map_map]
    rfl
  rw [hmap]
  exact h.map fun _ _ => printInt_injective

theorem nodesDistinct_plainNode (hleaf : ∀ v, (leaf v).KeysDistinct)
    {tag : EdgeTag β} (h : IndicesDistinct tag) :
    NodesDistinct (tag.name.toList) leaf (plainNode item tag) := by
  unfold plainNode
  cases tag.name with
  | none => exact ⟨List.Sublist.refl _, by simp⟩
  | some name =>
      refine nodesDistinct_single hleaf ?_
      dsimp only
      split
      · refine .inr (.inr ⟨_, rfl, ?_⟩)
        refine List.Nodup.sublist ?_ (nodup_printInt h)
        induction tag.elements with
        | nil => exact List.Sublist.refl _
        | cons element elements ih =>
            cases hv : item element.value with
            | none =>
                simp only [List.filterMap_cons, hv, Option.map_none,
                  List.map_cons]
                exact ih.cons _
            | some v =>
                simp only [List.filterMap_cons, hv, Option.map_some,
                  List.map_cons]
                exact ih.cons_cons _
      · cases item tag.value with
        | none => exact .inl rfl
        | some v => exact .inr (.inl ⟨v, rfl⟩)

theorem nodesDistinct_plain (hleaf : ∀ v, (leaf v).KeysDistinct)
    {tags : List (EdgeTag β)} (h : ∀ tag ∈ tags, IndicesDistinct tag) :
    NodesDistinct (tags.flatMap fun tag => tag.name.toList) leaf
      (tags.flatMap (plainNode item)) := by
  induction tags with
  | nil => exact NodesDistinct.nil
  | cons tag tags ih =>
      rw [List.flatMap_cons, List.flatMap_cons]
      exact (nodesDistinct_plainNode hleaf (h tag List.mem_cons_self)).append
        (ih fun b hb => h b (List.mem_cons_of_mem _ hb))

end Nodes

theorem keysDistinct_number (v : Rat) : (CJson.number v).KeysDistinct := by
  rw [CJson.KeysDistinct] <;> simp

theorem keysDistinct_string (v : CString) :
    (CJson.string v).KeysDistinct := by
  rw [CJson.KeysDistinct] <;> simp

/-! ## The analog loop -/

section Turn

variable {config : Option TagConfig} {s : TagLoop} {name : CString}
  {tag : AnalogTag}

/-- A turn that does not report a scalar at the comparison adds at most one
node, under the name of the tag. -/
theorem nodesDistinct_turn (h : IndicesDistinct tag)
    (hscalar : tag.isArray = false →
      passes (filterOf config s) (cstr "0", tag.value) = false) :
    NodesDistinct [name] analogJson (tagNodes name tag
      (passing (filterOf config s) tag) (validAfter config s tag)) := by
  refine nodesDistinct_single keysDistinct_number ?_
  unfold tagNodes
  by_cases harr : tag.isArray = true
  · rw [if_pos harr]
    split
    · refine .inr (.inr ⟨_, rfl, ?_⟩)
      have hleaves : (leaves tag).map Prod.fst =
          tag.elements.map fun element => printInt element.index := by
        rw [leaves, if_pos harr, List.map_map]
        rfl
      refine List.Nodup.sublist (List.filter_sublist.map _) ?_
      rw [hleaves]
      exact nodup_printInt h
    · exact .inl rfl
  · rw [if_neg harr]
    rw [Bool.not_eq_true] at harr
    have hnone : passing (filterOf config s) tag = [] := by
      simp [passing, leaves, harr, hscalar harr]
    rw [hnone]
    split
    · exact .inr (.inl ⟨tag.value, rfl⟩)
    · exact .inl rfl

/-- A turn that reports a scalar at the comparison adds it twice. -/
theorem tagNodes_twice (harr : tag.isArray = false)
    (hpass : passes (filterOf config s) (cstr "0", tag.value) = true) :
    tagNodes name tag (passing (filterOf config s) tag)
      (validAfter config s tag) =
        [(name, .value tag.value), (name, .value tag.value)] := by
  have hone : passing (filterOf config s) tag = [(cstr "0", tag.value)] := by
    simp [passing, leaves, harr, hpass]
  have hvalid : validAfter config s tag = true := by
    simp [validAfter, hone]
  rw [hone, hvalid]
  simp [tagNodes, harr]

theorem tagLeaves_values (r : Record) :
    tagLeaves analogJson (r.map fun leaf => (name, .value leaf.2)) =
      r.map fun leaf => ([name], analogJson leaf.2) := by
  induction r with
  | nil => simp
  | cons leaf r ih =>
      show tagLeaves analogJson ([(name, .value leaf.2)] ++ _) = _
      rw [tagLeaves_append, tagLeaves_value atomic_analog, ih]
      rfl

/-- The leaves a turn adds are values the tag submits. -/
theorem tagLeaves_submitted (hname : tag.name = some name)
    {l : List CString × CJson}
    (h : l ∈ tagLeaves analogJson (tagNodes name tag
      (passing (filterOf config s) tag) (validAfter config s tag))) :
    l ∈ tagSubmits analogLeaf tag := by
  have hpassing : ∀ leaf ∈ passing (filterOf config s) tag,
      leaf ∈ leaves tag := fun leaf hleaf => (mem_leaves_of_mem_passing hleaf).1
  unfold tagNodes at h
  unfold leaves at hpassing
  simp only [tagSubmits, hname]
  by_cases harr : tag.isArray = true
  · rw [if_pos harr] at h hpassing ⊢
    split at h
    · rw [tagLeaves_array atomic_analog] at h
      obtain ⟨leaf, hleaf, rfl⟩ := List.mem_map.mp h
      obtain ⟨element, hmem, rfl⟩ := List.mem_map.mp (hpassing leaf hleaf)
      exact List.mem_filterMap.mpr ⟨element, hmem, rfl⟩
    · simp at h
  · rw [if_neg harr] at h hpassing ⊢
    have hvalue : l = ([name], analogJson tag.value) := by
      rw [tagLeaves_append, List.mem_append] at h
      rcases h with h | h
      · rw [tagLeaves_values] at h
        obtain ⟨leaf, hleaf, rfl⟩ := List.mem_map.mp h
        rw [List.mem_singleton.mp (hpassing leaf hleaf)]
      · split at h
        · rw [tagLeaves_value atomic_analog, List.mem_singleton] at h
          exact h
        · simp at h
    rw [hvalue]
    exact List.mem_singleton_self _

end Turn

section AnalogLoop

variable {subJsonRefDev : Option CJson} {matchPreviousDev : Bool}
  {s₀ t u : TagLoop} {tag : AnalogTag}

/-- The leaves of the analog loop are values its tags submit. -/
theorem analogStep_submitted
    (h : analogStep subJsonRefDev matchPreviousDev t tag = .ok u) :
    ∃ added, tagLeaves analogJson u.subJsonNodeDev =
      tagLeaves analogJson t.subJsonNodeDev ++ added ∧
      ∀ l ∈ added, l ∈ tagSubmits analogLeaf tag := by
  cases hname : tag.name with
  | none =>
      obtain ⟨config, rfl⟩ := analogStep_ok_noname hname h
      exact ⟨[], by simp, by simp⟩
  | some name =>
      obtain ⟨config, s, hturn⟩ := analogStep_ok hname h
      refine ⟨_, by rw [hturn.nodes, tagLeaves_append], ?_⟩
      intro l hl
      exact tagLeaves_submitted hname hl

theorem analogLoop_submitted {subJsonRefD : Option CJson} {l : DeviceLoop}
    {device : EdgeDevice} (h : analogLoop subJsonRefD l device = .ok t) :
    ∀ x ∈ tagLeaves analogJson t.subJsonNodeDev, x ∈ analogSubmits device := by
  have hall := foldlM_appends
    (fun t : TagLoop => tagLeaves analogJson t.subJsonNodeDev)
    (fun tag x => x ∈ tagSubmits analogLeaf tag)
    (fun _ _ _ _ hstep => analogStep_submitted hstep) h
  obtain ⟨added, hadded, hsub⟩ := hall
  intro x hx
  rw [hadded, enterDevice, tagLeaves_nil, List.nil_append] at hx
  exact List.mem_flatMap.mpr (hsub x hx)

/-- Without a scalar reported at the comparison the analog loop adds at most
one node for each tag. -/
theorem analogLoop_distinct {subJsonRefD : Option CJson} {l : DeviceLoop}
    {device : EdgeDevice}
    (hindices : ∀ tag ∈ device.analogTagList, IndicesDistinct tag)
    (hnot : ∀ pre t tag, Visits
      (analogStep (CJson.getItem subJsonRefD device.id)
        (knownDevice l.pPrevious device))
      (enterDevice subJsonRefD l device) device.analogTagList pre t tag →
      ¬ ScalarPasses subJsonRefD l device t tag)
    (h : analogLoop subJsonRefD l device = .ok t) :
    NodesDistinct (device.analogTagList.flatMap fun tag => tag.name.toList)
      analogJson t.subJsonNodeDev := by
  refine foldlM_invariant
    (P := fun done t => NodesDistinct
      (done.flatMap fun tag => tag.name.toList) analogJson t.subJsonNodeDev)
    device.analogTagList t ?_ ?_ h
  · exact NodesDistinct.nil
  · intro pre t tag u hvisit ht hstep
    rw [List.flatMap_append, List.flatMap_singleton]
    cases hname : tag.name with
    | none =>
        obtain ⟨config, rfl⟩ := analogStep_ok_noname hname hstep
        rw [lookedUp_subJsonNodeDev]
        simpa using ht
    | some name =>
        obtain ⟨config, s, hturn⟩ := analogStep_ok hname hstep
        rw [hturn.nodes]
        refine ht.append (nodesDistinct_turn (hindices tag hvisit.mem) ?_)
        intro harr
        by_contra hpass
        rw [Bool.not_eq_false] at hpass
        refine hnot pre t tag hvisit ⟨by rw [hname]; rfl, harr, config, ?_, ?_⟩
        · rw [hname]
          exact hturn.loaded
        · rw [hname, ← hturn.looked]
          exact hpass

/-- A scalar reported at the comparison makes its key occur twice. -/
theorem analogLoop_twice {subJsonRefD : Option CJson} {l : DeviceLoop}
    {device : EdgeDevice} {pre : List AnalogTag}
    (h : analogLoop subJsonRefD l device = .ok u)
    (hvisit : Visits
      (analogStep (CJson.getItem subJsonRefD device.id)
        (knownDevice l.pPrevious device))
      (enterDevice subJsonRefD l device) device.analogTagList pre t tag)
    (hpass : ScalarPasses subJsonRefD l device t tag) :
    ¬ (u.subJsonNodeDev.map Prod.fst).Nodup := by
  obtain ⟨hname, harr, config, hload, hpass⟩ := hpass
  obtain ⟨name, hname⟩ := Option.isSome_iff_exists.mp hname
  obtain ⟨v, post, _, hstep, hpost⟩ := hvisit.completed h
  obtain ⟨config', s, hturn⟩ := analogStep_ok hname hstep
  have hconfig : config' = config := by
    have hload' := hturn.loaded
    rw [← hname, hload] at hload'
    exact (Except.ok.inj hload').symm
  subst hconfig
  rw [hname, ← hturn.looked] at hpass
  obtain ⟨added, hadded, _⟩ := tagLoop_nodes hpost
  rw [hadded, hturn.nodes, tagNodes_twice harr hpass]
  intro hnodup
  simp only [List.map_append, List.append_assoc] at hnodup
  have htwice := (List.nodup_append.mp hnodup).2.1
  simp at htwice

end AnalogLoop

/-! ## The payload -/

theorem flatMap_name_toList {β : Type} (tags : List (EdgeTag β)) :
    (tags.flatMap fun tag => tag.name.toList) =
      (tags.map EdgeTag.name).filterMap id := by
  induction tags with
  | nil => rfl
  | cons tag tags ih =>
      rw [List.flatMap_cons, ih]
      cases hname : tag.name <;> simp [hname]

/-- The node of a device repeats no key if the analog loop adds at most one
node for each tag. -/
theorem keysDistinct_deviceNode {data : EdgeData} {device : EdgeDevice}
    {t : TagLoop} (hdata : NoRepeats data) (hdevice : device ∈ data.devices)
    (h : NodesDistinct (device.analogTagList.flatMap fun tag =>
      tag.name.toList) analogJson t.subJsonNodeDev) :
    (deviceNode device t).toJson.KeysDistinct := by
  have hdiscrete : NodesDistinct
      (device.discreteTagList.flatMap fun tag => tag.name.toList)
      (fun v : UInt32 => CJson.number v.toNat) (discreteNodes device) :=
    nodesDistinct_plain (fun v => keysDistinct_number _)
      (hdata.discrete device hdevice)
  have htext : NodesDistinct
      (device.textTagList.flatMap fun tag => tag.name.toList)
      CJson.string (textNodes device) :=
    nodesDistinct_plain keysDistinct_string (hdata.text device hdevice)
  have hnames : ((tagNames device).filterMap id).Nodup := by
    refine List.Nodup.filterMap ?_ (hdata.names device hdevice)
    intro a b n ha hb
    exact (Option.mem_def.mp ha).trans (Option.mem_def.mp hb).symm
  rw [tagNames, List.filterMap_append, List.filterMap_append,
    ← flatMap_name_toList, ← flatMap_name_toList, ← flatMap_name_toList]
    at hnames
  rw [DeviceNode.toJson, CJson.keysDistinct_object]
  refine ⟨?_, ?_⟩
  · have hkeys : ∀ {α : Type} (leaf : α → CJson) (nodes : Obj (TagNode α)),
        (tagsToJson leaf nodes).map Prod.fst = nodes.map Prod.fst := by
      intro α leaf nodes
      simp [tagsToJson, Function.comp_def]
    rw [List.map_append, List.map_append, hkeys, hkeys, hkeys]
    exact hnames.sublist ((h.keys.append hdiscrete.keys).append htext.keys)
  · have hbelow : ∀ {α : Type} {leaf : α → CJson} {nodes : Obj (TagNode α)},
        (∀ e ∈ nodes, (e.2.toJson leaf).KeysDistinct) →
        ∀ e ∈ tagsToJson leaf nodes, e.2.KeysDistinct := by
      intro α leaf nodes hall e he
      obtain ⟨x, hx, rfl⟩ := List.mem_map.mp he
      exact hall x hx
    intro e he
    rw [List.mem_append, List.mem_append] at he
    rcases he with (he | he) | he
    · exact hbelow h.below e he
    · exact hbelow hdiscrete.below e he
    · exact hbelow htext.below e he

/-- The ids of the devices under `d` are those of the message, in order. -/
theorem deviceLoop_ids {subJsonRefD : Option CJson} {l l' : DeviceLoop}
    {devices : List EdgeDevice}
    (h : devices.foldlM (deviceStep subJsonRefD) l = .ok l') :
    l'.subJsonD.map Prod.fst =
      l.subJsonD.map Prod.fst ++ devices.filterMap EdgeDevice.id := by
  have hplain := congrArg (List.map Prod.fst) (deviceLoop_plain h)
  simp only [plainParts, List.map_append, List.map_map, Function.comp_def,
    List.map_filterMap, Option.map_map, Option.map_id'] at hplain
  exact hplain

section DeviceLoop

variable {subJsonRefD : Option CJson} {p : Previous} {data : EdgeData}
  {l l' m : DeviceLoop} {device : EdgeDevice}

theorem mem_submits_snoc {values : EdgeDevice → Leaves}
    {devices : List EdgeDevice} {x : List CString × CJson} :
    x ∈ submits values (devices ++ [device]) ↔
      x ∈ submits values devices ∨
        ∃ id, device.id = some id ∧ x ∈ (values device).below id := by
  simp only [mem_submits, List.mem_append, List.mem_singleton]
  constructor
  · rintro ⟨b, hb | rfl, hx⟩
    · exact .inl ⟨b, hb, hx⟩
    · exact .inr hx
  · rintro (⟨b, hb, hx⟩ | hx)
    · exact ⟨b, .inl hb, hx⟩
    · exact ⟨device, .inr rfl, hx⟩

/-- The leaves after a turn of the device loop. -/
theorem mem_deviceLeaves_step (h : deviceStep subJsonRefD l device = .ok m) :
    ∃ t, analogLoop subJsonRefD l device = .ok t ∧
      ∀ x, x ∈ deviceLeaves m.subJsonD ↔
        x ∈ deviceLeaves l.subJsonD ∨ ∃ id, device.id = some id ∧
          x ∈ Leaves.below id
            (tagLeaves analogJson t.subJsonNodeDev ++ plainSubmits device) := by
  obtain ⟨t, hloop, _, _, _, _, hd⟩ := deviceStep_ok h
  refine ⟨t, hloop, ?_⟩
  intro x
  rw [hd]
  cases hid : device.id with
  | none => simp
  | some id =>
      rw [deviceLeaves_add, leafPaths_deviceNode, List.mem_append]
      simp

/-- Submitted discrete and text values are never lost, and every leaf is a
submitted value. -/
theorem deviceLoop_submitted
    (h : data.devices.foldlM (deviceStep subJsonRefD) (startLoop p) =
      .ok l') :
    (∀ x ∈ submits plainSubmits data.devices, x ∈ deviceLeaves l'.subJsonD) ∧
      ∀ x ∈ deviceLeaves l'.subJsonD,
        x ∈ submits plainSubmits data.devices ∨
          x ∈ submits analogSubmits data.devices := by
  refine foldlM_invariant
    (P := fun done l =>
      (∀ x ∈ submits plainSubmits done, x ∈ deviceLeaves l.subJsonD) ∧
        ∀ x ∈ deviceLeaves l.subJsonD,
          x ∈ submits plainSubmits done ∨ x ∈ submits analogSubmits done)
    data.devices l' ?_ ?_ h
  · simp [submits, startLoop, deviceLeaves_eq]
  · rintro pre l device m _ ⟨hplain, hsub⟩ hstep
    obtain ⟨t, hloop, hmem⟩ := mem_deviceLeaves_step hstep
    refine ⟨?_, ?_⟩
    · intro x hx
      rw [hmem]
      rcases mem_submits_snoc.mp hx with hx | ⟨id, hid, hx⟩
      · exact .inl (hplain x hx)
      · obtain ⟨rest, hrest, hpath⟩ := Leaves.mem_below.mp hx
        exact .inr ⟨id, hid, Leaves.mem_below.mpr
          ⟨rest, List.mem_append_right _ hrest, hpath⟩⟩
    · intro x hx
      rw [mem_submits_snoc, mem_submits_snoc]
      rcases (hmem x).mp hx with hx | ⟨id, hid, hx⟩
      · exact (hsub x hx).imp .inl .inl
      · obtain ⟨rest, hrest, hpath⟩ := Leaves.mem_below.mp hx
        rcases List.mem_append.mp hrest with hrest | hrest
        · exact .inr (.inr ⟨id, hid, Leaves.mem_below.mpr
            ⟨rest, analogLoop_submitted hloop _ hrest, hpath⟩⟩)
        · exact .inl (.inr ⟨id, hid, Leaves.mem_below.mpr
            ⟨rest, hrest, hpath⟩⟩)

/-- Without a scalar reported at the comparison the nodes of the devices
repeat no key. -/
theorem deviceLoop_distinct (hdata : NoRepeats data)
    (hnot : ∀ l device t tag,
      Reaches subJsonRefD p data.devices l device t tag →
      ¬ ScalarPasses subJsonRefD l device t tag)
    (h : data.devices.foldlM (deviceStep subJsonRefD) (startLoop p) =
      .ok l') : ∀ e ∈ l'.subJsonD, e.2.toJson.KeysDistinct := by
  refine foldlM_invariant
    (P := fun _ l => ∀ e ∈ l.subJsonD, e.2.toJson.KeysDistinct)
    data.devices l' (by simp [startLoop]) ?_ h
  intro pre l device m hvisit hl hstep
  obtain ⟨t, hloop, _, _, _, _, hd⟩ := deviceStep_ok hstep
  have hnodes := analogLoop_distinct (hdata.analog device hvisit.mem)
    (fun pre' t tag hv => hnot l device t tag ⟨⟨pre, hvisit⟩, ⟨pre', hv⟩⟩) hloop
  rw [hd]
  cases hid : device.id with
  | none => simpa using hl
  | some id =>
      intro e he
      rw [addItemToObject_some] at he
      rcases List.mem_append.mp he with he | he
      · exact hl e he
      · rw [List.mem_singleton.mp he]
        exact keysDistinct_deviceNode hdata hvisit.mem hnodes

/-- A turn that reports a scalar at the comparison leaves a device node with a
repeated key. -/
theorem deviceLoop_twice (hcomplete : Complete data)
    (h : data.devices.foldlM (deviceStep subJsonRefD) (startLoop p) =
      .ok l') {t : TagLoop} {tag : AnalogTag}
    (hreach : Reaches subJsonRefD p data.devices l device t tag)
    (hpass : ScalarPasses subJsonRefD l device t tag) :
    ∃ e ∈ l'.subJsonD, ¬ e.2.toJson.KeysDistinct := by
  obtain ⟨pre, hvisit⟩ := hreach.inDevices
  obtain ⟨pre', htag⟩ := hreach.inTags
  obtain ⟨m, post, _, hstep, hpost⟩ := hvisit.completed h
  obtain ⟨u, hloop, _, _, _, _, hd⟩ := deviceStep_ok hstep
  obtain ⟨id, hid⟩ := Option.isSome_iff_exists.mp
    (hcomplete.ids device hvisit.mem)
  obtain ⟨added, hadded, _⟩ := deviceLoop_nodes hpost
  refine ⟨(id, deviceNode device u), ?_, ?_⟩
  · rw [hadded, hd, hid, addItemToObject_some]
    simp
  · intro hkeys
    rw [DeviceNode.toJson, CJson.keysDistinct_object] at hkeys
    refine analogLoop_twice hloop htag hpass ?_
    have hanalog := hkeys.1
    rw [List.map_append, List.map_append, List.append_assoc] at hanalog
    have hfirst := (List.nodup_append.mp hanalog).1
    rw [tagsToJson, List.map_map] at hfirst
    exact hfirst

end DeviceLoop

/-- The elements of an array tag. -/
def sampleElements : List (ArrayTag Rat) :=
  [{ index := 1, value := 5 }, { index := 2, value := 7 }]

end DatahubEdge.Message
