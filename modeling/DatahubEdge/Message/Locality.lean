import DatahubEdge.Message.Reports

/-!
# What a call does to one tag of one device

The loops of a call visit many devices and tags, and flags leak from one to
the next; the records and the payload entries do not.  With names that are
distinct ignoring case, all a call does to the record of a tag and to its
entries in the payload happens in the one turn that visits it.

## Main results

* `tagLoop_turn`, `deviceLoop_turn` — the turn that visits a listed tag starts
  from the record the call found and determines the record it leaves and the
  values reported for it.
* `deviceLoop_record_frame`, `deviceLoop_reports_listed` — a tag the call does
  not list keeps its record and is not reported.
-/

namespace DatahubEdge.Message

open Lib Lib.Fold

variable {V : Type}

/-! ## One turn of the analog loop -/

section Step

variable [AnalogValue V] {subJsonRefDev : Option CJson}
  {matchPreviousDev : Bool} {t u : TagLoop V} {tag : AnalogTag V}

/-- A turn over one tag leaves the record of any other name alone. -/
theorem analogStep_frame {n : CString}
    (h : analogStep subJsonRefDev matchPreviousDev t tag = .ok u)
    (hne : ∀ m, tag.name = some m → lower m ≠ lower n) :
    getObjectItem u.subJsonPreDev (some n) =
      getObjectItem t.subJsonPreDev (some n) := by
  cases hname : tag.name with
  | none =>
      obtain ⟨config, rfl⟩ := analogStep_ok_noname hname h
      rw [lookedUp_subJsonPreDev]
  | some m =>
      obtain ⟨config, s, hturn⟩ := analogStep_ok hname h
      rw [hturn.sent, ← hturn.dev]
      exact getObjectItem_devAfter_ne config s tag (hne m hname).symm

omit [AnalogValue V] in
/-- A node of the payload has the name of the tag and values it submits. -/
structure Stems (tag : AnalogTag V) (e : CString × TagNode V) : Prop where
  name : tag.name = some e.1
  values : ∀ leaf ∈ e.2.leaves, leaf ∈ leaves tag

theorem stems_of_mem_tagNodes {name : CString}
    {filter : Option (TagConfig × Pointer (Record V))} {valid : Bool}
    {e : CString × TagNode V} (hname : tag.name = some name)
    (h : e ∈ tagNodes name tag (passing filter tag) valid) : Stems tag e := by
  unfold tagNodes at h
  by_cases harr : tag.isArray = true
  · rw [if_pos harr] at h
    split at h
    · rw [List.mem_singleton.mp h]
      exact ⟨hname, fun leaf hleaf => (mem_leaves_of_mem_passing hleaf).1⟩
    · cases h
  · rw [if_neg harr] at h
    have hleaves : leaves tag = [(cstr "0", tag.value)] := by
      rw [leaves, if_neg harr]
    have hvalue : Stems tag (name, .value tag.value) := by
      refine ⟨hname, ?_⟩
      intro leaf hleaf
      rw [hleaves]
      exact hleaf
    rcases List.mem_append.mp h with h | h
    · obtain ⟨leaf, hpass, rfl⟩ := List.mem_map.mp h
      have hleaf := (mem_leaves_of_mem_passing hpass).1
      rw [hleaves, List.mem_singleton] at hleaf
      rw [hleaf]
      exact hvalue
    · split at h
      · rw [List.mem_singleton.mp h]
        exact hvalue
      · cases h

/-- A turn appends nodes that stem from its tag. -/
theorem analogStep_nodes
    (h : analogStep subJsonRefDev matchPreviousDev t tag = .ok u) :
    ∃ added, u.subJsonNodeDev = t.subJsonNodeDev ++ added ∧
      ∀ e ∈ added, Stems tag e := by
  cases hname : tag.name with
  | none =>
      obtain ⟨config, rfl⟩ := analogStep_ok_noname hname h
      exact ⟨[], by simp, by simp⟩
  | some m =>
      obtain ⟨config, s, hturn⟩ := analogStep_ok hname h
      refine ⟨_, hturn.nodes, ?_⟩
      intro e he
      exact stems_of_mem_tagNodes hname he

omit [AnalogValue V] in
/-- While `valid` is unset nothing has been written since the device was
entered in state `s₀`; once it is set, the device will be committed. -/
structure Pending (s₀ t : TagLoop V) : Prop where
  dev : t.valid = false → t.subJsonPreDev = s₀.subJsonPreDev
  nodes : t.valid = false → t.subJsonNodeDev = s₀.subJsonNodeDev
  ana : t.valid = true → t.anaExist = true

theorem Pending.step {s₀ : TagLoop V} (hp : Pending s₀ t)
    (h : analogStep subJsonRefDev matchPreviousDev t tag = .ok u) :
    Pending s₀ u := by
  cases hname : tag.name with
  | none =>
      obtain ⟨config, rfl⟩ := analogStep_ok_noname hname h
      refine ⟨?_, ?_, ?_⟩
      · simpa using hp.dev
      · simpa using hp.nodes
      · simp
  | some m =>
      obtain ⟨config, s, hturn⟩ := analogStep_ok hname h
      refine ⟨?_, ?_, ?_⟩
      · intro hv
        rw [hturn.valid_after] at hv
        have hold := (passing_of_not_validAfter hv).1
        rw [hturn.valid] at hold
        rw [hturn.dev_after, ← hp.dev hold, ← hturn.dev]
        simp [devAfter, hv]
      · intro hv
        rw [hturn.valid_after] at hv
        obtain ⟨hold, hpass⟩ := passing_of_not_validAfter hv
        rw [hturn.valid] at hold
        rw [hturn.nodes, hp.nodes hold, hv, hpass]
        simp [tagNodes]
      · intro _
        rw [hturn.sent, sentTag, hturn.looked, lookedUp_anaExist]

end Step

/-! ## The analog loop of a device -/

section TagLoop

variable [AnalogValue V] {subJsonRefDev : Option CJson}
  {matchPreviousDev : Bool} {s₀ s' : TagLoop V} {tags : List (AnalogTag V)}

theorem tagLoop_pending (hv : s₀.valid = false)
    (h : tags.foldlM (analogStep subJsonRefDev matchPreviousDev) s₀ = .ok s') :
    Pending s₀ s' := by
  refine foldlM_invariant (P := fun _ t => Pending s₀ t) tags s' ?_ ?_ h
  · exact ⟨fun _ => rfl, fun _ => rfl, fun h => by rw [hv] at h; cases h⟩
  · intro pre t tag u _ hp hstep
    exact hp.step hstep

/-- A run over tags with other names leaves a record alone. -/
theorem tagLoop_frame {n : CString}
    (hne : ∀ tag ∈ tags, ∀ m, tag.name = some m → lower m ≠ lower n)
    (h : tags.foldlM (analogStep subJsonRefDev matchPreviousDev) s₀ = .ok s') :
    getObjectItem s'.subJsonPreDev (some n) =
      getObjectItem s₀.subJsonPreDev (some n) :=
  foldlM_keeps (fun t : TagLoop V => getObjectItem t.subJsonPreDev (some n))
    (fun _ tag _ htag hstep => analogStep_frame hstep (hne tag htag)) h

/-- A run appends nodes that stem from its tags. -/
theorem tagLoop_nodes
    (h : tags.foldlM (analogStep subJsonRefDev matchPreviousDev) s₀ = .ok s') :
    ∃ added, s'.subJsonNodeDev = s₀.subJsonNodeDev ++ added ∧
      ∀ e ∈ added, ∃ tag ∈ tags, Stems tag e :=
  foldlM_appends TagLoop.subJsonNodeDev Stems
    (fun _ _ _ _ hstep => analogStep_nodes hstep) h

/-- The turn that visits a tag whose name no other tag of the device has. -/
theorem tagLoop_turn {tag : AnalogTag V} {name : CString}
    (hdist : Distinct (tags.map EdgeTag.name)) (htag : tag ∈ tags)
    (hname : tag.name = some name) (hnodes : s₀.subJsonNodeDev = [])
    (h : tags.foldlM (analogStep subJsonRefDev matchPreviousDev) s₀ = .ok s') :
    ∃ pre t u config s,
      Visits (analogStep subJsonRefDev matchPreviousDev) s₀ tags pre t tag ∧
      Turn subJsonRefDev matchPreviousDev t tag name config s u ∧
      getObjectItem t.subJsonPreDev (some name) =
        getObjectItem s₀.subJsonPreDev (some name) ∧
      getObjectItem s'.subJsonPreDev (some name) =
        getObjectItem u.subJsonPreDev (some name) ∧
      ∀ idx v, (∃ node, (name, node) ∈ s'.subJsonNodeDev ∧
          (idx, v) ∈ node.leaves) ↔ (idx, v) ∈ turnReports config s tag := by
  obtain ⟨pre, post, rfl⟩ := List.append_of_mem htag
  have hne := hdist.ne hname
  obtain ⟨t, hpre, hrest⟩ := foldlM_append_eq_ok h
  obtain ⟨u, hstep, hpost⟩ := foldlM_cons_eq_ok hrest
  obtain ⟨config, s, hturn⟩ := analogStep_ok hname hstep
  refine ⟨pre, t, u, config, s, ⟨⟨post, rfl⟩, hpre⟩, hturn, ?_, ?_, ?_⟩
  · exact tagLoop_frame (fun b hb => hne b (List.mem_append_left _ hb)) hpre
  · exact tagLoop_frame (fun b hb => hne b (List.mem_append_right _ hb)) hpost
  · intro idx v
    obtain ⟨before, hbefore, hbefore'⟩ := tagLoop_nodes hpre
    obtain ⟨after, hafter, hafter'⟩ := tagLoop_nodes hpost
    rw [hnodes, List.nil_append] at hbefore
    rw [hafter, hturn.nodes, hbefore]
    rw [← mem_tagNodes_leaves]
    constructor
    · rintro ⟨node, hmem, hleaf⟩
      rw [List.append_assoc, List.mem_append, List.mem_append] at hmem
      rcases hmem with hmem | hmem | hmem
      · obtain ⟨b, hb, hstems⟩ := hbefore' _ hmem
        exact absurd rfl (hne b (List.mem_append_left _ hb) name hstems.name)
      · exact ⟨node, hmem, hleaf⟩
      · obtain ⟨b, hb, hstems⟩ := hafter' _ hmem
        exact absurd rfl (hne b (List.mem_append_right _ hb) name hstems.name)
    · rintro ⟨node, hmem, hleaf⟩
      exact ⟨node, by simp [hmem], hleaf⟩

end TagLoop

/-! ## The discrete and the text loop -/

section Plain

variable {β α : Type} (item : β → Option α)

/-- The node a tag of the discrete or the text list adds. -/
def plainNode (tag : EdgeTag β) : Obj (TagNode α) :=
  match tag.name with
  | none => []
  | some name =>
      if tag.isArray then
        [(name, .array (tag.elements.filterMap fun element =>
          (item element.value).map fun v => (printInt element.index, v)))]
      else ((item tag.value).map fun v => (name, TagNode.value v)).toList

theorem elementLoop_eq (elements : List (ArrayTag β)) (o : Obj α) :
    elements.foldl (fun o element =>
        match item element.value with
        | none => o
        | some v => addItemToObject o (some (printInt element.index)) v) o =
      o ++ elements.filterMap fun element =>
        (item element.value).map fun v => (printInt element.index, v) := by
  induction elements generalizing o with
  | nil => simp
  | cons element elements ih =>
      rw [List.foldl_cons, ih]
      cases h : item element.value with
      | none => simp [h]
      | some v => simp [h]

theorem plainStep_snd (s : Bool × Obj (TagNode α)) (tag : EdgeTag β) :
    (plainStep item s tag).2 = s.2 ++ plainNode item tag := by
  unfold plainStep plainNode
  cases tag.name with
  | none => simp
  | some name =>
      dsimp only
      split
      · exact congrArg (fun child => s.2 ++ [(name, TagNode.array child)])
          (elementLoop_eq item tag.elements [])
      · cases item tag.value with
        | none => simp
        | some v => rfl

/-- The loop appends the nodes of its tags, whatever `data_exist` is. -/
theorem plainLoop_snd (tags : List (EdgeTag β)) (s : Bool × Obj (TagNode α)) :
    (tags.foldl (plainStep item) s).2 = s.2 ++ tags.flatMap (plainNode item) := by
  induction tags generalizing s with
  | nil => simp
  | cons tag tags ih =>
      rw [List.foldl_cons, ih, plainStep_snd, List.flatMap_cons,
        List.append_assoc]

end Plain

/-- The nodes of the discrete tags of a device. -/
def discreteNodes (device : EdgeDevice V) : Obj (TagNode UInt32) :=
  device.discreteTagList.flatMap (plainNode some)

/-- The nodes of the text tags of a device. -/
def textNodes (device : EdgeDevice V) : Obj (TagNode CString) :=
  device.textTagList.flatMap (plainNode id)

/-- The node of a device in the payload. -/
def deviceNode (device : EdgeDevice V) (t : TagLoop V) : DeviceNode V where
  analog := t.subJsonNodeDev
  discrete := discreteNodes device
  text := textNodes device

/-! ## One turn of the device loop -/

section DeviceStep

variable [AnalogValue V] {subJsonRefD : Option CJson} {l m : DeviceLoop V}
  {device : EdgeDevice V}

omit [AnalogValue V] in
theorem getObjectItem_of_unknown {p : Previous V}
    (h : knownDevice p device = false) : getObjectItem p device.id = none := by
  rw [knownDevice, Option.isSome_eq_false_iff, Option.isNone_iff_eq_none] at h
  exact h

omit [AnalogValue V] in
/-- A new device starts with an empty object. -/
theorem enterDevice_of_unknown (h : knownDevice l.pPrevious device = false) :
    (enterDevice subJsonRefD l device).subJsonPreDev = [] := by
  rw [enterDevice, getObjectItem_of_unknown h]
  rfl

/-- A turn of the device loop runs the analog loop and commits its result. -/
theorem deviceStep_ok (h : deviceStep subJsonRefD l device = .ok m) :
    ∃ t, analogLoop subJsonRefD l device = .ok t ∧
      m.pPrevious = commitDevice l.pPrevious device t ∧
      m.anaExist = t.anaExist ∧
      m.matchPreviousTag = t.matchPreviousTag ∧
      m.subJsonPreTag = t.subJsonPreTag ∧
      m.subJsonD =
        addItemToObject l.subJsonD device.id (deviceNode device t) := by
  obtain ⟨t, hloop, ht⟩ := bind_eq_ok h
  have hdiscrete := plainLoop_snd some device.discreteTagList (t.dataExist, [])
  have htext := plainLoop_snd id device.textTagList
    ((device.discreteTagList.foldl discreteStep (t.dataExist, [])).1, [])
  cases ht
  refine ⟨t, hloop, rfl, rfl, rfl, rfl, ?_⟩
  exact congrArg₂ (fun d x => addItemToObject l.subJsonD device.id
    { analog := t.subJsonNodeDev, discrete := d, text := x }) hdiscrete htext

omit [AnalogValue V] in
/-- A commit leaves the entry of any other device alone. -/
theorem getObjectItem_commitDevice_ne {p : Previous V} {t : TagLoop V}
    {id : CString} (hne : ∀ i, device.id = some i → lower i ≠ lower id) :
    getObjectItem (commitDevice p device t) (some id) =
      getObjectItem p (some id) := by
  unfold commitDevice
  cases hid : device.id with
  | none => simp
  | some i =>
      have hi := (hne i hid).symm
      split
      · split
        · rw [replaceItemInObject_some, getObjectItem_some, getObjectItem_some]
          exact KeyedList.get_replace_ne hi _ _
        · rw [addItemToObject_some, getObjectItem_some, getObjectItem_some]
          exact KeyedList.get_append_ne hi _ _
      · rfl

omit [AnalogValue V] in
/-- A commit that is made puts the device object under the id of the
device. -/
theorem getObjectItem_commitDevice_self {p : Previous V} {t : TagLoop V}
    {id : CString} (hid : device.id = some id) (hana : t.anaExist = true)
    (hv : t.valid = true) :
    getObjectItem (commitDevice p device t) (some id) =
      some t.subJsonPreDev := by
  unfold commitDevice knownDevice
  rw [hana, hv, hid]
  simp only [Bool.and_self, if_true]
  cases hget : getObjectItem p (some id) with
  | none =>
      rw [getObjectItem_some] at hget
      simp only [Option.isSome_none, Bool.false_eq_true, if_false]
      rw [addItemToObject_some, getObjectItem_some]
      exact KeyedList.get_append_self _ _ hget
  | some dev =>
      rw [getObjectItem_some] at hget
      simp only [Option.isSome_some, if_true]
      rw [replaceItemInObject_some, getObjectItem_some]
      exact KeyedList.get_replace_self _ (by rw [hget]; rfl)

/-- After the commit the records of the device are those of the device object
the analog loop leaves, whether or not `valid` was set. -/
theorem record_commitDevice {t : TagLoop V} {id : CString}
    (hid : device.id = some id)
    (hloop : analogLoop subJsonRefD l device = .ok t) (name : CString) :
    record (commitDevice l.pPrevious device t) id name =
      getObjectItem t.subJsonPreDev (some name) := by
  have hp := tagLoop_pending rfl hloop
  cases hv : t.valid with
  | true =>
      rw [record, getObjectItem_commitDevice_self hid (hp.ana hv) hv]
      rfl
  | false =>
      have hsame : commitDevice l.pPrevious device t = l.pPrevious := by
        simp [commitDevice, hv]
      rw [hsame, record_eq_getD, hp.dev hv, enterDevice, hid]

theorem deviceStep_frame {id : CString}
    (h : deviceStep subJsonRefD l device = .ok m)
    (hne : ∀ i, device.id = some i → lower i ≠ lower id) :
    getObjectItem m.pPrevious (some id) =
      getObjectItem l.pPrevious (some id) := by
  obtain ⟨t, _, hprev, _⟩ := deviceStep_ok h
  rw [hprev]
  exact getObjectItem_commitDevice_ne hne

/-- A record changes only in a turn over a device and a tag that agree with
its names ignoring case. -/
theorem deviceStep_record_frame {id name : CString}
    (h : deviceStep subJsonRefD l device = .ok m)
    (hne : ∀ i, device.id = some i → lower i = lower id →
      ∀ tag ∈ device.analogTagList, ∀ n, tag.name = some n →
        lower n ≠ lower name) :
    record m.pPrevious id name = record l.pPrevious id name := by
  obtain ⟨t, hloop, hprev, _⟩ := deviceStep_ok h
  by_cases hlisted : ∃ i, device.id = some i ∧ lower i = lower id
  · obtain ⟨i, hid, hi⟩ := hlisted
    rw [record_congr hi.symm, record_congr hi.symm, hprev,
      record_commitDevice hid hloop,
      tagLoop_frame (hne i hid hi) hloop, record_eq_getD, enterDevice, hid]
  · have hother : ∀ i, device.id = some i → lower i ≠ lower id :=
      fun i hid hi => hlisted ⟨i, hid, hi⟩
    rw [record, record, deviceStep_frame h hother]

omit [AnalogValue V] in
/-- The payload entry `e` has the id of `device`, its analog nodes stem from
its tags, and the other ones are those of the device. -/
structure Listed (device : EdgeDevice V) (e : CString × DeviceNode V) :
    Prop where
  id : device.id = some e.1
  analog : ∀ x ∈ e.2.analog, ∃ tag ∈ device.analogTagList, Stems tag x
  discrete : e.2.discrete = discreteNodes device
  text : e.2.text = textNodes device

/-- A turn appends the entry of its device. -/
theorem deviceStep_nodes (h : deviceStep subJsonRefD l device = .ok m) :
    ∃ added, m.subJsonD = l.subJsonD ++ added ∧
      ∀ e ∈ added, Listed device e := by
  obtain ⟨t, hloop, _, _, _, _, hd⟩ := deviceStep_ok h
  rw [hd]
  cases hid : device.id with
  | none => exact ⟨[], by simp, by simp⟩
  | some id =>
      refine ⟨_, rfl, ?_⟩
      intro e he
      rw [List.mem_singleton.mp he]
      obtain ⟨added, hadded, hstems⟩ := tagLoop_nodes hloop
      refine ⟨hid, ?_, rfl, rfl⟩
      intro x hx
      rw [deviceNode, hadded] at hx
      exact hstems x hx

end DeviceStep

/-! ## The device loop of a call -/

section DeviceLoop

variable [AnalogValue V] {subJsonRefD : Option CJson} {l l' : DeviceLoop V}
  {devices : List (EdgeDevice V)}

/-- A run over devices with other ids leaves the entry of a device alone. -/
theorem deviceLoop_frame {id : CString}
    (hne : ∀ device ∈ devices, ∀ i, device.id = some i → lower i ≠ lower id)
    (h : devices.foldlM (deviceStep subJsonRefD) l = .ok l') :
    getObjectItem l'.pPrevious (some id) =
      getObjectItem l.pPrevious (some id) :=
  foldlM_keeps (fun l : DeviceLoop V => getObjectItem l.pPrevious (some id))
    (fun _ device _ hd hstep => deviceStep_frame hstep (hne device hd)) h

theorem deviceLoop_nodes
    (h : devices.foldlM (deviceStep subJsonRefD) l = .ok l') :
    ∃ added, l'.subJsonD = l.subJsonD ++ added ∧
      ∀ e ∈ added, ∃ device ∈ devices, Listed device e :=
  foldlM_appends DeviceLoop.subJsonD Listed
    (fun _ _ _ _ hstep => deviceStep_nodes hstep) h

omit [AnalogValue V] in
/-- The discrete and text nodes under `d`, with the ids. -/
def plainParts (d : Obj (DeviceNode V)) :
    List (CString × Obj (TagNode UInt32) × Obj (TagNode CString)) :=
  d.map fun e => (e.1, e.2.discrete, e.2.text)

/-- Every device with an id has an entry under `d`, in order, whose discrete
and text nodes depend on the device alone. -/
theorem deviceLoop_plain
    (h : devices.foldlM (deviceStep subJsonRefD) l = .ok l') :
    plainParts l'.subJsonD = plainParts l.subJsonD ++
      devices.filterMap fun device => device.id.map fun id =>
        (id, discreteNodes device, textNodes device) := by
  refine foldlM_invariant
    (P := fun done s => plainParts s.subJsonD = plainParts l.subJsonD ++
      done.filterMap fun device => device.id.map fun id =>
        (id, discreteNodes device, textNodes device)) devices l' ?_ ?_ h
  · simp
  · intro pre s device u _ hs hstep
    obtain ⟨t, _, _, _, _, _, hd⟩ := deviceStep_ok hstep
    rw [hd, List.filterMap_append, ← List.append_assoc, ← hs]
    cases hid : device.id with
    | none => simp [hid]
    | some id => simp [plainParts, deviceNode, hid]

/-- A record no listed tag agrees with is not touched. -/
theorem deviceLoop_record_frame {id name : CString}
    (hne : ∀ device ∈ devices, ∀ i, device.id = some i → lower i = lower id →
      ∀ tag ∈ device.analogTagList, ∀ n, tag.name = some n →
        lower n ≠ lower name)
    (h : devices.foldlM (deviceStep subJsonRefD) l = .ok l') :
    record l'.pPrevious id name = record l.pPrevious id name :=
  foldlM_keeps (fun l : DeviceLoop V => record l.pPrevious id name)
    (fun _ device _ hd hstep => deviceStep_record_frame hstep (hne device hd))
    h

/-- What a call reports is listed. -/
theorem deviceLoop_reports_listed {p : Previous V} {id name idx : CString}
    {v : V} (h : devices.foldlM (deviceStep subJsonRefD) (startLoop p) =
      .ok l')
    (hv : ((id, name, idx), v) ∈ reports l'.subJsonD) :
    ∃ device ∈ devices, device.id = some id ∧
      ∃ tag ∈ device.analogTagList, tag.name = some name := by
  obtain ⟨added, hadded, hlisted⟩ := deviceLoop_nodes h
  obtain ⟨e, he, x, hx, _⟩ := mem_reports.mp hv
  rw [hadded] at he
  obtain ⟨device, hdevice, hentry⟩ := hlisted _ he
  obtain ⟨tag, htag, hstems⟩ := hentry.analog _ hx
  exact ⟨device, hdevice, hentry.id, tag, htag, hstems.name⟩

/-- The loops of a call reach the turn over `tag` of `device` with the device
loop variables `l` and the analog loop variables `t`. -/
structure Reaches (subJsonRefD : Option CJson) (pPrevious : Previous V)
    (devices : List (EdgeDevice V)) (l : DeviceLoop V) (device : EdgeDevice V)
    (t : TagLoop V) (tag : AnalogTag V) : Prop where
  inDevices : ∃ pre, Visits (deviceStep subJsonRefD) (startLoop pPrevious)
    devices pre l device
  inTags : ∃ pre, Visits
    (analogStep (CJson.getItem subJsonRefD device.id)
      (knownDevice l.pPrevious device))
    (enterDevice subJsonRefD l device) device.analogTagList pre t tag

/-- What a call does to a listed tag, seen from the turn that visits it. -/
structure CallTurn (subJsonRefD : Option CJson) (p : Previous V)
    (devices : List (EdgeDevice V)) (l' : DeviceLoop V) (device : EdgeDevice V)
    (id : CString) (tag : AnalogTag V) (name : CString) (l : DeviceLoop V)
    (t : TagLoop V) (config : Option TagConfig) (s : TagLoop V) : Prop where
  reaches : Reaches subJsonRefD p devices l device t tag
  known : knownDevice l.pPrevious device = knownDevice p device
  turn : ∃ u, Turn (CJson.getItem subJsonRefD (some id))
    (knownDevice p device) t tag name config s u
  before : getObjectItem s.subJsonPreDev (some name) = record p id name
  after : record l'.pPrevious id name =
    getObjectItem (devAfter config s name tag) (some name)
  reported : ∀ idx v, ((id, name, idx), v) ∈ reports l'.subJsonD ↔
    (idx, v) ∈ turnReports config s tag

/-- The turn of a call that visits a listed tag. -/
theorem deviceLoop_turn {p : Previous V} {device : EdgeDevice V} {id : CString}
    {tag : AnalogTag V} {name : CString}
    (hids : Distinct (devices.map EdgeDevice.id)) (hdevice : device ∈ devices)
    (hid : device.id = some id)
    (hnames : Distinct (device.analogTagList.map EdgeTag.name))
    (htag : tag ∈ device.analogTagList) (hname : tag.name = some name)
    (h : devices.foldlM (deviceStep subJsonRefD) (startLoop p) = .ok l') :
    ∃ l t config s, CallTurn subJsonRefD p devices l' device id tag name
      l t config s := by
  obtain ⟨pre, post, rfl⟩ := List.append_of_mem hdevice
  have hne := hids.ne hid
  obtain ⟨l, hpre, hrest⟩ := foldlM_append_eq_ok h
  obtain ⟨m, hstep, hpost⟩ := foldlM_cons_eq_ok hrest
  obtain ⟨t', hloop, hprev, _, _, _, hd⟩ := deviceStep_ok hstep
  obtain ⟨tpre, t, u, config, s, hvisit, hturn, hbefore, hafter, hnodes⟩ :=
    tagLoop_turn hnames htag hname rfl hloop
  have hentry : getObjectItem l.pPrevious (some id) =
      getObjectItem p (some id) :=
    deviceLoop_frame (fun b hb => hne b (List.mem_append_left _ hb)) hpre
  have hknown : knownDevice l.pPrevious device = knownDevice p device := by
    rw [knownDevice, knownDevice, hid, hentry]
  refine ⟨l, t, config, s, ⟨⟨pre, ⟨post, rfl⟩, hpre⟩, tpre, hvisit⟩, hknown,
    ⟨u, ?_⟩, ?_, ?_, ?_⟩
  · rw [← hknown, ← hid]
    exact hturn
  · rw [hturn.dev, hbefore, record_eq_getD, ← hentry, enterDevice, hid]
  · have hrec : record l'.pPrevious id name = record m.pPrevious id name := by
      rw [record, record,
        deviceLoop_frame (fun b hb => hne b (List.mem_append_right _ hb)) hpost]
    rw [hrec, hprev, record_commitDevice hid hloop, hafter,
      hturn.dev_after]
  · intro idx v
    obtain ⟨before, hb, hb'⟩ := deviceLoop_nodes hpre
    obtain ⟨after, ha, ha'⟩ := deviceLoop_nodes hpost
    have hd' : l'.subJsonD =
        before ++ ([(id, deviceNode device t')] ++ after) := by
      rw [ha, hd, hb, hid, addItemToObject_some, List.append_assoc,
        List.append_assoc]
      rfl
    rw [mem_reports, ← hnodes]
    constructor
    · rintro ⟨node, hmem, hleaf⟩
      rw [hd', List.mem_append, List.mem_append] at hmem
      rcases hmem with hmem | hmem | hmem
      · obtain ⟨b, hbm, hentry⟩ := hb' _ hmem
        exact absurd rfl (hne b (List.mem_append_left _ hbm) id hentry.id)
      · rw [List.mem_singleton, Prod.mk.injEq] at hmem
        rw [hmem.2] at hleaf
        exact hleaf
      · obtain ⟨b, hbm, hentry⟩ := ha' _ hmem
        exact absurd rfl (hne b (List.mem_append_right _ hbm) id hentry.id)
    · intro hleaf
      refine ⟨deviceNode device t', ?_, hleaf⟩
      rw [hd', List.mem_append, List.mem_append]
      exact .inr (.inl (List.mem_singleton_self _))

end DeviceLoop

end DatahubEdge.Message
