import DatahubEdge.CJson.Print
import DatahubEdge.Message.Locality

/-!
# The strings in a payload

Which strings of a message end up in the payload: the ids, the names of the
discrete and the text tags and the text values in every case, the names of
the analog tags that are reported, and the timestamp.  The other keys of the
payload are `d`, `ts` and printed indices.

## Main results

* `mentions_payload_iff` — the payload mentions an apostrophe exactly when one
  of these strings has one.
-/

namespace DatahubEdge.Message

open Lib Lib.Fold

variable {V : Type}

/-- The strings of the discrete and text tags of a device that are put into
the payload. -/
inductive PlainString (device : EdgeDevice V) : CString → Prop where
  | discrete {tag : DiscreteTag} {name : CString} :
      tag ∈ device.discreteTagList → tag.name = some name →
      PlainString device name
  | text {tag : TextTag} {name : CString} :
      tag ∈ device.textTagList → tag.name = some name →
      tag.isArray = true ∨ tag.value.isSome = true → PlainString device name
  | element {tag : TextTag} {name value : CString}
      {element : ArrayTag (Option CString)} :
      tag ∈ device.textTagList → tag.name = some name → tag.isArray = true →
      element ∈ tag.elements → element.value = some value →
      PlainString device value
  | value {tag : TextTag} {name value : CString} :
      tag ∈ device.textTagList → tag.name = some name → tag.isArray = false →
      tag.value = some value → PlainString device value

section Names

variable [AnalogValue V]

/-- After the turn over a tag `valid` is set: a value of the tag passes, or a
value of an earlier tag of the device has. -/
def SetsValid (subJsonRefDev : Option CJson) (matchPreviousDev : Bool)
    (t : TagLoop V) (tag : AnalogTag V) : Prop :=
  ∃ config, lookupConfig subJsonRefDev t.matchConfig tag.name = .ok config ∧
    validAfter config (lookedUp config matchPreviousDev t tag.name) tag = true

/-- The strings of a message that a call puts into the payload. -/
inductive Carried (pJsonRef : Option CJson) (p : Previous V)
    (data : EdgeData V) (now : CString) : CString → Prop where
  | time {ts : CString} :
      Timestamp.tsMember data.time now = .ok (some ts) →
      Carried pJsonRef p data now ts
  | id {device : EdgeDevice V} {i : CString} :
      device ∈ data.devices → device.id = some i →
      Carried pJsonRef p data now i
  | plain {device : EdgeDevice V} {s : CString} :
      device ∈ data.devices → device.id.isSome = true →
      PlainString device s → Carried pJsonRef p data now s
  | analog {l : DeviceLoop V} {device : EdgeDevice V} {t : TagLoop V}
      {tag : AnalogTag V} {name : CString} :
      Reaches (CJson.getItem pJsonRef (some (cstr "d"))) p data.devices
        l device t tag →
      device.id.isSome = true → tag.name = some name →
      SetsValid
        (CJson.getItem (CJson.getItem pJsonRef (some (cstr "d"))) device.id)
        (knownDevice l.pPrevious device) t tag →
      Carried pJsonRef p data now name

/-! ## The names of the analog nodes -/

/-- A turn adds a node with a name when that is the name of its tag and
`valid` is set. -/
theorem analogStep_names {subJsonRefDev : Option CJson}
    {matchPreviousDev : Bool} {t u : TagLoop V} {tag : AnalogTag V}
    (h : analogStep subJsonRefDev matchPreviousDev t tag = .ok u)
    (name : CString) :
    (∃ x ∈ u.subJsonNodeDev, x.1 = name) ↔
      (∃ x ∈ t.subJsonNodeDev, x.1 = name) ∨
        tag.name = some name ∧
          SetsValid subJsonRefDev matchPreviousDev t tag := by
  cases hname : tag.name with
  | none =>
      obtain ⟨config, rfl⟩ := analogStep_ok_noname hname h
      simp
  | some n =>
      obtain ⟨config, s, hturn⟩ := analogStep_ok hname h
      have hsets : SetsValid subJsonRefDev matchPreviousDev t tag ↔
          validAfter config s tag = true := by
        constructor
        · rintro ⟨config', hload, hvalid⟩
          rw [hname] at hload hvalid
          cases hload.symm.trans hturn.loaded
          rw [hturn.looked]
          exact hvalid
        · intro hvalid
          refine ⟨config, by rw [hname]; exact hturn.loaded, ?_⟩
          rw [hname, ← hturn.looked]
          exact hvalid
      rw [hsets, hturn.nodes, Option.some.injEq, ← named_tagNodes]
      simp only [List.mem_append, or_and_right, exists_or]

/-- The names of the analog nodes of a device. -/
theorem analogLoop_names {subJsonRefD : Option CJson} {l : DeviceLoop V}
    {device : EdgeDevice V} {t : TagLoop V}
    (h : analogLoop subJsonRefD l device = .ok t) (name : CString) :
    (∃ x ∈ t.subJsonNodeDev, x.1 = name) ↔
      ∃ pre s tag, Visits
        (analogStep (CJson.getItem subJsonRefD device.id)
          (knownDevice l.pPrevious device))
        (enterDevice subJsonRefD l device) device.analogTagList pre s tag ∧
        tag.name = some name ∧
        SetsValid (CJson.getItem subJsonRefD device.id)
          (knownDevice l.pPrevious device) s tag := by
  have hoccurs := foldlM_occurs
    (P := fun t : TagLoop V => ∃ x ∈ t.subJsonNodeDev, x.1 = name)
    (fun _ _ _ _ hstep => analogStep_names hstep name) h
  rw [hoccurs]
  simp [enterDevice]

/-- The names of the analog nodes of a call. -/
theorem deviceLoop_names {subJsonRefD : Option CJson} {p : Previous V}
    {devices : List (EdgeDevice V)} {l' : DeviceLoop V}
    (h : devices.foldlM (deviceStep subJsonRefD) (startLoop p) = .ok l')
    (name : CString) :
    (∃ e ∈ l'.subJsonD, ∃ x ∈ e.2.analog, x.1 = name) ↔
      ∃ l device t tag, Reaches subJsonRefD p devices l device t tag ∧
        device.id.isSome = true ∧ tag.name = some name ∧
        SetsValid (CJson.getItem subJsonRefD device.id)
          (knownDevice l.pPrevious device) t tag := by
  have hoccurs := foldlM_occurs
    (P := fun l : DeviceLoop V => ∃ e ∈ l.subJsonD, ∃ x ∈ e.2.analog, x.1 = name)
    (R := fun l device => device.id.isSome = true ∧ ∃ pre t tag, Visits
      (analogStep (CJson.getItem subJsonRefD device.id)
        (knownDevice l.pPrevious device))
      (enterDevice subJsonRefD l device) device.analogTagList pre t tag ∧
      tag.name = some name ∧
      SetsValid (CJson.getItem subJsonRefD device.id)
        (knownDevice l.pPrevious device) t tag) ?_ h
  · rw [hoccurs]
    constructor
    · rintro (⟨e, he, _⟩ | ⟨pre, l, device, hv, hid, tpre, t, tag, ht, hrest⟩)
      · cases he
      · exact ⟨l, device, t, tag, ⟨⟨pre, hv⟩, tpre, ht⟩, hid, hrest⟩
    · rintro ⟨l, device, t, tag, ⟨⟨pre, hv⟩, tpre, ht⟩, hid, hrest⟩
      exact .inr ⟨pre, l, device, hv, hid, tpre, t, tag, ht, hrest⟩
  · intro l device m _ hstep
    obtain ⟨t, hloop, _, _, _, _, hd⟩ := deviceStep_ok hstep
    rw [hd, ← analogLoop_names hloop]
    cases hid : device.id with
    | none => simp
    | some id => simp [deviceNode]

end Names

/-! ## The parts of the tree -/

theorem quote_not_mem_printInt (i : Int) : (39 : UInt8) ∉ printInt i := by
  intro h
  rcases printInt_byte h with h | ⟨h, _⟩
  · exact absurd h (by decide)
  · exact absurd h (by decide)

theorem mentions_tagsToJson {α : Type} {leaf : α → CJson} {c : UInt8}
    {nodes : Obj (TagNode α)} :
    (∃ e ∈ tagsToJson leaf nodes, c ∈ e.1 ∨ e.2.Mentions c) ↔
      ∃ x ∈ nodes, c ∈ x.1 ∨ (x.2.toJson leaf).Mentions c := by
  simp [tagsToJson]

theorem mentions_array {α : Type} {leaf : α → CJson} {c : UInt8}
    {child : Obj α} :
    ((TagNode.array child).toJson leaf).Mentions c ↔
      ∃ e ∈ child, c ∈ e.1 ∨ (leaf e.2).Mentions c := by
  rw [TagNode.toJson, mentions_object]
  simp

theorem not_mentions_analogJson [AnalogValue V] (c : UInt8) (v : V) :
    ¬ (analogJson v).Mentions c := by
  unfold analogJson
  cases AnalogValue.number v with
  | none => exact not_false
  | some q => exact not_false

/-- The values of an analog tag are numbers and nulls under printed
indices. -/
theorem not_mentions_stems [AnalogValue V] {tag : AnalogTag V} {x : CString × TagNode V}
    (h : Stems tag x) : ¬ (x.2.toJson analogJson).Mentions 39 := by
  have hvalues := h.values
  cases hx : x.2 with
  | value v => exact not_mentions_analogJson 39 v
  | array child =>
      rw [mentions_array]
      rintro ⟨e, he, hkey | hleaf⟩
      · rw [hx] at hvalues
        have hmem := hvalues e he
        unfold leaves at hmem
        split at hmem
        · obtain ⟨element, _, rfl⟩ := List.mem_map.mp hmem
          exact quote_not_mem_printInt _ hkey
        · rw [List.mem_singleton.mp hmem] at hkey
          have hzero : (39 : UInt8) ∉ cstr "0" := by decide
          exact hzero hkey
      · exact not_mentions_analogJson 39 e.2 hleaf

/-- The node of a discrete or text tag mentions an apostrophe in its name or
in a value. -/
theorem mentions_plainNode {β α : Type} {item : β → Option α}
    {leaf : α → CJson} {tag : EdgeTag β} :
    (∃ x ∈ plainNode item tag, 39 ∈ x.1 ∨ (x.2.toJson leaf).Mentions 39) ↔
      ∃ name, tag.name = some name ∧
        (tag.isArray = true ∧ (39 ∈ name ∨ ∃ element ∈ tag.elements, ∃ v,
            item element.value = some v ∧ (leaf v).Mentions 39) ∨
          tag.isArray = false ∧ ∃ v, item tag.value = some v ∧
            (39 ∈ name ∨ (leaf v).Mentions 39)) := by
  unfold plainNode
  cases tag.name with
  | none => simp
  | some name =>
      cases harr : tag.isArray with
      | true =>
          have hkey := quote_not_mem_printInt
          have hvalues : (∃ v, (∃ element ∈ tag.elements,
                item element.value = some v) ∧ (leaf v).Mentions 39) ↔
              ∃ element ∈ tag.elements, ∃ v,
                item element.value = some v ∧ (leaf v).Mentions 39 := by
            constructor
            · rintro ⟨v, ⟨element, hmem, hv⟩, h⟩
              exact ⟨element, hmem, v, hv, h⟩
            · rintro ⟨element, hmem, v, hv, h⟩
              exact ⟨v, ⟨element, hmem, hv⟩, h⟩
          simp [mentions_array, hkey, hvalues]
      | false =>
          cases item tag.value with
          | none => simp
          | some v => simp [TagNode.toJson]

theorem exists_mem_flatMap_iff {β α : Type} {f : β → List α} {l : List β}
    {P : α → Prop} :
    (∃ x ∈ l.flatMap f, P x) ↔ ∃ b ∈ l, ∃ x ∈ f b, P x := by
  simp only [List.mem_flatMap]
  constructor
  · rintro ⟨x, ⟨b, hb, hx⟩, hP⟩
    exact ⟨b, hb, x, hx, hP⟩
  · rintro ⟨b, hb, x, hx, hP⟩
    exact ⟨x, ⟨b, hb, hx⟩, hP⟩

/-- The discrete and text nodes of a device mention an apostrophe in its plain
strings. -/
theorem mentions_plain {device : EdgeDevice V} :
    ((∃ x ∈ discreteNodes device,
        39 ∈ x.1 ∨ (x.2.toJson fun v : UInt32 => .number v.toNat).Mentions 39) ∨
      ∃ x ∈ textNodes device,
        39 ∈ x.1 ∨ (x.2.toJson CJson.string).Mentions 39) ↔
      ∃ s, PlainString device s ∧ 39 ∈ s := by
  simp only [discreteNodes, textNodes, exists_mem_flatMap_iff,
    mentions_plainNode, CJson.Mentions, id]
  constructor
  · rintro (⟨tag, htag, name, hname, h⟩ | ⟨tag, htag, name, hname, h⟩)
    · refine ⟨name, .discrete htag hname, ?_⟩
      rcases h with ⟨_, h | ⟨_, _, _, _, h⟩⟩ | ⟨_, _, _, h | h⟩
      · exact h
      · exact h.elim
      · exact h
      · exact h.elim
    · rcases h with ⟨harr, h | ⟨element, hmem, v, hv, h⟩⟩ | ⟨harr, v, hv, h | h⟩
      · exact ⟨name, .text htag hname (.inl harr), h⟩
      · exact ⟨v, .element htag hname harr hmem hv, h⟩
      · exact ⟨name, .text htag hname (.inr (by rw [hv]; rfl)), h⟩
      · exact ⟨v, .value htag hname harr hv, h⟩
  · rintro ⟨s, hs, h⟩
    cases hs with
    | @discrete tag _ htag hname =>
        refine .inl ⟨tag, htag, s, hname, ?_⟩
        cases harr : tag.isArray with
        | true => exact .inl ⟨rfl, .inl h⟩
        | false => exact .inr ⟨rfl, tag.value, rfl, .inl h⟩
    | @text tag _ htag hname hput =>
        refine .inr ⟨tag, htag, s, hname, ?_⟩
        cases harr : tag.isArray with
        | true => exact .inl ⟨rfl, .inl h⟩
        | false =>
            rw [harr] at hput
            obtain ⟨v, hv⟩ := Option.isSome_iff_exists.mp
              (hput.resolve_left Bool.false_ne_true)
            exact .inr ⟨rfl, v, hv, .inl h⟩
    | @element tag name _ element htag hname harr hmem hv =>
        exact .inr ⟨tag, htag, name, hname,
          .inl ⟨harr, .inr ⟨element, hmem, s, hv, h⟩⟩⟩
    | @value tag name _ htag hname harr hv =>
        exact .inr ⟨tag, htag, name, hname, .inr ⟨harr, s, hv, .inr h⟩⟩

/-! ## The payload -/

section Payload

variable [AnalogValue V]

/-- The entry of a device mentions an apostrophe in the names of its analog
nodes or in the plain strings of the device. -/
theorem mentions_entry {device : EdgeDevice V} {e : CString × DeviceNode V}
    (h : Listed device e) :
    e.2.toJson.Mentions 39 ↔
      (∃ x ∈ e.2.analog, 39 ∈ x.1) ∨ ∃ s, PlainString device s ∧ 39 ∈ s := by
  have hanalog : (∃ x ∈ e.2.analog,
      39 ∈ x.1 ∨ (x.2.toJson analogJson).Mentions 39) ↔
        ∃ x ∈ e.2.analog, 39 ∈ x.1 := by
    constructor
    · rintro ⟨x, hx, hkey | hvalue⟩
      · exact ⟨x, hx, hkey⟩
      · obtain ⟨tag, _, hstems⟩ := h.analog x hx
        exact absurd hvalue (not_mentions_stems hstems)
    · rintro ⟨x, hx, hkey⟩
      exact ⟨x, hx, .inl hkey⟩
  rw [DeviceNode.toJson, mentions_object, h.discrete, h.text, ← mentions_plain,
    ← hanalog]
  simp only [List.mem_append, or_and_right, exists_or, mentions_tagsToJson,
    or_assoc]

/-- Every device of the message that has an id has an entry with all its
discrete and text tags. -/
theorem exists_entry_of_device {pJsonRef : Option CJson} {p : Previous V}
    {data : EdgeData V} {l : DeviceLoop V}
    (hloop : deviceLoop pJsonRef p data = .ok l) {device : EdgeDevice V}
    (hdevice : device ∈ data.devices) {i : CString} (hi : device.id = some i) :
    ∃ e ∈ l.subJsonD, e.1 = i ∧ e.2.discrete = discreteNodes device ∧
      e.2.text = textNodes device := by
  have hmem : (i, discreteNodes device, textNodes device) ∈
      plainParts l.subJsonD := by
    rw [deviceLoop_plain hloop]
    apply List.mem_append_right
    apply List.mem_filterMap.mpr
    refine ⟨device, hdevice, ?_⟩
    rw [hi]
    rfl
  obtain ⟨e, he, heq⟩ := List.mem_map.mp hmem
  simp only [Prod.mk.injEq] at heq
  exact ⟨e, he, heq⟩

/-- The apostrophes of a payload are in its entries and in the timestamp. -/
theorem mentions_toJson (payload : Payload V) :
    payload.toJson.Mentions 39 ↔
      (∃ e ∈ payload.d, 39 ∈ e.1 ∨ e.2.toJson.Mentions 39) ∨
        ∃ s, payload.ts = some s ∧ 39 ∈ s := by
  have hkeys : (39 : UInt8) ∉ cstr "d" ∧ (39 : UInt8) ∉ cstr "ts" := by decide
  rw [Payload.toJson, mentions_object]
  cases payload.ts with
  | none => simp [mentions_object, hkeys]
  | some s => simp [mentions_object, mentions_string, hkeys]

/-- The payload mentions an apostrophe exactly when a string of the message
that is put into it has one. -/
theorem mentions_payload_iff {pJsonRef : Option CJson} {now : CString}
    {p : Previous V} {data : EdgeData V} {sent : Sent V}
    (h : sendDataMessage pJsonRef now p data = .ok sent) :
    sent.payload.toJson.Mentions 39 ↔
      ∃ s, Carried pJsonRef p data now s ∧ 39 ∈ s := by
  obtain ⟨l', hloop, hrest⟩ := bind_eq_ok h
  obtain ⟨ts, hts, hsent⟩ := bind_eq_ok hrest
  have hd : sent.payload.d = l'.subJsonD := by cases hsent; rfl
  have hpayload : sent.payload.ts = ts := by cases hsent; rfl
  have hnames := deviceLoop_names hloop
  obtain ⟨added, hadded, hlisted⟩ := deviceLoop_nodes hloop
  have hentries : ∀ e ∈ sent.payload.d,
      ∃ device ∈ data.devices, Listed device e := by
    intro e he
    rw [hd, hadded] at he
    exact hlisted e he
  have hevery : ∀ device ∈ data.devices, ∀ i, device.id = some i →
      ∃ e ∈ sent.payload.d, e.1 = i ∧ e.2.discrete = discreteNodes device ∧
        e.2.text = textNodes device := by
    intro device hdevice i hi
    rw [hd]
    exact exists_entry_of_device hloop hdevice hi
  have htree := mentions_toJson sent.payload
  rw [hpayload] at htree
  rw [htree]
  constructor
  · rintro (⟨e, he, h⟩ | ⟨s, rfl, h⟩)
    · obtain ⟨device, hdevice, hentry⟩ := hentries e he
      rw [mentions_entry hentry] at h
      rcases h with h | ⟨x, hx, h⟩ | ⟨s, hs, h⟩
      · exact ⟨e.1, .id hdevice hentry.id, h⟩
      · rw [hd] at he
        obtain ⟨l, device', t, tag, hreaches, hid, hname, hvalid⟩ :=
          (hnames x.1).mp ⟨e, he, x, hx, rfl⟩
        exact ⟨x.1, .analog hreaches hid hname hvalid, h⟩
      · exact ⟨s, .plain hdevice (by rw [hentry.id]; rfl) hs, h⟩
    · exact ⟨s, .time hts, h⟩
  · rintro ⟨s, hs, h⟩
    cases hs with
    | time hs =>
        have heq := Except.ok.inj (hts.symm.trans hs)
        exact .inr ⟨s, heq, h⟩
    | @id device _ hdevice hi =>
        obtain ⟨e, he, hkey, _⟩ := hevery device hdevice s hi
        exact .inl ⟨e, he, .inl (hkey ▸ h)⟩
    | @plain device _ hdevice hsome hs =>
        obtain ⟨i, hi⟩ := Option.isSome_iff_exists.mp hsome
        obtain ⟨e, he, hkey, hdiscrete, htext⟩ := hevery device hdevice i hi
        refine .inl ⟨e, he, .inr ?_⟩
        have hmention := mentions_plain.mpr ⟨s, hs, h⟩
        rw [DeviceNode.toJson, mentions_object, hdiscrete, htext]
        simp only [List.mem_append, or_and_right, exists_or,
          mentions_tagsToJson, or_assoc]
        exact .inr hmention
    | @analog l device t tag _ hreaches hid hname hvalid =>
        obtain ⟨e, he, x, hx, hkey⟩ := (hnames s).mpr
          ⟨l, device, t, tag, hreaches, hid, hname, hvalid⟩
        rw [← hd] at he
        obtain ⟨device, _, hentry⟩ := hentries e he
        exact .inl ⟨e, he, .inr
          ((mentions_entry hentry).mpr (.inl ⟨x, hx, hkey ▸ h⟩))⟩

end Payload

end DatahubEdge.Message
