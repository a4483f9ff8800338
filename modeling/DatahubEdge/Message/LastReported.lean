import DatahubEdge.Message.Tracking

/-!
# `pPrevious` as the map of last reports

`pPrevious` is meant to hold, for every device, tag and index, the value last
put into a payload, and nothing else.  A call updates it by replacing whole
records, so an index that does not pass is lost with the old record, and by
flags that may belong to another device.

## Main results

* `shape_run` — `pPrevious` never has two entries for one name.
* `last_reported` — `pPrevious` is the map of last reports throughout a run in
  which every rewritten record keeps its indices and no flag is left over.
-/

namespace DatahubEdge.Message

open Lib Lib.Fold Lib.Latest
open Lib.KeyedList (KeysUnique)

/-! ## Unique names -/

/-- No two records of a device object agree in their names, and the names are
those of `listed`. -/
structure DevShape (listed : CString → Prop) (dev : Obj Record) : Prop where
  unique : KeysUnique lower dev
  names : ∀ e ∈ dev, listed e.1

theorem DevShape.nil (listed : CString → Prop) : DevShape listed [] :=
  ⟨KeysUnique.nil, by simp⟩

theorem DevShape.devAfter {listed : CString → Prop}
    {config : Option TagConfig} {s : TagLoop} {name : CString}
    {tag : AnalogTag} (h : DevShape listed s.subJsonPreDev)
    (hname : listed name)
    (hnone : s.matchPreviousTag = false →
      getObjectItem s.subJsonPreDev (some name) = none) :
    DevShape listed (devAfter config s name tag) := by
  unfold Message.devAfter
  split
  · split
    · rw [replaceItemInObject_some]
      refine ⟨h.unique.replace _ _, ?_⟩
      intro e he
      rcases KeyedList.mem_replace he with rfl | he
      · exact hname
      · exact h.names e he
    · rename_i hm
      rw [Bool.not_eq_true] at hm
      have hget := hnone hm
      rw [getObjectItem_some] at hget
      rw [addItemToObject_some]
      refine ⟨h.unique.append _ hget, ?_⟩
      intro e he
      rcases List.mem_append.mp he with he | he
      · exact h.names e he
      · rw [List.mem_singleton.mp he]
        exact hname
  · exact h

/-- The analog loop of a device with distinct tag names keeps the names of its
device object distinct. -/
theorem tagLoop_shape {listed : CString → Prop} {subJsonRefDev : Option CJson}
    {matchPreviousDev : Bool} {s₀ s' : TagLoop} {tags : List AnalogTag}
    (hdist : Distinct (tags.map EdgeTag.name))
    (hlisted : ∀ tag ∈ tags, ∀ n, tag.name = some n → listed n)
    (hdev : DevShape listed s₀.subJsonPreDev)
    (hunknown : matchPreviousDev = false → s₀.subJsonPreDev = [])
    (h : tags.foldlM (analogStep subJsonRefDev matchPreviousDev) s₀ = .ok s') :
    DevShape listed s'.subJsonPreDev := by
  refine foldlM_invariant (P := fun _ t => DevShape listed t.subJsonPreDev)
    tags s' hdev ?_ h
  intro pre t tag u hvisit ht hstep
  cases hname : tag.name with
  | none =>
      obtain ⟨config, rfl⟩ := analogStep_ok_noname hname hstep
      rw [lookedUp_subJsonPreDev]
      exact ht
  | some name =>
      obtain ⟨config, s, hturn⟩ := analogStep_ok hname hstep
      rw [hturn.sent]
      rw [← hturn.dev] at ht
      refine ht.devAfter (hlisted tag hvisit.mem name hname) ?_
      intro hm
      cases hk : matchPreviousDev with
      | true =>
          rw [hturn.looked, hk, lookedUp_matchPreviousTag_known] at hm
          rw [hturn.dev]
          exact Option.isNone_iff_eq_none.mp
            (Option.isSome_eq_false_iff.mp hm)
      | false =>
          -- no earlier tag of the device has the name
          obtain ⟨post, hsplit⟩ := hvisit.split
          rw [hsplit] at hdist
          have hne := hdist.ne hname
          rw [hturn.dev, tagLoop_frame
            (fun b hb => hne b (List.mem_append_left _ hb)) hvisit.reach,
            hunknown hk]
          rfl

/-- The entries of `pPrevious` carry ids and names listed in the run, each at
most once. -/
structure Shape (calls : List Call) (p : Previous) : Prop where
  unique : KeysUnique lower p
  ids : ∀ e ∈ p, ∃ c ∈ calls, ∃ device ∈ c.data.devices, device.id = some e.1
  devs : ∀ e ∈ p, DevShape (fun n => ∃ c ∈ calls, c.Lists e.1 n) e.2

theorem Shape.deviceStep {calls : List Call} (hnames : NamesDistinct calls)
    {c : Call} (hc : c ∈ calls) {device : EdgeDevice}
    (hdevice : device ∈ c.data.devices) {l m : DeviceLoop}
    (h : Shape calls l.pPrevious)
    (hstep : Message.deviceStep c.refD l device = .ok m) :
    Shape calls m.pPrevious := by
  obtain ⟨t, hloop, hprev, _⟩ := deviceStep_ok hstep
  rw [hprev]
  unfold commitDevice
  split
  · cases hid : device.id with
    | none => simpa using h
    | some id =>
        have hentry : DevShape (fun n => ∃ c ∈ calls, c.Lists id n)
            (enterDevice c.refD l device).subJsonPreDev := by
          simp only [enterDevice, hid]
          cases hget : getObjectItem l.pPrevious (some id) with
          | none => exact DevShape.nil _
          | some dev =>
              rw [getObjectItem_some] at hget
              obtain ⟨i, hi, hmem⟩ := KeyedList.exists_mem_of_get hget
              obtain ⟨c', hc', device', hdevice', hid'⟩ := h.ids _ hmem
              have : id = i := hnames.sameId c hc c' hc' device hdevice
                device' hdevice' id i hid hid' hi
              rw [this]
              exact h.devs _ hmem
        have hdev := tagLoop_shape (hnames.tags c hc device hdevice)
          (fun tag htag n hn => ⟨c, hc, device, hdevice, hid, tag, htag, hn⟩)
          hentry enterDevice_of_unknown hloop
        have hlisted : ∃ c ∈ calls, ∃ device ∈ c.data.devices,
            device.id = some id := ⟨c, hc, device, hdevice, hid⟩
        split
        · rw [replaceItemInObject_some]
          refine ⟨h.unique.replace _ _, ?_, ?_⟩
          · intro e he
            rcases KeyedList.mem_replace he with rfl | he
            · exact hlisted
            · exact h.ids e he
          · intro e he
            rcases KeyedList.mem_replace he with rfl | he
            · exact hdev
            · exact h.devs e he
        · rename_i hk
          have hk := getObjectItem_of_unknown (Bool.not_eq_true _ ▸ hk)
          rw [hid, getObjectItem_some] at hk
          rw [addItemToObject_some]
          refine ⟨h.unique.append _ hk, ?_, ?_⟩
          · intro e he
            rcases List.mem_append.mp he with he | he
            · exact h.ids e he
            · rw [List.mem_singleton.mp he]
              exact hlisted
          · intro e he
            rcases List.mem_append.mp he with he | he
            · exact h.devs e he
            · rw [List.mem_singleton.mp he]
              exact hdev
  · exact h

/-- Throughout a run with distinct names `pPrevious` has unique names. -/
theorem shape_run {calls : List Call} (hnames : NamesDistinct calls)
    {pre : List Call} {σ : Session} (hpre : pre <+: calls)
    (hrun : pre.foldlM callStep start = .ok σ) : Shape calls σ.pPrevious := by
  obtain ⟨post, rfl⟩ := hpre
  have hinit : Shape (pre ++ post) start.pPrevious :=
    ⟨KeysUnique.nil, by simp [start, initPrevious],
      by simp [start, initPrevious]⟩
  refine foldlM_invariant (P := fun _ σ => Shape (pre ++ post) σ.pPrevious)
    pre σ hinit ?_ hrun
  intro done σ c σ' hvisit hσ hstep
  have hc : c ∈ pre ++ post := List.mem_append_left _ hvisit.mem
  obtain ⟨l', hloop, hprev, _⟩ := callStep_ok hstep
  rw [hprev]
  refine foldlM_invariant (P := fun _ l => Shape (pre ++ post) l.pPrevious)
    c.data.devices l' hσ ?_ hloop
  intro _ l device m hv hl hm
  exact hl.deviceStep hnames hc hv.mem hm

/-- With unique names the retained values are those the lookups find. -/
theorem Shape.mem_retained {calls : List Call} (hnames : NamesDistinct calls)
    {p : Previous} (h : Shape calls p) {c₀ : Call} (hc₀ : c₀ ∈ calls)
    {id name : CString} (hlists : c₀.Lists id name) {idx : CString} {v : Rat} :
    ((id, name, idx), v) ∈ retained p ↔
      ∃ r, record p id name = some r ∧ (idx, v) ∈ r := by
  rw [Message.mem_retained]
  constructor
  · rintro ⟨dev, hdev, r, hr, hleaf⟩
    refine ⟨r, ?_, hleaf⟩
    have hget := h.unique.get_of_mem hdev
    have hget' := (h.devs _ hdev).unique.get_of_mem hr
    rw [record, getObjectItem_some, hget, Option.bind_some,
      getObjectItem_some, hget']
  · rintro ⟨r, hr, hleaf⟩
    obtain ⟨dev, hdev, hr⟩ := Option.bind_eq_some_iff.mp hr
    rw [getObjectItem_some] at hdev hr
    obtain ⟨i, hi, hmem⟩ := KeyedList.exists_mem_of_get hdev
    obtain ⟨n, hn, hmem'⟩ := KeyedList.exists_mem_of_get hr
    obtain ⟨device, hdevice, hid, htag⟩ := hlists
    obtain ⟨c, hc, device', hdevice', hid'⟩ := h.ids _ hmem
    have hi' : id = i := hnames.sameId c₀ hc₀ c hc device hdevice device'
      hdevice' id i hid hid' hi
    subst hi'
    obtain ⟨c', hc', hlists'⟩ := (h.devs _ hmem).names _ hmem'
    have hn' : name = n := hnames.sameTag c₀ hc₀ c' hc' id name n
      ⟨device, hdevice, hid, htag⟩ hlists' hn
    subst hn'
    exact ⟨dev, hmem, r, hmem', hleaf⟩

/-- What a run reports is listed in it. -/
theorem run_reports_listed {pre : List Call} {σ : Session}
    (hrun : pre.foldlM callStep start = .ok σ) {id name idx : CString}
    {v : Rat} (h : ((id, name, idx), v) ∈ σ.reports) :
    ∃ c ∈ pre, c.Lists id name := by
  have hall := foldlM_appends Session.reports
    (fun (c : Call) (e : Key × Rat) => c.Lists e.1.1 e.1.2.1) ?_ hrun
  · obtain ⟨added, hadded, hlisted⟩ := hall
    rw [hadded] at h
    exact hlisted _ h
  · intro s c s' _ hstep
    obtain ⟨l', hloop, _, hreports⟩ := callStep_ok hstep
    refine ⟨_, hreports, ?_⟩
    intro e he
    exact deviceLoop_reports_listed hloop he

/-! ## The record of a tag and its reports -/

/-- `pPrevious` holds exactly the latest report of every key. -/
def IsLastReported (σ : Session) : Prop :=
  ∀ k v, (k, v) ∈ retained σ.pPrevious ↔ latest k σ.reports = some v

/-- The state before a turn does not lead to a loss.  `p` is `pPrevious` at
the start of the call. -/
structure KeepsRecord (c : Call) (p : Previous) (l : DeviceLoop)
    (device : EdgeDevice) (t : TagLoop) (tag : AnalogTag)
    (id name : CString) : Prop where
  /-- `match_previous_tag` is not left over from an earlier device. -/
  fresh : ¬ StaleFlag l device t
  /-- If the record is going to be rewritten, because `valid` is set or some
  value of the tag passes, then every index it holds passes. -/
  lossless : ∀ config r,
    lookupConfig (CJson.getItem c.refD (some id)) t.matchConfig (some name) =
      .ok config →
    record p id name = some r →
    (t.valid = true ∨
      passing (config.map fun cfg => (cfg, .live r)) tag ≠ []) →
    ∀ idx last, (idx, last) ∈ r →
      ∃ v, (idx, v) ∈ passing (config.map fun cfg => (cfg, .live r)) tag

theorem keepsRecord_iff (c : Call) (p : Previous) (l : DeviceLoop)
    (device : EdgeDevice) (t : TagLoop) (tag : AnalogTag) (id name : CString) :
    (¬ StaleFlag l device t ∧
      ∀ config ∈ (lookupConfig (CJson.getItem c.refD (some id)) t.matchConfig
        (some name)).toOption, ∀ r ∈ record p id name,
        (t.valid = true ∨
          passing (config.map fun cfg => (cfg, .live r)) tag ≠ []) →
        ∀ e ∈ r, ∃ e' ∈ passing (config.map fun cfg => (cfg, .live r)) tag,
          e'.1 = e.1) ↔
      KeepsRecord c p l device t tag id name := by
  simp only [mem_toOption]
  constructor
  · rintro ⟨hfresh, hlossless⟩
    refine ⟨hfresh, ?_⟩
    intro config r hconfig hr hrewrite idx last hmem
    obtain ⟨⟨_, v⟩, hpass, rfl⟩ :=
      hlossless config hconfig r hr hrewrite _ hmem
    exact ⟨v, hpass⟩
  · rintro ⟨hfresh, hlossless⟩
    refine ⟨hfresh, ?_⟩
    intro config hconfig r hr hrewrite e hmem
    obtain ⟨v, hpass⟩ :=
      hlossless config r hconfig hr hrewrite e.1 e.2 hmem
    exact ⟨_, hpass, rfl⟩

instance (c : Call) (p : Previous) (l : DeviceLoop) (device : EdgeDevice)
    (t : TagLoop) (tag : AnalogTag) (id name : CString) :
    Decidable (KeepsRecord c p l device t tag id name) :=
  decidable_of_iff _ (keepsRecord_iff c p l device t tag id name)

/-- The record holds exactly the latest reports of its tag. -/
structure Mirrors (id name : CString) (r : Option Record)
    (history : List (Key × Rat)) : Prop where
  indexed : ∀ rec, r = some rec → Indexed rec
  exact : ∀ idx v, (∃ rec, r = some rec ∧ (idx, v) ∈ rec) ↔
    latest (id, name, idx) history = some v

theorem Mirrors.frame {id name : CString} {r : Option Record}
    {h h' : List (Key × Rat)} (hno : ∀ idx v, ((id, name, idx), v) ∉ h')
    (hm : Mirrors id name r h) : Mirrors id name r (h ++ h') := by
  refine ⟨hm.indexed, ?_⟩
  intro idx v
  rw [latest_append_of_forall_ne (hno idx)]
  exact hm.exact idx v

section Turn

variable {c : Call} {p : Previous} {devices : List EdgeDevice}
  {l' : DeviceLoop} {device : EdgeDevice} {id : CString} {tag : AnalogTag}
  {name : CString} {l : DeviceLoop} {t : TagLoop} {config : Option TagConfig}
  {s : TagLoop} {history : List (Key × Rat)}

/-- In a turn that rewrites the record, every index of the old one passes. -/
theorem KeepsRecord.passes
    (hkeeps : KeepsRecord c p l device t tag id name)
    (hct : CallTurn c.refD p devices l' device id tag name l t config s)
    (hid : device.id = some id) (hv : validAfter config s tag = true)
    {r : Record} (hr : record p id name = some r) {idx : CString} {last : Rat}
    (hmem : (idx, last) ∈ r) :
    ∃ v, (idx, v) ∈ passing (filterOf config s) tag := by
  obtain ⟨u, hturn⟩ := hct.turn
  rw [validAfter, hturn.valid, Bool.or_eq_true] at hv
  rw [hct.filter_of_record hid hr] at hv ⊢
  refine hkeeps.lossless config r hturn.loaded hr (hv.imp_right ?_) idx last hmem
  simp

/-- In a turn that rewrites the record without a loss, the reported values are
those that pass. -/
theorem passing_of_mem_turnReports
    (hct : CallTurn c.refD p devices l' device id tag name l t config s)
    (hid : device.id = some id)
    (hkeeps : KeepsRecord c p l device t tag id name)
    (hm : Mirrors id name (record p id name) history)
    (hv : validAfter config s tag = true) {leaf : CString × Rat}
    (hleaf : leaf ∈ turnReports config s tag) :
    leaf ∈ passing (filterOf config s) tag := by
  obtain ⟨u, hturn⟩ := hct.turn
  by_cases harr : tag.isArray = true
  · rw [turnReports, if_pos harr] at hleaf
    exact hleaf
  · -- a scalar is reported once `valid` is set, whether or not it passes
    have hl := mem_leaves_of_mem_turnReports hleaf
    refine List.mem_filter.mpr ⟨hl, ?_⟩
    have hread := hturn.readable leaf hl
    cases hf : filterOf config s with
    | none => rfl
    | some f =>
        obtain ⟨cfg, ptr⟩ := f
        obtain ⟨hcfg, hptr⟩ := hct.filter hf
        rcases hptr with hstale | ⟨r, hr, rfl⟩
        · exact absurd hstale hkeeps.fresh
        · rw [hf] at hread
          obtain ⟨r', last, hlive, hget⟩ := hread
          cases hlive
          obtain ⟨i, hi⟩ := leaves_indexed tag leaf hl
          rw [hi] at hget
          have hmem := (hm.indexed r hr).mem_of_get hget
          obtain ⟨v, hpass⟩ := hkeeps.passes hct hid hv hr hmem
          obtain ⟨hvl, hvp⟩ := mem_leaves_of_mem_passing hpass
          rw [leaves, if_neg harr, List.mem_singleton] at hl hvl
          rw [← hf, hl, ← hvl]
          exact hvp

/-- A turn that loses nothing keeps the record and the reports in step. -/
theorem Mirrors.turn (hf : IndexFunctional tag) (hid : device.id = some id)
    (hct : CallTurn c.refD p devices l' device id tag name l t config s)
    (hkeeps : KeepsRecord c p l device t tag id name)
    (hm : Mirrors id name (record p id name) history) :
    Mirrors id name (record l'.pPrevious id name)
      (history ++ reports l'.subJsonD) := by
  have hflag : FlagCurrent s name := by
    rcases hct.flag hid with hflag | ⟨hstale, _⟩
    · exact hflag
    · exact absurd hstale hkeeps.fresh
  rw [hct.record_after hflag]
  cases hv : validAfter config s tag with
  | false =>
      rw [if_neg Bool.false_ne_true]
      refine ⟨hm.indexed, ?_⟩
      intro idx v
      rw [latest_of_not_mem_turnReports hct.reported]
      · exact hm.exact idx v
      · intro v' hmem
        rw [turnReports_of_not_validAfter hv] at hmem
        cases hmem
  | true =>
      rw [if_pos rfl]
      refine ⟨?_, ?_⟩
      · intro rec hrec
        cases hrec
        exact passing_indexed _ _
      · intro idx v
        constructor
        · rintro ⟨rec, hrec, hmem⟩
          cases hrec
          exact latest_of_mem_turnReports hf hct.reported
            (mem_turnReports_of_mem_passing hmem)
        · intro hlatest
          refine ⟨_, rfl, ?_⟩
          by_cases hrep : ∃ v', (idx, v') ∈ turnReports config s tag
          · obtain ⟨v', hv'⟩ := hrep
            rw [latest_of_mem_turnReports hf hct.reported hv'] at hlatest
            cases hlatest
            exact passing_of_mem_turnReports hct hid hkeeps hm hv hv'
          · -- an index that is not reported would have been lost
            have hno : ∀ v', (idx, v') ∉ turnReports config s tag :=
              fun v' hv' => hrep ⟨v', hv'⟩
            rw [latest_of_not_mem_turnReports hct.reported hno] at hlatest
            obtain ⟨r, hr, hmem⟩ := (hm.exact idx v).mpr hlatest
            obtain ⟨v', hpass⟩ := hkeeps.passes hct hid hv hr hmem
            exact absurd (mem_turnReports_of_mem_passing hpass) (hno v')

end Turn

/-- `pPrevious` is the map of last reports after every call of the run. -/
def AlwaysLastReported (calls : List Call) : Prop :=
  ∀ pre σ, pre <+: calls → run pre = .ok σ → IsLastReported σ

end DatahubEdge.Message
