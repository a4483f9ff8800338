import DatahubEdge.Message.Run

/-!
# Retained values follow the last report

Whatever flags leak between devices and tags, a value that is retained under
a device, tag and index is the one last put into a payload for it.  The
converse needs more and fails in general: reported values may be lost from
`pPrevious`.

## Main results

* `CallTurn.flag`, `CallTurn.filter` — what the flag and the filter of a turn
  are, seen from the state the call was made in.
* `tracks_run` — throughout a run every retained value is the latest report.
-/

namespace DatahubEdge.Message

open Lib Lib.Fold Lib.Latest

/-! ## Index keys -/

/-- The indices of a record are printed integers. -/
def Indexed (r : Record) : Prop := ∀ leaf ∈ r, ∃ i : Int, leaf.1 = printInt i

theorem leaves_indexed (tag : AnalogTag) : Indexed (leaves tag) := by
  intro leaf hleaf
  unfold leaves at hleaf
  split at hleaf
  · obtain ⟨element, _, rfl⟩ := List.mem_map.mp hleaf
    exact ⟨element.index, rfl⟩
  · rw [List.mem_singleton.mp hleaf]
    exact ⟨0, rfl⟩

theorem passing_indexed (filter : Option (TagConfig × Pointer Record))
    (tag : AnalogTag) : Indexed (passing filter tag) :=
  fun leaf hleaf => leaves_indexed tag leaf (mem_leaves_of_mem_passing hleaf).1

/-- A lookup by index in an indexed record returns an entry with exactly that
index. -/
theorem Indexed.mem_of_get {r : Record} (h : Indexed r) {i : Int} {u : Rat}
    (hget : getObjectItem r (some (printInt i)) = some u) :
    (printInt i, u) ∈ r := by
  rw [getObjectItem_some] at hget
  obtain ⟨k, hk, hmem⟩ := KeyedList.exists_mem_of_get hget
  obtain ⟨j, hj⟩ := h _ hmem
  have hij : i = j := lower_printInt_inj (by rw [hk]; exact congrArg lower hj)
  have hk' : k = printInt j := hj
  rw [hij, ← hk']
  exact hmem

/-- A lookup by an index that occurs in a record succeeds. -/
theorem get_isSome_of_mem {r : Record} {idx : CString} {u : Rat}
    (hmem : (idx, u) ∈ r) : (getObjectItem r (some idx)).isSome := by
  rw [getObjectItem_some, KeyedList.get_isSome_iff]
  exact ⟨_, hmem, rfl⟩

/-- With functional indices a tag submits one value for an index. -/
theorem IndexFunctional.leaves {tag : AnalogTag} (h : IndexFunctional tag)
    {idx : CString} {u v : Rat} (hu : (idx, u) ∈ leaves tag)
    (hv : (idx, v) ∈ leaves tag) : u = v := by
  unfold Message.leaves at hu hv
  by_cases harr : tag.isArray = true
  · rw [if_pos harr] at hu hv
    obtain ⟨a, ha, hau⟩ := List.mem_map.mp hu
    obtain ⟨b, hb, hbv⟩ := List.mem_map.mp hv
    cases hau
    simp only [elementLeaf, Prod.mk.injEq] at hbv
    rw [← hbv.2]
    exact h a ha b hb (printInt_injective hbv.1.symm)
  · rw [if_neg harr, List.mem_singleton, Prod.mk.injEq] at hu hv
    rw [hu.2, hv.2]

/-! ## The values a turn reports -/

section TurnReports

variable {config : Option TagConfig} {s : TagLoop} {tag : AnalogTag}
  {leaf : CString × Rat}

theorem mem_leaves_of_mem_turnReports (h : leaf ∈ turnReports config s tag) :
    leaf ∈ leaves tag := by
  unfold turnReports at h
  split at h
  · exact (mem_leaves_of_mem_passing h).1
  · split at h
    · rw [leaves, if_neg ‹_›]
      exact h
    · cases h

theorem mem_turnReports_of_mem_passing
    (h : leaf ∈ passing (filterOf config s) tag) :
    leaf ∈ turnReports config s tag := by
  unfold turnReports
  split
  · exact h
  · have hl := (mem_leaves_of_mem_passing h).1
    rw [leaves, if_neg ‹_›] at hl
    rw [if_pos (validAfter_of_mem_passing h)]
    exact hl

theorem turnReports_of_not_validAfter (h : validAfter config s tag = false) :
    turnReports config s tag = [] := by
  unfold turnReports
  rw [h, (passing_of_not_validAfter h).2]
  simp

/-- A submitted value that is not reported did not pass, and if it is the
value of a scalar tag, `valid` is unset. -/
theorem passes_of_not_mem_turnReports (hleaf : leaf ∈ leaves tag)
    (h : leaf ∉ turnReports config s tag) :
    passes (filterOf config s) leaf = false := by
  cases hp : passes (filterOf config s) leaf with
  | false => rfl
  | true =>
      have hmem : leaf ∈ passing (filterOf config s) tag :=
        List.mem_filter.mpr ⟨hleaf, hp⟩
      exact absurd (mem_turnReports_of_mem_passing hmem) h

end TurnReports

/-! ## The flag and the filter of a turn -/

section CallTurn

variable {refD : Option CJson} {p : Previous} {devices : List EdgeDevice}
  {l' : DeviceLoop} {device : EdgeDevice} {id : CString} {tag : AnalogTag}
  {name : CString} {l : DeviceLoop} {t : TagLoop} {config : Option TagConfig}
  {s : TagLoop}

/-- A device `pPrevious` does not hold has no records. -/
theorem record_of_not_known (hid : device.id = some id)
    (h : knownDevice p device = false) : record p id name = none := by
  have hnone := getObjectItem_of_unknown h
  rw [hid] at hnone
  rw [record, hnone]
  rfl

/-- The flag of a turn says whether `pPrevious` held a record for the tag, or
it is one left set by an earlier device. -/
theorem CallTurn.flag (h : CallTurn refD p devices l' device id tag name l t
    config s) (hid : device.id = some id) :
    FlagCurrent s name ∨
      (StaleFlag l device t ∧ s.matchPreviousTag = true ∧
        s.subJsonPreTag = t.subJsonPreTag ∧ record p id name = none) := by
  obtain ⟨u, hturn⟩ := h.turn
  have hlooked := hturn.looked
  cases hk : knownDevice p device with
  | true =>
      rw [hk] at hlooked
      refine .inl ?_
      rw [FlagCurrent, hturn.dev, hlooked, lookedUp_matchPreviousTag_known]
  | false =>
      rw [hk] at hlooked
      have hm : s.matchPreviousTag = t.matchPreviousTag := by
        rw [hlooked, lookedUp_matchPreviousTag_unknown]
      have hnone : record p id name = none := record_of_not_known hid hk
      cases hstale : t.matchPreviousTag with
      | true =>
          refine .inr ⟨⟨h.known.trans hk, hstale⟩, hm.trans hstale, ?_, hnone⟩
          rw [hlooked]
          rfl
      | false =>
          refine .inl ?_
          rw [FlagCurrent, h.before, hnone, hm, hstale]
          rfl

/-- With a current flag, the record after the call. -/
theorem CallTurn.record_after (h : CallTurn refD p devices l' device id tag
    name l t config s) (hflag : FlagCurrent s name) :
    record l'.pPrevious id name =
      if validAfter config s tag then some (passing (filterOf config s) tag)
      else record p id name := by
  rw [h.after, getObjectItem_devAfter_self hflag, h.before]

/-- With the flag of an earlier device, the call leaves no record. -/
theorem CallTurn.record_after_stale (h : CallTurn refD p devices l' device id
    tag name l t config s) (hm : s.matchPreviousTag = true)
    (hnone : record p id name = none) : record l'.pPrevious id name = none := by
  rw [h.after, getObjectItem_devAfter_stale hm (h.before.trans hnone),
    h.before, hnone]

/-- A filter comes from the configuration just loaded, and reads the record
`pPrevious` held for the tag or a pointer an earlier device left behind. -/
theorem CallTurn.filter (h : CallTurn refD p devices l' device id tag name l
    t config s) {cfg : TagConfig} {ptr : Pointer Record}
    (hf : filterOf config s = some (cfg, ptr)) :
    config = some cfg ∧
      (StaleFlag l device t ∨
        ∃ r, record p id name = some r ∧ ptr = .live r) := by
  obtain ⟨u, hturn⟩ := h.turn
  have hlooked := hturn.looked
  have hm : s.matchPreviousTag = true := by
    by_contra hm
    rw [filterOf, if_neg hm] at hf
    cases hf
  have hcfg : config = some cfg := by
    rw [filterOf, if_pos hm] at hf
    obtain ⟨c, hc, heq⟩ := Option.map_eq_some_iff.mp hf
    cases heq
    exact hc
  refine ⟨hcfg, ?_⟩
  cases hk : knownDevice p device with
  | false =>
      rw [hk] at hlooked
      rw [hlooked, lookedUp_matchPreviousTag_unknown] at hm
      exact .inl ⟨h.known.trans hk, hm⟩
  | true =>
      rw [hk] at hlooked
      refine .inr ?_
      have hdev : getObjectItem t.subJsonPreDev (some name) =
          record p id name := by rw [← h.before, hturn.dev]
      rw [hlooked, filterOf_known, hdev] at hf
      obtain ⟨r, hr, hmap⟩ := Option.bind_eq_some_iff.mp hf
      rw [hcfg] at hmap
      cases hmap
      exact ⟨r, hr, rfl⟩

/-- The filter of a tag `pPrevious` holds a record for. -/
theorem CallTurn.filter_of_record (h : CallTurn refD p devices l' device id
    tag name l t config s) (hid : device.id = some id) {r : Record}
    (hr : record p id name = some r) :
    filterOf config s = config.map fun c => (c, .live r) := by
  have hknown : knownDevice p device = true := by
    by_contra hk
    rw [Bool.not_eq_true] at hk
    rw [record_of_not_known hid hk] at hr
    cases hr
  obtain ⟨u, hturn⟩ := h.turn
  have hdev : getObjectItem t.subJsonPreDev (some name) = some r := by
    rw [← hr, ← h.before, hturn.dev]
  have hlooked := hturn.looked
  rw [hknown] at hlooked
  rw [hlooked, filterOf_known, hdev]
  rfl

/-- A turn whose configuration is loaded found it in the cache. -/
theorem CallTurn.cached {c : Call} (h : CallTurn c.refD p devices l' device
    id tag name l t config s) {cfg : TagConfig} (hcfg : config = some cfg) :
    t.matchConfig = true ∧ c.cachedConfig id name = .ok (some cfg) := by
  obtain ⟨u, hturn⟩ := h.turn
  have hloaded := hturn.loaded
  rw [hcfg] at hloaded
  unfold lookupConfig at hloaded
  split at hloaded
  · exact ⟨‹_›, hloaded⟩
  · cases hloaded

end CallTurn

/-! ## Retained values are latest reports -/

/-- Every value the record holds under an index is the latest one reported
for it. -/
def Tracks (id name : CString) (r : Option Record)
    (history : List (Key × Rat)) : Prop :=
  ∀ rec, r = some rec → Indexed rec ∧
    ∀ i u, getObjectItem rec (some (printInt i)) = some u →
      latest (id, name, printInt i) history = some u

/-- The values reported in a turn are the latest ones afterwards. -/
theorem latest_of_mem_turnReports {config : Option TagConfig} {s : TagLoop}
    {tag : AnalogTag} (hf : IndexFunctional tag) {id name : CString}
    {history new : List (Key × Rat)}
    (hnew : ∀ idx v, ((id, name, idx), v) ∈ new ↔
      (idx, v) ∈ turnReports config s tag) {idx : CString} {v : Rat}
    (hv : (idx, v) ∈ turnReports config s tag) :
    latest (id, name, idx) (history ++ new) = some v := by
  refine latest_append_of_mem ((hnew idx v).mpr hv) ?_
  intro v' hv'
  exact hf.leaves (mem_leaves_of_mem_turnReports ((hnew idx v').mp hv'))
    (mem_leaves_of_mem_turnReports hv)

/-- An index not reported in a turn keeps its latest report. -/
theorem latest_of_not_mem_turnReports {config : Option TagConfig}
    {s : TagLoop} {tag : AnalogTag} {id name : CString}
    {history new : List (Key × Rat)}
    (hnew : ∀ idx v, ((id, name, idx), v) ∈ new ↔
      (idx, v) ∈ turnReports config s tag) {idx : CString}
    (hno : ∀ v, (idx, v) ∉ turnReports config s tag) :
    latest (id, name, idx) (history ++ new) =
      latest (id, name, idx) history :=
  latest_append_of_forall_ne fun v hv => hno v ((hnew idx v).mp hv)

theorem Tracks.frame {id name : CString} {r : Option Record}
    {h h' : List (Key × Rat)} (hno : ∀ idx v, ((id, name, idx), v) ∉ h')
    (ht : Tracks id name r h) : Tracks id name r (h ++ h') := by
  intro rec hrec
  refine ⟨(ht rec hrec).1, ?_⟩
  intro i u hu
  rw [latest_append_of_forall_ne (hno (printInt i))]
  exact (ht rec hrec).2 i u hu

/-- A turn keeps the retained values up to date. -/
theorem Tracks.turn {refD : Option CJson} {p : Previous}
    {devices : List EdgeDevice} {l' : DeviceLoop} {device : EdgeDevice}
    {id : CString} {tag : AnalogTag} {name : CString} {l : DeviceLoop}
    {t : TagLoop} {config : Option TagConfig} {s : TagLoop}
    {history : List (Key × Rat)} (hf : IndexFunctional tag)
    (hid : device.id = some id)
    (h : CallTurn refD p devices l' device id tag name l t config s)
    (ht : Tracks id name (record p id name) history) :
    Tracks id name (record l'.pPrevious id name)
      (history ++ reports l'.subJsonD) := by
  intro rec hrec
  rcases h.flag hid with hflag | ⟨_, hm, _, hnone⟩
  · rw [h.record_after hflag] at hrec
    cases hv : validAfter config s tag with
    | true =>
        rw [hv, if_pos rfl] at hrec
        cases hrec
        have hidx := passing_indexed (filterOf config s) tag
        refine ⟨hidx, ?_⟩
        intro i u hu
        exact latest_of_mem_turnReports hf h.reported
          (mem_turnReports_of_mem_passing (hidx.mem_of_get hu))
    | false =>
        rw [hv, if_neg Bool.false_ne_true] at hrec
        refine ⟨(ht rec hrec).1, ?_⟩
        intro i u hu
        rw [latest_of_not_mem_turnReports h.reported]
        · exact (ht rec hrec).2 i u hu
        · intro v hmem
          rw [turnReports_of_not_validAfter hv] at hmem
          cases hmem
  · rw [h.record_after_stale hm hnone] at hrec
    cases hrec

/-- Array tags list no index with two values. -/
def IndicesFunctional (calls : List Call) : Prop :=
  ∀ c ∈ calls, ∀ device ∈ c.data.devices, ∀ tag ∈ device.analogTagList,
    IndexFunctional tag

instance (calls : List Call) : Decidable (IndicesFunctional calls) :=
  inferInstanceAs (Decidable (∀ c ∈ calls, ∀ device ∈ c.data.devices,
    ∀ tag ∈ device.analogTagList, IndexFunctional tag))

theorem sampleRun_indices : IndicesFunctional sampleRun := by decide

theorem TurnOf.indexFunctional {calls : List Call} {σ : Session} {c : Call}
    {l : DeviceLoop} {device : EdgeDevice} {t : TagLoop} {tag : AnalogTag}
    (hidx : IndicesFunctional calls) (h : TurnOf calls σ c l device t tag) :
    IndexFunctional tag := by
  obtain ⟨_, hcall⟩ := h.call
  obtain ⟨_, hdevice⟩ := h.reaches.inDevices
  obtain ⟨_, htag⟩ := h.reaches.inTags
  exact hidx c hcall.mem device hdevice.mem tag htag.mem

/-- Throughout a run every retained value is the latest report. -/
theorem tracks_run {calls : List Call} (hnames : NamesDistinct calls)
    (hidx : IndicesFunctional calls) {id name : CString} {c₀ : Call}
    (hc₀ : c₀ ∈ calls) (hlists : c₀.Lists id name) {pre : List Call}
    {σ : Session} (hpre : pre <+: calls)
    (hrun : pre.foldlM callStep start = .ok σ) :
    Tracks id name (record σ.pPrevious id name) σ.reports := by
  refine run_record (P := Tracks id name) hnames hc₀ hlists ?_ ?_ ?_ pre σ
    hpre hrun
  · intro rec hrec
    cases hrec
  · intro r h h' hno ht
    exact ht.frame hno
  · intro σ c l' device tag l t config s hturn hid _ hct ht
    exact ht.turn (hturn.indexFunctional hidx) hid hct

end DatahubEdge.Message
