import DatahubEdge.Lib.Fold
import DatahubEdge.Message.SendDataMessage

/-!
# What one turn of the analog loop does

A tag submits a list of indexed values, its `leaves`: the elements of an
array tag, or the value of a scalar tag under the index `0`.  In a turn that
returns, every value is decided on its own by the filter in force; the values
that pass are the new record of the tag, and the payload gets them under the
conditions `tagNodes` spells out.

## Main results

* `sendTag_ok` — a turn that returns does what the pure function `sentTag`
  says, for array and scalar tags alike.
* `sendTag_error` — a turn that fails on a lookup submits a value whose
  previous value cannot be read.
* `analogStep_ok` — the whole turn, configuration and record lookups
  included.
-/

namespace DatahubEdge.Message

open Lib Lib.Fold

variable {V : Type}

/-! ## The values of a tag -/

def elementLeaf (element : ArrayTag V) : CString × V :=
  (printInt element.index, element.value)

/-- The indexed values a tag submits. -/
def leaves (tag : AnalogTag V) : Record V :=
  if tag.isArray then tag.elements.map elementLeaf
  else [(cstr "0", tag.value)]

/-- Whether a value passes the filter, where the filter can be evaluated. -/
def passes [AnalogValue V] (filter : Option (TagConfig × Pointer (Record V)))
    (leaf : CString × V) : Bool :=
  match filter with
  | none => true
  | some (config, .live record) =>
      match getObjectItem record (some leaf.1) with
      | none => false
      | some last => AnalogValue.exceeds config leaf.2 last
  | some _ => false

/-- The values of a tag that pass the filter. -/
def passing [AnalogValue V] (filter : Option (TagConfig × Pointer (Record V)))
    (tag : AnalogTag V) : Record V :=
  (leaves tag).filter (passes filter)

/-- Without a filter every value passes. -/
theorem passing_none [AnalogValue V] (tag : AnalogTag V) :
    passing none tag = leaves tag := by
  simp [passing, passes]

/-- The filter finds the previous value of an index. -/
def Readable (filter : Option (TagConfig × Pointer (Record V)))
    (idx : CString) : Prop :=
  match filter with
  | none => True
  | some (_, subJsonPreTag) =>
      ∃ record last, subJsonPreTag = .live record ∧
        getObjectItem record (some idx) = some last

theorem compareRange_ok [AnalogValue V] {config : TagConfig}
    {value last : V} {b : Bool}
    (h : compareRange config value last = .ok b) :
    b = AnalogValue.exceeds config value last := by
  unfold compareRange at h
  dsimp only at h
  split at h
  · cases h
    rfl
  · cases h

theorem lastData_ok {p : Pointer (Record V)} {idx : CString} {last : V}
    (h : lastData p idx = .ok last) :
    ∃ record, p = .live record ∧
      getObjectItem record (some idx) = some last := by
  cases p with
  | null => cases h
  | freed => cases h
  | live record =>
      refine ⟨record, rfl, ?_⟩
      unfold lastData at h
      dsimp only at h
      split at h
      · cases h
      · cases h
        assumption

variable [AnalogValue V]

/-- A decision that is made agrees with `passes`, and was made by reading. -/
theorem report_ok {filter : Option (TagConfig × Pointer (Record V))}
    {idx : CString} {value : V} {b : Bool}
    (h : report filter idx value = .ok b) :
    b = passes filter (idx, value) ∧ Readable filter idx := by
  cases filter with
  | none =>
      cases h
      exact ⟨rfl, trivial⟩
  | some f =>
      obtain ⟨config, p⟩ := f
      obtain ⟨last, hlast, hcmp⟩ := bind_eq_ok h
      obtain ⟨record, rfl, hget⟩ := lastData_ok hlast
      refine ⟨?_, record, last, rfl, hget⟩
      rw [compareRange_ok hcmp]
      simp [passes, hget]

/-- A decision fails on an overflow or on a previous value that cannot be
read. -/
theorem report_error {filter : Option (TagConfig × Pointer (Record V))}
    {idx : CString} {value : V} {e : Fault}
    (h : report filter idx value = .error e) :
    e = .intOverflow ∨ ¬ Readable filter idx := by
  cases filter with
  | none => cases h
  | some f =>
      obtain ⟨config, p⟩ := f
      rcases bind_eq_error h with hlast | ⟨last, _, hcmp⟩
      · refine .inr ?_
        rintro ⟨record, last, rfl, hget⟩
        simp [lastData, hget] at hlast
      · unfold compareRange at hcmp
        dsimp only at hcmp
        split at hcmp
        · cases hcmp
        · cases hcmp
          exact .inl rfl

/-! ## The loop over the elements of an array tag -/

/-- The element loop appends the elements that pass to both objects. -/
theorem arrayLoop_ok {filter : Option (TagConfig × Pointer (Record V))} :
    ∀ (elements : List (ArrayTag V)) (s s' : ArrayLoop V),
      elements.foldlM (arrayStep filter) s = .ok s' →
        s'.valid = (s.valid ||
          !((elements.map elementLeaf).filter (passes filter)).isEmpty) ∧
        s'.subJsonNodeArray = s.subJsonNodeArray ++
          (elements.map elementLeaf).filter (passes filter) ∧
        s'.subJsonPreArray = s.subJsonPreArray ++
          (elements.map elementLeaf).filter (passes filter) := by
  intro elements
  induction elements with
  | nil =>
      intro s s' h
      cases h
      simp
  | cons element elements ih =>
      intro s s' h
      obtain ⟨s₁, hstep, hrest⟩ := foldlM_cons_eq_ok h
      obtain ⟨hvalid, hnode, hpre⟩ := ih s₁ s' hrest
      obtain ⟨b, hreport, hb⟩ := bind_eq_ok hstep
      have hpass := (report_ok hreport).1
      cases b with
      | true =>
          cases hb
          have hp : passes filter (elementLeaf element) = true := hpass.symm
          rw [hvalid, hnode, hpre, List.map_cons, List.filter_cons_of_pos hp]
          simp [elementLeaf, List.append_assoc]
      | false =>
          cases hb
          have hp : passes filter (elementLeaf element) = false := hpass.symm
          rw [hvalid, hnode, hpre]
          simp [hp]

/-- The element loop fails only at an element. -/
theorem arrayLoop_error {filter : Option (TagConfig × Pointer (Record V))}
    {elements : List (ArrayTag V)} {s : ArrayLoop V} {e : Fault}
    (h : elements.foldlM (arrayStep filter) s = .error e) :
    ∃ element ∈ elements,
      report filter (printInt element.index) element.value = .error e := by
  obtain ⟨pre, t, element, hv, hstep⟩ := exists_visit_of_error elements h
  refine ⟨element, hv.mem, ?_⟩
  rcases bind_eq_error hstep with hr | ⟨b, _, hb⟩
  · exact hr
  · cases b with
    | true => cases hb
    | false => cases hb

/-! ## The two cases of a tag with a name -/

omit [AnalogValue V] in
/-- What a tag adds to the node of its device, given the values that pass and
the flag `valid` after them. -/
def tagNodes (name : CString) (tag : AnalogTag V) (pass : Record V)
    (valid : Bool) : Obj (TagNode V) :=
  if tag.isArray then
    if valid then [(name, .array pass)] else []
  else
    pass.map (fun leaf => (name, .value leaf.2)) ++
      if valid then [(name, .value tag.value)] else []

/-- The flag `valid` after a tag. -/
def validAfter (config : Option TagConfig) (s : TagLoop V) (tag : AnalogTag V) :
    Bool :=
  s.valid || !(passing (filterOf config s) tag).isEmpty

/-- The device object after a tag with the given name. -/
def devAfter (config : Option TagConfig) (s : TagLoop V) (name : CString)
    (tag : AnalogTag V) : Obj (Record V) :=
  if validAfter config s tag then
    if s.matchPreviousTag then
      replaceItemInObject s.subJsonPreDev (some name)
        (passing (filterOf config s) tag)
    else
      addItemToObject s.subJsonPreDev (some name)
        (passing (filterOf config s) tag)
  else s.subJsonPreDev

/-- The pointer `subJsonPre_tag` after a tag with the given name. -/
def preTagAfter (config : Option TagConfig) (s : TagLoop V) (name : CString)
    (tag : AnalogTag V) : Pointer (Record V) :=
  if validAfter config s tag && s.matchPreviousTag &&
      (getObjectItem s.subJsonPreDev (some name)).isSome then .freed
  else s.subJsonPreTag

/-- The loop variables after a tag with the given name. -/
def sentTag (config : Option TagConfig) (s : TagLoop V) (name : CString)
    (tag : AnalogTag V) : TagLoop V :=
  { s with
    dataExist := s.dataExist || validAfter config s tag
    subJsonPreTag := preTagAfter config s name tag
    valid := validAfter config s tag
    subJsonPreDev := devAfter config s name tag
    subJsonNodeDev := s.subJsonNodeDev ++
      tagNodes name tag (passing (filterOf config s) tag)
        (validAfter config s tag) }

private theorem sendArray_ok {config : Option TagConfig} {s s' : TagLoop V}
    {name : CString} {tag : AnalogTag V} (harr : tag.isArray = true)
    (h : sendArray config s name tag = .ok s') :
    s' = sentTag config s name tag := by
  obtain ⟨a, hloop, ha⟩ := bind_eq_ok h
  obtain ⟨hvalid, hnode, hpre⟩ := arrayLoop_ok _ _ _ hloop
  have hpass : (tag.elements.map elementLeaf).filter
      (passes (filterOf config s)) = passing (filterOf config s) tag := by
    simp [passing, leaves, harr]
  rw [hpass] at hvalid hnode hpre
  have hv : a.valid = validAfter config s tag := hvalid
  simp only [List.nil_append] at hnode hpre
  simp only [hnode, hpre, hv] at ha
  cases hva : validAfter config s tag with
  | false =>
      simp only [hva] at ha
      cases ha
      simp [sentTag, devAfter, preTagAfter, tagNodes, harr, hva]
  | true =>
      simp only [hva] at ha
      cases ha
      cases hm : s.matchPreviousTag <;>
        simp [sentTag, devAfter, preTagAfter, tagNodes, storeRecord, harr,
          hva, hm]

private theorem sendScalar_ok {config : Option TagConfig} {s s' : TagLoop V}
    {name : CString} {tag : AnalogTag V} (harr : tag.isArray = false)
    (h : sendScalar config s name tag = .ok s') :
    s' = sentTag config s name tag := by
  obtain ⟨b, hreport, hb⟩ := bind_eq_ok h
  have hpass : passing (filterOf config s) tag =
      if b then [(cstr "0", tag.value)] else [] := by
    rw [(report_ok hreport).1]
    simp [passing, leaves, harr, List.filter_cons]
  cases b with
  | true =>
      have hva : validAfter config s tag = true := by
        simp [validAfter, hpass]
      cases hb
      cases hm : s.matchPreviousTag <;>
        simp [sentTag, devAfter, preTagAfter, tagNodes, storeRecord, harr,
          hva, hm, hpass]
  | false =>
      have hva : validAfter config s tag = s.valid := by
        simp [validAfter, hpass]
      cases hs : s.valid with
      | false =>
          simp only [Bool.false_eq_true, if_false, hs] at hb
          cases hb
          simp [sentTag, devAfter, preTagAfter, tagNodes, harr, hva, hs,
            hpass]
          rw [← hs]
      | true =>
          simp only [Bool.false_eq_true, if_false, hs, if_true] at hb
          cases hb
          cases hm : s.matchPreviousTag <;>
            simp [sentTag, devAfter, preTagAfter, tagNodes, storeRecord, harr,
              hva, hs, hm, hpass]

/-- A turn that returns does what `sentTag` says. -/
theorem sendTag_ok {config : Option TagConfig} {s s' : TagLoop V}
    {name : CString} {tag : AnalogTag V} (hname : tag.name = some name)
    (h : sendTag config s tag = .ok s') :
    s' = sentTag config s name tag := by
  unfold sendTag at h
  rw [hname] at h
  dsimp only at h
  split at h
  · exact sendArray_ok ‹_› h
  · exact sendScalar_ok (Bool.not_eq_true _ ▸ ‹_›) h

/-! ## Lookups of a turn -/

/-- A turn that returns has read the previous value of every index. -/
theorem sendTag_readable {config : Option TagConfig} {s s' : TagLoop V}
    {name : CString} {tag : AnalogTag V} (hname : tag.name = some name)
    (h : sendTag config s tag = .ok s') :
    ∀ leaf ∈ leaves tag, Readable (filterOf config s) leaf.1 := by
  unfold sendTag at h
  rw [hname] at h
  dsimp only at h
  intro leaf hleaf
  split at h
  · obtain ⟨a, hloop, _⟩ := bind_eq_ok h
    rw [leaves, if_pos ‹_›, List.mem_map] at hleaf
    obtain ⟨element, hmem, rfl⟩ := hleaf
    obtain ⟨pre, post, hsplit⟩ := List.append_of_mem hmem
    obtain ⟨t, hv⟩ := exists_visit hsplit hloop
    obtain ⟨u, _, _, hstep, _⟩ := hv.completed hloop
    obtain ⟨b, hreport, _⟩ := bind_eq_ok hstep
    exact (report_ok hreport).2
  · obtain ⟨b, hreport, _⟩ := bind_eq_ok h
    rw [leaves, if_neg ‹_›, List.mem_singleton] at hleaf
    rw [hleaf]
    exact (report_ok hreport).2

/-- A turn that fails, other than by an overflow, submits a value whose
previous value cannot be read. -/
theorem sendTag_error {config : Option TagConfig} {s : TagLoop V}
    {tag : AnalogTag V} {e : Fault} (h : sendTag config s tag = .error e) :
    e = .intOverflow ∨ ∃ name, tag.name = some name ∧
      ∃ leaf ∈ leaves tag, ¬ Readable (filterOf config s) leaf.1 := by
  cases hname : tag.name with
  | none =>
      unfold sendTag at h
      rw [hname] at h
      cases h
  | some name =>
      unfold sendTag at h
      rw [hname] at h
      dsimp only at h
      split at h
      · rcases bind_eq_error h with hloop | ⟨a, _, ha⟩
        · obtain ⟨element, hmem, hreport⟩ := arrayLoop_error hloop
          refine (report_error hreport).imp_right fun hr => ?_
          refine ⟨name, rfl, elementLeaf element, ?_, hr⟩
          rw [leaves, if_pos ‹_›]
          exact List.mem_map_of_mem hmem
        · dsimp only at ha
          split at ha <;> cases ha
      · rcases bind_eq_error h with hreport | ⟨b, _, hb⟩
        · refine (report_error hreport).imp_right fun hr => ?_
          refine ⟨name, rfl, (cstr "0", tag.value), ?_, hr⟩
          rw [leaves, if_neg ‹_›]
          exact List.mem_singleton_self _
        · cases b with
          | true => cases hb
          | false =>
              cases hs : s.valid <;>
                simp only [Bool.false_eq_true, if_false, if_true, hs] at hb <;>
                cases hb

omit [AnalogValue V] in
/-- The loop variables after the two lookups of a turn. -/
def lookedUp (config : Option TagConfig) (matchPreviousDev : Bool)
    (s : TagLoop V) (name : Option CString) : TagLoop V :=
  readPrevious matchPreviousDev
    { s with anaExist := true, matchConfig := config.isSome } name

section LookedUp

variable (config : Option TagConfig) (matchPreviousDev : Bool) (s : TagLoop V)
  (name : Option CString)

omit [AnalogValue V]

/-- The lookups set four variables and leave the others alone. -/
theorem lookedUp_eq :
    lookedUp config matchPreviousDev s name =
      { s with
        anaExist := true
        matchConfig := config.isSome
        matchPreviousTag :=
          if matchPreviousDev then
            (getObjectItem s.subJsonPreDev name).isSome
          else s.matchPreviousTag
        subJsonPreTag :=
          if matchPreviousDev then
            (getObjectItem s.subJsonPreDev name).elim .null .live
          else s.subJsonPreTag } := by
  unfold lookedUp readPrevious
  cases matchPreviousDev with
  | false => rfl
  | true => cases h : getObjectItem s.subJsonPreDev name <;> simp

@[simp] theorem lookedUp_dataExist :
    (lookedUp config matchPreviousDev s name).dataExist = s.dataExist := by
  rw [lookedUp_eq]

@[simp] theorem lookedUp_anaExist :
    (lookedUp config matchPreviousDev s name).anaExist = true := by
  rw [lookedUp_eq]

@[simp] theorem lookedUp_matchConfig :
    (lookedUp config matchPreviousDev s name).matchConfig = config.isSome := by
  rw [lookedUp_eq]

@[simp] theorem lookedUp_valid :
    (lookedUp config matchPreviousDev s name).valid = s.valid := by
  rw [lookedUp_eq]

@[simp] theorem lookedUp_subJsonPreDev :
    (lookedUp config matchPreviousDev s name).subJsonPreDev =
      s.subJsonPreDev := by
  rw [lookedUp_eq]

@[simp] theorem lookedUp_subJsonNodeDev :
    (lookedUp config matchPreviousDev s name).subJsonNodeDev =
      s.subJsonNodeDev := by
  rw [lookedUp_eq]

/-- In a known device the flag tells whether the tag has a record. -/
theorem lookedUp_matchPreviousTag_known :
    (lookedUp config true s name).matchPreviousTag =
      (getObjectItem s.subJsonPreDev name).isSome := by
  rw [lookedUp_eq]
  rfl

/-- In an unknown device the flag is the one left by an earlier device. -/
theorem lookedUp_matchPreviousTag_unknown :
    (lookedUp config false s name).matchPreviousTag = s.matchPreviousTag := rfl

/-- In a known device the filter reads the record of the tag itself. -/
theorem filterOf_known :
    filterOf config (lookedUp config true s name) =
      (getObjectItem s.subJsonPreDev name).bind fun record =>
        config.map fun c => (c, .live record) := by
  rw [lookedUp_eq]
  unfold filterOf
  cases getObjectItem s.subJsonPreDev name <;> rfl

end LookedUp

/-- What a turn that returns does to a tag with a name. -/
structure Turn (subJsonRefDev : Option CJson) (matchPreviousDev : Bool)
    (t : TagLoop V) (tag : AnalogTag V) (name : CString)
    (config : Option TagConfig) (s u : TagLoop V) : Prop where
  loaded : lookupConfig subJsonRefDev t.matchConfig (some name) = .ok config
  looked : s = lookedUp config matchPreviousDev t (some name)
  sent : u = sentTag config s name tag
  readable : ∀ leaf ∈ leaves tag, Readable (filterOf config s) leaf.1

section Turn

variable {subJsonRefDev : Option CJson} {matchPreviousDev : Bool}
  {t s u : TagLoop V} {tag : AnalogTag V} {name : CString}
  {config : Option TagConfig}

theorem Turn.dev
    (h : Turn subJsonRefDev matchPreviousDev t tag name config s u) :
    s.subJsonPreDev = t.subJsonPreDev := by
  rw [h.looked, lookedUp_subJsonPreDev]

theorem Turn.valid
    (h : Turn subJsonRefDev matchPreviousDev t tag name config s u) :
    s.valid = t.valid := by
  rw [h.looked, lookedUp_valid]

theorem Turn.valid_after
    (h : Turn subJsonRefDev matchPreviousDev t tag name config s u) :
    u.valid = validAfter config s tag := by
  rw [h.sent]
  rfl

theorem Turn.dev_after
    (h : Turn subJsonRefDev matchPreviousDev t tag name config s u) :
    u.subJsonPreDev = devAfter config s name tag := by
  rw [h.sent]
  rfl

theorem Turn.nodes
    (h : Turn subJsonRefDev matchPreviousDev t tag name config s u) :
    u.subJsonNodeDev = t.subJsonNodeDev ++
      tagNodes name tag (passing (filterOf config s) tag)
        (validAfter config s tag) := by
  rw [h.sent, sentTag, h.looked, lookedUp_subJsonNodeDev]

end Turn

/-- A turn over a tag with a name. -/
theorem analogStep_ok {subJsonRefDev : Option CJson} {matchPreviousDev : Bool}
    {t u : TagLoop V} {tag : AnalogTag V} {name : CString}
    (hname : tag.name = some name)
    (h : analogStep subJsonRefDev matchPreviousDev t tag = .ok u) :
    ∃ config s,
      Turn subJsonRefDev matchPreviousDev t tag name config s u := by
  obtain ⟨config, hconfig, hsend⟩ := bind_eq_ok h
  rw [hname] at hconfig hsend
  exact ⟨config, _, hconfig, rfl, sendTag_ok hname hsend,
    sendTag_readable hname hsend⟩

/-- A turn over a tag without a name makes the lookups and nothing else. -/
theorem analogStep_ok_noname {subJsonRefDev : Option CJson}
    {matchPreviousDev : Bool} {t u : TagLoop V} {tag : AnalogTag V}
    (hname : tag.name = none)
    (h : analogStep subJsonRefDev matchPreviousDev t tag = .ok u) :
    ∃ config, u = lookedUp config matchPreviousDev t none := by
  obtain ⟨config, _, hsend⟩ := bind_eq_ok h
  unfold sendTag at hsend
  rw [hname] at hsend
  cases hsend
  exact ⟨config, rfl⟩

end DatahubEdge.Message
