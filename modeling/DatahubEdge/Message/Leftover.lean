import DatahubEdge.Message.Locality

/-!
# The flag a device leaves behind

`match_previous_tag` is declared outside the device loop and set only while
the tags of a device in `pPrevious` are visited.  After such a device it says
whether its last tag was found there: the tag had a record when the call
began, or an earlier tag with the same name got one in this call.

## Main results

* `knownLoop` — the analog loop over a known device, described by its tags and
  by the records the device has when it is entered.
* `flag_left` — the flag with which a device is entered, described by the
  devices before it.
-/

namespace DatahubEdge.Message

open Lib Lib.Fold

/-! ## The tags of a known device -/

section Tags

variable (subJsonRefDev : Option CJson) (dev : Obj Record)

/-- The configuration of a tag, where it can be read. -/
def cached (name : Option CString) : Option TagConfig :=
  (readConfig subJsonRefDev name).toOption.join

/-- The configuration in force at a tag after the tags `done`: none once one
of them has cleared `match_config`. -/
def configAt (done : List AnalogTag) (name : Option CString) :
    Option TagConfig :=
  if done.all fun tag => (cached subJsonRefDev tag.name).isSome then
    cached subJsonRefDev name
  else none

/-- Some value submitted by the tags passes the filter against the records
the device is entered with. -/
def Moves : List AnalogTag → Prop :=
  SomeItem fun done tag => ∃ name, tag.name = some name ∧
    passing ((getObjectItem dev (some name)).bind fun record =>
      (configAt subJsonRefDev done (some name)).map fun c =>
        (c, .live record)) tag ≠ []

/-- After the tags the device has a record under the name: it is entered with
one, or a tag of that name submits a value, or stores an empty record because
a value has passed. -/
def HasRecord (done : List AnalogTag) (name : CString) : Prop :=
  (getObjectItem dev (some name)).isSome = true ∨
    SomeItem (fun pre tag => ∃ m, tag.name = some m ∧ lower m = lower name ∧
      (leaves tag ≠ [] ∨ Moves subJsonRefDev dev (pre ++ [tag]))) done

end Tags

section KnownDevice

variable {subJsonRefDev : Option CJson} {dev : Obj Record}
  {done : List AnalogTag} {tag : AnalogTag} {t u : TagLoop}

theorem cached_of_lookupConfig {matchConfig : Bool} {name : Option CString}
    {config : Option TagConfig} (hm : matchConfig = true)
    (h : lookupConfig subJsonRefDev matchConfig name = .ok config) :
    config = cached subJsonRefDev name := by
  rw [lookupConfig, if_pos hm] at h
  rw [cached, h]
  rfl

/-- The variables of the analog loop over a known device after the tags
`done`. -/
structure KnownLoop (subJsonRefDev : Option CJson) (dev : Obj Record)
    (done : List AnalogTag) (t : TagLoop) : Prop where
  config : t.matchConfig = (subJsonRefDev.isSome &&
    done.all fun tag => (cached subJsonRefDev tag.name).isSome)
  valid : t.valid = true ↔ Moves subJsonRefDev dev done
  same : t.valid = false → t.subJsonPreDev = dev
  records : ∀ n, (getObjectItem t.subJsonPreDev (some n)).isSome = true ↔
    HasRecord subJsonRefDev dev done n

/-- The configuration a turn loads is the one in force. -/
theorem KnownLoop.loaded (h : KnownLoop subJsonRefDev dev done t)
    {name : Option CString} {config : Option TagConfig}
    (hload : lookupConfig subJsonRefDev t.matchConfig name = .ok config) :
    config = configAt subJsonRefDev done name := by
  have hm := h.config
  unfold configAt
  cases hall : done.all fun tag => (cached subJsonRefDev tag.name).isSome with
  | false =>
      rw [hall, Bool.and_false] at hm
      rw [lookupConfig, hm] at hload
      cases hload
      rfl
  | true =>
      rw [hall, Bool.and_true] at hm
      rw [if_pos rfl]
      cases hdev : subJsonRefDev with
      | none =>
          rw [hdev, Option.isSome_none] at hm
          rw [lookupConfig, hm] at hload
          cases hload
          rfl
      | some node =>
          rw [hdev, Option.isSome_some] at hm
          rw [← hdev]
          exact cached_of_lookupConfig hm hload

/-- The flag `match_config` after a turn. -/
theorem KnownLoop.config_step (h : KnownLoop subJsonRefDev dev done t)
    {config : Option TagConfig}
    (hload : lookupConfig subJsonRefDev t.matchConfig tag.name = .ok config) :
    config.isSome = (subJsonRefDev.isSome &&
      (done ++ [tag]).all fun tag =>
        (cached subJsonRefDev tag.name).isSome) := by
  rw [h.loaded hload, configAt, List.all_append]
  cases hall : done.all fun tag => (cached subJsonRefDev tag.name).isSome with
  | false => simp
  | true =>
      cases hdev : subJsonRefDev with
      | none => rfl
      | some node => simp

/-- A tag moves the filter against the entry records exactly when `valid` is
set after its turn. -/
theorem KnownLoop.valid_step (h : KnownLoop subJsonRefDev dev done t)
    {name : CString} {config : Option TagConfig} {s : TagLoop}
    (hname : tag.name = some name)
    (hturn : Turn subJsonRefDev true t tag name config s u) :
    validAfter config s tag = true ↔
      Moves subJsonRefDev dev (done ++ [tag]) := by
  have hfilter : filterOf config s =
      (getObjectItem t.subJsonPreDev (some name)).bind fun record =>
        (configAt subJsonRefDev done (some name)).map fun c =>
          (c, .live record) := by
    rw [hturn.looked, filterOf_known, h.loaded hturn.loaded]
  rw [Moves, someItem_snoc, ← Moves, ← h.valid, validAfter, hturn.valid,
    Bool.or_eq_true]
  cases hv : t.valid with
  | true => simp
  | false =>
      rw [hfilter, h.same hv]
      constructor
      · rintro (h | hpass)
        · cases h
        · refine .inr ⟨name, hname, ?_⟩
          simpa using hpass
      · rintro (h | ⟨n, hn, hpass⟩)
        · cases h
        · rw [hname] at hn
          cases hn
          exact .inr (by simpa using hpass)

/-- After a turn the device object has the records `HasRecord` names. -/
theorem KnownLoop.records_step (h : KnownLoop subJsonRefDev dev done t)
    {name : CString} {config : Option TagConfig} {s : TagLoop}
    (hname : tag.name = some name)
    (hturn : Turn subJsonRefDev true t tag name config s u) (n : CString) :
    (getObjectItem u.subJsonPreDev (some n)).isSome = true ↔
      HasRecord subJsonRefDev dev (done ++ [tag]) n := by
  have hdev : s.subJsonPreDev = t.subJsonPreDev := hturn.dev
  have hvalid := h.valid_step hname hturn
  have hsnoc : HasRecord subJsonRefDev dev (done ++ [tag]) n ↔
      HasRecord subJsonRefDev dev done n ∨ (lower name = lower n ∧
        (leaves tag ≠ [] ∨ validAfter config s tag = true)) := by
    rw [HasRecord, someItem_snoc, ← or_assoc, ← HasRecord, hvalid, hname]
    simp
  rw [hsnoc, hturn.dev_after]
  by_cases hn : lower name = lower n
  · have hflag : FlagCurrent s name := by
      rw [FlagCurrent, hdev, hturn.looked, lookedUp_matchPreviousTag_known]
    have hcongr := fun o : Obj Record => getObjectItem_congr hn o
    rw [← hcongr, getObjectItem_devAfter_self hflag, hdev, hcongr, ← h.records]
    cases hv : validAfter config s tag with
    | true => simp [hn]
    | false =>
        simp only [Bool.false_eq_true, if_false, or_false, hn, true_and]
        refine ⟨.inl, ?_⟩
        rintro (hrec | hleaves)
        · exact hrec
        · -- a tag without a record is not filtered
          by_contra hnone
          rw [Bool.not_eq_true, Option.isSome_eq_false_iff,
            Option.isNone_iff_eq_none, ← hcongr] at hnone
          have hpass := (passing_of_not_validAfter hv).2
          rw [hturn.looked, filterOf_known, hnone, Option.bind_none,
            passing_none] at hpass
          exact hleaves hpass
  · rw [getObjectItem_devAfter_ne config s tag (Ne.symm hn), hdev, h.records]
    simp [hn]

theorem KnownLoop.step (h : KnownLoop subJsonRefDev dev done t)
    (hstep : analogStep subJsonRefDev true t tag = .ok u) :
    KnownLoop subJsonRefDev dev (done ++ [tag]) u := by
  cases hname : tag.name with
  | none =>
      obtain ⟨config, hload, hsend⟩ := bind_eq_ok hstep
      have hconfig := h.config_step hload
      unfold sendTag at hsend
      rw [hname] at hsend
      have hu : u = lookedUp config true t none := (Except.ok.inj hsend).symm
      have hmoves : Moves subJsonRefDev dev (done ++ [tag]) ↔
          Moves subJsonRefDev dev done := by
        rw [Moves, someItem_snoc, ← Moves]
        simp [hname]
      refine ⟨?_, ?_, ?_, ?_⟩
      · rw [hu, lookedUp_matchConfig, hconfig]
      · rw [hu, lookedUp_valid, hmoves, h.valid]
      · rw [hu, lookedUp_valid, lookedUp_subJsonPreDev]
        exact h.same
      · intro n
        rw [hu, lookedUp_subJsonPreDev, h.records, HasRecord, HasRecord,
          someItem_snoc]
        simp [hname]
  | some name =>
      obtain ⟨config, s, hturn⟩ := analogStep_ok hname hstep
      have hload := hturn.loaded
      rw [← hname] at hload
      have hvalid := h.valid_step hname hturn
      refine ⟨?_, ?_, ?_, h.records_step hname hturn⟩
      · rw [hturn.sent, sentTag, hturn.looked, lookedUp_matchConfig,
          h.config_step hload]
      · rw [hturn.valid_after]
        exact hvalid
      · intro hv
        rw [hturn.valid_after] at hv
        have hold := (passing_of_not_validAfter hv).1
        rw [hturn.valid] at hold
        rw [hturn.dev_after, ← h.same hold, ← hturn.dev]
        simp [devAfter, hv]

end KnownDevice

/-- The analog loop over a known device. -/
theorem knownLoop {subJsonRefD : Option CJson} {l : DeviceLoop}
    {device : EdgeDevice} {done : List AnalogTag} {t : TagLoop}
    (h : done.foldlM
      (analogStep (CJson.getItem subJsonRefD device.id) true)
      (enterDevice subJsonRefD l device) = .ok t) :
    KnownLoop (CJson.getItem subJsonRefD device.id)
      ((getObjectItem l.pPrevious device.id).getD []) done t := by
  refine foldlM_invariant (P := KnownLoop (CJson.getItem subJsonRefD device.id)
    ((getObjectItem l.pPrevious device.id).getD [])) done t ?_ ?_ h
  · refine ⟨by simp [enterDevice], ?_, fun _ => rfl, ?_⟩
    · have hnone := not_someItem_nil fun (done : List AnalogTag) tag =>
        ∃ name, tag.name = some name ∧
          passing ((getObjectItem ((getObjectItem l.pPrevious
            device.id).getD []) (some name)).bind fun record =>
              (configAt (CJson.getItem subJsonRefD device.id) done
                (some name)).map fun c => (c, .live record)) tag ≠ []
      simp only [enterDevice, Bool.false_eq_true, false_iff]
      exact hnone
    · intro n
      rw [HasRecord, or_iff_left (not_someItem_nil _)]
      rfl
  · intro pre t tag u _ ht hstep
    exact ht.step hstep

/-! ## The flag after a device -/

section Device

variable {subJsonRefD : Option CJson} {l : DeviceLoop} {device : EdgeDevice}
  {t : TagLoop}

theorem analogStep_flag {subJsonRefDev : Option CJson}
    {matchPreviousDev : Bool} {t u : TagLoop} {tag : AnalogTag}
    (h : analogStep subJsonRefDev matchPreviousDev t tag = .ok u) :
    u.matchPreviousTag =
      if matchPreviousDev then (getObjectItem t.subJsonPreDev tag.name).isSome
      else t.matchPreviousTag := by
  cases hname : tag.name with
  | none =>
      obtain ⟨config, rfl⟩ := analogStep_ok_noname hname h
      rw [lookedUp_eq]
  | some name =>
      obtain ⟨config, s, hturn⟩ := analogStep_ok hname h
      rw [hturn.sent, sentTag, hturn.looked, lookedUp_eq]

/-- An unknown device leaves the flag as it found it. -/
theorem analogLoop_flag_unknown (hk : knownDevice l.pPrevious device = false)
    (h : analogLoop subJsonRefD l device = .ok t) :
    t.matchPreviousTag = l.matchPreviousTag := by
  rw [analogLoop, hk] at h
  refine foldlM_keeps TagLoop.matchPreviousTag ?_ h
  intro s tag u _ hstep
  exact analogStep_flag hstep

/-- A known device leaves the outcome of its last record lookup. -/
theorem analogLoop_flag_known (hk : knownDevice l.pPrevious device = true)
    {init : List AnalogTag} {last : AnalogTag}
    (htags : device.analogTagList = init ++ [last])
    (h : analogLoop subJsonRefD l device = .ok t) :
    t.matchPreviousTag = true ↔ ∃ n, last.name = some n ∧
      HasRecord (CJson.getItem subJsonRefD device.id)
        ((getObjectItem l.pPrevious device.id).getD []) init n := by
  rw [analogLoop, hk, htags] at h
  obtain ⟨s, hinit, hlast⟩ := foldlM_snoc_eq_ok h
  have hloop := knownLoop hinit
  rw [analogStep_flag hlast, if_pos rfl]
  cases hname : last.name with
  | none => simp
  | some n => simp [hloop.records n]

end Device

/-! ## The flag after some devices -/

/-- The device is in `pPrevious` and its last analog tag is found there. -/
def LeavesFlag (subJsonRefD : Option CJson) (p : Previous)
    (device : EdgeDevice) : Prop :=
  knownDevice p device = true ∧ ∃ init last n,
    device.analogTagList = init ++ [last] ∧ last.name = some n ∧
    HasRecord (CJson.getItem subJsonRefD device.id)
      ((getObjectItem p device.id).getD []) init n

/-- The device sets the flag, one way or the other. -/
def SetsFlag (p : Previous) (device : EdgeDevice) : Prop :=
  knownDevice p device = true ∧ device.analogTagList ≠ []

/-- The last device that sets the flag leaves it set. -/
def FlagLeft (subJsonRefD : Option CJson) (p : Previous)
    (devices : List EdgeDevice) : Prop :=
  ∃ pre device post, devices = pre ++ device :: post ∧
    LeavesFlag subJsonRefD p device ∧ ∀ b ∈ post, ¬ SetsFlag p b

section FlagLeft

variable {subJsonRefD : Option CJson} {p : Previous}
  {done : List EdgeDevice} {device : EdgeDevice}

theorem flagLeft_snoc :
    FlagLeft subJsonRefD p (done ++ [device]) ↔
      LeavesFlag subJsonRefD p device ∨
        (FlagLeft subJsonRefD p done ∧ ¬ SetsFlag p device) := by
  constructor
  · rintro ⟨pre, d, post, hsplit, hleaves, hpost⟩
    induction post using List.reverseRecOn with
    | nil =>
        obtain ⟨_, hd⟩ := List.append_inj' hsplit rfl
        cases hd
        exact .inl hleaves
    | append_singleton post b _ =>
        rw [← List.cons_append, ← List.append_assoc] at hsplit
        obtain ⟨rfl, hb⟩ := List.append_inj' hsplit rfl
        cases hb
        refine .inr ⟨⟨pre, d, post, rfl, hleaves, ?_⟩, hpost _ (by simp)⟩
        intro b hb
        exact hpost b (List.mem_append_left _ hb)
  · rintro (hleaves | ⟨⟨pre, d, post, rfl, hleaves, hpost⟩, hnot⟩)
    · exact ⟨done, device, [], rfl, hleaves, by simp⟩
    · refine ⟨pre, d, post ++ [device], by simp, hleaves, ?_⟩
      intro b hb
      rcases List.mem_append.mp hb with hb | hb
      · exact hpost b hb
      · rw [List.mem_singleton.mp hb]
        exact hnot

theorem not_flagLeft_nil : ¬ FlagLeft subJsonRefD p [] := by
  rintro ⟨pre, d, post, hsplit, _⟩
  simp at hsplit

variable {devices : List EdgeDevice} {l : DeviceLoop}

/-- With distinct ids the entry of a device is untouched until its turn. -/
theorem entry_of_visit (hids : Distinct (devices.map EdgeDevice.id))
    (h : Visits (deviceStep subJsonRefD) (startLoop p) devices done l device) :
    getObjectItem l.pPrevious device.id = getObjectItem p device.id := by
  cases hid : device.id with
  | none => rfl
  | some id =>
      obtain ⟨post, rfl⟩ := h.split
      refine deviceLoop_frame ?_ h.reach
      intro b hb
      exact hids.ne hid b (List.mem_append_left _ hb)

/-- The flag with which a device is entered. -/
theorem flag_left (hids : Distinct (devices.map EdgeDevice.id))
    (h : Visits (deviceStep subJsonRefD) (startLoop p) devices done l device) :
    l.matchPreviousTag = true ↔ FlagLeft subJsonRefD p done := by
  obtain ⟨rest, hsplit⟩ := h.split
  refine foldlM_invariant
    (P := fun done l => l.matchPreviousTag = true ↔
      FlagLeft subJsonRefD p done) done l ?_ ?_ h.reach
  · simp [startLoop, not_flagLeft_nil]
  · intro pre l b m hvisit hl hstep
    have hvisit' := hvisit.append (device :: rest)
    rw [← hsplit] at hvisit'
    have hentry := entry_of_visit hids hvisit'
    have hknown : knownDevice l.pPrevious b = knownDevice p b := by
      rw [knownDevice, knownDevice, hentry]
    obtain ⟨t, hloop, _, _, hflag, _⟩ := deviceStep_ok hstep
    rw [hflag, flagLeft_snoc, ← hl]
    cases hk : knownDevice p b with
    | false =>
        rw [analogLoop_flag_unknown (hknown.trans hk) hloop]
        simp [LeavesFlag, SetsFlag, hk]
    | true =>
        rcases List.eq_nil_or_concat b.analogTagList with hnil | ⟨init, last, htags⟩
        · rw [analogLoop, hnil] at hloop
          cases hloop
          simp [LeavesFlag, SetsFlag, hnil, enterDevice]
        · rw [List.concat_eq_append] at htags
          rw [analogLoop_flag_known (hknown.trans hk) htags hloop, hentry]
          constructor
          · rintro ⟨n, hn, hrec⟩
            exact .inl ⟨hk, init, last, n, htags, hn, hrec⟩
          · rintro (⟨_, init', last', n, htags', hn, hrec⟩ | ⟨_, hnot⟩)
            · rw [htags] at htags'
              obtain ⟨rfl, hlast⟩ := List.append_inj' htags' rfl
              cases hlast
              exact ⟨n, hn, hrec⟩
            · exact absurd ⟨hk, by simp [htags]⟩ hnot

end FlagLeft

end DatahubEdge.Message
