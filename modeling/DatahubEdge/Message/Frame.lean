import DatahubEdge.Message.Run

/-!
# What a call leaves alone in `pPrevious`

`pPrevious` is updated in place: a device that is found is replaced, one that
is not found is appended, and inside a device the records are replaced and
appended in the same way.  The searches compare names ignoring case, so the
entries a call leaves alone are those whose id agrees with no listed id
ignoring case, and inside the others the records whose name agrees with no
listed name ignoring case.

## Main results

* `others_kept` — after a call every entry is still in its place, changed at
  most in the records the call lists, and what is added was listed.
* `other_case_changed` — an entry whose id differs from the listed ids as a
  text, but not ignoring case, is overwritten.
-/

namespace DatahubEdge.Message

open Lib Lib.Fold

/-! ## Listed devices and tags -/

/-- A device of the call agrees with `id` ignoring case. -/
def listsDevice (devices : List EdgeDevice) (id : CString) : Bool :=
  devices.any fun device => device.id.any (caseInsensitiveEq id)

/-- A device of the call agrees with `id` ignoring case and lists an analog
tag that agrees with `name` ignoring case. -/
def listsTag (devices : List EdgeDevice) (id name : CString) : Bool :=
  devices.any fun device => device.id.any (caseInsensitiveEq id) &&
    device.analogTagList.any fun tag => tag.name.any (caseInsensitiveEq name)

/-- The records of a device no tag of the call agrees with, keys included. -/
def unlistedTags (devices : List EdgeDevice) (id : CString)
    (dev : Obj Record) : Obj Record :=
  dev.filter fun e => !listsTag devices id e.1

section Listed

variable {devices : List EdgeDevice} {device : EdgeDevice} {tag : AnalogTag}
  {id id' name name' : CString}

theorem caseInsensitiveEq_congr (h : lower id = lower id') (s : CString) :
    caseInsensitiveEq id s = caseInsensitiveEq id' s := by
  rw [Bool.eq_iff_iff, caseInsensitiveEq_iff, caseInsensitiveEq_iff, h]

theorem listsDevice_congr (h : lower id = lower id') :
    listsDevice devices id = listsDevice devices id' := by
  have hfun : caseInsensitiveEq id = caseInsensitiveEq id' :=
    funext (caseInsensitiveEq_congr h)
  rw [listsDevice, listsDevice, hfun]

theorem listsTag_congr (hid : lower id = lower id')
    (hname : lower name = lower name') :
    listsTag devices id name = listsTag devices id' name' := by
  have hi : caseInsensitiveEq id = caseInsensitiveEq id' :=
    funext (caseInsensitiveEq_congr hid)
  have hn : caseInsensitiveEq name = caseInsensitiveEq name' :=
    funext (caseInsensitiveEq_congr hname)
  rw [listsTag, listsTag, hi, hn]

theorem unlistedTags_congr (h : lower id = lower id') (dev : Obj Record) :
    unlistedTags devices id dev = unlistedTags devices id' dev := by
  apply List.filter_congr
  intro e _
  rw [listsTag_congr h rfl]

theorem listsDevice_of_mem (hdevice : device ∈ devices)
    (hid : device.id = some id') (h : lower id = lower id') :
    listsDevice devices id = true := by
  apply List.any_eq_true.mpr
  refine ⟨device, hdevice, ?_⟩
  rw [hid]
  exact (caseInsensitiveEq_iff id id').mpr h

theorem listsTag_of_mem (hdevice : device ∈ devices)
    (hid : device.id = some id') (h : lower id = lower id')
    (htag : tag ∈ device.analogTagList) (hname : tag.name = some name')
    (h' : lower name = lower name') : listsTag devices id name = true := by
  apply List.any_eq_true.mpr
  refine ⟨device, hdevice, ?_⟩
  rw [hid, Bool.and_eq_true]
  refine ⟨(caseInsensitiveEq_iff id id').mpr h, ?_⟩
  apply List.any_eq_true.mpr
  refine ⟨tag, htag, ?_⟩
  rw [hname]
  exact (caseInsensitiveEq_iff name name').mpr h'

end Listed

/-! ## One turn of the analog loop -/

/-- A turn keeps the records that are not listed. -/
theorem analogStep_unlisted {devices : List EdgeDevice} {device : EdgeDevice}
    {id : CString} {subJsonRefDev : Option CJson} {matchPreviousDev : Bool}
    {t u : TagLoop} {tag : AnalogTag} (hdevice : device ∈ devices)
    (hid : device.id = some id) (htag : tag ∈ device.analogTagList)
    (h : analogStep subJsonRefDev matchPreviousDev t tag = .ok u) :
    unlistedTags devices id u.subJsonPreDev =
      unlistedTags devices id t.subJsonPreDev := by
  cases hname : tag.name with
  | none =>
      obtain ⟨config, rfl⟩ := analogStep_ok_noname hname h
      rw [lookedUp_subJsonPreDev]
  | some name =>
      obtain ⟨config, s, hturn⟩ := analogStep_ok hname h
      have hlisted : ∀ e : CString × Record, lower name = lower e.1 →
          (!listsTag devices id e.1) = false := by
        intro e he
        rw [listsTag_of_mem hdevice hid rfl htag hname he.symm]
        rfl
      rw [hturn.dev_after, ← hturn.dev]
      unfold devAfter
      split
      · split
        · rw [replaceItemInObject_some]
          exact KeyedList.filter_replace hlisted _ _
        · rw [addItemToObject_some, unlistedTags, List.filter_append,
            List.filter_singleton, hlisted (name, _) rfl]
          simp [unlistedTags]
      · rfl

/-! ## The device loop -/

/-- What a call may do to an entry `e` of `pPrevious`. -/
structure Kept (devices : List EdgeDevice) (e e' : CString × Obj Record) :
    Prop where
  id : lower e'.1 = lower e.1
  device : listsDevice devices e.1 = false → e' = e
  tags : unlistedTags devices e.1 e'.2 = unlistedTags devices e.1 e.2

/-- Every entry of `p` is kept in `q`, and the entries added to it are listed
with all their records. -/
def OthersKept (devices : List EdgeDevice) (p q : Previous) : Prop :=
  ∃ kept added, q = kept ++ added ∧ List.Forall₂ (Kept devices) p kept ∧
    ∀ e ∈ added, listsDevice devices e.1 = true ∧
      unlistedTags devices e.1 e.2 = []

section Device

variable {devices : List EdgeDevice} {device : EdgeDevice}

theorem Kept.refl (e : CString × Obj Record) : Kept devices e e :=
  ⟨rfl, fun _ => rfl, rfl⟩

theorem Kept.trans {e f g : CString × Obj Record} (h : Kept devices e f)
    (h' : Kept devices f g) : Kept devices e g where
  id := h'.id.trans h.id
  device := by
    intro hlists
    have hf : f = e := h.device hlists
    subst hf
    exact h'.device hlists
  tags := by
    have hg := h'.tags
    rw [unlistedTags_congr h.id, unlistedTags_congr h.id] at hg
    exact hg.trans h.tags

theorem OthersKept.refl (p : Previous) : OthersKept devices p p :=
  ⟨p, [], (List.append_nil p).symm,
    List.forall₂_same.mpr fun e _ => Kept.refl e, by simp⟩

/-- Two results of keeping an entry in a list, one after the other. -/
theorem forall₂_kept_trans {p q r : Previous}
    (h : List.Forall₂ (Kept devices) p q)
    (h' : List.Forall₂ (Kept devices) q r) :
    List.Forall₂ (Kept devices) p r := by
  induction h generalizing r with
  | nil =>
      cases h'
      exact .nil
  | cons hef _ ih =>
      cases h' with
      | cons hfg hrest => exact .cons (hef.trans hfg) (ih hrest)

/-- Every entry of the result stems from one it keeps. -/
theorem exists_kept_of_mem {p q : Previous}
    (h : List.Forall₂ (Kept devices) p q) {e' : CString × Obj Record}
    (he' : e' ∈ q) : ∃ e ∈ p, Kept devices e e' := by
  induction h with
  | nil => cases he'
  | cons hab _ ih =>
      rcases List.mem_cons.mp he' with rfl | he'
      · exact ⟨_, List.mem_cons_self, hab⟩
      · obtain ⟨e, he, hk⟩ := ih he'
        exact ⟨e, List.mem_cons_of_mem _ he, hk⟩

/-- Keeping every entry of a list that keeps the others. -/
theorem OthersKept.kept {p q r : Previous} (h : OthersKept devices p q)
    (h' : List.Forall₂ (Kept devices) q r) : OthersKept devices p r := by
  obtain ⟨kept, added, rfl, hkept, hadded⟩ := h
  have hflip : List.Forall₂ (flip (Kept devices)) r (kept ++ added) := h'.flip
  have hfirst : List.Forall₂ (Kept devices) kept (r.take kept.length) :=
    (List.forall₂_take_append r kept added hflip).flip
  have hsecond : List.Forall₂ (Kept devices) added (r.drop kept.length) :=
    (List.forall₂_drop_append r kept added hflip).flip
  refine ⟨_, _, (List.take_append_drop kept.length r).symm,
    forall₂_kept_trans hkept hfirst, ?_⟩
  intro e' he'
  obtain ⟨e, he, hee'⟩ := exists_kept_of_mem hsecond he'
  obtain ⟨hlists, htags⟩ := hadded e he
  refine ⟨(listsDevice_congr hee'.id).trans hlists, ?_⟩
  rw [unlistedTags_congr hee'.id, hee'.tags]
  exact htags

/-- The analog loop of a device keeps the records that are not listed. -/
theorem analogLoop_unlisted {subJsonRefD : Option CJson} {l : DeviceLoop}
    {id : CString} {t : TagLoop} (hdevice : device ∈ devices)
    (hid : device.id = some id) (h : analogLoop subJsonRefD l device = .ok t) :
    unlistedTags devices id t.subJsonPreDev =
      unlistedTags devices id
        ((getObjectItem l.pPrevious (some id)).getD []) := by
  have hrun := foldlM_keeps
    (fun t : TagLoop => unlistedTags devices id t.subJsonPreDev)
    (fun _ _ _ htag hstep => analogStep_unlisted hdevice hid htag hstep) h
  rw [← hid]
  exact hrun

/-- A turn of the device loop keeps the others. -/
theorem deviceStep_othersKept {subJsonRefD : Option CJson}
    {p : Previous} {l m : DeviceLoop} (hdevice : device ∈ devices)
    (hp : OthersKept devices p l.pPrevious)
    (h : deviceStep subJsonRefD l device = .ok m) :
    OthersKept devices p m.pPrevious := by
  obtain ⟨t, hloop, hprev, _⟩ := deviceStep_ok h
  rw [hprev]
  cases hid : device.id with
  | none =>
      have hsame : commitDevice l.pPrevious device t = l.pPrevious := by
        simp [commitDevice, hid]
      rw [hsame]
      exact hp
  | some id =>
      have htags := analogLoop_unlisted hdevice hid hloop
      unfold commitDevice knownDevice
      rw [hid]
      cases hget : getObjectItem l.pPrevious (some id) with
      | some old =>
          rw [hget, Option.getD_some] at htags
          rw [getObjectItem_some] at hget
          simp only [Option.isSome_some, if_true]
          split
          · rw [replaceItemInObject_some]
            refine hp.kept ((KeyedList.replace_forall₂ _ hget).imp ?_)
            rintro e e' (rfl | ⟨hkey, hold, rfl⟩)
            · exact Kept.refl _
            · refine ⟨hkey, ?_, ?_⟩
              · intro hnot
                rw [listsDevice_of_mem hdevice hid hkey.symm] at hnot
                cases hnot
              · rw [← unlistedTags_congr hkey, ← unlistedTags_congr hkey, hold]
                exact htags
          · exact hp
      | none =>
          rw [hget, Option.getD_none] at htags
          simp only [Option.isSome_none, Bool.false_eq_true, if_false]
          split
          · obtain ⟨kept, added, hq, hkept, hadded⟩ := hp
            rw [addItemToObject_some, hq, List.append_assoc]
            refine ⟨kept, _, rfl, hkept, ?_⟩
            intro e he
            rcases List.mem_append.mp he with he | he
            · exact hadded e he
            · rw [List.mem_singleton.mp he]
              exact ⟨listsDevice_of_mem hdevice hid rfl, htags⟩
          · exact hp

end Device

/-! ## A call -/

/-- A call keeps the entries of the devices and the records of the tags it
does not list. -/
theorem others_kept {pJsonRef : Option CJson} {now : CString} {p : Previous}
    {data : EdgeData} {sent : Sent}
    (h : sendDataMessage pJsonRef now p data = .ok sent) :
    OthersKept data.devices p sent.pPrevious := by
  obtain ⟨l', hloop, hprev, _⟩ := sendDataMessage_ok h
  rw [hprev]
  refine foldlM_invariant
    (P := fun _ l => OthersKept data.devices p l.pPrevious) data.devices l'
    (OthersKept.refl p) ?_ hloop
  intro pre l device m hv hl hstep
  exact deviceStep_othersKept hv.mem hl hstep

/-- A call that reports a first value keeps what `pPrevious` has of another
device. -/
theorem others_kept_new_device :
    ∃ sent, sendDataMessage none []
        [(cstr "A", [(cstr "x", [(cstr "0", 5)])])]
        (sampleCall [(cstr "B", [sampleTag (cstr "x") 50])]).data = .ok sent ∧
      OthersKept (sampleCall [(cstr "B", [sampleTag (cstr "x") 50])]).data.devices
        [(cstr "A", [(cstr "x", [(cstr "0", 5)])])] sent.pPrevious := by
  obtain ⟨sent, hsent, _⟩ := exists_ok_of_any
    (x := sendDataMessage none [] [(cstr "A", [(cstr "x", [(cstr "0", 5)])])]
      (sampleCall [(cstr "B", [sampleTag (cstr "x") 50])]).data)
    (f := fun _ => true) (by decide)
  exact ⟨sent, hsent, others_kept hsent⟩

/-- A call that lists the device `a` overwrites the entry of the device `A`:
neither the key nor the value of it is left. -/
theorem other_case_changed :
    ∃ sent, sendDataMessage none []
        [(cstr "A", [(cstr "x", [(cstr "0", 5)])])]
        (sampleCall [(cstr "a", [sampleTag (cstr "x") 50])]).data = .ok sent ∧
      (∀ device ∈ (sampleCall
        [(cstr "a", [sampleTag (cstr "x") 50])]).data.devices,
        device.id ≠ some (cstr "A")) ∧
      (cstr "A", [(cstr "x", [(cstr "0", (5 : Rat))])]) ∉ sent.pPrevious := by
  obtain ⟨sent, hsent, hkeys⟩ := exists_ok_of_any
    (x := sendDataMessage none [] [(cstr "A", [(cstr "x", [(cstr "0", 5)])])]
      (sampleCall [(cstr "a", [sampleTag (cstr "x") 50])]).data)
    (f := fun sent => sent.pPrevious.all fun e => e.1 != cstr "A")
    (by decide)
  refine ⟨sent, hsent, by decide, ?_⟩
  intro hmem
  have hne := List.all_eq_true.mp hkeys _ hmem
  simp at hne

end DatahubEdge.Message
