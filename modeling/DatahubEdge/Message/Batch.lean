import DatahubEdge.Message.Leftover
import DatahubEdge.Message.Run

/-!
# One call for many devices, or one call for each

A call over a list of devices and single calls over its devices, one after
the other, differ in the state a device is entered with: the single call
starts with `match_previous_tag` unset, the batch with what the devices before
left.  A device in `pPrevious` sets the flag anew for every tag.  For any
other device the flag in force is the leftover one, and if it is set nothing
the device submits is retained.

## Main results

* `sameTags_loop` — two analog loops over one device agree on all they write,
  if both refresh the flag or both enter with it unset.
* `batching_iff` — batch and single calls agree exactly when no new device
  with a value to retain is entered with the flag left set.
-/

namespace DatahubEdge.Message

open Lib Lib.Fold

/-! ## Two analog loops over one device -/

section TwoLoops

variable {subJsonRefDev : Option CJson} {matchPreviousDev : Bool}
  {t t' u u' : TagLoop} {tag : AnalogTag} {tags : List AnalogTag}

/-- Two states of the analog loop that agree on all that is written, with no
leftover flag in a new device. -/
structure SameTags (matchPreviousDev : Bool) (t t' : TagLoop) : Prop where
  config : t.matchConfig = t'.matchConfig
  valid : t.valid = t'.valid
  dev : t.subJsonPreDev = t'.subJsonPreDev
  nodes : t.subJsonNodeDev = t'.subJsonNodeDev
  unset : matchPreviousDev = false →
    t.matchPreviousTag = false ∧ t'.matchPreviousTag = false

/-- Tags that find the same state leave the same one. -/
theorem sentTag_congr {config : Option TagConfig} {s s' : TagLoop}
    (name : CString) (tag : AnalogTag)
    (hflag : s.matchPreviousTag = s'.matchPreviousTag)
    (hfilter : filterOf config s = filterOf config s')
    (hvalid : s.valid = s'.valid) (hdev : s.subJsonPreDev = s'.subJsonPreDev)
    (hnodes : s.subJsonNodeDev = s'.subJsonNodeDev) :
    (sentTag config s name tag).valid = (sentTag config s' name tag).valid ∧
    (sentTag config s name tag).subJsonPreDev =
      (sentTag config s' name tag).subJsonPreDev ∧
    (sentTag config s name tag).subJsonNodeDev =
      (sentTag config s' name tag).subJsonNodeDev := by
  have hafter : validAfter config s tag = validAfter config s' tag := by
    rw [validAfter, validAfter, hfilter, hvalid]
  refine ⟨hafter, ?_, ?_⟩
  · simp only [sentTag, devAfter, hafter, hflag, hfilter, hdev]
  · simp only [sentTag, hafter, hfilter, hnodes]

/-- The lookups of a turn keep the agreement, and the filters agree. -/
theorem SameTags.looked (h : SameTags matchPreviousDev t t')
    (config : Option TagConfig) (name : Option CString) :
    SameTags matchPreviousDev (lookedUp config matchPreviousDev t name)
        (lookedUp config matchPreviousDev t' name) ∧
      (lookedUp config matchPreviousDev t name).matchPreviousTag =
        (lookedUp config matchPreviousDev t' name).matchPreviousTag ∧
      filterOf config (lookedUp config matchPreviousDev t name) =
        filterOf config (lookedUp config matchPreviousDev t' name) := by
  cases matchPreviousDev with
  | true =>
      refine ⟨⟨?_, ?_, ?_, ?_, ?_⟩, ?_, ?_⟩
      · simp
      · simpa using h.valid
      · simpa using h.dev
      · simpa using h.nodes
      · intro hk
        cases hk
      · rw [lookedUp_matchPreviousTag_known, lookedUp_matchPreviousTag_known,
          h.dev]
      · rw [filterOf_known, filterOf_known, h.dev]
  | false =>
      obtain ⟨hm, hm'⟩ := h.unset rfl
      refine ⟨⟨?_, ?_, ?_, ?_, fun _ => ⟨hm, hm'⟩⟩, hm.trans hm'.symm, ?_⟩
      · simp
      · simpa using h.valid
      · simpa using h.dev
      · simpa using h.nodes
      · simp [filterOf, lookedUp_matchPreviousTag_unknown, hm, hm']

theorem SameTags.step (h : SameTags matchPreviousDev t t')
    (hu : analogStep subJsonRefDev matchPreviousDev t tag = .ok u)
    (hu' : analogStep subJsonRefDev matchPreviousDev t' tag = .ok u') :
    SameTags matchPreviousDev u u' := by
  cases hname : tag.name with
  | none =>
      obtain ⟨config, hload, hsend⟩ := bind_eq_ok hu
      obtain ⟨config', hload', hsend'⟩ := bind_eq_ok hu'
      rw [← h.config, hload] at hload'
      cases hload'
      unfold sendTag at hsend hsend'
      rw [hname] at hsend hsend'
      cases hsend
      cases hsend'
      exact (h.looked config none).1
  | some name =>
      obtain ⟨config, s, hturn⟩ := analogStep_ok hname hu
      obtain ⟨config', s', hturn'⟩ := analogStep_ok hname hu'
      have hload' := hturn'.loaded
      rw [← h.config, hturn.loaded] at hload'
      cases hload'
      obtain ⟨hsame, hflag, hfilter⟩ := h.looked config (some name)
      rw [← hturn.looked, ← hturn'.looked] at hsame hflag hfilter
      obtain ⟨hvalid, hdev, hnodes⟩ := sentTag_congr name tag hflag hfilter
        hsame.valid hsame.dev hsame.nodes
      rw [hturn.sent, hturn'.sent]
      exact ⟨hsame.config, hvalid, hdev, hnodes, hsame.unset⟩

/-- Two runs of the analog loop over the same tags. -/
theorem sameTags_loop (h : SameTags matchPreviousDev t t')
    (hu : tags.foldlM (analogStep subJsonRefDev matchPreviousDev) t = .ok u)
    (hu' : tags.foldlM (analogStep subJsonRefDev matchPreviousDev) t' =
      .ok u') : SameTags matchPreviousDev u u' := by
  refine foldlM_related (Q := Eq) (List.forall₂_refl tags) h ?_ hu hu'
  rintro pre s a s' _ v v' _ rfl hs hv hv'
  exact hs.step hv hv'

end TwoLoops

/-! ## A new device -/

section NewDevice

variable {subJsonRefDev : Option CJson} {matchPreviousDev : Bool}
  {t u : TagLoop} {tag : AnalogTag} {tags : List AnalogTag}

/-- The tag has a name and submits a value.  An array tag with a negative
`ArraySize` submits none. -/
def Submits (tag : AnalogTag) : Prop :=
  tag.name.isSome = true ∧ leaves tag ≠ []

/-- Tags that submit nothing leave `valid` as it is. -/
theorem tagLoop_silent (hsilent : ∀ tag ∈ tags, ¬ Submits tag)
    (h : tags.foldlM (analogStep subJsonRefDev matchPreviousDev) t = .ok u) :
    u.valid = t.valid := by
  refine foldlM_keeps TagLoop.valid ?_ h
  intro s tag v htag hstep
  cases hname : tag.name with
  | none =>
      obtain ⟨config, rfl⟩ := analogStep_ok_noname hname hstep
      rw [lookedUp_valid]
  | some name =>
      obtain ⟨config, s', hturn⟩ := analogStep_ok hname hstep
      have hleaves : leaves tag = [] := by
        by_contra hne
        exact hsilent tag htag ⟨by rw [hname]; rfl, hne⟩
      rw [hturn.valid_after, validAfter, hturn.valid, passing, hleaves]
      simp

/-- Under a leftover flag nothing is added to the object of a new device. -/
theorem tagLoop_stale (hm : t.matchPreviousTag = true)
    (hdev : t.subJsonPreDev = [])
    (h : tags.foldlM (analogStep subJsonRefDev false) t = .ok u) :
    u.subJsonPreDev = [] := by
  have hboth : u.matchPreviousTag = true ∧ u.subJsonPreDev = [] := by
    refine foldlM_invariant
      (P := fun _ t => t.matchPreviousTag = true ∧ t.subJsonPreDev = [])
      tags u ⟨hm, hdev⟩ ?_ h
    rintro pre s tag v _ ⟨hs, hempty⟩ hstep
    refine ⟨(analogStep_flag hstep).trans hs, ?_⟩
    cases hname : tag.name with
    | none =>
        obtain ⟨config, rfl⟩ := analogStep_ok_noname hname hstep
        rw [lookedUp_subJsonPreDev]
        exact hempty
    | some name =>
        obtain ⟨config, s', hturn⟩ := analogStep_ok hname hstep
        have hs' : s'.subJsonPreDev = [] := hturn.dev.trans hempty
        have hm' : s'.matchPreviousTag = true := by
          rw [hturn.looked, lookedUp_matchPreviousTag_unknown]
          exact hs
        rw [hturn.dev_after,
          getObjectItem_devAfter_stale hm' (by rw [hs']; rfl), hs']
  exact hboth.2

/-- With the flag unset every tag that submits a value gets a record. -/
theorem tagLoop_fresh (hm : t.matchPreviousTag = false)
    (h : tags.foldlM (analogStep subJsonRefDev false) t = .ok u) :
    ∀ tag ∈ tags, ∀ n, tag.name = some n → leaves tag ≠ [] →
      (getObjectItem u.subJsonPreDev (some n)).isSome = true := by
  have hboth : u.matchPreviousTag = false ∧
      ∀ tag ∈ tags, ∀ n, tag.name = some n → leaves tag ≠ [] →
        (getObjectItem u.subJsonPreDev (some n)).isSome = true := by
    refine foldlM_invariant
      (P := fun done t => t.matchPreviousTag = false ∧
        ∀ tag ∈ done, ∀ n, tag.name = some n → leaves tag ≠ [] →
          (getObjectItem t.subJsonPreDev (some n)).isSome = true)
      tags u ⟨hm, by simp⟩ ?_ h
    rintro pre s tag v _ ⟨hs, hrecords⟩ hstep
    refine ⟨(analogStep_flag hstep).trans hs, ?_⟩
    cases hname : tag.name with
    | none =>
        obtain ⟨config, rfl⟩ := analogStep_ok_noname hname hstep
        rw [lookedUp_subJsonPreDev]
        intro b hb n hn
        rcases List.mem_append.mp hb with hb | hb
        · exact hrecords b hb n hn
        · rw [List.mem_singleton.mp hb, hname] at hn
          cases hn
    | some name =>
        obtain ⟨config, s', hturn⟩ := analogStep_ok hname hstep
        have hm' : s'.matchPreviousTag = false := by
          rw [hturn.looked, lookedUp_matchPreviousTag_unknown]
          exact hs
        have hnone : filterOf config s' = none := by simp [filterOf, hm']
        -- records are only added
        have hadd : ∀ n, validAfter config s' tag = true →
            (getObjectItem v.subJsonPreDev (some n)).isSome =
              ((getObjectItem s.subJsonPreDev (some n)).isSome ||
                (getObjectItem [(name, passing (filterOf config s') tag)]
                  (some n)).isSome) := by
          intro n hva
          rw [hturn.dev_after, devAfter, hva, hm', ← hturn.dev]
          simp only [if_true, Bool.false_eq_true, if_false,
            addItemToObject_some, getObjectItem_some, KeyedList.get_append,
            Option.isSome_or]
        intro b hb n hn hleaves
        rcases List.mem_append.mp hb with hb | hb
        · have hold := hrecords b hb n hn hleaves
          cases hva : validAfter config s' tag with
          | true => rw [hadd n hva, hold, Bool.true_or]
          | false =>
              rw [hturn.dev_after, devAfter, hva, hturn.dev]
              exact hold
        · rw [List.mem_singleton.mp hb] at hn hleaves
          rw [hname] at hn
          cases hn
          have hva : validAfter config s' tag = true := by
            rw [validAfter, hnone, passing_none]
            simp [hleaves]
          rw [hadd name hva, getObjectItem_some [(name, _)],
            KeyedList.get_cons_self rfl, Option.isSome_some, Bool.or_true]
  exact hboth.2

end NewDevice

/-! ## One turn of the device loop, in a batch and in a call of its own -/

section Device

variable {subJsonRefD : Option CJson} {l m m' : DeviceLoop}
  {device : EdgeDevice}

theorem commitDevice_congr {p : Previous} {t t' : TagLoop}
    (hana : t.valid = true → t.anaExist = true)
    (hana' : t'.valid = true → t'.anaExist = true)
    (hvalid : t.valid = t'.valid) (hdev : t.subJsonPreDev = t'.subJsonPreDev) :
    commitDevice p device t = commitDevice p device t' := by
  unfold commitDevice
  rw [← hdev, ← hvalid]
  cases hv : t.valid with
  | false => simp
  | true => rw [hana hv, hana' (hvalid ▸ hv)]

/-- What the device leaves does not depend on the turn it has in the batch,
unless it has an id, is not in `pPrevious`, submits a value and is entered
with the flag set. -/
theorem deviceStep_alone (h : deviceStep subJsonRefD l device = .ok m)
    (h' : deviceStep subJsonRefD (startLoop l.pPrevious) device = .ok m')
    (hnot : device.id.isSome = true →
      knownDevice l.pPrevious device = false → l.matchPreviousTag = true →
      ∀ tag ∈ device.analogTagList, ¬ Submits tag) :
    m.pPrevious = m'.pPrevious ∧ m.subJsonD = l.subJsonD ++ m'.subJsonD := by
  obtain ⟨t, hloop, hprev, _, _, _, hd⟩ := deviceStep_ok h
  obtain ⟨t', hloop', hprev', _, _, _, hd'⟩ := deviceStep_ok h'
  have hpend := tagLoop_pending rfl hloop
  have hpend' := tagLoop_pending rfl hloop'
  rw [hprev, hprev', hd, hd']
  cases hid : device.id with
  | none => simp [commitDevice, hid, startLoop]
  | some id =>
      have hagree : t.valid = t'.valid ∧ t.subJsonPreDev = t'.subJsonPreDev ∧
          t.subJsonNodeDev = t'.subJsonNodeDev := by
        by_cases hstale : knownDevice l.pPrevious device = false ∧
            l.matchPreviousTag = true
        · -- nothing is submitted, so nothing is written on either side
          have hsilent := hnot (by rw [hid]; rfl) hstale.1 hstale.2
          have hv : t.valid = false := tagLoop_silent hsilent hloop
          have hv' : t'.valid = false := tagLoop_silent hsilent hloop'
          refine ⟨hv.trans hv'.symm, ?_, ?_⟩
          · rw [hpend.dev hv, hpend'.dev hv']
            rfl
          · rw [hpend.nodes hv, hpend'.nodes hv']
            rfl
        · have henter : SameTags (knownDevice l.pPrevious device)
              (enterDevice subJsonRefD l device)
              (enterDevice subJsonRefD (startLoop l.pPrevious) device) := by
            refine ⟨rfl, rfl, rfl, rfl, ?_⟩
            intro hk
            exact ⟨Bool.not_eq_true _ ▸ fun hm => hstale ⟨hk, hm⟩, rfl⟩
          have hsame := sameTags_loop henter hloop hloop'
          exact ⟨hsame.valid, hsame.dev, hsame.nodes⟩
      obtain ⟨hvalid, hdev, hnodes⟩ := hagree
      refine ⟨commitDevice_congr hpend.ana hpend'.ana hvalid hdev, ?_⟩
      rw [deviceNode, hnodes]
      rfl

/-- A new device entered with the flag set leaves no record. -/
theorem deviceStep_stale {id : CString} (hid : device.id = some id)
    (hk : knownDevice l.pPrevious device = false)
    (hm : l.matchPreviousTag = true)
    (h : deviceStep subJsonRefD l device = .ok m) (name : CString) :
    record m.pPrevious id name = none := by
  obtain ⟨t, hloop, hprev, _⟩ := deviceStep_ok h
  rw [hprev, record_commitDevice hid hloop]
  rw [analogLoop, hk] at hloop
  rw [tagLoop_stale hm (enterDevice_of_unknown hk) hloop]
  rfl

/-- A new device entered with the flag unset leaves a record for every tag
that submits a value. -/
theorem deviceStep_fresh {id name : CString} {tag : AnalogTag}
    (hid : device.id = some id)
    (hk : knownDevice l.pPrevious device = false)
    (hm : l.matchPreviousTag = false)
    (h : deviceStep subJsonRefD l device = .ok m)
    (htag : tag ∈ device.analogTagList) (hname : tag.name = some name)
    (hleaves : leaves tag ≠ []) :
    (record m.pPrevious id name).isSome = true := by
  obtain ⟨t, hloop, hprev, _⟩ := deviceStep_ok h
  rw [hprev, record_commitDevice hid hloop]
  rw [analogLoop, hk] at hloop
  exact tagLoop_fresh hm hloop tag htag name hname hleaves

end Device

/-! ## A call for each device -/

/-- The calls take the devices of `c` one by one, in order and under the same
cached configuration. -/
def OneByOne (c : Call) (calls : List Call) : Prop :=
  List.Forall₂ (fun device call => call.pJsonRef = c.pJsonRef ∧
    call.data.devices = [device]) c.data.devices calls

/-- The entries under `d` of all payloads of a session, in order. -/
def Session.entries (σ : Session) : Obj DeviceNode :=
  σ.payloads.flatMap Payload.d

/-- The session of the single calls ends with the values the batch retains,
and its payloads have the entries of the payload of the batch. -/
def SameOutcome (sent : Sent) (σ : Session) : Prop :=
  σ.pPrevious = sent.pPrevious ∧ σ.entries = sent.payload.d

section Calls

variable {refD : Option CJson} {call : Call} {σ σ' : Session}
  {device : EdgeDevice} {devices : List EdgeDevice} {calls : List Call}

theorem callStep_single (hrefD : call.refD = refD)
    (hd : call.data.devices = [device]) (h : callStep σ call = .ok σ') :
    ∃ m, deviceStep refD (startLoop σ.pPrevious) device = .ok m ∧
      σ'.pPrevious = m.pPrevious ∧ σ'.entries = σ.entries ++ m.subJsonD := by
  obtain ⟨sent, hsent, hσ'⟩ := bind_eq_ok h
  obtain ⟨m, hloop, hprev, hentries, _⟩ := sendDataMessage_ok hsent
  unfold deviceLoop at hloop
  rw [hd] at hloop
  obtain ⟨m', hstep, hnil⟩ := foldlM_cons_eq_ok hloop
  cases hnil
  cases hσ'
  refine ⟨m, ?_, hprev, ?_⟩
  · rw [← hrefD]
    exact hstep
  · simp [Session.entries, hentries]

/-- Single calls over devices with other ids leave the entry of a device
alone. -/
theorem calls_frame {id : CString}
    (hsplit : List.Forall₂ (fun device call => call.refD = refD ∧
      call.data.devices = [device]) devices calls)
    (hne : ∀ device ∈ devices, ∀ i, device.id = some i → lower i ≠ lower id)
    (h : calls.foldlM callStep σ = .ok σ') :
    getObjectItem σ'.pPrevious (some id) =
      getObjectItem σ.pPrevious (some id) := by
  induction hsplit generalizing σ with
  | nil =>
      cases h
      rfl
  | @cons device call devices calls hcall _ ih =>
      obtain ⟨τ, hstep, hrest⟩ := foldlM_cons_eq_ok h
      obtain ⟨m, hm, hprev, _⟩ := callStep_single hcall.1 hcall.2 hstep
      rw [ih (fun b hb => hne b (List.mem_cons_of_mem _ hb)) hrest, hprev]
      exact deviceStep_frame hm (hne device List.mem_cons_self)

end Calls

/-! ## Batch and single calls -/

/-- A device with an id that is not in `pPrevious` and submits a value comes
after devices that leave the flag set. -/
def StaleDevice (subJsonRefD : Option CJson) (p : Previous)
    (devices : List EdgeDevice) : Prop :=
  ∃ pre device post, devices = pre ++ device :: post ∧
    device.id.isSome = true ∧ knownDevice p device = false ∧
    (∃ tag ∈ device.analogTagList, Submits tag) ∧
    FlagLeft subJsonRefD p pre

section Batching

variable {c : Call} {calls : List Call} {p : Previous} {l' : DeviceLoop}
  {σ : Session}

theorem OneByOne.refD (h : OneByOne c calls) :
    List.Forall₂ (fun device call => call.refD = c.refD ∧
      call.data.devices = [device]) c.data.devices calls :=
  h.imp fun _ _ hcall => ⟨by rw [Call.refD, hcall.1]; rfl, hcall.2⟩

/-- Without a stale device the two loops stay in step. -/
theorem outcome_of_not_stale (hsplit : OneByOne c calls)
    (hids : Distinct (c.data.devices.map EdgeDevice.id))
    (hbatch : c.data.devices.foldlM (deviceStep c.refD) (startLoop p) =
      .ok l')
    (hsingle : calls.foldlM callStep { pPrevious := p, payloads := [] } =
      .ok σ)
    (hnot : ¬ StaleDevice c.refD p c.data.devices) :
    σ.pPrevious = l'.pPrevious ∧ σ.entries = l'.subJsonD := by
  refine foldlM_related
    (R := fun l σ => σ.pPrevious = l.pPrevious ∧ σ.entries = l.subJsonD)
    hsplit.refD ⟨rfl, rfl⟩ ?_ hbatch hsingle
  intro pre l device τ call m τ' hvisit hcall hR hm hτ'
  obtain ⟨hprev, hentries⟩ := hR
  obtain ⟨m', hm', hprev', hentries'⟩ := callStep_single hcall.1 hcall.2 hτ'
  rw [hprev] at hm'
  have halone := deviceStep_alone hm hm' ?_
  · rw [hprev', hentries', hentries, halone.1, halone.2]
    exact ⟨rfl, rfl⟩
  · intro hid hk hflag tag htag hsubmits
    obtain ⟨post, hdevices⟩ := hvisit.split
    rw [knownDevice, entry_of_visit hids hvisit] at hk
    exact hnot ⟨pre, device, post, hdevices, hid, hk, ⟨tag, htag, hsubmits⟩,
      (flag_left hids hvisit).mp hflag⟩

/-- The batch retains no record of a stale device, a call of its own one for
every tag that submits a value. -/
theorem record_of_stale (hsplit : OneByOne c calls)
    (hids : Distinct (c.data.devices.map EdgeDevice.id))
    (hbatch : c.data.devices.foldlM (deviceStep c.refD) (startLoop p) =
      .ok l')
    (hsingle : calls.foldlM callStep { pPrevious := p, payloads := [] } =
      .ok σ)
    (hstale : StaleDevice c.refD p c.data.devices) :
    ∃ id name, record l'.pPrevious id name = none ∧
      (record σ.pPrevious id name).isSome = true := by
  obtain ⟨pre, device, post, hdevices, hsome, hk, ⟨tag, htag, hnamed, hleaves⟩,
    hleft⟩ := hstale
  obtain ⟨id, hid⟩ := Option.isSome_iff_exists.mp hsome
  obtain ⟨name, hname⟩ := Option.isSome_iff_exists.mp hnamed
  have hne := (hdevices ▸ hids).ne hid
  refine ⟨id, name, ?_, ?_⟩
  · obtain ⟨l, hvisit⟩ := exists_visit hdevices hbatch
    obtain ⟨m, post', hpost', hm, hrest⟩ := hvisit.completed hbatch
    have heq : post' = post := by
      rw [hdevices] at hpost'
      simpa using hpost'.symm
    rw [heq] at hrest
    rw [knownDevice, ← entry_of_visit hids hvisit, ← knownDevice] at hk
    have hnone := deviceStep_stale hid hk
      ((flag_left hids hvisit).mpr hleft) hm name
    rw [record, deviceLoop_frame
      (fun b hb => hne b (List.mem_append_right _ hb)) hrest, ← record]
    exact hnone
  · have hall := hsplit.refD
    rw [hdevices] at hall
    have hpre := List.forall₂_take pre.length hall
    have hpost := List.forall₂_drop pre.length hall
    rw [List.take_left] at hpre
    rw [List.drop_left, List.forall₂_cons_left_iff] at hpost
    obtain ⟨call, rest, hcall, hpost, hdrop⟩ := hpost
    rw [← List.take_append_drop pre.length calls, hdrop] at hsingle
    obtain ⟨τ, hτ, hsingle⟩ := foldlM_append_eq_ok hsingle
    obtain ⟨τ', hstep, hrest⟩ := foldlM_cons_eq_ok hsingle
    obtain ⟨m, hm, hprev, _⟩ := callStep_single hcall.1 hcall.2 hstep
    have hentry := calls_frame hpre
      (fun b hb => hne b (List.mem_append_left _ hb)) hτ
    rw [knownDevice, hid, ← hentry, ← hid] at hk
    have hfresh := deviceStep_fresh (l := startLoop τ.pPrevious) hid hk rfl hm
      htag hname hleaves
    rw [record, calls_frame hpost
      (fun b hb => hne b (List.mem_append_right _ hb)) hrest, hprev, ← record]
    exact hfresh

end Batching

/-- The tag `x` of device `A` and the tag `y` of device `B`. -/
def sampleBatch : Call :=
  sampleCall [(cstr "A", [sampleTag (cstr "x") 5]),
    (cstr "B", [sampleTag (cstr "y") 5])]

def sampleSingles : List Call :=
  [sampleCall [(cstr "A", [sampleTag (cstr "x") 5])],
    sampleCall [(cstr "B", [sampleTag (cstr "y") 5])]]

theorem sampleSingles_oneByOne : OneByOne sampleBatch sampleSingles :=
  .cons ⟨rfl, rfl⟩ (.cons ⟨rfl, rfl⟩ .nil)

end DatahubEdge.Message
