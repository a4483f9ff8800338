import DatahubEdge.EdgeConfig
import DatahubEdge.Message.Tracking

/-!
# Lookups that are dereferenced unchecked

The filter reads `cJSON_GetObjectItem(subJsonPre_tag, idx)->valuedouble` and
the members `SH`, `SL` and `Deadband` of a cached tag without looking whether
the node is there.  The cached members always are.  The previous value under
an index is there as long as the flag belongs to the tag, the index has been
submitted before, and no rewrite of the record has dropped it.

## Main results

* `lookupConfig_saved` — the configuration lookup never fails on what
  `SaveConfig` wrote.
* `no_missing_node` — a run that keeps to these conditions never reads a
  missing or deleted node.
-/

namespace DatahubEdge.Message

open Lib Lib.Fold

/-! ## The cached configuration -/

/-- `*json_ref` is NULL or a text `SaveConfig` wrote, and `cJSON_Parse` yields
the tree that was printed. -/
def SavedRef (pJsonRef : Option CJson) : Prop :=
  ∀ tree, pJsonRef = some tree → ∃ config, tree = saveConfig config

theorem infoInt_saveTag (tag : AnalogTagConfig) {key : CString}
    (hkey : key = cstr "SH" ∨ key = cstr "SL" ∨ key = cstr "Deadband") :
    ∃ n, infoInt (saveTag tag) key = .ok n := by
  have hsome : ∃ node, getObjectItem (saveTag tag).fields (some key) =
      some node := by
    refine Option.isSome_iff_exists.mp ?_
    rw [getObjectItem_some, KeyedList.get_isSome_iff]
    rcases hkey with rfl | rfl | rfl
    · exact ⟨_, List.mem_append_right _ List.mem_cons_self, rfl⟩
    · exact ⟨_, List.mem_append_right _
        (List.mem_cons_of_mem _ List.mem_cons_self), rfl⟩
    · exact ⟨_, List.mem_append_left _
        (List.mem_append_left _ List.mem_cons_self), rfl⟩
  obtain ⟨node, hnode⟩ := hsome
  exact ⟨node.valueint, by simp [infoInt, hnode]⟩

/-- The configuration lookup of a call never fails on a saved text. -/
theorem lookupConfig_saved {c : Call} (h : SavedRef c.pJsonRef)
    (id name : Option CString) (matchConfig : Bool) (e : Fault) :
    lookupConfig (CJson.getItem c.refD id) matchConfig name ≠ .error e := by
  intro he
  unfold lookupConfig at he
  split at he
  · unfold readConfig at he
    split at he
    · cases he
    · rename_i node hnode
      have hsaved : ∃ tag, node = saveTag tag := by
        rw [Call.refD] at hnode
        cases hp : c.pJsonRef with
        | none =>
            rw [hp] at hnode
            cases hnode
        | some tree =>
            obtain ⟨config, rfl⟩ := h tree hp
            rw [hp] at hnode
            exact saveConfig_tag hnode
      obtain ⟨tag, rfl⟩ := hsaved
      obtain ⟨high, hhigh⟩ := infoInt_saveTag tag (.inl rfl)
      obtain ⟨low, hlow⟩ := infoInt_saveTag tag (.inr (.inl rfl))
      obtain ⟨band, hband⟩ := infoInt_saveTag tag (.inr (.inr rfl))
      rw [hhigh, hlow, hband] at he
      simp only [bind, Except.bind] at he
      split at he <;> cases he
  · cases he

/-! ## The keys submitted so far -/

/-- The keys a tag submits. -/
def tagKeys (id : CString) (tag : AnalogTag) : List Key :=
  match tag.name with
  | none => []
  | some name => (leaves tag).map fun leaf => (id, name, leaf.1)

/-- The keys the analog tags of a list submit. -/
def tagsKeys (id : CString) (tags : List AnalogTag) : List Key :=
  tags.flatMap (tagKeys id)

/-- The keys the devices of a list submit. -/
def submitted (devices : List EdgeDevice) : List Key :=
  devices.flatMap fun device =>
    match device.id with
    | none => []
    | some id => tagsKeys id device.analogTagList

/-- The keys agree, ignoring case in the id and the name. -/
def SameKey (k k' : Key) : Prop :=
  lower k.1 = lower k'.1 ∧ lower k.2.1 = lower k'.2.1 ∧ k.2.2 = k'.2.2

/-- As `TurnOf`, with the keys `done` submitted before: in earlier calls, by
earlier devices of the call and by earlier tags of the device. -/
structure TurnAfter (calls : List Call) (done : List Key) (c : Call)
    (l : DeviceLoop) (device : EdgeDevice) (id : CString) (t : TagLoop)
    (tag : AnalogTag) (name : CString) : Prop where
  turn : ∃ pre preD preT σ, Visits callStep start calls pre σ c ∧
    Visits (deviceStep c.refD) (startLoop σ.pPrevious) c.data.devices preD l
      device ∧
    Visits (analogStep (CJson.getItem c.refD device.id)
      (knownDevice l.pPrevious device)) (enterDevice c.refD l device)
      device.analogTagList preT t tag ∧
    done = submitted (pre.flatMap fun c => c.data.devices) ++
      submitted preD ++ tagsKeys id preT
  id : device.id = some id
  name : tag.name = some name

/-- The state before a turn does not lead to a missing node.  `config` is the
configuration the turn loads. -/
structure LookupsKept (done : List Key) (l : DeviceLoop)
    (device : EdgeDevice) (id : CString) (t : TagLoop) (tag : AnalogTag)
    (name : CString) (config : Option TagConfig) : Prop where
  /-- For a new device `match_previous_tag` tells whether the object under
  construction has a record for the tag. -/
  flag : knownDevice l.pPrevious device = false →
    t.matchPreviousTag = (getObjectItem t.subJsonPreDev (some name)).isSome
  /-- A filtered tag submits no index for the first time. -/
  seen : config.isSome = true →
    (getObjectItem t.subJsonPreDev (some name)).isSome = true →
    ∀ leaf ∈ leaves tag, ∃ k ∈ done, SameKey k (id, name, leaf.1)
  /-- If the record is going to be rewritten, every index it holds passes. -/
  lossless : ∀ r, getObjectItem t.subJsonPreDev (some name) = some r →
    (t.valid = true ∨
      passing (config.map fun cfg => (cfg, .live r)) tag ≠ []) →
    ∀ idx, (getObjectItem r (some idx)).isSome →
      (getObjectItem (passing (config.map fun cfg => (cfg, .live r)) tag)
        (some idx)).isSome

instance (k k' : Key) : Decidable (SameKey k k') :=
  inferInstanceAs (Decidable (_ ∧ _ ∧ _))

theorem lookupsKept_iff (done : List Key) (l : DeviceLoop)
    (device : EdgeDevice) (id : CString) (t : TagLoop) (tag : AnalogTag)
    (name : CString) (config : Option TagConfig) :
    ((knownDevice l.pPrevious device = false →
        t.matchPreviousTag =
          (getObjectItem t.subJsonPreDev (some name)).isSome) ∧
      (config.isSome = true →
        (getObjectItem t.subJsonPreDev (some name)).isSome = true →
        ∀ leaf ∈ leaves tag, ∃ k ∈ done, SameKey k (id, name, leaf.1)) ∧
      ∀ r ∈ getObjectItem t.subJsonPreDev (some name),
        (t.valid = true ∨
          passing (config.map fun cfg => (cfg, .live r)) tag ≠ []) →
        ∀ e ∈ r, (getObjectItem
          (passing (config.map fun cfg => (cfg, .live r)) tag)
          (some e.1)).isSome = true) ↔
      LookupsKept done l device id t tag name config := by
  constructor
  · rintro ⟨hflag, hseen, hlossless⟩
    refine ⟨hflag, hseen, ?_⟩
    intro r hr hrewrite idx hidx
    rw [getObjectItem_some, KeyedList.get_isSome_iff] at hidx
    obtain ⟨e, hmem, hlower⟩ := hidx
    rw [getObjectItem_congr hlower]
    exact hlossless r hr hrewrite e hmem
  · rintro ⟨hflag, hseen, hlossless⟩
    refine ⟨hflag, hseen, ?_⟩
    intro r hr hrewrite e hmem
    exact hlossless r hr hrewrite e.1 (get_isSome_of_mem hmem)

instance (done : List Key) (l : DeviceLoop) (device : EdgeDevice)
    (id : CString) (t : TagLoop) (tag : AnalogTag) (name : CString)
    (config : Option TagConfig) :
    Decidable (LookupsKept done l device id t tag name config) :=
  decidable_of_iff _ (lookupsKept_iff done l device id t tag name config)

/-! ## The invariant -/

/-- A device object answers the lookup of an index. -/
def Answers (dev : Obj Record) (name idx : CString) : Prop :=
  ∃ r, getObjectItem dev (some name) = some r ∧
    (getObjectItem r (some idx)).isSome

theorem Answers.congr {dev : Obj Record} {name name' idx : CString}
    (h : lower name = lower name') (ha : Answers dev name idx) :
    Answers dev name' idx := by
  obtain ⟨r, hr, hidx⟩ := ha
  refine ⟨r, ?_, hidx⟩
  rw [← getObjectItem_congr h]
  exact hr

/-- `pPrevious` answers the lookup of every submitted key. -/
def Answered (p : Previous) (done : List Key) : Prop :=
  ∀ k ∈ done, ∃ r, record p k.1 k.2.1 = some r ∧
    (getObjectItem r (some k.2.2)).isSome

/-- The invariant of the analog loop over the device `id`: its object answers
the lookup of every key submitted for it, and under a flag left over from an
earlier device nothing has been added to the object of a new one. -/
structure LoopAnswers (known : Bool) (id : CString) (done : List Key)
    (t : TagLoop) : Prop where
  answers : ∀ k ∈ done, lower k.1 = lower id →
    Answers t.subJsonPreDev k.2.1 k.2.2
  fresh : known = false → t.matchPreviousTag = true → t.subJsonPreDev = []

section Turn

variable {done : List Key} {c : Call} {l : DeviceLoop} {device : EdgeDevice}
  {id : CString} {t u s : TagLoop} {tag : AnalogTag} {name : CString}
  {config : Option TagConfig}

/-- Under the conditions the flag in force is that of the tag, and a record of
the tag is read by the filter. -/
theorem LookupsKept.filter
    (h : LookupsKept done l device id t tag name config)
    (hinv : LoopAnswers (knownDevice l.pPrevious device) id done t)
    (hs : s = lookedUp config (knownDevice l.pPrevious device) t (some name)) :
    FlagCurrent s name ∧
      filterOf config s = (getObjectItem t.subJsonPreDev (some name)).bind
        fun r => config.map fun cfg => (cfg, .live r) := by
  cases hk : knownDevice l.pPrevious device with
  | true =>
      rw [hk] at hs
      rw [hs, FlagCurrent, lookedUp_matchPreviousTag_known,
        lookedUp_subJsonPreDev, filterOf_known]
      exact ⟨rfl, rfl⟩
  | false =>
      rw [hk] at hs
      have hflag := h.flag hk
      have hm : s.matchPreviousTag = t.matchPreviousTag := by
        rw [hs, lookedUp_matchPreviousTag_unknown]
      have hdev : s.subJsonPreDev = t.subJsonPreDev := by
        rw [hs, lookedUp_subJsonPreDev]
      cases hmt : t.matchPreviousTag with
      | true =>
          rw [hinv.fresh hk hmt, hmt] at hflag
          cases hflag
      | false =>
          rw [hmt] at hflag hm
          have hnone : getObjectItem t.subJsonPreDev (some name) = none :=
            Option.isNone_iff_eq_none.mp
              (Option.isSome_eq_false_iff.mp hflag.symm)
          rw [FlagCurrent, hdev, hm, hnone, filterOf, hm]
          exact ⟨rfl, rfl⟩

/-- Under the conditions every value of the turn can be read. -/
theorem LookupsKept.readable
    (h : LookupsKept done l device id t tag name config)
    (hinv : LoopAnswers (knownDevice l.pPrevious device) id done t)
    (hs : s = lookedUp config (knownDevice l.pPrevious device) t (some name)) :
    ∀ leaf ∈ leaves tag, Readable (filterOf config s) leaf.1 := by
  intro leaf hleaf
  rw [(h.filter hinv hs).2]
  cases hget : getObjectItem t.subJsonPreDev (some name) with
  | none => trivial
  | some r =>
      cases config with
      | none => trivial
      | some cfg =>
          obtain ⟨k, hk, hid, hname, hidx⟩ :=
            h.seen rfl (by rw [hget]; rfl) leaf hleaf
          obtain ⟨r', hr', hsome⟩ := (hinv.answers k hk hid).congr hname
          have hr'' := hget.symm.trans hr'
          cases hr''
          obtain ⟨last, hlast⟩ := Option.isSome_iff_exists.mp hsome
          rw [hidx] at hlast
          exact ⟨r, last, rfl, hlast⟩

/-- After the turn the object answers the lookup of what it answered before
and of what the tag submitted. -/
theorem LookupsKept.answers
    (h : LookupsKept done l device id t tag name config)
    (hinv : LoopAnswers (knownDevice l.pPrevious device) id done t)
    (hname' : tag.name = some name)
    (hturn : Turn (CJson.getItem c.refD (some id))
      (knownDevice l.pPrevious device) t tag name config s u) :
    ∀ k ∈ done ++ tagKeys id tag, lower k.1 = lower id →
      Answers u.subJsonPreDev k.2.1 k.2.2 := by
  obtain ⟨hflag, hfilter⟩ := h.filter hinv hturn.looked
  have hdev : s.subJsonPreDev = t.subJsonPreDev := hturn.dev
  have hself : getObjectItem u.subJsonPreDev (some name) =
      if validAfter config s tag then
        some (passing (filterOf config s) tag)
      else getObjectItem t.subJsonPreDev (some name) := by
    rw [hturn.dev_after, getObjectItem_devAfter_self hflag, hdev]
  -- what the record of the tag held before it still holds
  have hold : ∀ idx, Answers t.subJsonPreDev name idx →
      Answers u.subJsonPreDev name idx := by
    rintro idx ⟨r, hr, hidx⟩
    rw [hr, Option.bind_some] at hfilter
    rw [Answers, hself]
    cases hv : validAfter config s tag with
    | false => exact ⟨r, hr, hidx⟩
    | true =>
        refine ⟨_, rfl, ?_⟩
        rw [hfilter]
        refine h.lossless r hr ?_ idx hidx
        rw [validAfter, hturn.valid, hfilter, Bool.or_eq_true] at hv
        refine hv.imp_right ?_
        simp
  -- an unfiltered tag retains all its values
  have hall : filterOf config s = none → ∀ leaf ∈ leaves tag,
      Answers u.subJsonPreDev name leaf.1 := by
    intro hnone leaf hleaf
    have hpass : leaf ∈ passing (filterOf config s) tag := by
      rw [hnone]
      exact List.mem_filter.mpr ⟨hleaf, rfl⟩
    rw [Answers, hself, validAfter_of_mem_passing hpass]
    exact ⟨_, rfl, get_isSome_of_mem hpass⟩
  intro k hk hid
  rcases List.mem_append.mp hk with hk | hk
  · by_cases hname : lower k.2.1 = lower name
    · exact (hold _ ((hinv.answers k hk hid).congr hname)).congr hname.symm
    · obtain ⟨r, hr, hidx⟩ := hinv.answers k hk hid
      refine ⟨r, ?_, hidx⟩
      rw [hturn.dev_after, getObjectItem_devAfter_ne config s tag hname, hdev]
      exact hr
  · rw [tagKeys, hname'] at hk
    obtain ⟨leaf, hleaf, rfl⟩ := List.mem_map.mp hk
    show Answers u.subJsonPreDev name leaf.1
    cases hget : getObjectItem t.subJsonPreDev (some name) with
    | none =>
        rw [hget] at hfilter
        exact hall hfilter leaf hleaf
    | some r =>
        cases config with
        | none =>
            rw [hget] at hfilter
            exact hall hfilter leaf hleaf
        | some cfg =>
            obtain ⟨k, hk, hkid, hkname, hkidx⟩ :=
              h.seen rfl (by rw [hget]; rfl) leaf hleaf
            have hans := (hinv.answers k hk hkid).congr hkname
            rw [hkidx] at hans
            exact hold _ hans

/-- A turn keeps the invariant of the analog loop. -/
theorem LoopAnswers.step
    (hinv : LoopAnswers (knownDevice l.pPrevious device) id done t)
    (hcond : ∀ name config, tag.name = some name →
      lookupConfig (CJson.getItem c.refD (some id)) t.matchConfig
        (some name) = .ok config →
      LookupsKept done l device id t tag name config)
    (h : analogStep (CJson.getItem c.refD (some id))
      (knownDevice l.pPrevious device) t tag = .ok u) :
    LoopAnswers (knownDevice l.pPrevious device) id
      (done ++ tagKeys id tag) u := by
  cases hname : tag.name with
  | none =>
      obtain ⟨config, rfl⟩ := analogStep_ok_noname hname h
      have hkeys : done ++ tagKeys id tag = done := by simp [tagKeys, hname]
      rw [hkeys]
      refine ⟨?_, ?_⟩
      · rw [lookedUp_subJsonPreDev]
        exact hinv.answers
      · intro hk
        rw [hk, lookedUp_matchPreviousTag_unknown, lookedUp_subJsonPreDev]
        exact hinv.fresh hk
  | some name =>
      obtain ⟨config, s, hturn⟩ := analogStep_ok hname h
      have hkept := hcond name config hname hturn.loaded
      refine ⟨hkept.answers hinv hname hturn, ?_⟩
      intro hk hm
      have hm' : t.matchPreviousTag = true := by
        rw [hturn.sent, sentTag, hturn.looked, hk] at hm
        exact hm
      have hflag := hkept.flag hk
      rw [hinv.fresh hk hm', hm'] at hflag
      cases hflag

/-- Under the conditions a turn fails on an overflow only. -/
theorem LoopAnswers.step_error {e : Fault} (hsaved : SavedRef c.pJsonRef)
    (hinv : LoopAnswers (knownDevice l.pPrevious device) id done t)
    (hcond : ∀ name config, tag.name = some name →
      lookupConfig (CJson.getItem c.refD (some id)) t.matchConfig
        (some name) = .ok config →
      LookupsKept done l device id t tag name config)
    (h : analogStep (CJson.getItem c.refD (some id))
      (knownDevice l.pPrevious device) t tag = .error e) :
    e = .intOverflow := by
  rcases bind_eq_error h with hload | ⟨config, hload, hsend⟩
  · exact absurd hload (lookupConfig_saved hsaved _ _ _ _)
  · rcases sendTag_error hsend with he | ⟨name, hname, leaf, hleaf, hread⟩
    · exact he
    · rw [hname] at hload hread
      exact absurd ((hcond name config hname hload).readable hinv rfl leaf hleaf)
        hread

end Turn

/-! ## A device without an id -/

/-- A device without an id has no configuration, so its loop never filters. -/
theorem analogLoop_noid_error {c : Call} {l : DeviceLoop}
    {device : EdgeDevice} (hid : device.id = none) :
    ∀ e, analogLoop c.refD l device = .error e → e = .intOverflow := by
  refine foldlM_error (P := fun _ t => t.matchConfig = false) ?_ ?_ ?_
  · simp only [enterDevice, hid, CJson.getItem, getObjectItem_none]
    cases c.refD <;> rfl
  · intro pre t tag u _ hm hstep
    obtain ⟨config, hload, hsend⟩ := bind_eq_ok hstep
    rw [lookupConfig, hm, if_neg Bool.false_ne_true] at hload
    cases hload
    cases hname : tag.name with
    | none =>
        obtain ⟨config', rfl⟩ := analogStep_ok_noname hname hstep
        unfold sendTag at hsend
        rw [hname] at hsend
        have hu := congrArg TagLoop.matchConfig (Except.ok.inj hsend)
        rw [← hu]
        exact lookedUp_matchConfig none _ t none
    | some name =>
        rw [hname] at hsend
        rw [sendTag_ok hname hsend, sentTag]
        exact lookedUp_matchConfig none _ t (some name)
  · intro pre t tag e _ hm hstep
    rcases bind_eq_error hstep with hload | ⟨config, hload, hsend⟩
    · rw [lookupConfig, hm, if_neg Bool.false_ne_true] at hload
      cases hload
    · rw [lookupConfig, hm, if_neg Bool.false_ne_true] at hload
      cases hload
      rcases sendTag_error hsend with he | ⟨_, _, leaf, _, hread⟩
      · exact he
      · refine absurd ?_ hread
        unfold filterOf
        split <;> trivial

/-! ## Devices and calls -/

/-- Every turn of the run over a listed tag keeps the lookups. -/
def AllLookupsKept (calls : List Call) : Prop :=
  ∀ done c l device id t tag name, TurnAfter calls done c l device id t tag name →
    ∀ config, lookupConfig (CJson.getItem c.refD (some id)) t.matchConfig
        (some name) = .ok config →
      LookupsKept done l device id t tag name config

section Run

variable {calls : List Call} {before : List Call} {σ : Session} {c : Call}
  {earlier : List EdgeDevice} {l m : DeviceLoop} {device : EdgeDevice}

/-- The keys submitted when a device is entered. -/
def doneBefore (before : List Call) (earlier : List EdgeDevice) : List Key :=
  submitted (before.flatMap fun c => c.data.devices) ++ submitted earlier

theorem doneBefore_snoc (before : List Call) (earlier : List EdgeDevice)
    {device : EdgeDevice} {id : CString} (hid : device.id = some id) :
    doneBefore before (earlier ++ [device]) =
      doneBefore before earlier ++ tagsKeys id device.analogTagList := by
  simp [doneBefore, submitted, hid]

/-- The invariant of the analog loop holds when a device is entered. -/
theorem Answered.enter {done : List Key} {id : CString}
    (hid : device.id = some id) (h : Answered l.pPrevious done) :
    LoopAnswers (knownDevice l.pPrevious device) id done
      (enterDevice c.refD l device) := by
  refine ⟨?_, ?_⟩
  · intro k hk hkid
    obtain ⟨r, hr, hidx⟩ := h k hk
    refine ⟨r, ?_, hidx⟩
    rw [record_congr hkid] at hr
    rw [enterDevice, hid, ← record_eq_getD]
    exact hr
  · intro hk _
    exact enterDevice_of_unknown hk

/-- The analog loop of a device with an id: its invariant, and its errors. -/
theorem analogLoop_answers (hsaved : ∀ c ∈ calls, SavedRef c.pJsonRef)
    (hcond : AllLookupsKept calls) {id : CString} (hid : device.id = some id)
    (hcall : Visits callStep start calls before σ c)
    (hdevice : Visits (deviceStep c.refD) (startLoop σ.pPrevious)
      c.data.devices earlier l device)
    (h : Answered l.pPrevious (doneBefore before earlier)) :
    (∀ t, analogLoop c.refD l device = .ok t →
      LoopAnswers (knownDevice l.pPrevious device) id
        (doneBefore before earlier ++ tagsKeys id device.analogTagList) t) ∧
    ∀ e, analogLoop c.refD l device = .error e → e = .intOverflow := by
  have hkept : ∀ preT t tag,
      Visits (analogStep (CJson.getItem c.refD device.id)
        (knownDevice l.pPrevious device)) (enterDevice c.refD l device)
        device.analogTagList preT t tag →
      ∀ name config, tag.name = some name →
        lookupConfig (CJson.getItem c.refD (some id)) t.matchConfig
          (some name) = .ok config →
        LookupsKept (doneBefore before earlier ++ tagsKeys id preT) l device
          id t tag name config := by
    intro preT t tag hv name config hname hload
    refine hcond _ c l device id t tag name ?_ config hload
    exact ⟨⟨before, earlier, preT, σ, hcall, hdevice, hv, rfl⟩, hid, hname⟩
  have hinit : LoopAnswers (knownDevice l.pPrevious device) id
      (doneBefore before earlier ++ tagsKeys id [])
      (enterDevice c.refD l device) := by
    rw [tagsKeys, List.flatMap_nil, List.append_nil]
    exact h.enter hid
  have hstep : ∀ preT t tag u,
      Visits (analogStep (CJson.getItem c.refD device.id)
        (knownDevice l.pPrevious device)) (enterDevice c.refD l device)
        device.analogTagList preT t tag →
      LoopAnswers (knownDevice l.pPrevious device) id
        (doneBefore before earlier ++ tagsKeys id preT) t →
      analogStep (CJson.getItem c.refD device.id)
        (knownDevice l.pPrevious device) t tag = .ok u →
      LoopAnswers (knownDevice l.pPrevious device) id
        (doneBefore before earlier ++ tagsKeys id (preT ++ [tag])) u := by
    intro preT t tag u hv ht hok
    have hkeys : tagsKeys id (preT ++ [tag]) =
        tagsKeys id preT ++ tagKeys id tag := by simp [tagsKeys]
    rw [hkeys, ← List.append_assoc]
    refine ht.step (hkept preT t tag hv) ?_
    rw [← hid]
    exact hok
  refine ⟨?_, ?_⟩
  · intro t ht
    exact foldlM_invariant
      (P := fun preT t => LoopAnswers (knownDevice l.pPrevious device) id
        (doneBefore before earlier ++ tagsKeys id preT) t)
      device.analogTagList t hinit hstep ht
  · refine foldlM_error
      (P := fun preT t => LoopAnswers (knownDevice l.pPrevious device) id
        (doneBefore before earlier ++ tagsKeys id preT) t) hinit hstep ?_
    intro preT t tag e hv ht herr
    refine ht.step_error (hsaved c hcall.mem) (hkept preT t tag hv) ?_
    rw [← hid]
    exact herr

/-- A device keeps the retained values answering, its own keys included. -/
theorem Answered.step (hsaved : ∀ c ∈ calls, SavedRef c.pJsonRef)
    (hcond : AllLookupsKept calls)
    (hcall : Visits callStep start calls before σ c)
    (hdevice : Visits (deviceStep c.refD) (startLoop σ.pPrevious)
      c.data.devices earlier l device)
    (h : Answered l.pPrevious (doneBefore before earlier))
    (hstep : deviceStep c.refD l device = .ok m) :
    Answered m.pPrevious (doneBefore before (earlier ++ [device])) := by
  obtain ⟨t, hloop, hprev, _⟩ := deviceStep_ok hstep
  cases hid : device.id with
  | none =>
      have hsame : m.pPrevious = l.pPrevious := by
        rw [hprev]
        simp [commitDevice, hid]
      have hkeys : doneBefore before (earlier ++ [device]) =
          doneBefore before earlier := by
        simp [doneBefore, submitted, hid]
      rw [hsame, hkeys]
      exact h
  | some id =>
      have hans := (analogLoop_answers hsaved hcond hid hcall hdevice h).1 t hloop
      rw [doneBefore_snoc before earlier hid]
      intro k hk
      by_cases hkid : lower k.1 = lower id
      · obtain ⟨r, hr, hidx⟩ := hans.answers k hk hkid
        refine ⟨r, ?_, hidx⟩
        rw [record_congr hkid, hprev, record_commitDevice hid hloop]
        exact hr
      · rcases List.mem_append.mp hk with hk | hk
        · obtain ⟨r, hr, hidx⟩ := h k hk
          refine ⟨r, ?_, hidx⟩
          rw [← hr, record, record]
          rw [deviceStep_frame hstep]
          intro i hi heq
          rw [hid] at hi
          cases hi
          exact hkid heq.symm
        · -- the keys of the device carry its id
          obtain ⟨tag, _, hk⟩ := List.mem_flatMap.mp hk
          unfold tagKeys at hk
          split at hk
          · cases hk
          · obtain ⟨leaf, _, rfl⟩ := List.mem_map.mp hk
            exact absurd rfl hkid

end Run

/-! ## Runs -/

/-- The run never reads a member of a missing or of a deleted node. -/
def NoMissingNode (calls : List Call) : Prop :=
  run calls ≠ .error .nullDeref ∧ run calls ≠ .error .useAfterFree

/-- Under the conditions a run fails on overflows only. -/
theorem run_error {calls : List Call}
    (hsaved : ∀ c ∈ calls, SavedRef c.pJsonRef)
    (hcond : AllLookupsKept calls) :
    ∀ e, run calls = .error e → e = .intOverflow ∨ e = .bufferOverflow := by
  refine foldlM_error
    (P := fun before σ => Answered σ.pPrevious (doneBefore before [])) ?_ ?_ ?_
  · intro k hk
    cases hk
  · intro before σ c σ' hcall hσ hstep
    obtain ⟨l', hloop, hprev, _⟩ := callStep_ok hstep
    have hall : Answered l'.pPrevious (doneBefore before c.data.devices) := by
      refine foldlM_invariant
        (P := fun earlier l => Answered l.pPrevious (doneBefore before earlier))
        c.data.devices l' hσ ?_ hloop
      intro earlier l device m hdevice hl hm
      exact hl.step hsaved hcond hcall hdevice hm
    rw [hprev]
    simpa [doneBefore, submitted] using hall
  · intro before σ c e hcall hσ herr
    rcases bind_eq_error herr with hsend | ⟨sent, _, hsent⟩
    · rcases bind_eq_error hsend with hloop | ⟨l', _, hrest⟩
      · refine .inl (foldlM_error
          (P := fun earlier l =>
            Answered l.pPrevious (doneBefore before earlier))
          (E := fun e => e = .intOverflow) hσ ?_ ?_ e hloop)
        · intro earlier l device m hdevice hl hm
          exact hl.step hsaved hcond hcall hdevice hm
        · intro earlier l device e hdevice hl herr
          rcases bind_eq_error herr with hana | ⟨t, _, ht⟩
          · cases hid : device.id with
            | none => exact analogLoop_noid_error hid e hana
            | some id =>
                exact (analogLoop_answers hsaved hcond hid hcall hdevice
                  hl).2 e hana
          · cases ht
      · rcases bind_eq_error hrest with hts | ⟨ts, _, hpure⟩
        · exact .inr (Timestamp.tsMember_error hts)
        · cases hpure
    · cases hsent

/-- No node that is dereferenced unchecked is missing in a run that keeps to
the conditions. -/
theorem no_missing_node {calls : List Call}
    (hsaved : ∀ c ∈ calls, SavedRef c.pJsonRef)
    (hcond : AllLookupsKept calls) : NoMissingNode calls := by
  constructor
  · intro h
    rcases run_error hsaved hcond _ h with h | h <;> cases h
  · intro h
    rcases run_error hsaved hcond _ h with h | h <;> cases h

/-- A new index of a filtered array tag has no previous value. -/
theorem new_index_missing :
    ¬ NoMissingNode
      [sampleCall [(cstr "A", [sampleArray (cstr "x") [⟨1, 5⟩]])],
        sampleCall [(cstr "A", [sampleArray (cstr "x") [⟨1, 5⟩, ⟨2, 5⟩]])]]
      := by
  rintro ⟨hnull, _⟩
  have hfails : (match run
      [sampleCall [(cstr "A", [sampleArray (cstr "x") [⟨1, 5⟩]])],
        sampleCall [(cstr "A", [sampleArray (cstr "x") [⟨1, 5⟩, ⟨2, 5⟩]])]]
      with
      | .error e => decide (e = .nullDeref)
      | .ok _ => false) = true := by decide +kernel
  split at hfails
  · rename_i e he
    rw [of_decide_eq_true hfails] at he
    exact hnull he
  · cases hfails

/-- In the sample run every index is looked up in a record that has it. -/
theorem no_missing_node_within : NoMissingNode sampleRun := by
  refine no_missing_node ?_ ?_
  · intro c hc tree htree
    simp only [sampleRun, List.mem_cons, List.not_mem_nil, or_false] at hc
    rcases hc with rfl | rfl
    · exact ⟨sampleConfig, (Option.some.inj htree).symm⟩
    · exact ⟨sampleConfig, (Option.some.inj htree).symm⟩
  · have hall : ∀ x ∈ turns sampleRun, ∀ id ∈ x.device.id,
        ∀ name ∈ x.tag.name, ∀ config ∈ (lookupConfig
          (CJson.getItem x.c.refD (some id)) x.t.matchConfig
            (some name)).toOption,
        LookupsKept (submitted (x.pre.flatMap fun c => c.data.devices) ++
          submitted x.preD ++ tagsKeys id x.preT) x.l x.device id x.t x.tag name
          config := by decide +kernel
    intro done c l device id t tag name hturn config hload
    obtain ⟨⟨pre, preD, preT, σ, hcall, hindev, hintag, rfl⟩, hid, hname⟩ :=
      hturn
    exact hall _ (mem_turns hcall hindev hintag) id hid name hname config
      (mem_toOption.mpr hload)

end DatahubEdge.Message
