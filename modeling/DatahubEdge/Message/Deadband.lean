import Mathlib.Algebra.Order.Field.Basic
import Mathlib.Tactic.Linarith
import DatahubEdge.Message.Tracking

/-!
# The deadband over whole runs

A value left out of a payload should be within the deadband of the value
reported last, and a value put in should be outside it.  Both hold of the
comparison itself (`exceeds_iff`) when the `int`s it reads are the numbers
that are cached; whether they hold of a run depends on the flags the loops
carry from one tag and one device to the next.

## Main results

* `nothing_missed` — no change is missed in a run in which no tag of an
  unknown device is compared under the flag an earlier device left set, and no
  tag by spans or a deadband that were cut off.
* `nothing_spurious` — nothing is reported needlessly in a run in which every
  turn decides by flags and by the numbers of its own tag.
-/

namespace DatahubEdge.Message

open Lib Lib.Fold Lib.Latest

/-- With ordered spans that are read as they are cached, the comparison is the
one of the deadband in percent of the span. -/
theorem exceeds_iff {config : TagConfig} {cached : CachedTag} {v u : Rat}
    (hexact : config.Exact cached) (h : cached.spanLow < cached.spanHigh) :
    exceeds config v u = true ↔
      cached.deadband * (cached.spanHigh - cached.spanLow) ≤
        |v - u| * 100 := by
  have hspan : (0 : Rat) < cached.spanHigh - cached.spanLow := by linarith
  unfold exceeds
  rw [hexact.spanHigh, hexact.spanLow, hexact.deadband]
  dsimp only
  rw [if_neg (ne_of_gt hspan), decide_eq_true_eq,
    div_le_div_iff₀ (by norm_num) hspan]

theorem readConfig_deadband {subJsonRefDev : Option CJson}
    {name : Option CString} {cfg : TagConfig}
    (h : readConfig subJsonRefDev name = .ok (some cfg)) : cfg.deadband ≠ 0 := by
  unfold readConfig at h
  split at h
  · cases h
  · obtain ⟨spanHigh, _, h⟩ := bind_eq_ok h
    obtain ⟨spanLow, _, h⟩ := bind_eq_ok h
    obtain ⟨deadband, _, h⟩ := bind_eq_ok h
    split at h
    · cases h
    · cases h
      assumption

/-! ## No missed change -/

/-- No call of the run leaves out a value of a listed tag unless an earlier
payload has a value for it and the new one is within the cached deadband of
the latest such value. -/
def NothingMissed (calls : List Call) : Prop :=
  ∀ pre σ c sent, Visits callStep start calls pre σ c →
    sendDataMessage c.pJsonRef c.now σ.pPrevious c.data = .ok sent →
    ∀ device ∈ c.data.devices, ∀ id, device.id = some id →
    ∀ tag ∈ device.analogTagList, ∀ name, tag.name = some name →
    ∀ leaf ∈ leaves tag, ((id, name, leaf.1), leaf.2) ∉ sent.payload.reports →
      ∃ u cached, latest (id, name, leaf.1) σ.reports = some u ∧
        c.cachedTag id name = some cached ∧ cached.deadband ≠ 0 ∧
        (cached.spanLow < cached.spanHigh →
          |leaf.2 - u| * 100 <
            cached.deadband * (cached.spanHigh - cached.spanLow))

/-- The turn compares a tag of a device that is not in `pPrevious` with
whatever an earlier device left behind: the tag has a configuration and the
flag `match_previous_tag` is still set. -/
def StaleCompare (c : Call) (l : DeviceLoop) (device : EdgeDevice)
    (t : TagLoop) (tag : AnalogTag) : Prop :=
  StaleFlag l device t ∧ t.matchConfig = true ∧
    ∃ id name config, device.id = some id ∧ tag.name = some name ∧
      c.cachedConfig id name = .ok (some config)

/-- The turn compares a tag that has a record by `int`s that are not the
numbers cached for the tag.  `p` is `pPrevious` at the start of the call. -/
def TruncatedCompare (c : Call) (p : Previous) (device : EdgeDevice)
    (t : TagLoop) (tag : AnalogTag) : Prop :=
  t.matchConfig = true ∧ ∃ id name r config cached, device.id = some id ∧
    tag.name = some name ∧ record p id name = some r ∧
    c.cachedConfig id name = .ok (some config) ∧
    c.cachedTag id name = some cached ∧ ¬ config.Exact cached

instance (c : Call) (p : Previous) (device : EdgeDevice) (t : TagLoop)
    (tag : AnalogTag) : Decidable (TruncatedCompare c p device t tag) :=
  decidable_of_iff
    (t.matchConfig = true ∧ ∃ id ∈ device.id, ∃ name ∈ tag.name,
      (record p id name).isSome = true ∧
      ∃ config ∈ (c.cachedConfig id name).toOption.join,
      ∃ cached ∈ c.cachedTag id name, ¬ config.Exact cached) <| by
    unfold TruncatedCompare
    simp only [Option.isSome_iff_exists, mem_join_toOption]
    simp only [Option.mem_def]
    constructor
    · rintro ⟨hm, id, hid, name, hname, ⟨r, hr⟩, config, hconfig, cached,
        hcached, hno⟩
      exact ⟨hm, id, name, r, config, cached, hid, hname, hr, hconfig, hcached,
        hno⟩
    · rintro ⟨hm, id, name, r, config, cached, hid, hname, hr, hconfig, hcached,
        hno⟩
      exact ⟨hm, id, hid, name, hname, ⟨r, hr⟩, config, hconfig, cached,
        hcached, hno⟩

/-- Every value a call of the run reports is the first for its device, tag
and index, or the tag has no cached deadband, or the value is outside the
cached deadband of the latest one reported. -/
def NothingSpurious (calls : List Call) : Prop :=
  ∀ pre σ c sent, Visits callStep start calls pre σ c →
    sendDataMessage c.pJsonRef c.now σ.pPrevious c.data = .ok sent →
    ∀ id name idx v, ((id, name, idx), v) ∈ sent.payload.reports →
    ∀ u, latest (id, name, idx) σ.reports = some u →
    ∀ cached, c.cachedTag id name = some cached → cached.deadband ≠ 0 →
      cached.spanLow < cached.spanHigh →
      cached.deadband * (cached.spanHigh - cached.spanLow) ≤ |v - u| * 100

/-- The flags and numbers a turn reads are those of its own tag.  `p` is
`pPrevious` at the start of the call. -/
structure OwnFlags (c : Call) (p : Previous) (l : DeviceLoop)
    (device : EdgeDevice) (t : TagLoop) (tag : AnalogTag)
    (id name : CString) : Prop where
  /-- `match_previous_tag` is not left over from an earlier device. -/
  fresh : ¬ StaleFlag l device t
  /-- What is read for a tag with a deadband and a record are the numbers that
  are cached. -/
  numbers : ∀ cached r, c.cachedTag id name = some cached →
    cached.deadband ≠ 0 → record p id name = some r →
    ∃ config, c.cachedConfig id name = .ok (some config) ∧
      config.Exact cached
  /-- `match_config` has not been cleared by an earlier tag when the tag has
  a deadband and a record. -/
  config : ∀ cfg r, c.cachedConfig id name = .ok (some cfg) →
    record p id name = some r → t.matchConfig = true
  /-- `valid` has not been set by an earlier tag when the tag is a scalar
  within its deadband. -/
  quiet : ∀ cfg r last, c.cachedConfig id name = .ok (some cfg) →
    record p id name = some r → tag.isArray = false →
    getObjectItem r (some (cstr "0")) = some last →
    exceeds cfg tag.value last = false → t.valid = false

theorem ownFlags_iff (c : Call) (p : Previous) (l : DeviceLoop)
    (device : EdgeDevice) (t : TagLoop) (tag : AnalogTag) (id name : CString) :
    (¬ StaleFlag l device t ∧
      (∀ cached ∈ c.cachedTag id name, cached.deadband ≠ 0 →
        (record p id name).isSome = true →
        ∃ config ∈ (c.cachedConfig id name).toOption.join,
          config.Exact cached) ∧
      ∀ config ∈ (c.cachedConfig id name).toOption.join,
        ∀ r ∈ record p id name, t.matchConfig = true ∧
          (tag.isArray = false → ∀ last ∈ getObjectItem r (some (cstr "0")),
            exceeds config tag.value last = false → t.valid = false)) ↔
      OwnFlags c p l device t tag id name := by
  simp only [Option.isSome_iff_exists, mem_join_toOption]
  simp only [Option.mem_def]
  constructor
  · rintro ⟨hfresh, hnumbers, hconfig⟩
    exact ⟨hfresh,
      fun cached r hcached hd hr => hnumbers cached hcached hd ⟨r, hr⟩,
      fun config r hc hr => (hconfig config hc r hr).1,
      fun config r last hc hr harr hlast hno =>
        (hconfig config hc r hr).2 harr last hlast hno⟩
  · rintro ⟨hfresh, hnumbers, hconfig, hquiet⟩
    exact ⟨hfresh,
      fun cached hcached hd ⟨r, hr⟩ => hnumbers cached r hcached hd hr,
      fun config hc r hr => ⟨hconfig config r hc hr,
        fun harr last hlast hno =>
          hquiet config r last hc hr harr hlast hno⟩⟩

instance (c : Call) (p : Previous) (l : DeviceLoop) (device : EdgeDevice)
    (t : TagLoop) (tag : AnalogTag) (id name : CString) :
    Decidable (OwnFlags c p l device t tag id name) :=
  decidable_of_iff _ (ownFlags_iff c p l device t tag id name)

/-- All turns over a listed tag read flags and numbers of their own. -/
def AllOwnFlags (calls : List Call) : Prop :=
  ∀ σ c l device t tag, TurnOf calls σ c l device t tag →
    ∀ id name, device.id = some id → tag.name = some name →
      OwnFlags c σ.pPrevious l device t tag id name

/-- Without leftover flags a reported tag has a record. -/
theorem record_of_reported {calls : List Call} (hnames : NamesDistinct calls)
    (hflags : AllOwnFlags calls) {id name : CString} {c₀ : Call}
    (hc₀ : c₀ ∈ calls) (hlists : c₀.Lists id name) {pre : List Call}
    {σ : Session} (hpre : pre <+: calls)
    (hrun : pre.foldlM callStep start = .ok σ) :
    ∀ idx v, ((id, name, idx), v) ∈ σ.reports →
      ∃ r, record σ.pPrevious id name = some r := by
  refine run_record
    (P := fun r h => ∀ idx v, ((id, name, idx), v) ∈ h → ∃ rec, r = some rec)
    hnames hc₀ hlists ?_ ?_ ?_ pre σ hpre hrun
  · intro idx v hmem
    cases hmem
  · intro r h h' hno hp idx v hmem
    rcases List.mem_append.mp hmem with hmem | hmem
    · exact hp idx v hmem
    · exact absurd hmem (hno idx v)
  · intro σ c l' device tag l t config s hturn hid hname hct hp idx v hmem
    rcases hct.flag hid with hflag | ⟨hstale, _⟩
    · rw [hct.record_after hflag]
      cases hv : validAfter config s tag with
      | true => exact ⟨_, if_pos rfl⟩
      | false =>
          rw [if_neg Bool.false_ne_true]
          rcases List.mem_append.mp hmem with hmem | hmem
          · exact hp idx v hmem
          · rw [hct.reported, turnReports_of_not_validAfter hv] at hmem
            cases hmem
    · exact absurd hstale (hflags σ c l device t tag hturn id name hid hname).fresh

/-- Nothing is reported needlessly in a run whose turns read flags and numbers
of their own. -/
theorem nothing_spurious {calls : List Call} (hnames : NamesDistinct calls)
    (hidx : IndicesFunctional calls) (hflags : AllOwnFlags calls) :
    NothingSpurious calls := by
  intro pre σ c sent hvisit hsent id name idx v hrep u hu cached hcached
    hdeadband hspan
  obtain ⟨l', hloop, _, hd, _⟩ := sendDataMessage_ok hsent
  rw [Payload.reports, hd] at hrep
  have hlists : c.Lists id name := deviceLoop_reports_listed hloop hrep
  obtain ⟨device, hdevice, hid, tag, htag, hname⟩ := hlists
  obtain ⟨l, t, config, s, hct⟩ :=
    call_turn hnames hvisit.mem hdevice hid htag hname hloop
  have hown := hflags σ c l device t tag ⟨⟨pre, hvisit⟩, hct.reaches⟩ id name
    hid hname
  have hlists : c.Lists id name := ⟨device, hdevice, hid, tag, htag, hname⟩
  obtain ⟨r, hr⟩ := record_of_reported hnames hflags hvisit.mem hlists
    hvisit.initial hvisit.reach idx u (mem_of_latest hu)
  -- the tag has a record and a configuration, so its own filter is in force
  obtain ⟨cfg, hcfg, hexact⟩ := hown.numbers cached r hcached hdeadband hr
  obtain ⟨w, hturn⟩ := hct.turn
  have hconfig : config = some cfg := by
    have hloaded := hturn.loaded
    rw [lookupConfig, hown.config cfg r hcfg hr, if_pos rfl] at hloaded
    exact Except.ok.inj (hloaded.symm.trans hcfg)
  have hfilter : filterOf config s = some (cfg, .live r) := by
    rw [hct.filter_of_record hid hr, hconfig]
    rfl
  have hmem := (hct.reported idx v).mp hrep
  have hleaf := mem_leaves_of_mem_turnReports hmem
  have hread := hturn.readable _ hleaf
  rw [hfilter] at hread
  obtain ⟨r', last, hlive, hget⟩ := hread
  cases hlive
  -- the record holds the latest report
  have hlast : last = u := by
    have htracks := tracks_run hnames hidx hvisit.mem hlists hvisit.initial
      hvisit.reach
    obtain ⟨i, hi⟩ := leaves_indexed tag _ hleaf
    have hi : idx = printInt i := hi
    rw [hi] at hget hu
    have := (htracks r hr).2 i last hget
    exact Option.some.inj (this.symm.trans hu)
  rw [← hlast, ← exceeds_iff hexact hspan]
  have hpasses : passes (filterOf config s) (idx, v) = exceeds cfg v last := by
    simp [passes, hfilter, hget]
  rw [← hpasses]
  by_cases harr : tag.isArray = true
  · rw [turnReports, if_pos harr] at hmem
    exact (mem_leaves_of_mem_passing hmem).2
  · -- a scalar within its deadband is reported only when `valid` was set
    rw [Bool.not_eq_true] at harr
    have hscalar : (idx, v) = (cstr "0", tag.value) := by
      rw [leaves, harr] at hleaf
      exact List.mem_singleton.mp hleaf
    obtain ⟨rfl, rfl⟩ := Prod.mk.inj hscalar
    by_contra hno
    rw [Bool.not_eq_true] at hno
    have hquiet := hown.quiet cfg r last hcfg hr harr hget (hpasses.symm.trans hno)
    have hvalid : validAfter config s tag = false := by
      simp [validAfter, hturn.valid, hquiet, passing, leaves, harr, hno]
    rw [turnReports_of_not_validAfter hvalid] at hmem
    cases hmem

/-- Once `x` has been reported, the unchanged scalar `z` after it in the same
device is reported too. -/
theorem spurious_second_scalar :
    ¬ NothingSpurious
      [sampleCall [(cstr "A",
          [sampleTag (cstr "x") 5, sampleTag (cstr "z") 5])],
        sampleCall [(cstr "A",
          [sampleTag (cstr "x") 50, sampleTag (cstr "z") 5])]] := by
  intro h
  obtain ⟨r, hr, hval⟩ := exists_ok_of_any
    (x := runThen
      [sampleCall [(cstr "A",
        [sampleTag (cstr "x") 5, sampleTag (cstr "z") 5])]]
      (sampleCall [(cstr "A",
        [sampleTag (cstr "x") 50, sampleTag (cstr "z") 5])]))
    (f := fun r =>
      r.2.payload.reports.contains ((cstr "A", cstr "z", cstr "0"), (5 : Rat)) &&
      latest (cstr "A", cstr "z", cstr "0") r.1.reports == some 5)
    (by decide +kernel)
  rw [Bool.and_eq_true, List.contains_iff_mem, beq_iff_eq] at hval
  obtain ⟨hreport, hlatest⟩ := hval
  obtain ⟨hvisit, hsent⟩ := runThen_ok hr []
  have hle := h _ _ _ _ hvisit hsent _ _ _ _ hreport _ hlatest
    { spanHigh := 100, spanLow := 0, deadband := 10 } rfl
    (by norm_num) (by norm_num)
  norm_num at hle

/-- In the sample run the values of `A` leave their deadbands. -/
theorem nothing_spurious_outside : NothingSpurious sampleRun := by
  refine nothing_spurious sampleRun_names sampleRun_indices ?_
  intro σ c l device t tag hturn id name hid hname
  have hall : ∀ x ∈ turns sampleRun, ∀ id ∈ x.device.id, ∀ name ∈ x.tag.name,
      OwnFlags x.c x.σ.pPrevious x.l x.device x.t x.tag id name := by
    decide +kernel
  obtain ⟨_, _, _, hown⟩ := hturn.of_turns hall
  exact hown id hid name hname

end DatahubEdge.Message
