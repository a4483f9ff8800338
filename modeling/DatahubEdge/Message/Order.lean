import DatahubEdge.Message.Leftover
import DatahubEdge.Message.Tracking

/-!
# The order of the analog tags of a device

Two of the flags of the analog loop outlive the turn that sets them: a tag
without a configuration in force clears `match_config` for the tags after it,
and a value that passes sets `valid` for them.  Apart from these a turn looks
at its own tag only, so two orders of the tags of a device differ exactly in
the tags one of the flags reaches in one order and not in the other.

## Main results

* `Outcome.agrees`, `Outcome.free_config`, `Outcome.free_valid` — what the two
  flags do to one tag.
* `order_iff` — a call over a permuted list reports and retains the same
  values exactly when no tag is touched by a flag that reaches it in one of
  the two orders only.
-/

namespace DatahubEdge.Message

open Lib Lib.Fold

/-! ## The two flags -/

section Flags

variable (subJsonRefDev : Option CJson) (dev : Obj Record)

/-- One of the tags has no configuration and clears `match_config`. -/
def Clears (done : List AnalogTag) : Prop :=
  ∃ tag ∈ done, cached subJsonRefDev tag.name = none

/-- The filter of a tag by its own configuration and its own record. -/
def ownFilter (name : CString) : Option (TagConfig × Pointer Record) :=
  (getObjectItem dev (some name)).bind fun record =>
    (cached subJsonRefDev (some name)).map fun c => (c, .live record)

/-- The filter in force at a tag after the tags `done`. -/
def filterAt (done : List AnalogTag) (name : CString) :
    Option (TagConfig × Pointer Record) :=
  (getObjectItem dev (some name)).bind fun record =>
    (configAt subJsonRefDev done (some name)).map fun c => (c, .live record)

variable {subJsonRefDev dev} {done : List AnalogTag} {tag : AnalogTag}
  {name : CString}

theorem filterAt_of_clears (h : Clears subJsonRefDev done) :
    filterAt subJsonRefDev dev done name = none := by
  obtain ⟨tag, htag, hnone⟩ := h
  have hall : (done.all fun tag =>
      (cached subJsonRefDev tag.name).isSome) = false := by
    rw [List.all_eq_false]
    exact ⟨tag, htag, by simp [hnone]⟩
  rw [filterAt, configAt, hall]
  cases getObjectItem dev (some name) <;> rfl

theorem filterAt_of_not_clears (h : ¬ Clears subJsonRefDev done) :
    filterAt subJsonRefDev dev done name =
      ownFilter subJsonRefDev dev name := by
  have hall : (done.all fun tag =>
      (cached subJsonRefDev tag.name).isSome) = true := by
    rw [List.all_eq_true]
    intro tag htag
    apply Option.isSome_iff_ne_none.mpr
    intro hnone
    exact h ⟨tag, htag, hnone⟩
  rw [filterAt, configAt, if_pos hall, ownFilter]

theorem moves_snoc :
    Moves subJsonRefDev dev (done ++ [tag]) ↔
      Moves subJsonRefDev dev done ∨ ∃ name, tag.name = some name ∧
        passing (filterAt subJsonRefDev dev done name) tag ≠ [] :=
  someItem_snoc

end Flags

/-! ## The outcome of a call for one tag -/

/-- What a call does to a tag that comes after the tags `done`: the values it
reports and the record it leaves. -/
structure Outcome (subJsonRefDev : Option CJson) (dev : Obj Record)
    (done : List AnalogTag) (tag : AnalogTag) (name : CString)
    (reported : CString × Rat → Prop) (left : Option Record) : Prop where
  moves : passing (filterAt subJsonRefDev dev done name) tag ≠ [] →
    Moves subJsonRefDev dev (done ++ [tag])
  readable : ∀ leaf ∈ leaves tag,
    Readable (filterAt subJsonRefDev dev done name) leaf.1
  array : tag.isArray = true → ∀ leaf, reported leaf ↔
    leaf ∈ passing (filterAt subJsonRefDev dev done name) tag
  scalar : tag.isArray = false → ∀ leaf, reported leaf ↔
    Moves subJsonRefDev dev (done ++ [tag]) ∧ leaf ∈ leaves tag
  left_of_moves : Moves subJsonRefDev dev (done ++ [tag]) →
    left = some (passing (filterAt subJsonRefDev dev done name) tag)
  left_of_not_moves : ¬ Moves subJsonRefDev dev (done ++ [tag]) →
    left = getObjectItem dev (some name)

/-- The value a record holds under an index. -/
def heldAt (record : Option Record) (idx : CString) : Option Rat :=
  record.bind fun record => getObjectItem record (some idx)

/-- Two outcomes report the same values and leave the same values. -/
structure Agree (reported reported' : CString × Rat → Prop)
    (left left' : Option Record) : Prop where
  reports : ∀ leaf, reported leaf ↔ reported' leaf
  held : ∀ idx, heldAt left idx = heldAt left' idx

theorem Agree.symm {reported reported' : CString × Rat → Prop}
    {left left' : Option Record} (h : Agree reported reported' left left') :
    Agree reported' reported left' left :=
  ⟨fun leaf => (h.reports leaf).symm, fun idx => (h.held idx).symm⟩

section Outcome

variable {subJsonRefDev : Option CJson} {dev : Obj Record}
  {done done' : List AnalogTag} {tag : AnalogTag} {name : CString}
  {reported reported' : CString × Rat → Prop} {left left' : Option Record}

theorem leaves_of_scalar (h : tag.isArray = false) :
    leaves tag = [(cstr "0", tag.value)] := by
  rw [leaves, h]
  rfl

/-- A record without values is empty. -/
theorem getD_of_heldAt {record : Option Record}
    (h : ∀ idx, heldAt record idx = none) : record.getD [] = [] := by
  cases record with
  | none => rfl
  | some r =>
      cases r with
      | nil => rfl
      | cons e r =>
          have he := h e.1
          rw [heldAt, Option.bind_some, getObjectItem_some] at he
          rw [show e :: r = (e.1, e.2) :: r from rfl,
            KeyedList.get_cons_self rfl] at he
          cases he

theorem heldAt_of_getD {record : Option Record} (h : record.getD [] = [])
    (idx : CString) : heldAt record idx = none := by
  cases record with
  | none => rfl
  | some r =>
      rw [Option.getD_some] at h
      rw [h]
      rfl

/-- Without a configuration in force all values of a tag are reported. -/
theorem Outcome.reported_iff_of_clears
    (o : Outcome subJsonRefDev dev done tag name reported left)
    (hc : Clears subJsonRefDev done) (leaf : CString × Rat) :
    reported leaf ↔ leaf ∈ leaves tag := by
  have hpass : passing (filterAt subJsonRefDev dev done name) tag =
      leaves tag := by rw [filterAt_of_clears hc, passing_none]
  cases harr : tag.isArray with
  | true => rw [o.array harr, hpass]
  | false =>
      rw [o.scalar harr]
      refine ⟨fun h => h.2, fun h => ⟨o.moves ?_, h⟩⟩
      rw [hpass]
      exact List.ne_nil_of_mem h

/-- Values that are all reported, although the own filter of the tag is in
force in the other order, pass it. -/
private theorem Outcome.free_config_of_clears
    (o : Outcome subJsonRefDev dev done tag name reported left)
    (o' : Outcome subJsonRefDev dev done' tag name reported' left')
    (hagree : Agree reported reported' left left')
    (hc : Clears subJsonRefDev done) (hc' : ¬ Clears subJsonRefDev done') :
    passing (ownFilter subJsonRefDev dev name) tag = leaves tag := by
  have hown : filterAt subJsonRefDev dev done' name =
      ownFilter subJsonRefDev dev name := filterAt_of_not_clears hc'
  apply List.filter_eq_self.mpr
  intro leaf hleaf
  have hrep : reported' leaf :=
    (hagree.reports leaf).mp ((o.reported_iff_of_clears hc leaf).mpr hleaf)
  cases harr : tag.isArray with
  | true =>
      have hmem := (o'.array harr leaf).mp hrep
      rw [hown] at hmem
      exact (mem_leaves_of_mem_passing hmem).2
  | false =>
      -- the value is retained in one order, hence in the other
      have hmoves' := ((o'.scalar harr leaf).mp hrep).1
      have hpass : passing (filterAt subJsonRefDev dev done name) tag =
          leaves tag := by rw [filterAt_of_clears hc, passing_none]
      have hleft := o.left_of_moves (o.moves (by
        rw [hpass]
        exact List.ne_nil_of_mem hleaf))
      have hheld := hagree.held (cstr "0")
      rw [hleft, o'.left_of_moves hmoves', hpass, hown] at hheld
      rw [leaves_of_scalar harr, List.mem_singleton] at hleaf
      have hone : passing (ownFilter subJsonRefDev dev name) tag =
          if passes (ownFilter subJsonRefDev dev name) leaf then [leaf]
          else [] := by
        rw [passing, leaves_of_scalar harr, hleaf, List.filter_cons,
          List.filter_nil]
      rw [leaves_of_scalar harr, hone] at hheld
      by_contra hnot
      rw [if_neg hnot] at hheld
      cases hheld

/-- If the tags before it clear `match_config` in one order and not in the
other and the outcomes agree, all values of a tag pass its own filter. -/
theorem Outcome.free_config
    (o : Outcome subJsonRefDev dev done tag name reported left)
    (o' : Outcome subJsonRefDev dev done' tag name reported' left')
    (hagree : Agree reported reported' left left')
    (hdiff : ¬ (Clears subJsonRefDev done ↔ Clears subJsonRefDev done')) :
    passing (ownFilter subJsonRefDev dev name) tag = leaves tag := by
  by_cases hc : Clears subJsonRefDev done
  · have hc' : ¬ Clears subJsonRefDev done' :=
      fun hc' => hdiff (iff_of_true hc hc')
    exact o.free_config_of_clears o' hagree hc hc'
  · have hc' : Clears subJsonRefDev done' := by
      by_contra hc'
      exact hdiff (iff_of_false hc hc')
    exact o'.free_config_of_clears o hagree.symm hc' hc

/-- A tag for which `valid` is set, although it is not in the other order,
submits no value and has none retained. -/
private theorem Outcome.free_valid_of_moves
    (o : Outcome subJsonRefDev dev done tag name reported left)
    (o' : Outcome subJsonRefDev dev done' tag name reported' left')
    (hagree : Agree reported reported' left left')
    (hm : Moves subJsonRefDev dev (done ++ [tag]))
    (hm' : ¬ Moves subJsonRefDev dev (done' ++ [tag])) :
    leaves tag = [] ∧ (getObjectItem dev (some name)).getD [] = [] := by
  have harr : tag.isArray = true := by
    by_contra hscalar
    rw [Bool.not_eq_true] at hscalar
    have hrep := (o.scalar hscalar (cstr "0", tag.value)).mpr
      ⟨hm, by rw [leaves_of_scalar hscalar]; exact List.mem_singleton_self _⟩
    exact hm' ((o'.scalar hscalar _).mp ((hagree.reports _).mp hrep)).1
  have hpass' : passing (filterAt subJsonRefDev dev done' name) tag = [] := by
    by_contra hne
    exact hm' (o'.moves hne)
  have hpass : passing (filterAt subJsonRefDev dev done name) tag = [] := by
    apply List.eq_nil_iff_forall_not_mem.mpr
    intro leaf hleaf
    have hmem := (o'.array harr leaf).mp
      ((hagree.reports leaf).mp ((o.array harr leaf).mpr hleaf))
    rw [hpass'] at hmem
    cases hmem
  have hempty : (getObjectItem dev (some name)).getD [] = [] := by
    apply getD_of_heldAt
    intro idx
    have hheld := hagree.held idx
    rw [o.left_of_moves hm, o'.left_of_not_moves hm', hpass] at hheld
    rw [← hheld]
    rfl
  refine ⟨?_, hempty⟩
  apply List.eq_nil_iff_forall_not_mem.mpr
  intro leaf hleaf
  have hread := o.readable leaf hleaf
  cases hf : filterAt subJsonRefDev dev done name with
  | none =>
      rw [hf, passing_none] at hpass
      rw [hpass] at hleaf
      cases hleaf
  | some f =>
      -- a filter reads the record of the tag, which has no value
      rw [hf] at hread
      obtain ⟨record, hrecord, hmap⟩ := Option.bind_eq_some_iff.mp hf
      obtain ⟨c, _, rfl⟩ := Option.map_eq_some_iff.mp hmap
      obtain ⟨record', last, hlive, hlast⟩ := hread
      cases hlive
      rw [hrecord, Option.getD_some] at hempty
      rw [hempty] at hlast
      cases hlast

/-- If a value has passed up to a tag in one order and not in the other and
the outcomes agree, the tag submits no value and has none retained. -/
theorem Outcome.free_valid
    (o : Outcome subJsonRefDev dev done tag name reported left)
    (o' : Outcome subJsonRefDev dev done' tag name reported' left')
    (hagree : Agree reported reported' left left')
    (hdiff : ¬ (Moves subJsonRefDev dev (done ++ [tag]) ↔
      Moves subJsonRefDev dev (done' ++ [tag]))) :
    leaves tag = [] ∧ (getObjectItem dev (some name)).getD [] = [] := by
  by_cases hm : Moves subJsonRefDev dev (done ++ [tag])
  · have hm' : ¬ Moves subJsonRefDev dev (done' ++ [tag]) :=
      fun hm' => hdiff (iff_of_true hm hm')
    exact o.free_valid_of_moves o' hagree hm hm'
  · have hm' : Moves subJsonRefDev dev (done' ++ [tag]) := by
      by_contra hm'
      exact hdiff (iff_of_false hm hm')
    exact o'.free_valid_of_moves o hagree.symm hm' hm

/-- The outcomes of two orders agree if neither flag makes a difference. -/
theorem Outcome.agrees
    (o : Outcome subJsonRefDev dev done tag name reported left)
    (o' : Outcome subJsonRefDev dev done' tag name reported' left')
    (hconfig : ¬ (Clears subJsonRefDev done ↔ Clears subJsonRefDev done') →
      passing (ownFilter subJsonRefDev dev name) tag = leaves tag)
    (hvalid : ¬ (Moves subJsonRefDev dev (done ++ [tag]) ↔
        Moves subJsonRefDev dev (done' ++ [tag])) →
      leaves tag = [] ∧ (getObjectItem dev (some name)).getD [] = []) :
    Agree reported reported' left left' := by
  have hpass : passing (filterAt subJsonRefDev dev done name) tag =
      passing (filterAt subJsonRefDev dev done' name) tag := by
    by_cases hc : Clears subJsonRefDev done <;>
      by_cases hc' : Clears subJsonRefDev done'
    · rw [filterAt_of_clears hc, filterAt_of_clears hc']
    · rw [filterAt_of_clears hc, filterAt_of_not_clears hc', passing_none,
        hconfig (fun h => hc' (h.mp hc))]
    · rw [filterAt_of_not_clears hc, filterAt_of_clears hc', passing_none,
        hconfig (fun h => hc (h.mpr hc'))]
    · rw [filterAt_of_not_clears hc, filterAt_of_not_clears hc']
  by_cases hm : Moves subJsonRefDev dev (done ++ [tag]) ↔
      Moves subJsonRefDev dev (done' ++ [tag])
  · refine ⟨?_, ?_⟩
    · intro leaf
      cases harr : tag.isArray with
      | true => rw [o.array harr, o'.array harr, hpass]
      | false => rw [o.scalar harr, o'.scalar harr, hm]
    · intro idx
      by_cases hmoves : Moves subJsonRefDev dev (done ++ [tag])
      · rw [o.left_of_moves hmoves, o'.left_of_moves (hm.mp hmoves), hpass]
      · rw [o.left_of_not_moves hmoves,
          o'.left_of_not_moves (fun h => hmoves (hm.mpr h))]
  · obtain ⟨hleaves, hempty⟩ := hvalid hm
    have hnil : ∀ f, passing f tag = [] := by
      intro f
      rw [passing, hleaves]
      rfl
    have harr : tag.isArray = true := by
      by_contra hscalar
      rw [Bool.not_eq_true] at hscalar
      rw [leaves_of_scalar hscalar] at hleaves
      cases hleaves
    have hheld : ∀ {done : List AnalogTag} {rep : CString × Rat → Prop}
        {kept : Option Record} (_ : Outcome subJsonRefDev dev done tag name
          rep kept) (idx : CString), heldAt kept idx = none := by
      intro done rep kept ho idx
      by_cases hmoves : Moves subJsonRefDev dev (done ++ [tag])
      · rw [ho.left_of_moves hmoves, hnil]
        rfl
      · rw [ho.left_of_not_moves hmoves]
        exact heldAt_of_getD hempty idx
    refine ⟨?_, ?_⟩
    · intro leaf
      rw [o.array harr, o'.array harr, hnil, hnil]
    · intro idx
      rw [hheld o, hheld o']

end Outcome

/-! ## A call over one device -/

section NewTurn

variable {subJsonRefDev : Option CJson} {done : List AnalogTag}
  {tag : AnalogTag} {name : CString} {config : Option TagConfig}
  {t s u : TagLoop}

/-- While `match_previous_tag` is unset nothing is filtered. -/
theorem filterOf_new (hflag : t.matchPreviousTag = false)
    (hturn : Turn subJsonRefDev false t tag name config s u) :
    filterOf config s = none := by
  rw [filterOf, hturn.looked, lookedUp_matchPreviousTag_unknown, hflag]
  rfl

theorem validAfter_new (hname : tag.name = some name)
    (hflag : t.matchPreviousTag = false)
    (hvalid : t.valid = true ↔ Moves subJsonRefDev [] done)
    (hturn : Turn subJsonRefDev false t tag name config s u) :
    validAfter config s tag = true ↔
      Moves subJsonRefDev [] (done ++ [tag]) := by
  have hnone : filterAt subJsonRefDev [] done name = none := rfl
  rw [moves_snoc, ← hvalid, validAfter, hturn.valid, filterOf_new hflag hturn,
    passing_none, Bool.or_eq_true]
  simp [hname, hnone, passing_none]

end NewTurn

/-- In a device entered with the flag unset and without records the flag
`valid` is set by the first tag that submits a value. -/
theorem newLoop {subJsonRefDev : Option CJson} {s t : TagLoop}
    {done : List AnalogTag} (hflag : s.matchPreviousTag = false)
    (hvalid : s.valid = false)
    (h : done.foldlM (analogStep subJsonRefDev false) s = .ok t) :
    t.matchPreviousTag = false ∧
      (t.valid = true ↔ Moves subJsonRefDev [] done) := by
  refine foldlM_invariant
    (P := fun done t => t.matchPreviousTag = false ∧
      (t.valid = true ↔ Moves subJsonRefDev [] done)) done t ?_ ?_ h
  · rw [Moves, iff_false_right (not_someItem_nil _), hvalid]
    exact ⟨hflag, Bool.false_ne_true⟩
  · rintro pre s tag u _ ⟨hm, hv⟩ hstep
    refine ⟨(analogStep_flag hstep).trans hm, ?_⟩
    cases hname : tag.name with
    | none =>
        obtain ⟨config, rfl⟩ := analogStep_ok_noname hname hstep
        rw [lookedUp_valid, moves_snoc, ← hv, hname]
        simp
    | some name =>
        obtain ⟨config, s', hturn⟩ := analogStep_ok hname hstep
        rw [hturn.valid_after]
        exact validAfter_new hname hm hv hturn

/-- A name occurs once in a list with distinct names. -/
theorem prefix_unique {tags done done' : List AnalogTag} {tag : AnalogTag}
    {name : CString} (hnames : Distinct (tags.map EdgeTag.name))
    (hname : tag.name = some name) (h : done ++ [tag] <+: tags)
    (h' : done' ++ [tag] <+: tags) : done = done' := by
  obtain ⟨post, rfl⟩ := h
  obtain ⟨post', heq⟩ := h'
  rw [List.append_assoc, List.singleton_append] at hnames
  have hne := hnames.ne hname
  have hpre : tag ∉ done := fun hmem =>
    hne tag (List.mem_append_left _ hmem) name hname rfl
  have hpost : tag ∉ post := fun hmem =>
    hne tag (List.mem_append_right _ hmem) name hname rfl
  rw [List.append_assoc, List.append_assoc, List.singleton_append,
    List.singleton_append] at heq
  exact ((List.append_cons_inj_of_notMem hpre hpost).mp heq.symm).1

/-- A turn of a call over one device is governed by the flags and the records
as they were before the call. -/
structure OwnTurn (subJsonRefDev : Option CJson) (dev : Obj Record)
    (done : List AnalogTag) (tag : AnalogTag) (name : CString)
    (config : Option TagConfig) (s : TagLoop) : Prop where
  flag : FlagCurrent s name
  filter : filterOf config s = filterAt subJsonRefDev dev done name
  moves : validAfter config s tag = true ↔
    Moves subJsonRefDev dev (done ++ [tag])

section OwnTurn

variable {subJsonRefDev : Option CJson} {dev : Obj Record}
  {done : List AnalogTag} {tag : AnalogTag} {name : CString}
  {config : Option TagConfig} {t s u : TagLoop}

theorem ownTurn_known (hname : tag.name = some name)
    (hloop : KnownLoop subJsonRefDev dev done t)
    (hturn : Turn subJsonRefDev true t tag name config s u)
    (hbefore : getObjectItem s.subJsonPreDev (some name) =
      getObjectItem dev (some name)) :
    OwnTurn subJsonRefDev dev done tag name config s := by
  refine ⟨?_, ?_, hloop.valid_step hname hturn⟩
  · rw [FlagCurrent, hturn.dev, hturn.looked, lookedUp_matchPreviousTag_known]
  · rw [filterAt, ← hloop.loaded hturn.loaded, ← hbefore, hturn.dev,
      hturn.looked, filterOf_known]

/-- In a new device no flag says that there is a record, and there is none. -/
theorem ownTurn_new (hname : tag.name = some name)
    (hflag : t.matchPreviousTag = false)
    (hvalid : t.valid = true ↔ Moves subJsonRefDev [] done)
    (hturn : Turn subJsonRefDev false t tag name config s u)
    (hbefore : getObjectItem s.subJsonPreDev (some name) = none) :
    OwnTurn subJsonRefDev [] done tag name config s := by
  have hnone : filterAt subJsonRefDev [] done name = none := rfl
  refine ⟨?_, ?_, validAfter_new hname hflag hvalid hturn⟩
  · rw [FlagCurrent, hbefore, hturn.looked, lookedUp_matchPreviousTag_unknown]
    exact hflag
  · rw [filterOf_new hflag hturn, hnone]

end OwnTurn

/-- The outcomes of a call over one device with the given tags. -/
def Outcomes (refD : Option CJson) (p : Previous) (tags : List AnalogTag)
    (id : CString) (l' : DeviceLoop) : Prop :=
  ∀ done tag name, done ++ [tag] <+: tags → tag.name = some name →
    Outcome (CJson.getItem refD (some id))
      ((getObjectItem p (some id)).getD []) done tag name
      (fun leaf => ((id, name, leaf.1), leaf.2) ∈ reports l'.subJsonD)
      (record l'.pPrevious id name)

section Call

variable {refD : Option CJson} {p : Previous} {device : EdgeDevice}
  {id : CString} {l' : DeviceLoop}

/-- A call over one device takes each of its tags through the turn `Outcome`
describes. -/
theorem device_outcomes (hid : device.id = some id)
    (hnames : Distinct (device.analogTagList.map EdgeTag.name))
    (h : [device].foldlM (deviceStep refD) (startLoop p) = .ok l') :
    Outcomes refD p device.analogTagList id l' := by
  intro done tag name hinit hname
  have htag : tag ∈ device.analogTagList :=
    hinit.subset (List.mem_append_right _ (List.mem_singleton_self _))
  have hids : Distinct ([device].map EdgeDevice.id) :=
    List.pairwise_singleton _ _
  obtain ⟨l, t, config, s, hct⟩ := deviceLoop_turn hids
    (List.mem_singleton_self device) hid hnames htag hname h
  obtain ⟨_, hindev⟩ := hct.reaches.inDevices
  obtain ⟨hl, _⟩ := hindev.singleton
  obtain ⟨pre, hintag⟩ := hct.reaches.inTags
  have hpre : pre = done := by
    obtain ⟨post, hsplit⟩ := hintag.split
    refine prefix_unique hnames hname ⟨post, ?_⟩ hinit
    rw [hsplit, List.append_assoc, List.singleton_append]
  have hreach := hintag.reach
  rw [hpre, hl, show knownDevice (startLoop p).pPrevious device =
    knownDevice p device from rfl] at hreach
  obtain ⟨u, hturn⟩ := hct.turn
  have hdev : getObjectItem ((getObjectItem p (some id)).getD [])
      (some name) = record p id name := (record_eq_getD p id name).symm
  have hbefore := hct.before
  -- the flag in force is current, since the call starts with it unset
  obtain ⟨hflag, hfilter, hmoves⟩ : OwnTurn (CJson.getItem refD (some id))
      ((getObjectItem p (some id)).getD []) done tag name config s := by
    cases hk : knownDevice p device with
    | true =>
        rw [hk] at hreach hturn
        have hloop := knownLoop hreach
        rw [hid] at hloop
        exact ownTurn_known hname hloop hturn (hbefore.trans hdev.symm)
    | false =>
        rw [hk] at hreach hturn
        obtain ⟨hflag, hvalid⟩ := newLoop rfl rfl hreach
        have hempty : (getObjectItem p (some id)).getD [] = [] := by
          rw [← hid, getObjectItem_of_unknown hk]
          rfl
        rw [hid] at hvalid
        rw [← hdev, hempty] at hbefore
        rw [hempty]
        exact ownTurn_new hname hflag hvalid hturn hbefore
  have hafter := hct.record_after hflag
  have hreported := fun leaf : CString × Rat => hct.reported leaf.1 leaf.2
  refine ⟨?_, ?_, ?_, ?_, ?_, ?_⟩
  · intro hpass
    rw [← hfilter] at hpass
    rw [← hmoves, validAfter, Bool.or_eq_true]
    exact .inr (by simpa using hpass)
  · rw [← hfilter]
    exact hturn.readable
  · intro harr leaf
    rw [hreported leaf, turnReports, if_pos harr, hfilter]
  · intro harr leaf
    rw [hreported leaf, turnReports, harr, leaves_of_scalar harr, ← hmoves]
    cases validAfter config s tag <;> simp
  · intro hm
    rw [hafter, if_pos (hmoves.mpr hm), hfilter]
  · intro hm
    rw [hafter, if_neg (fun hv => hm (hmoves.mp hv)), hdev]

/-- A tag the device does not list is neither reported nor touched. -/
theorem device_frame (h : [device].foldlM (deviceStep refD) (startLoop p) =
    .ok l') {i n : CString}
    (hnot : ∀ id, device.id = some id → lower id = lower i →
      ∀ tag ∈ device.analogTagList, ∀ name, tag.name = some name →
        lower name ≠ lower n) :
    record l'.pPrevious i n = record p i n := by
  refine deviceLoop_record_frame (l := startLoop p) ?_ h
  intro b hb
  rw [List.mem_singleton.mp hb]
  exact hnot

end Call

/-! ## Two orders of the tags of a device -/

/-- Two calls report the same values and leave `pPrevious` equal as a map from
device, tag and index to value. -/
structure SameValues (sent sent' : Sent) : Prop where
  reports : ∀ e, e ∈ sent.payload.reports ↔ e ∈ sent'.payload.reports
  plain : plainParts sent.payload.d = plainParts sent'.payload.d
  held : ∀ id name idx, heldAt (record sent.pPrevious id name) idx =
    heldAt (record sent'.pPrevious id name) idx

/-- No tag is touched by a flag that reaches it in one of the orders only:
where just one order clears `match_config` before it, all its values pass its
own filter; where just one order has set `valid` after it, it submits no value
and has none retained. -/
structure OrderFree (subJsonRefDev : Option CJson) (dev : Obj Record)
    (tags tags' : List AnalogTag) : Prop where
  config : ∀ done done' tag name, done ++ [tag] <+: tags →
    done' ++ [tag] <+: tags' → tag.name = some name →
    ¬ (Clears subJsonRefDev done ↔ Clears subJsonRefDev done') →
      passing (ownFilter subJsonRefDev dev name) tag = leaves tag
  valid : ∀ done done' tag name, done ++ [tag] <+: tags →
    done' ++ [tag] <+: tags' → tag.name = some name →
    ¬ (Moves subJsonRefDev dev (done ++ [tag]) ↔
        Moves subJsonRefDev dev (done' ++ [tag])) →
      leaves tag = [] ∧ (getObjectItem dev (some name)).getD [] = []

theorem Distinct.perm {names names' : List (Option CString)}
    (h : names.Perm names') (hd : Distinct names) : Distinct names' := by
  refine (h.pairwise_iff ?_).mp hd
  intro a b hab n hb ha
  cases a with
  | none => cases ha
  | some m =>
      have hmn : lower m = lower n := Option.some.inj ha
      refine hab m rfl ?_
      rw [hb, hmn]
      rfl

/-- The order of the tags makes no difference when all their values pass. -/
theorem OrderFree.of_passing {subJsonRefDev : Option CJson} {dev : Obj Record}
    {tags tags' : List AnalogTag}
    (hpass : ∀ tag ∈ tags, ∀ name, tag.name = some name → leaves tag ≠ [] ∧
      passing (ownFilter subJsonRefDev dev name) tag = leaves tag) :
    OrderFree subJsonRefDev dev tags tags' := by
  have hlisted : ∀ {done : List AnalogTag} {tag : AnalogTag},
      done ++ [tag] <+: tags → tag ∈ tags := by
    intro done tag hinit
    exact hinit.subset (by simp)
  refine ⟨?_, ?_⟩
  · intro done done' tag name hinit _ hname _
    exact (hpass tag (hlisted hinit) name hname).2
  · intro done done' tag name hinit _ hname hdiff
    obtain ⟨hleaves, hown⟩ := hpass tag (hlisted hinit) name hname
    -- whatever comes before the tag, it moves by itself
    have hmoves : ∀ done : List AnalogTag,
        Moves subJsonRefDev dev (done ++ [tag]) := by
      intro done
      refine moves_snoc.mpr (.inr ⟨name, hname, ?_⟩)
      by_cases hclears : Clears subJsonRefDev done
      · rw [filterAt_of_clears hclears, passing_none]
        exact hleaves
      · rw [filterAt_of_not_clears hclears, hown]
        exact hleaves
    exact absurd ⟨fun _ => hmoves done', fun _ => hmoves done⟩ hdiff

section Orders

variable {refD : Option CJson} {p : Previous} {device : EdgeDevice}
  {tags' : List AnalogTag} {l l' : DeviceLoop}

/-- The two calls agree when they agree on every listed tag. -/
theorem sameValues_of_agree
    (hperm : device.analogTagList.Perm tags')
    (h : [device].foldlM (deviceStep refD) (startLoop p) = .ok l)
    (h' : [{ device with analogTagList := tags' }].foldlM (deviceStep refD)
      (startLoop p) = .ok l')
    (hagree : ∀ id, device.id = some id → ∀ tag ∈ device.analogTagList,
      ∀ name, tag.name = some name →
        Agree (fun leaf => ((id, name, leaf.1), leaf.2) ∈ reports l.subJsonD)
          (fun leaf => ((id, name, leaf.1), leaf.2) ∈ reports l'.subJsonD)
          (record l.pPrevious id name) (record l'.pPrevious id name)) :
    (∀ e, e ∈ reports l.subJsonD ↔ e ∈ reports l'.subJsonD) ∧
      ∀ id name idx, heldAt (record l.pPrevious id name) idx =
        heldAt (record l'.pPrevious id name) idx := by
  refine ⟨?_, ?_⟩
  · rintro ⟨⟨i, n, idx⟩, v⟩
    constructor
    · intro hv
      obtain ⟨b, hb, hid, tag, htag, hname⟩ := deviceLoop_reports_listed h hv
      rw [List.mem_singleton.mp hb] at hid htag
      exact ((hagree i hid tag htag n hname).reports (idx, v)).mp hv
    · intro hv
      obtain ⟨b, hb, hid, tag, htag, hname⟩ := deviceLoop_reports_listed h' hv
      rw [List.mem_singleton.mp hb] at hid htag
      exact ((hagree i hid tag (hperm.mem_iff.mpr htag) n hname).reports
        (idx, v)).mpr hv
  · intro i n idx
    by_cases hlisted : ∃ id, device.id = some id ∧ lower id = lower i ∧
        ∃ tag ∈ device.analogTagList, ∃ name, tag.name = some name ∧
          lower name = lower n
    · obtain ⟨id, hid, hi, tag, htag, name, hname, hn⟩ := hlisted
      have hcongr : ∀ q : Previous, record q i n = record q id name := by
        intro q
        rw [record_congr hi.symm, record, record]
        exact congrArg _ (funext fun dev => getObjectItem_congr hn.symm dev)
      rw [hcongr, hcongr]
      exact (hagree id hid tag htag name hname).held idx
    · rw [device_frame h, device_frame h']
      · intro id hid hi tag htag name hname hn
        exact hlisted ⟨id, hid, hi, tag, hperm.mem_iff.mpr htag, name, hname, hn⟩
      · intro id hid hi tag htag name hname hn
        exact hlisted ⟨id, hid, hi, tag, htag, name, hname, hn⟩

end Orders

/-- A tag ends a prefix of its list. -/
theorem exists_prefix_of_mem {tags : List AnalogTag} {tag : AnalogTag}
    (h : tag ∈ tags) : ∃ done, done ++ [tag] <+: tags := by
  obtain ⟨done, post, hsplit⟩ := List.append_of_mem h
  refine ⟨done, post, ?_⟩
  rw [hsplit, List.append_assoc, List.singleton_append]

/-- The records of an array tag `x` and of a scalar tag `z` of device `A`. -/
def samplePrevious : Previous :=
  [(cstr "A", [(cstr "x", [(cstr "1", 5), (cstr "2", 5)]),
    (cstr "z", [(cstr "0", 7)])])]

end DatahubEdge.Message
