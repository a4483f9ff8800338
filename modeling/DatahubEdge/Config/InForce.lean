import DatahubEdge.CJson.RoundTrip
import DatahubEdge.Config.Spans
import DatahubEdge.Config.Upload

/-!
# The configuration in force

`SendData` filters by what `cJSON_Parse` makes of the text in memory, and this
text comes from a file that `SaveConfig` printed, without a terminator of its
own.  Seen as trees the two copies are a machine of their own (`Trees`): a
save replaces the tree of the file, a successful upload puts the tree of the
file in force.  The texts follow it whatever bytes lie behind them in memory,
because an object ends by itself.

## Main results

* `readable_saveConfig` — the text `SaveConfig` prints is read back.
* `in_force` — the text in memory is read as the tree in force, in every run.
-/

namespace DatahubEdge.Config

open Lib.Fold

/-! ## Trees that are read back -/

/-- A tree whose text the parser reads back, `depth` levels above its
limit. -/
structure Readable (strtod : CString → Option (Rat × Nat))
    (printNumber : Rat → CString) (depth : Nat) (t : CJson) : Prop where
  nesting : t.nesting ≤ depth
  zero : ¬ t.Mentions 0
  numbers : t.NumbersIn fun q => SpellsNumber strtod (printNumber q) q

section Readable

variable {strtod : CString → Option (Rat × Nat)} {printNumber : Rat → CString}
  {depth : Nat}

theorem readable_number {q : Rat}
    (h : SpellsNumber strtod (printNumber q) q) :
    Readable strtod printNumber depth (.number q) where
  nesting := Nat.zero_le _
  zero := by simp [CJson.Mentions]
  numbers := by
    rw [CJson.NumbersIn]
    exact h

theorem readable_object {child : List (CString × CJson)}
    (h : ∀ e ∈ child, 0 ∉ e.1 ∧ Readable strtod printNumber depth e.2) :
    Readable strtod printNumber (depth + 1) (.object child) where
  nesting := nesting_object.mpr fun e he => (h e he).2.nesting
  zero := by
    rw [mentions_object]
    rintro ⟨e, he, hkey | hvalue⟩
    · exact (h e he).1 hkey
    · exact (h e he).2.zero hvalue
  numbers := numbersIn_object.mpr fun e he => (h e he).2.numbers

/-- An object is read back whatever follows it in memory. -/
theorem Readable.parsed {child : List (CString × CJson)}
    (h : Readable strtod printNumber nestingLimit (.object child))
    (after : CString) :
    cJSONParse strtod (printUnformatted printNumber (.object child) ++ after) =
      some (.object child) := by
  have hends : Ends strtod (.object child)
      (print printNumber false (.object child)) after :=
    ends_of_ne_number (fun q heq => by cases heq) _ _
  have hread := cJSONParse_printed false h.nesting h.zero h.numbers hends
  rw [print, formatValue_unformatted] at hread
  exact hread

end Readable

/-! ## What `SaveConfig` writes -/

/-- The numbers `SaveConfig` writes for a tag. -/
def savedNumbers (tag : AnalogTagConfig) : List Rat :=
  [tag.deadband, tag.fractionDisplayFormat,
    if tag.spanHigh ≠ 0 then tag.spanHigh else 1000,
    if tag.spanLow ≠ 0 then tag.spanLow else 0]

/-- The ids and names are C strings, and the numbers survive being printed. -/
structure Printable (strtod : CString → Option (Rat × Nat))
    (printNumber : Rat → CString) (config : NodeConfig) : Prop where
  ids : ∀ device ∈ config.deviceList.getD [], ∀ id,
    device.id = some id → 0 ∉ id
  names : ∀ device ∈ config.deviceList.getD [],
    ∀ tag ∈ device.analogTagList, ∀ name, tag.name = some name → 0 ∉ name
  numbers : ∀ device ∈ config.deviceList.getD [],
    ∀ tag ∈ device.analogTagList, ∀ q ∈ savedNumbers tag,
      SpellsNumber strtod (printNumber q) q

section Saved

variable {strtod : CString → Option (Rat × Nat)} {printNumber : Rat → CString}
  {config : NodeConfig} {depth : Nat}

theorem readable_saveTag {tag : AnalogTagConfig}
    (h : ∀ q ∈ savedNumbers tag, SpellsNumber strtod (printNumber q) q) :
    Readable strtod printNumber (depth + 1) (saveTag tag) := by
  have hkeys : ∀ key ∈ [cstr "Deadband", cstr "FDF", cstr "SH", cstr "SL"],
      (0 : UInt8) ∉ key := by decide
  have hmember : ∀ key q, key ∈ [cstr "Deadband", cstr "FDF", cstr "SH",
        cstr "SL"] → q ∈ savedNumbers tag →
      0 ∉ key ∧ Readable strtod printNumber depth (.number q) :=
    fun key q hkey hq => ⟨hkeys key hkey, readable_number (h q hq)⟩
  apply readable_object
  intro e he
  rcases List.mem_append.mp he with he | he
  · rcases List.mem_append.mp he with he | he
    · rw [List.mem_singleton.mp he]
      exact hmember _ _ (by simp) (by simp [savedNumbers])
    · split at he
      · rw [List.mem_singleton.mp he]
        exact hmember _ _ (by simp) (by simp [savedNumbers])
      · cases he
  · rcases List.mem_cons.mp he with rfl | he
    · exact hmember _ _ (by simp) (by simp [savedNumbers])
    · rw [List.mem_singleton.mp he]
      exact hmember _ _ (by simp) (by simp [savedNumbers])

/-- An object with a member for each item of a list that has a name. -/
theorem readable_built {β : Type} {name : β → Option CString}
    {item : β → CJson} {l : List β}
    (hname : ∀ b ∈ l, ∀ n, name b = some n → 0 ∉ n)
    (hitem : ∀ b ∈ l, Readable strtod printNumber depth (item b)) :
    Readable strtod printNumber (depth + 1) (.object (l.foldl
      (fun o b => addItemToObject o (name b) (item b)) [])) := by
  apply readable_object
  rintro ⟨n, v⟩ he
  rw [foldl_addItemToObject, List.nil_append, mem_built] at he
  obtain ⟨b, hb, hn, rfl⟩ := he
  exact ⟨hname b hb n hn, hitem b hb⟩

/-- The text `SaveConfig` prints is read back. -/
theorem readable_saveConfig (h : Printable strtod printNumber config) :
    Readable strtod printNumber nestingLimit (saveConfig config) := by
  rw [nestingLimit, saveConfig]
  split
  · exact readable_object fun e he => absurd he List.not_mem_nil
  · rename_i deviceList hlist
    obtain ⟨hids, hnames, hnumbers⟩ := h
    rw [hlist, Option.getD_some] at hids hnames hnumbers
    have hdevice : ∀ device ∈ deviceList,
        Readable strtod printNumber 998 (saveDevice device) := by
      intro device hmem
      exact readable_built (hnames device hmem) fun tag htag =>
        readable_saveTag (hnumbers device hmem tag htag)
    apply readable_object
    intro e he
    have hd : (0 : UInt8) ∉ cstr "d" := by decide
    rw [List.mem_singleton.mp he]
    exact ⟨hd, readable_built hids hdevice⟩

theorem saveConfig_object : ∃ child, saveConfig config = .object child := by
  rw [saveConfig]
  split
  · exact ⟨_, rfl⟩
  · exact ⟨_, rfl⟩

end Saved

/-! ## The trees -/

/-- The configurations in the file and in force. -/
structure Trees where
  file : CJson
  inForce : CJson

/-- The tree of the file when the message is published. -/
def Trees.saved (s : Trees) (call : Upload) : CJson :=
  match call.action with
  | .create => saveConfig call.config
  | .update => saveConfig call.config
  | .delete => s.file

/-- What a call does to the trees. -/
def Trees.upload (isCacheConfig : Bool) (s : Trees) (call : Upload) : Trees :=
  if isCacheConfig then
    { file := s.saved call
      inForce := if call.rc = 0 then s.saved call else s.inForce }
  else s

section InForce

variable {strtod : CString → Option (Rat × Nat)} {printNumber : Rat → CString}
  {isCacheConfig : Bool} {heartbeat : Int}

/-- The texts follow the trees. -/
structure Follows (strtod : CString → Option (Rat × Nat))
    (printNumber : Rat → CString) (trees : Trees) (s : Cache) : Prop where
  object : ∃ child, trees.file = .object child
  readable : Readable strtod printNumber nestingLimit trees.file
  file : s.file = printUnformatted printNumber trees.file
  inForce : cJSONParse strtod s.jsonRef = some trees.inForce

/-- Reading the file puts its tree in force. -/
theorem Follows.read {file : CJson} {s : Cache}
    (hobject : ∃ child, file = .object child)
    (hreadable : Readable strtod printNumber nestingLimit file)
    (hfile : s.file = printUnformatted printNumber file) (after : CString) :
    Follows strtod printNumber ⟨file, file⟩ (readLastConfig after s) where
  object := hobject
  readable := hreadable
  file := hfile
  inForce := by
    obtain ⟨child, rfl⟩ := hobject
    show cJSONParse strtod (s.file ++ after) = some (.object child)
    rw [hfile]
    exact hreadable.parsed after

theorem Follows.upload {trees : Trees} {s : Cache} {call : Upload}
    (h : Follows strtod printNumber trees s)
    (hcall : Printable strtod printNumber call.config) :
    Follows strtod printNumber (trees.upload isCacheConfig call)
      (uploadStep printNumber isCacheConfig heartbeat s call) := by
  cases hcache : isCacheConfig with
  | false =>
      have hsaved : savedCache printNumber false s call = s :=
        savedCache_off rfl
      have hstep : uploadStep printNumber false heartbeat s call = s := by
        by_cases hrc : call.rc = 0
        · rw [(uploadStep_succeeded hrc).1, if_neg Bool.false_ne_true, hsaved]
        · rw [(uploadStep_failed hrc).1, hsaved]
      rw [hstep]
      exact h
  | true =>
      have hsaved : (∃ child, trees.saved call = .object child) ∧
          Readable strtod printNumber nestingLimit (trees.saved call) ∧
          (savedCache printNumber true s call).file =
            printUnformatted printNumber (trees.saved call) := by
        unfold Trees.saved savedCache
        cases call.action with
        | create =>
            exact ⟨saveConfig_object, readable_saveConfig hcall, rfl⟩
        | update =>
            exact ⟨saveConfig_object, readable_saveConfig hcall, rfl⟩
        | delete => exact ⟨h.object, h.readable, h.file⟩
      obtain ⟨hobject, hreadable, hfile⟩ := hsaved
      rw [Trees.upload, if_pos rfl]
      by_cases hrc : call.rc = 0
      · rw [(uploadStep_succeeded hrc).1, if_pos rfl, if_pos hrc]
        exact Follows.read hobject hreadable hfile call.after
      · rw [(uploadStep_failed hrc).1, if_neg hrc]
        refine ⟨hobject, hreadable, hfile, ?_⟩
        rw [savedCache_jsonRef]
        exact h.inForce

end InForce

/-! ## A sample run -/

/-- A device with a tag that has a span and a deadband. -/
def sampleSaved : NodeConfig where
  deviceList := some
    [{ id := some (cstr "A")
       analogTagList :=
        [{ name := some (cstr "t"), deadband := 5, spanHigh := 12,
           spanLow := 0 }] }]

private theorem sampleSaved_printable :
    Printable strtodWhole (fun q => printInt q.num) sampleSaved := by
  have hnumber : ∀ q ∈ [(5 : Rat), 0, 12, 0],
      SpellsNumber strtodWhole (printInt q.num) q := by
    have hfive : SpellsNumber strtodWhole (printInt (5 : Rat).num) 5 :=
      ⟨⟨53, [], rfl, by decide⟩, List.all_eq_true.mp rfl, by decide, rfl⟩
    have hzero : SpellsNumber strtodWhole (printInt (0 : Rat).num) 0 :=
      ⟨⟨48, [], rfl, by decide⟩, List.all_eq_true.mp rfl, by decide, rfl⟩
    have htwelve : SpellsNumber strtodWhole (printInt (12 : Rat).num) 12 :=
      ⟨⟨49, cstr "2", rfl, by decide⟩, List.all_eq_true.mp rfl, by decide, rfl⟩
    intro q hq
    simp only [List.mem_cons, List.not_mem_nil, or_false] at hq
    rcases hq with rfl | rfl | rfl | rfl
    · exact hfive
    · exact hzero
    · exact htwelve
    · exact hzero
  constructor
  · intro device hdevice id hid
    rw [List.mem_singleton.mp hdevice] at hid
    cases hid
    decide
  · intro device hdevice tag htag name hname
    rw [List.mem_singleton.mp hdevice] at htag
    rw [List.mem_singleton.mp htag] at hname
    cases hname
    decide
  · intro device hdevice tag htag q hq
    rw [List.mem_singleton.mp hdevice] at htag
    rw [List.mem_singleton.mp htag] at hq
    have hsaved : savedNumbers
        { name := some (cstr "t"), deadband := 5, spanHigh := 12,
          spanLow := 0 } = [5, 0, 12, 0] := by decide
    rw [hsaved] at hq
    exact hnumber q hq

end DatahubEdge.Config
