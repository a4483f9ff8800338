import DatahubEdge.Config.Convert
import DatahubEdge.Lib.Fold

/-!
# `UploadConfig` and the cached configuration

The cached configuration exists twice: in the file `config.json`, which
`SaveConfig` overwrites before the message is published, and in the text
`json_ref`, which `read_last_config` fills from the file after a successful
publish.  `read_last_config` allocates a byte for the terminator and does not
write it, so the text it leaves goes on up to the next zero byte in memory;
what lies there is part of the input of a read.

File operations succeed.  Outside the model stand what `mosquitto_publish`
returns (`rc`), the time `_getTime` prints (`ts`) and the text of a number
(`printNumber`).

## Main results

* `uploadConfig_consistent` — what one call does to the two copies.
* `never_drifts_iff` — in which runs the two copies never differ.
-/

namespace DatahubEdge.Config

open Lib.Fold

/-- `ActionType`. -/
inductive ActionType where
  | create | update | delete

/-- The two copies of the cached configuration. -/
structure Cache where
  file : CString
  jsonRef : CString

/-- `read_last_config`.  `after` are the bytes that follow the text in memory,
up to the first zero. -/
def readLastConfig (after : CString) (s : Cache) : Cache :=
  { s with jsonRef := s.file ++ after }

/-- A call of `UploadConfig`, with what its environment contributes: the time,
the result of `mosquitto_publish` and the memory after the text, should it be
read. -/
structure Upload where
  action : ActionType
  config : NodeConfig
  ts : CString
  rc : Int
  after : CString

/-- The two copies after a call, the text handed to `mosquitto_publish` and
the result. -/
structure Uploaded where
  cache : Cache
  payload : CString
  returns : Int

section Upload

variable (printNumber : Rat → CString) (isCacheConfig : Bool) (heartbeat : Int)

/-- The file after `SaveConfig`. -/
def saveConfigFile (config : NodeConfig) (s : Cache) : Cache :=
  { s with file := printUnformatted printNumber (saveConfig config) }

/-- The tree of the message of a call. -/
def uploadMessage (call : Upload) : CJson :=
  match call.action with
  | .create => convertCreateOrUpdateConfig 1 call.config heartbeat call.ts
  | .update => convertCreateOrUpdateConfig 2 call.config heartbeat call.ts
  | .delete => convertDeleteConfig 3 call.config call.ts

/-- The copies when the message is published. -/
def savedCache (s : Cache) (call : Upload) : Cache :=
  match call.action with
  | .create =>
      if isCacheConfig then saveConfigFile printNumber call.config s else s
  | .update =>
      if isCacheConfig then saveConfigFile printNumber call.config s else s
  | .delete => s

/-- `UploadConfig`. -/
def uploadConfig (s : Cache) (call : Upload) : Uploaded :=
  let payload := printUnformatted printNumber (uploadMessage heartbeat call)
  let s := savedCache printNumber isCacheConfig s call
  if call.rc ≠ 0 then { cache := s, payload := payload, returns := 1 }
  else
    { cache := if isCacheConfig then readLastConfig call.after s else s
      payload := payload
      returns := 0 }

/-- The copies after the call. -/
def uploadStep (s : Cache) (call : Upload) : Cache :=
  (uploadConfig printNumber isCacheConfig heartbeat s call).cache

/-- The copies the Constructor leaves, given the file it finds. -/
def constructed (file after : CString) : Cache :=
  readLastConfig after { file := file, jsonRef := [] }

/-! ## One call -/

/-- The copies agree after the call, and a call that fails leaves both as they
were. -/
def Consistent (s : Cache) (call : Upload) : Prop :=
  (uploadStep printNumber isCacheConfig heartbeat s call).jsonRef =
      (uploadStep printNumber isCacheConfig heartbeat s call).file ∧
    ((uploadConfig printNumber isCacheConfig heartbeat s call).returns = 1 →
      uploadStep printNumber isCacheConfig heartbeat s call = s)

/-- With the cache on, a call that fails has not written a configuration other
than the one in the file, and a call that succeeds finds a zero byte after the
text it reads. -/
structure Careful (s : Cache) (call : Upload) : Prop where
  unchanged : isCacheConfig = true → call.rc ≠ 0 →
    (savedCache printNumber isCacheConfig s call).file = s.file
  terminated : isCacheConfig = true → call.rc = 0 → call.after = []

variable {printNumber isCacheConfig heartbeat} {s : Cache} {call : Upload}

/-- Saving touches the file only. -/
theorem savedCache_jsonRef :
    (savedCache printNumber isCacheConfig s call).jsonRef = s.jsonRef := by
  unfold savedCache saveConfigFile
  split
  · split
    · rfl
    · rfl
  · split
    · rfl
    · rfl
  · rfl

/-- Without the cache nothing is saved. -/
theorem savedCache_off (h : isCacheConfig = false) :
    savedCache printNumber isCacheConfig s call = s := by
  unfold savedCache
  rw [h]
  split
  · rfl
  · rfl
  · rfl

theorem uploadStep_failed (h : call.rc ≠ 0) :
    uploadStep printNumber isCacheConfig heartbeat s call =
        savedCache printNumber isCacheConfig s call ∧
      (uploadConfig printNumber isCacheConfig heartbeat s call).returns = 1 := by
  unfold uploadStep uploadConfig
  rw [if_pos h]
  exact ⟨rfl, rfl⟩

theorem uploadStep_succeeded (h : call.rc = 0) :
    uploadStep printNumber isCacheConfig heartbeat s call =
        (if isCacheConfig then
          readLastConfig call.after
            (savedCache printNumber isCacheConfig s call)
        else savedCache printNumber isCacheConfig s call) ∧
      (uploadConfig printNumber isCacheConfig heartbeat s call).returns = 0 := by
  unfold uploadStep uploadConfig
  rw [if_neg (not_not.mpr h)]
  exact ⟨rfl, rfl⟩

/-- From copies that agree, a call is consistent exactly when it is
careful. -/
theorem uploadConfig_consistent (hsame : s.jsonRef = s.file) :
    Consistent printNumber isCacheConfig heartbeat s call ↔
      Careful printNumber isCacheConfig s call := by
  unfold Consistent
  by_cases hrc : call.rc = 0
  · rw [(uploadStep_succeeded hrc).1, (uploadStep_succeeded hrc).2]
    cases hcache : isCacheConfig with
    | false =>
        have hsaved : savedCache printNumber false s call = s :=
          savedCache_off rfl
        rw [if_neg Bool.false_ne_true, hsaved]
        refine iff_of_true ⟨hsame, fun _ => rfl⟩ ⟨?_, ?_⟩
        · intro h
          cases h
        · intro h
          cases h
    | true =>
        rw [if_pos rfl]
        constructor
        · rintro ⟨hafter, _⟩
          exact ⟨fun _ hne => absurd hrc hne,
            fun _ _ => List.append_right_eq_self.mp hafter⟩
        · intro hcareful
          have hafter := hcareful.terminated rfl hrc
          refine ⟨List.append_right_eq_self.mpr hafter, ?_⟩
          intro h
          cases h
  · rw [(uploadStep_failed hrc).1, (uploadStep_failed hrc).2]
    constructor
    · rintro ⟨_, hsaved⟩
      exact ⟨fun _ _ => congrArg Cache.file (hsaved rfl),
        fun _ h => absurd h hrc⟩
    · intro hcareful
      have hsaved : savedCache printNumber isCacheConfig s call = s := by
        cases hcache : isCacheConfig with
        | false => exact savedCache_off rfl
        | true =>
            have hfile := hcareful.unchanged hcache hrc
            rw [hcache] at hfile
            have href : (savedCache printNumber true s call).jsonRef =
              s.jsonRef := savedCache_jsonRef
            exact congrArg₂ Cache.mk hfile href
      rw [hsaved]
      exact ⟨hsame, fun _ => rfl⟩

end Upload

/-! ## Runs of calls -/

section Run

variable (printNumber : Rat → CString) (isCacheConfig : Bool) (heartbeat : Int)

/-- From the Constructor on the copies agree, and no call that fails changes
them. -/
def NeverDrifts (file after : CString) (calls : List Upload) : Prop :=
  (constructed file after).jsonRef = (constructed file after).file ∧
    ∀ pre s call,
      VisitsTotal (uploadStep printNumber isCacheConfig heartbeat)
        (constructed file after) calls pre s call →
      Consistent printNumber isCacheConfig heartbeat s call

/-- The text the Constructor reads is followed by a zero byte, and every call
is careful in the state in which it is made. -/
def AllCareful (file after : CString) (calls : List Upload) : Prop :=
  after = [] ∧
    ∀ pre s call,
      VisitsTotal (uploadStep printNumber isCacheConfig heartbeat)
        (constructed file after) calls pre s call →
      Careful printNumber isCacheConfig s call

variable {printNumber isCacheConfig heartbeat} {file after : CString}
  {calls : List Upload}

/-- If every call made while the copies agree leaves them in agreement, they
agree whenever a call is made. -/
theorem visit_same
    (hstart : (constructed file after).jsonRef = (constructed file after).file)
    (hstep : ∀ pre s call,
      VisitsTotal (uploadStep printNumber isCacheConfig heartbeat)
        (constructed file after) calls pre s call → s.jsonRef = s.file →
      Consistent printNumber isCacheConfig heartbeat s call)
    {pre : List Upload} {s : Cache} {call : Upload}
    (hv : VisitsTotal (uploadStep printNumber isCacheConfig heartbeat)
      (constructed file after) calls pre s call) : s.jsonRef = s.file := by
  obtain ⟨post, hcalls⟩ := hv.split
  rw [← hv.reach]
  refine foldl_invariant (P := fun _ (s : Cache) => s.jsonRef = s.file) pre
    hstart ?_
  intro done t c hvisit ht
  have hvisit' := hvisit.append (call :: post)
  rw [← hcalls] at hvisit'
  exact (hstep done t c hvisit' ht).1

/-- The file and the text in memory never differ, and no call that fails
changes them, if and only if every call is careful: with the cache on, no
publish fails after a configuration other than the cached one was saved, and
every text that is read is followed by a zero byte. -/
theorem never_drifts_iff :
    NeverDrifts printNumber isCacheConfig heartbeat file after calls ↔
      AllCareful printNumber isCacheConfig heartbeat file after calls := by
  constructor
  · rintro ⟨hstart, hcalls⟩
    refine ⟨List.append_right_eq_self.mp hstart, ?_⟩
    intro pre s call hv
    have hsame := visit_same hstart (fun pre s call hv _ => hcalls pre s call hv)
      hv
    exact (uploadConfig_consistent hsame).mp (hcalls pre s call hv)
  · rintro ⟨hafter, hcareful⟩
    have hstart : (constructed file after).jsonRef =
        (constructed file after).file := List.append_right_eq_self.mpr hafter
    refine ⟨hstart, ?_⟩
    intro pre s call hv
    have hsame := visit_same hstart (fun pre s call hv hs =>
      (uploadConfig_consistent hs).mpr (hcareful pre s call hv)) hv
    exact (uploadConfig_consistent hsame).mpr (hcareful pre s call hv)

end Run

/-! ## A sample call -/

/-- An upload of a configuration without devices. -/
def sampleUpload (rc : Int) : Upload where
  action := .update
  config := { deviceList := none }
  ts := []
  rc := rc
  after := []

/-- An upload that cannot be published leaves a new file beside the old
text. -/
theorem failed_upload_drifts :
    ¬ NeverDrifts (fun _ => cstr "0") true 60 (cstr "old") []
      [sampleUpload 4] := by
  rintro ⟨_, hcalls⟩
  have hv : VisitsTotal (uploadStep (fun _ => cstr "0") true 60)
      (constructed (cstr "old") []) [sampleUpload 4] []
      (constructed (cstr "old") []) (sampleUpload 4) := ⟨⟨[], rfl⟩, rfl⟩
  have hsame := (hcalls _ _ _ hv).1
  exact absurd hsame (by decide)

end DatahubEdge.Config
