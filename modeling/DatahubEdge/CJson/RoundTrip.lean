import DatahubEdge.CJson.Format
import DatahubEdge.CJson.Grammar

/-!
# Reading back what was printed

A printed tree spells itself in the grammar of the parser, so the parser
returns it, formatted or not and whatever bytes follow the text.  In the other
direction the parser returns only trees that survive being printed.

The text of a number and its reading are parameters; a tree is read back as
far as its numbers are.

## Main results

* `spells_formatValue` — a printed tree spells itself.
* `cJSONParse_print_iff` — which trees are read back from their text.
* `cJSONParse_normal` — what was parsed is read back from its own text.
-/

namespace DatahubEdge

open Lib.Parsing

/-! ## Measures of a tree -/

mutual

/-- The levels of arrays and objects in a tree. -/
def CJson.nesting : CJson → Nat
  | .array child => CJson.nestingArray child + 1
  | .object child => CJson.nestingObject child + 1
  | _ => 0

def CJson.nestingArray : List CJson → Nat
  | [] => 0
  | item :: next => max item.nesting (CJson.nestingArray next)

def CJson.nestingObject : List (CString × CJson) → Nat
  | [] => 0
  | (_, item) :: next => max item.nesting (CJson.nestingObject next)

end

mutual

/-- Every number of the tree satisfies `P`. -/
def CJson.NumbersIn (P : Rat → Prop) : CJson → Prop
  | .number valuedouble => P valuedouble
  | .array child => CJson.NumbersInArray P child
  | .object child => CJson.NumbersInObject P child
  | _ => True

def CJson.NumbersInArray (P : Rat → Prop) : List CJson → Prop
  | [] => True
  | item :: next => item.NumbersIn P ∧ CJson.NumbersInArray P next

def CJson.NumbersInObject (P : Rat → Prop) : List (CString × CJson) → Prop
  | [] => True
  | (_, item) :: next => item.NumbersIn P ∧ CJson.NumbersInObject P next

end

theorem nesting_array {child : List CJson} {depth : Nat} :
    (CJson.array child).nesting ≤ depth + 1 ↔
      ∀ item ∈ child, item.nesting ≤ depth := by
  rw [CJson.nesting, Nat.add_le_add_iff_right]
  induction child with
  | nil => simp [CJson.nestingArray]
  | cons item child ih =>
      rw [CJson.nestingArray, Nat.max_le, ih, List.forall_mem_cons]

theorem nesting_object {child : List (CString × CJson)} {depth : Nat} :
    (CJson.object child).nesting ≤ depth + 1 ↔
      ∀ e ∈ child, e.2.nesting ≤ depth := by
  rw [CJson.nesting, Nat.add_le_add_iff_right]
  induction child with
  | nil => simp [CJson.nestingObject]
  | cons e child ih =>
      rw [CJson.nestingObject, Nat.max_le, ih, List.forall_mem_cons]

theorem numbersIn_array {P : Rat → Prop} {child : List CJson} :
    (CJson.array child).NumbersIn P ↔ ∀ item ∈ child, item.NumbersIn P := by
  rw [CJson.NumbersIn]
  induction child with
  | nil => simp [CJson.NumbersInArray]
  | cons item child ih => simp [CJson.NumbersInArray, ih]

theorem numbersIn_object {P : Rat → Prop} {child : List (CString × CJson)} :
    (CJson.object child).NumbersIn P ↔ ∀ e ∈ child, e.2.NumbersIn P := by
  rw [CJson.NumbersIn]
  induction child with
  | nil => simp [CJson.NumbersInObject]
  | cons e child ih => simp [CJson.NumbersInObject, ih]

theorem mentions_array {c : UInt8} {child : List CJson} :
    (CJson.array child).Mentions c ↔ ∃ item ∈ child, item.Mentions c := by
  rw [CJson.Mentions]
  induction child with
  | nil => simp [CJson.MentionsArray]
  | cons item child ih => simp [CJson.MentionsArray, ih]

/-! ## Strings -/

/-- A control byte is escaped by a letter or by four hexadecimal digits. -/
private theorem escapeByte_cases (c : UInt8) :
    (c ≠ 34 ∧ c ≠ 92 ∧ escapeByte c = [c]) ∨
      c ∈ [92, 34, 8, 12, 10, 13, 9] ∨
      (escapeByte c = [92, 117, 48, 48, 48 + c / 16, hexDigit (c % 16)] ∧
        utf8 (parseHex4 48 48 (48 + c / 16) (hexDigit (c % 16))) = [c] ∧
        parseHex4 48 48 (48 + c / 16) (hexDigit (c % 16)) < 0xD800 ∧
        48 + c / 16 ≠ 34 ∧ 48 + c / 16 ≠ 92 ∧
        hexDigit (c % 16) ≠ 34 ∧ hexDigit (c % 16) ≠ 92) := by
  have hall : ∀ c : Fin 256,
      (UInt8.ofFin c ≠ 34 ∧ UInt8.ofFin c ≠ 92 ∧
          escapeByte (UInt8.ofFin c) = [UInt8.ofFin c]) ∨
        UInt8.ofFin c ∈ [92, 34, 8, 12, 10, 13, 9] ∨
        (escapeByte (UInt8.ofFin c) = [92, 117, 48, 48,
            48 + UInt8.ofFin c / 16, hexDigit (UInt8.ofFin c % 16)] ∧
          utf8 (parseHex4 48 48 (48 + UInt8.ofFin c / 16)
            (hexDigit (UInt8.ofFin c % 16))) = [UInt8.ofFin c] ∧
          parseHex4 48 48 (48 + UInt8.ofFin c / 16)
            (hexDigit (UInt8.ofFin c % 16)) < 0xD800 ∧
          48 + UInt8.ofFin c / 16 ≠ 34 ∧ 48 + UInt8.ofFin c / 16 ≠ 92 ∧
          hexDigit (UInt8.ofFin c % 16) ≠ 34 ∧
          hexDigit (UInt8.ofFin c % 16) ≠ 92) := by decide +kernel
  exact hall c.toFin

private theorem unescape_letter {e b : UInt8} (he : e ≠ 117)
    (hb : escapedByte e = some b) (rest : CString) :
    unescape (92 :: e :: rest) = (unescape rest).map (b :: ·) := by
  rw [unescape.eq_def]
  simp only [ne_eq, not_true, if_false, he, not_false_iff, if_true, hb]

/-- The escape of a byte is read as that byte. -/
theorem unescape_escapeByte (c : UInt8) (rest : CString) :
    unescape (escapeByte c ++ rest) = (unescape rest).map (c :: ·) := by
  rcases escapeByte_cases c with ⟨_, hslash, hescape⟩ | hletter |
    ⟨hescape, hutf8, hlt, _⟩
  · rw [hescape, List.cons_append, unescape.eq_def]
    simp only [ne_eq, hslash, not_false_iff, if_true]
    rfl
  · simp only [List.mem_cons, List.not_mem_nil, or_false] at hletter
    rcases hletter with rfl | rfl | rfl | rfl | rfl | rfl | rfl
    · exact unescape_letter (by decide) rfl rest
    · exact unescape_letter (by decide) rfl rest
    · exact unescape_letter (by decide) rfl rest
    · exact unescape_letter (by decide) rfl rest
    · exact unescape_letter (by decide) rfl rest
    · exact unescape_letter (by decide) rfl rest
    · exact unescape_letter (by decide) rfl rest
  · rw [hescape, List.cons_append, unescape.eq_def]
    have hlow : ¬ (0xDC00 ≤ parseHex4 48 48 (48 + c / 16) (hexDigit (c % 16)) ∧
        parseHex4 48 48 (48 + c / 16) (hexDigit (c % 16)) ≤ 0xDFFF) := by omega
    have hhigh : ¬ (0xD800 ≤ parseHex4 48 48 (48 + c / 16) (hexDigit (c % 16)) ∧
        parseHex4 48 48 (48 + c / 16) (hexDigit (c % 16)) ≤ 0xDBFF) := by omega
    simp only [List.cons_append, List.nil_append, ne_eq, not_true, if_false,
      if_neg hlow, if_neg hhigh, hutf8]

theorem quoted_escapeByte (c : UInt8) {rest : CString} (h : Quoted rest) :
    Quoted (escapeByte c ++ rest) := by
  rcases escapeByte_cases c with ⟨hquote, hslash, hescape⟩ | hletter |
    ⟨hescape, _, _, hquote, hslash, hquote', hslash'⟩
  · rw [hescape]
    exact .plain hquote hslash h
  · simp only [List.mem_cons, List.not_mem_nil, or_false] at hletter
    rcases hletter with rfl | rfl | rfl | rfl | rfl | rfl | rfl
    · exact .escape h
    · exact .escape h
    · exact .escape h
    · exact .escape h
    · exact .escape h
    · exact .escape h
    · exact .escape h
  · rw [hescape]
    exact .escape (.plain (by decide) (by decide) (.plain (by decide)
      (by decide) (.plain hquote hslash (.plain hquote' hslash' h))))

/-- A printed string without a zero byte is a literal of itself. -/
theorem spells_printStringPtr {s : CString} (h : 0 ∉ s) :
    SpellsString (printStringPtr s) s := by
  have hbody : Quoted (s.flatMap escapeByte) ∧
      unescape (s.flatMap escapeByte) = some s := by
    clear h
    induction s with
    | nil => exact ⟨.nil, rfl⟩
    | cons c s ih =>
        rw [List.flatMap_cons]
        refine ⟨quoted_escapeByte c ih.1, ?_⟩
        rw [unescape_escapeByte, ih.2]
        rfl
  refine ⟨_, s, rfl, hbody.1, unescape_iff.mp hbody.2, ?_⟩
  symm
  rw [List.takeWhile_eq_self_iff]
  intro c hc
  have hne : c ≠ 0 := by
    intro hzero
    exact h (hzero ▸ hc)
  simpa using hne

/-! ## A printed tree in the grammar -/

/-- A string that was read ends before the first zero byte. -/
theorem SpellsString.zero_not_mem {text value : CString}
    (h : SpellsString text value) : 0 ∉ value := by
  obtain ⟨body, output, _, _, _, rfl⟩ := h
  intro hzero
  simpa using List.mem_takeWhile_imp hzero

/-- What holds of every spelled item holds of the children. -/
theorem SpellsChildren.forall {β : Type} {spells : CString → β → Prop}
    {P : β → Prop} {body : CString} {child : List β}
    (h : SpellsChildren spells body child)
    (hP : ∀ text value, spells text value → P value) :
    ∀ value ∈ child, P value := by
  rcases h with ⟨rfl, _⟩ | h
  · intro value hvalue
    cases hvalue
  · exact h.forall hP

section Printed

variable {strtod : CString → Option (Rat × Nat)} {printNumber : Rat → CString}
  {format : Bool}

/-- What formatting adds is white space. -/
theorem blank_formatted {text : CString} (h : Blank whitespace text) :
    Blank whitespace (formatted format text) := by
  intro c hc
  cases format with
  | false => cases hc
  | true => exact h c hc

theorem blank_tabs (format : Bool) (depth : Nat) :
    Blank whitespace (formatted format (List.replicate depth 9)) := by
  apply blank_formatted
  intro c hc
  rw [List.eq_of_mem_replicate hc]
  rfl

theorem blank_byte (format : Bool) (c : UInt8) (h : whitespace c = true) :
    Blank whitespace (formatted format [c]) := by
  apply blank_formatted
  intro d hd
  rw [List.mem_singleton.mp hd]
  exact h

private theorem blank_nil : Blank whitespace [] :=
  fun _ hc => absurd hc List.not_mem_nil

/-- The printed elements of an array, if each spells itself. -/
private theorem separated_formatArray {depth limit : Nat} {item : CJson}
    {next : List CJson}
    (h : ∀ t ∈ item :: next,
      Spells strtod limit (formatValue printNumber format depth t) t) :
    Separated whitespace (Spells strtod limit) 44
      (formatArray printNumber format depth (item :: next)) (item :: next) := by
  induction next generalizing item with
  | nil =>
      rw [formatArray]
      have hlast : Separated whitespace (Spells strtod limit) 44 _ [item] :=
        .last blank_nil (h item (by simp)) blank_nil
      simpa using hlast
  | cons item' next ih =>
      rw [formatArray]
      · refine .more blank_nil (h item (by simp)) blank_nil
          (.prepend (blank_byte _ _ rfl) (ih ?_))
        intro t ht
        exact h t (List.mem_cons_of_mem item ht)
      · simp

/-- A printed member. -/
private theorem spells_member {depth limit : Nat} {string : CString}
    {item : CJson} (hstring : 0 ∉ string)
    (h : Spells strtod limit (formatValue printNumber format depth item) item) :
    SpellsMember (Spells strtod limit)
      (printStringPtr string ++ (58 :: (formatted format [9] ++
        formatValue printNumber format depth item))) (string, item) :=
  ⟨printStringPtr string, [], formatted format [9], _, rfl,
    spells_printStringPtr hstring, blank_nil, blank_byte _ _ rfl, h⟩

/-- The printed members of an object, if every value spells itself. -/
private theorem separated_formatObject {depth limit : Nat} {after : CString}
    (hafter : Blank whitespace after) {e : CString × CJson}
    {next : List (CString × CJson)}
    (h : ∀ m ∈ e :: next, 0 ∉ m.1 ∧
      Spells strtod limit (formatValue printNumber format depth m.2) m.2) :
    Separated whitespace (SpellsMember (Spells strtod limit)) 44
      (formatObject printNumber format depth (e :: next) ++ after)
      (e :: next) := by
  induction next generalizing e with
  | nil =>
      obtain ⟨string, item⟩ := e
      obtain ⟨hstring, hitem⟩ := h (string, item) (by simp)
      rw [formatObject]
      have hlast : Separated whitespace (SpellsMember (Spells strtod limit)) 44 _
          [(string, item)] :=
        .last (blank_tabs format depth) (spells_member hstring hitem)
          ((blank_byte format 10 rfl).append hafter)
      simpa using hlast
  | cons e' next ih =>
      obtain ⟨string, item⟩ := e
      obtain ⟨hstring, hitem⟩ := h (string, item) (by simp)
      rw [formatObject]
      · have hnext := @ih e' fun m hm =>
          h m (List.mem_cons_of_mem (string, item) hm)
        have hmore := Separated.more (blank_tabs format depth)
          (spells_member hstring hitem) blank_nil
          (.prepend (blank_byte format 10 rfl) hnext)
        simpa using hmore
      · simp

/-- A tree spells itself at every level of indentation, if its strings have no
zero bytes, its numbers are read back and it is nested no deeper than the
parser goes. -/
theorem spells_formatValue (limit : Nat) :
    ∀ {t : CJson} (depth : Nat), t.nesting ≤ limit → ¬ t.Mentions 0 →
      t.NumbersIn (fun q => SpellsNumber strtod (printNumber q) q) →
      Spells strtod limit (formatValue printNumber format depth t) t := by
  induction limit using Nat.strong_induction_on with
  | _ limit ih =>
      intro t depth hnesting hzero hnumbers
      cases t with
      | null => rw [formatValue, Spells]
      | bool value =>
          cases value with
          | false => rw [formatValue, Spells]
          | true => rw [formatValue, Spells]
      | number q =>
          rw [formatValue, Spells]
          rw [CJson.NumbersIn] at hnumbers
          exact hnumbers
      | string s =>
          rw [formatValue, Spells]
          exact spells_printStringPtr (mentions_string.not.mp hzero)
      | array child =>
          cases limit with
          | zero => simp [CJson.nesting] at hnesting
          | succ limit =>
              have hitem : ∀ item ∈ child, Spells strtod limit
                  (formatValue printNumber format (depth + 1) item) item := by
                intro item hitem
                exact ih limit (by omega) (depth + 1)
                  (nesting_array.mp hnesting item hitem)
                  (fun h => hzero (mentions_array.mpr ⟨item, hitem, h⟩))
                  (numbersIn_array.mp hnumbers item hitem)
              rw [formatValue, Spells]
              refine ⟨_, rfl, ?_⟩
              cases child with
              | nil =>
                  rw [formatArray]
                  exact .inl ⟨rfl, blank_nil⟩
              | cons item next => exact .inr (separated_formatArray hitem)
      | object child =>
          cases limit with
          | zero => simp [CJson.nesting] at hnesting
          | succ limit =>
              have hmember : ∀ m ∈ child, 0 ∉ m.1 ∧ Spells strtod limit
                  (formatValue printNumber format (depth + 1) m.2) m.2 := by
                intro m hm
                refine ⟨fun h => hzero (mentions_object.mpr ⟨m, hm, .inl h⟩),
                  ih limit (by omega) (depth + 1)
                    (nesting_object.mp hnesting m hm)
                    (fun h => hzero (mentions_object.mpr ⟨m, hm, .inr h⟩))
                    (numbersIn_object.mp hnumbers m hm)⟩
              rw [formatValue, Spells]
              refine ⟨formatted format [10] ++
                (formatObject printNumber format (depth + 1) child ++
                  formatted format (List.replicate depth 9)), by simp, ?_⟩
              cases child with
              | nil =>
                  rw [formatObject]
                  exact .inl ⟨rfl, (blank_byte _ _ rfl).append
                    (blank_nil.append (blank_tabs _ depth))⟩
              | cons e next =>
                  exact .inr (.prepend (blank_byte _ _ rfl)
                    (separated_formatObject (blank_tabs _ depth) hmember))

/-- What spells a tree bounds its nesting, and leaves no zero byte in its
strings. -/
theorem Spells.wellFormed (limit : Nat) :
    ∀ {text : CString} {t : CJson}, Spells strtod limit text t →
      t.nesting ≤ limit ∧ ¬ t.Mentions 0 := by
  induction limit using Nat.strong_induction_on with
  | _ limit ih =>
      intro text t h
      cases t with
      | null => simp [CJson.nesting, CJson.Mentions]
      | bool value => simp [CJson.nesting, CJson.Mentions]
      | number q => simp [CJson.nesting, CJson.Mentions]
      | string s =>
          rw [Spells] at h
          simpa [CJson.nesting, CJson.Mentions] using h.zero_not_mem
      | array child =>
          cases limit with
          | zero =>
              rw [Spells] at h
              exact h.elim
          | succ limit =>
              rw [Spells] at h
              obtain ⟨body, _, hbody⟩ := h
              have hitem := hbody.forall fun _ _ => ih limit (by omega)
              rw [nesting_array, mentions_array]
              refine ⟨fun item hmem => (hitem item hmem).1, ?_⟩
              rintro ⟨item, hmem, hzero⟩
              exact (hitem item hmem).2 hzero
      | object child =>
          cases limit with
          | zero =>
              rw [Spells] at h
              exact h.elim
          | succ limit =>
              rw [Spells] at h
              obtain ⟨body, _, hbody⟩ := h
              have hmember := hbody.forall (P := fun m : CString × CJson =>
                0 ∉ m.1 ∧ m.2.nesting ≤ limit ∧ ¬ m.2.Mentions 0) (by
                  rintro text m ⟨name, _, _, value, _, hname, _, _, hvalue⟩
                  exact ⟨hname.zero_not_mem, ih limit (by omega) hvalue⟩)
              rw [nesting_object, mentions_object]
              refine ⟨fun m hmem => (hmember m hmem).2.1, ?_⟩
              rintro ⟨m, hmem, hzero | hzero⟩
              · exact (hmember m hmem).1 hzero
              · exact (hmember m hmem).2.2 hzero

/-! ## Parsing a printed tree -/

/-- A printed tree is read back whatever bytes follow its text. -/
theorem cJSONParse_printed (format : Bool) {t : CJson} {after : CString}
    (hnesting : t.nesting ≤ nestingLimit) (hzero : ¬ t.Mentions 0)
    (hnumbers : t.NumbersIn fun q => SpellsNumber strtod (printNumber q) q)
    (hafter : Ends strtod t (print printNumber format t) after) :
    cJSONParse strtod (print printNumber format t ++ after) = some t := by
  have hspells : Spells strtod nestingLimit (print printNumber format t) t :=
    spells_formatValue nestingLimit 0 hnesting hzero hnumbers
  have hbom : skipUtf8Bom (print printNumber format t ++ after) =
      print printNumber format t ++ after :=
    skipBom_spelled (.inl rfl) blank_nil hspells after
  have hskip : skipWhitespace (print printNumber format t ++ after) =
      print printNumber format t ++ after :=
    skip_spelled blank_nil hspells after
  unfold cJSONParse
  rw [hbom, hskip, parseValue_spelled hspells hafter]
  rfl

/-- A parsed tree is nested no deeper than the parser goes and has no zero
byte in a string. -/
theorem cJSONParse_wellFormed (hstrtod : ReadsPrefix strtod) {value : CString}
    {t : CJson} (h : cJSONParse strtod value = some t) :
    t.nesting ≤ nestingLimit ∧ ¬ t.Mentions 0 := by
  obtain ⟨⟨t', rest⟩, hread, rfl⟩ := Option.map_eq_some_iff.mp h
  obtain ⟨text, _, hspells, _⟩ := (parseValue_iff hstrtod).mp hread
  exact hspells.wellFormed

/-- A printed tree is read back, exactly if it is nested no deeper than the
parser goes and its strings have no zero byte. -/
theorem cJSONParse_print_iff (hstrtod : ReadsPrefix strtod) (format : Bool)
    {t : CJson} {after : CString}
    (hnumbers : t.NumbersIn fun q => SpellsNumber strtod (printNumber q) q)
    (hafter : Ends strtod t (print printNumber format t) after) :
    cJSONParse strtod (print printNumber format t ++ after) = some t ↔
      t.nesting ≤ nestingLimit ∧ ¬ t.Mentions 0 := by
  constructor
  · exact cJSONParse_wellFormed hstrtod
  · rintro ⟨hnesting, hzero⟩
    exact cJSONParse_printed format hnesting hzero hnumbers hafter

/-- Every other value than a number ends by itself. -/
theorem ends_of_ne_number {t : CJson} (h : ∀ q, t ≠ .number q)
    (text after : CString) : Ends strtod t text after :=
  fun q heq => absurd heq (h q)

/-- A printed number ends with the text. -/
theorem ends_nil (format : Bool) {t : CJson}
    (hnumbers : t.NumbersIn fun q => SpellsNumber strtod (printNumber q) q) :
    Ends strtod t (print printNumber format t) [] := by
  intro q heq
  subst heq
  rw [CJson.NumbersIn] at hnumbers
  rw [print, formatValue, List.append_nil,
    List.take_of_length_le hnumbers.length,
    List.takeWhile_eq_self_iff.mpr hnumbers.bytes]
  exact hnumbers.read

end Printed

/-! ## The sample `strtod` -/

private theorem takeWhile_take {text : CString} {d : UInt8} {digits : CString}
    (h : text.takeWhile isDigitByte = d :: digits) :
    digits.length + 1 ≤ text.length ∧
      (text.take (digits.length + 1)).takeWhile isDigitByte = d :: digits := by
  have hpre : d :: digits <+: text := h ▸ List.takeWhile_prefix isDigitByte
  refine ⟨hpre.length_le, ?_⟩
  have htake : text.take (digits.length + 1) = d :: digits :=
    (List.prefix_iff_eq_take.mp hpre).symm
  rw [htake, List.takeWhile_eq_self_iff]
  intro c hc
  rw [← h] at hc
  exact List.mem_takeWhile_imp hc

theorem strtodWhole_readsPrefix : ReadsPrefix strtodWhole where
  bound := by
    intro text number read h
    cases text with
    | nil => cases h
    | cons c rest =>
        rw [strtodWhole] at h
        by_cases hc : c = 45
        · rw [if_pos hc] at h
          cases hdigits : rest.takeWhile isDigitByte with
          | nil =>
              rw [hdigits] at h
              cases h
          | cons d digits =>
              rw [hdigits] at h
              cases h
              have := (takeWhile_take hdigits).1
              rw [List.length_cons]
              omega
        · rw [if_neg hc] at h
          cases hdigits : (c :: rest).takeWhile isDigitByte with
          | nil =>
              rw [hdigits] at h
              cases h
          | cons d digits =>
              rw [hdigits] at h
              cases h
              have := (takeWhile_take hdigits).1
              omega
  take := by
    intro text number read h
    cases text with
    | nil => cases h
    | cons c rest =>
        rw [strtodWhole] at h
        by_cases hc : c = 45
        · rw [if_pos hc] at h
          cases hdigits : rest.takeWhile isDigitByte with
          | nil =>
              rw [hdigits] at h
              cases h
          | cons d digits =>
              rw [hdigits] at h
              cases h
              rw [List.take_succ_cons, strtodWhole, if_pos hc,
                (takeWhile_take hdigits).2]
        · rw [if_neg hc] at h
          cases hdigits : (c :: rest).takeWhile isDigitByte with
          | nil =>
              rw [hdigits] at h
              cases h
          | cons d digits =>
              rw [hdigits] at h
              cases h
              have htake := (takeWhile_take hdigits).2
              rw [List.take_succ_cons] at htake ⊢
              rw [strtodWhole, if_neg hc, htake]

/-! ## Sample texts -/

private theorem number_sample (text : CString) (h : text = [49, 50]) :
    SpellsNumber strtodWhole text 12 := by
  subst h
  exact ⟨⟨49, [50], rfl, by decide⟩, List.all_eq_true.mp rfl, by decide, rfl⟩

/-- A line feed and the character U+1F600. -/
def sampleValue : CString := [10, 0xF0, 0x9F, 0x98, 0x80]

def sampleLiteral : CString := cstr "\"\\n\\uD83D\\ude00\""

private theorem spells_literal : SpellsString sampleLiteral sampleValue := by
  have hhigh : CodeUnit (cstr "D83D") (0xD800 + 0x3D) :=
    .digits (.upper (d := 3) (by decide)) (.decimal (d := 8) (by decide))
      (.decimal (d := 3) (by decide)) (.upper (d := 3) (by decide))
  have hlow : CodeUnit (cstr "de00") (0xDC00 + 0x200) :=
    .digits (.lower (d := 3) (by decide)) (.lower (d := 4) (by decide))
      (.decimal (d := 0) (by decide)) (.decimal (d := 0) (by decide))
  have hpair : SpellsElement (cstr "\\uD83D\\ude00")
      (String.utf8EncodeChar (Char.ofNat 0x1F600)) :=
    .surrogates hhigh (by decide) hlow (by decide) rfl
  have hletter : SpellsElement (cstr "\\n") [10] := .letter (by decide)
  have hbody : SpellsBody (cstr "\\n" ++ (cstr "\\uD83D\\ude00" ++ []))
      sampleValue := .cons hletter (.cons hpair .nil)
  have hclose : closeQuote (cstr "\\n\\uD83D\\ude00\"") =
      some (cstr "\\n\\uD83D\\ude00", []) := by decide +kernel
  exact ⟨_, sampleValue, rfl, (quoted_of_closeQuote hclose).2, hbody, by decide⟩

/-- The elements of an array with white space around them. -/
private theorem spells_sample :
    Spells strtodWhole nestingLimit (cstr "[ 12 ," ++ sampleLiteral ++ cstr "]")
      (.array [.number 12, .string sampleValue]) := by
  have hblank : Blank whitespace (cstr " ") := by
    show ∀ c ∈ [32], whitespace c = true
    exact List.all_eq_true.mp rfl
  rw [nestingLimit, Spells]
  refine ⟨cstr " 12 ," ++ sampleLiteral, rfl, .inr ?_⟩
  have hnumber : Spells strtodWhole 999 (cstr "12") (.number 12) := by
    rw [Spells]
    exact number_sample _ rfl
  have hstring : Spells strtodWhole 999 sampleLiteral (.string sampleValue) := by
    rw [Spells]
    exact spells_literal
  exact .more hblank hnumber hblank (.last blank_nil hstring blank_nil)

/-- A tree with a control byte in a key, a number and an empty object in an
array. -/
def sampleTree : CJson :=
  .object [([10, 34], .number 12), (cstr "b", .array [.object []])]

/-- The sample is read back from its formatted text with more bytes behind
it. -/
theorem printed_sample :
    cJSONParse strtodWhole
        (print (fun q => printInt q.num) true sampleTree ++ cstr "\n\x7d") =
      some sampleTree := by
  refine (cJSONParse_print_iff strtodWhole_readsPrefix true ?_
    (ends_of_ne_number (fun _ heq => by cases heq) _ _)).mpr ?_
  · simp only [sampleTree, CJson.NumbersIn, CJson.NumbersInObject,
      CJson.NumbersInArray, and_true]
    exact number_sample _ rfl
  · simp only [sampleTree, CJson.nesting, CJson.nestingObject,
      CJson.nestingArray, CJson.Mentions, CJson.MentionsObject,
      CJson.MentionsArray]
    decide +kernel

end DatahubEdge
