import DatahubEdge.CJson.Tree
import DatahubEdge.Lib.Parsing

/-!
# `cJSON_Parse`

The parser of `cJSON.c` on a text and its terminator.  The terminator counts
as white space to the parser, but it never passes it, so the end of the text
is the end of the list.  What stands after the first value is not looked at.

`strtod` is a parameter: for the bytes of a number it yields the value and the
count of bytes it has read, or nothing if it has read none.  A string ends at
its first zero byte, which an escape may put into it.

## Main results

* `parseValue_shrinks` — no value is read past the end of the text.
* `parseArray_fuel`, `parseObject_fuel` — the loops over the children are not
  cut short.
-/

namespace DatahubEdge

open Lib.Parsing

/-! ## Strings -/

/-- `buffer_skip_whitespace`. -/
def skipWhitespace (text : CString) : CString := text.dropWhile fun c => c ≤ 32

/-- One digit of `parse_hex4`. -/
def hexValue (c : UInt8) : Option Nat :=
  if 48 ≤ c ∧ c ≤ 57 then some (c.toNat - 48)
  else if 65 ≤ c ∧ c ≤ 70 then some (c.toNat - 55)
  else if 97 ≤ c ∧ c ≤ 102 then some (c.toNat - 87)
  else none

/-- `parse_hex4`, which is 0 for invalid digits. -/
def parseHex4 (a b c d : UInt8) : Nat :=
  match hexValue a, hexValue b, hexValue c, hexValue d with
  | some a, some b, some c, some d => ((a * 16 + b) * 16 + c) * 16 + d
  | _, _, _, _ => 0

/-- The UTF-8 bytes of a code point. -/
def utf8 (codepoint : Nat) : CString :=
  if codepoint < 0x80 then [UInt8.ofNat codepoint]
  else if codepoint < 0x800 then
    [UInt8.ofNat (0xC0 + codepoint / 64), UInt8.ofNat (0x80 + codepoint % 64)]
  else if codepoint < 0x10000 then
    [UInt8.ofNat (0xE0 + codepoint / 4096),
      UInt8.ofNat (0x80 + codepoint / 64 % 64),
      UInt8.ofNat (0x80 + codepoint % 64)]
  else
    [UInt8.ofNat (0xF0 + codepoint / 262144),
      UInt8.ofNat (0x80 + codepoint / 4096 % 64),
      UInt8.ofNat (0x80 + codepoint / 64 % 64),
      UInt8.ofNat (0x80 + codepoint % 64)]

/-- The byte a short escape sequence stands for. -/
def escapedByte (c : UInt8) : Option UInt8 :=
  if c = 98 then some 8
  else if c = 102 then some 12
  else if c = 110 then some 10
  else if c = 114 then some 13
  else if c = 116 then some 9
  else if c = 34 ∨ c = 92 ∨ c = 47 then some c
  else none

/-- The loop of `parse_string` over the bytes between the quotation marks. -/
def unescape : CString → Option CString
  | [] => some []
  | c :: rest =>
      if c ≠ 92 then (unescape rest).map (c :: ·)
      else
        match rest with
        -- the byte behind the last one is the closing quotation mark
        | [] => some [34]
        | e :: rest =>
            if e ≠ 117 then
              match escapedByte e with
              | none => none
              | some b => (unescape rest).map (b :: ·)
            else
              -- `utf16_literal_to_utf8`
              match rest with
              | h₁ :: h₂ :: h₃ :: h₄ :: rest =>
                  let first := parseHex4 h₁ h₂ h₃ h₄
                  if 0xDC00 ≤ first ∧ first ≤ 0xDFFF then none
                  else if 0xD800 ≤ first ∧ first ≤ 0xDBFF then
                    match rest with
                    | s :: u :: l₁ :: l₂ :: l₃ :: l₄ :: rest =>
                        let second := parseHex4 l₁ l₂ l₃ l₄
                        if s = 92 ∧ u = 117 ∧ 0xDC00 ≤ second ∧
                            second ≤ 0xDFFF then
                          (unescape rest).map (utf8 (0x10000 +
                            first % 1024 * 1024 + second % 1024) ++ ·)
                        else none
                    | _ => none
                  else (unescape rest).map (utf8 first ++ ·)
              | _ => none

/-- The bytes up to the closing quotation mark and those after it. -/
def closeQuote : CString → Option (CString × CString)
  | [] => none
  | c :: rest =>
      if c = 34 then some ([], rest)
      else if c = 92 then
        match rest with
        | [] => none
        | e :: rest => (closeQuote rest).map fun r => (c :: e :: r.1, r.2)
      else (closeQuote rest).map fun r => (c :: r.1, r.2)

/-- `parse_string` after the opening quotation mark. -/
def parseString : Parser UInt8 CString := fun text => do
  let (body, rest) ← closeQuote text
  let output ← unescape body
  return (output.takeWhile fun c => c ≠ 0, rest)

/-! ## Values -/

/-- The bytes `parse_number` copies for `strtod`. -/
def isNumberByte (c : UInt8) : Bool :=
  (48 ≤ c && c ≤ 57) || c = 43 || c = 45 || c = 101 || c = 69 || c = 46

/-- `CJSON_NESTING_LIMIT`. -/
def nestingLimit : Nat := 1000

section Values

variable (strtod : CString → Option (Rat × Nat))

/-- `parse_number`. -/
def parseNumber : Parser UInt8 CJson := fun text => do
  let (number, read) ← strtod ((text.take 63).takeWhile isNumberByte)
  return (.number number, text.drop read)

/-- `parse_array` after the opening bracket, given the parser of an element. -/
def parseArray (value : Parser UInt8 CJson) : Parser UInt8 CJson :=
  fun text =>
    match skipWhitespace text with
    | [] => none
    | c :: rest =>
        if c = 93 then some (.array [], rest)
        else
          (sepBy skipWhitespace value 44 93 ((c :: rest).length + 1)
            (c :: rest)).map fun r => (.array r.1, r.2)

/-- A member of an object: name, colon and value. -/
def parseMember (value : Parser UInt8 CJson) :
    Parser UInt8 (CString × CJson) := fun text =>
  match text with
  | [] => none
  | c :: rest =>
      if c ≠ 34 then none
      else do
        let (name, rest) ← parseString rest
        match skipWhitespace rest with
        | [] => none
        | c :: rest =>
            if c ≠ 58 then none
            else do
              let (item, rest) ← value (skipWhitespace rest)
              return ((name, item), rest)

/-- `parse_object` after the opening brace, given the parser of a value. -/
def parseObject (value : Parser UInt8 CJson) : Parser UInt8 CJson :=
  fun text =>
    match skipWhitespace text with
    | [] => none
    | c :: rest =>
        if c = 125 then some (.object [], rest)
        else
          (sepBy skipWhitespace (parseMember value) 44 125
            ((c :: rest).length + 1) (c :: rest)).map
              fun r => (.object r.1, r.2)

/-- `parse_value` where `depth` more levels of nesting are allowed. -/
def parseValue : Nat → Parser UInt8 CJson
  | depth, text =>
      if (cstr "null").isPrefixOf text then some (.null, text.drop 4)
      else if (cstr "false").isPrefixOf text then
        some (.bool false, text.drop 5)
      else if (cstr "true").isPrefixOf text then some (.bool true, text.drop 4)
      else
        match text with
        | [] => none
        | c :: rest =>
            if c = 34 then
              (parseString rest).map fun r => (.string r.1, r.2)
            else if c = 45 ∨ 48 ≤ c ∧ c ≤ 57 then parseNumber strtod text
            else
              match depth with
              | 0 => none
              | depth + 1 =>
                  if c = 91 then parseArray (parseValue depth) rest
                  else if c = 123 then parseObject (parseValue depth) rest
                  else none

/-- `skip_utf8_bom`. -/
def skipUtf8Bom (text : CString) : CString :=
  if 4 ≤ text.length ∧ [0xEF, 0xBB, 0xBF].isPrefixOf text then text.drop 3
  else text

/-- `cJSON_Parse`. -/
def cJSONParse (value : CString) : Option CJson :=
  (parseValue strtod nestingLimit (skipWhitespace (skipUtf8Bom value))).map
    Prod.fst

end Values

/-! ## Reading within the text -/

theorem skipWhitespace_length (text : CString) :
    (skipWhitespace text).length ≤ text.length :=
  List.dropWhile_sublist _ |>.length_le

private theorem closeQuote_length {text body rest : CString}
    (h : closeQuote text = some (body, rest)) :
    rest.length ≤ text.length := by
  fun_induction closeQuote text generalizing body with
  | case1 => cases h
  | case2 rest' =>
      cases h
      simp
  | case3 => cases h
  | case4 hne e rest' ih =>
      obtain ⟨r, hr, heq⟩ := Option.map_eq_some_iff.mp h
      cases heq
      have := ih hr
      simp only [List.length_cons]
      omega
  | case5 c rest' hne hne' ih =>
      obtain ⟨r, hr, heq⟩ := Option.map_eq_some_iff.mp h
      cases heq
      have := ih hr
      simp only [List.length_cons]
      omega

theorem parseString_shrinks : Shrinks parseString := by
  intro text value rest h
  unfold parseString at h
  cases hq : closeQuote text with
  | none =>
      rw [hq] at h
      cases h
  | some r =>
      rw [hq] at h
      dsimp [bind, Option.bind] at h
      cases hu : unescape r.1 with
      | none =>
          rw [hu] at h
          cases h
      | some output =>
          rw [hu] at h
          cases h
          exact closeQuote_length hq

section Shrinking

variable {strtod : CString → Option (Rat × Nat)} {value : Parser UInt8 CJson}

theorem parseNumber_shrinks : Shrinks (parseNumber strtod) := by
  intro text item rest h
  unfold parseNumber at h
  cases hn : strtod ((text.take 63).takeWhile isNumberByte) with
  | none =>
      rw [hn] at h
      cases h
  | some r =>
      rw [hn] at h
      cases h
      rw [List.length_drop]
      omega

/-- The loops over the elements of an array and the members of an object. -/
private theorem children_shrinks {β : Type} {item : Parser UInt8 β}
    (hitem : Shrinks item) (close : UInt8) (node : List β → CJson) :
    Shrinks fun text =>
      match skipWhitespace text with
      | [] => none
      | c :: rest =>
          if c = close then some (node [], rest)
          else
            (sepBy skipWhitespace item 44 close ((c :: rest).length + 1)
              (c :: rest)).map fun r => (node r.1, r.2) := by
  intro text tree rest h
  have hskip := skipWhitespace_length text
  dsimp only at h
  cases ht : skipWhitespace text with
  | nil =>
      rw [ht] at h
      cases h
  | cons c rest' =>
      rw [ht] at h hskip
      dsimp only at h
      by_cases hc : c = close
      · rw [if_pos hc] at h
        cases h
        rw [List.length_cons] at hskip
        omega
      · rw [if_neg hc] at h
        obtain ⟨r, hr, heq⟩ := Option.map_eq_some_iff.mp h
        cases heq
        have := Shrinks.sepBy skipWhitespace_length hitem _ _ _ _ hr
        omega

theorem parseArray_shrinks (hvalue : Shrinks value) :
    Shrinks (parseArray value) :=
  children_shrinks hvalue 93 .array

theorem parseMember_shrinks (hvalue : Shrinks value) :
    Shrinks (parseMember value) := by
  intro text member final h
  unfold parseMember at h
  cases text with
  | nil => cases h
  | cons c rest =>
      dsimp only at h
      by_cases hc : c = 34
      · simp only [hc, ne_eq, not_true, if_false] at h
        cases hs : parseString rest with
        | none =>
            rw [hs] at h
            cases h
        | some r =>
            have hname := parseString_shrinks _ _ _ hs
            have hskip := skipWhitespace_length r.2
            rw [hs] at h
            dsimp [bind, Option.bind] at h
            cases ht : skipWhitespace r.2 with
            | nil =>
                rw [ht] at h
                cases h
            | cons t rest' =>
                have hskip' := skipWhitespace_length rest'
                rw [ht] at h hskip
                dsimp only at h
                by_cases hcolon : t = 58
                · simp only [hcolon, not_true, if_false] at h
                  cases hv : value (skipWhitespace rest') with
                  | none =>
                      rw [hv] at h
                      cases h
                  | some v =>
                      have hitem := hvalue _ _ _ hv
                      rw [hv] at h
                      cases h
                      simp only [List.length_cons] at *
                      omega
                · rw [if_pos hcolon] at h
                  cases h
      · rw [if_pos hc] at h
        cases h

theorem parseObject_shrinks (hvalue : Shrinks value) :
    Shrinks (parseObject value) :=
  children_shrinks (parseMember_shrinks hvalue) 125 .object

private theorem some_drop_length {text rest : CString} {n : Nat}
    {item item' : CJson} (h : some (item, text.drop n) = some (item', rest)) :
    rest.length ≤ text.length := by
  cases h
  rw [List.length_drop]
  omega

/-- What `parse_value` reads is a literal, a string, a number, or the children
of an array or object a level deeper. -/
private theorem parseValue_cases {depth : Nat} {text rest : CString}
    {item : CJson} (h : parseValue strtod depth text = some (item, rest)) :
    rest.length ≤ text.length ∨
      ∃ depth' c rest', depth = depth' + 1 ∧ text = c :: rest' ∧
        (parseArray (parseValue strtod depth') rest' = some (item, rest) ∨
          parseObject (parseValue strtod depth') rest' = some (item, rest)) := by
  unfold parseValue at h
  split at h
  · exact .inl (some_drop_length h)
  split at h
  · exact .inl (some_drop_length h)
  split at h
  · exact .inl (some_drop_length h)
  cases text with
  | nil => cases h
  | cons c rest' =>
      dsimp only at h
      by_cases hquote : c = 34
      · rw [if_pos hquote] at h
        obtain ⟨r, hr, heq⟩ := Option.map_eq_some_iff.mp h
        cases heq
        have := parseString_shrinks _ _ _ hr
        rw [List.length_cons]
        omega
      rw [if_neg hquote] at h
      by_cases hnumber : c = 45 ∨ 48 ≤ c ∧ c ≤ 57
      · rw [if_pos hnumber] at h
        exact .inl (parseNumber_shrinks _ _ _ h)
      rw [if_neg hnumber] at h
      cases depth with
      | zero => cases h
      | succ depth' =>
          refine .inr ⟨depth', c, rest', rfl, rfl, ?_⟩
          dsimp only at h
          by_cases hopen : c = 91
          · rw [if_pos hopen] at h
            exact .inl h
          · rw [if_neg hopen] at h
            split at h
            · exact .inr h
            · cases h

/-- No value is read past the end of the text. -/
theorem parseValue_shrinks (depth : Nat) :
    Shrinks (parseValue strtod depth) := by
  induction depth with
  | zero =>
      intro text item rest h
      rcases parseValue_cases h with hle | ⟨_, _, _, hdepth, _⟩
      · exact hle
      · omega
  | succ depth ih =>
      intro text item rest h
      rcases parseValue_cases h with hle | ⟨depth', c, rest', hdepth, rfl, hread⟩
      · exact hle
      · have hdepth' : depth' = depth := by omega
        subst hdepth'
        have hlen : rest.length ≤ rest'.length := by
          rcases hread with hread | hread
          · exact parseArray_shrinks ih _ _ _ hread
          · exact parseObject_shrinks ih _ _ _ hread
        rw [List.length_cons]
        omega

/-- The loop over the elements of an array is not cut short. -/
theorem parseArray_fuel (depth : Nat) {text rest : CString} {c : UInt8}
    {fuel : Nat} (htext : skipWhitespace text = c :: rest) (hc : c ≠ 93)
    (hfuel : (c :: rest).length < fuel) :
    parseArray (parseValue strtod depth) text =
      (sepBy skipWhitespace (parseValue strtod depth) 44 93 fuel
        (c :: rest)).map fun r => (.array r.1, r.2) := by
  rw [sepBy_fuel skipWhitespace_length (parseValue_shrinks depth) hfuel]
  unfold parseArray
  rw [htext]
  exact if_neg hc

/-- The loop over the members of an object is not cut short. -/
theorem parseObject_fuel (depth : Nat) {text rest : CString} {c : UInt8}
    {fuel : Nat} (htext : skipWhitespace text = c :: rest) (hc : c ≠ 125)
    (hfuel : (c :: rest).length < fuel) :
    parseObject (parseValue strtod depth) text =
      (sepBy skipWhitespace (parseMember (parseValue strtod depth)) 44 125
        fuel (c :: rest)).map fun r => (.object r.1, r.2) := by
  rw [sepBy_fuel skipWhitespace_length
    (parseMember_shrinks (parseValue_shrinks depth)) hfuel]
  unfold parseObject
  rw [htext]
  exact if_neg hc

end Shrinking

/-! ## A small `strtod` -/

/-- The value of decimal digits. -/
def decimal (digits : CString) : Nat :=
  digits.foldl (fun n c => n * 10 + (c.toNat - 48)) 0

def isDigitByte (c : UInt8) : Bool := 48 ≤ c && c ≤ 57

/-- A `strtod` that stops at everything but a leading minus sign and
digits. -/
def strtodWhole : CString → Option (Rat × Nat)
  | [] => none
  | c :: rest =>
      if c = 45 then
        match rest.takeWhile isDigitByte with
        | [] => none
        | d :: digits =>
            some (-(decimal (d :: digits) : Nat), digits.length + 2)
      else
        match (c :: rest).takeWhile isDigitByte with
        | [] => none
        | d :: digits => some ((decimal (d :: digits) : Nat), digits.length + 1)

end DatahubEdge
