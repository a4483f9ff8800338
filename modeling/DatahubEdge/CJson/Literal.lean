import DatahubEdge.CJson.Parse

/-!
# String literals

The literals `parse_string` accepts and the bytes they stand for, element by
element.  A Unicode escape stands for the UTF-8 bytes of a character, which a
pair of surrogates may spell.

Two liberties belong to the grammar.  Four bytes after `\u` that are not all
digits stand for the zero byte, whatever they are, so that an element may end
inside of a pair the closing quotation mark was looked for with.  A backslash
such an element leaves over takes the closing quotation mark along.

## Main results

* `unescape_iff` — the loop of `parse_string` computes the bytes the body of a
  literal stands for.
* `parseString_iff` — `parse_string` accepts exactly the literals.
-/

namespace DatahubEdge

/-! ## The grammar -/

/-- A hexadecimal digit and its value. -/
inductive HexDigit : UInt8 → Nat → Prop
  | decimal {d : Nat} : d < 10 → HexDigit (UInt8.ofNat (48 + d)) d
  | upper {d : Nat} : d < 6 → HexDigit (UInt8.ofNat (65 + d)) (10 + d)
  | lower {d : Nat} : d < 6 → HexDigit (UInt8.ofNat (97 + d)) (10 + d)

/-- The code unit four bytes stand for. -/
inductive CodeUnit : CString → Nat → Prop
  | digits {h₁ h₂ h₃ h₄ : UInt8} {a b c d : Nat} :
      HexDigit h₁ a → HexDigit h₂ b → HexDigit h₃ c → HexDigit h₄ d →
        CodeUnit [h₁, h₂, h₃, h₄] (4096 * a + 256 * b + 16 * c + d)
  | broken {bytes : CString} {h : UInt8} :
      bytes.length = 4 → h ∈ bytes → (∀ d, ¬ HexDigit h d) → CodeUnit bytes 0

/-- What may follow a backslash, and the byte it stands for. -/
def letterEscapes : List (UInt8 × UInt8) :=
  [(98, 8), (102, 12), (110, 10), (114, 13), (116, 9), (34, 34), (92, 92),
    (47, 47)]

/-- An element of a literal and the bytes it stands for. -/
inductive SpellsElement : CString → CString → Prop
  | plain {c : UInt8} : c ≠ 92 → SpellsElement [c] [c]
  | letter {e b : UInt8} : (e, b) ∈ letterEscapes → SpellsElement [92, e] [b]
  | unicode {digits : CString} {c : Char} : CodeUnit digits c.toNat →
      SpellsElement (92 :: 117 :: digits) (String.utf8EncodeChar c)
  | surrogates {high low : CString} {h l : Nat} {c : Char} :
      CodeUnit high (0xD800 + h) → h < 0x400 →
      CodeUnit low (0xDC00 + l) → l < 0x400 →
      c.toNat = 0x10000 + 0x400 * h + l →
        SpellsElement (92 :: 117 :: (high ++ 92 :: 117 :: low))
          (String.utf8EncodeChar c)

/-- The bytes between the quotation marks and what they stand for. -/
inductive SpellsBody : CString → CString → Prop
  | nil : SpellsBody [] []
  -- the backslash escapes the closing quotation mark
  | slash : SpellsBody [92] [34]
  | cons {element bytes body output : CString} :
      SpellsElement element bytes → SpellsBody body output →
        SpellsBody (element ++ body) (bytes ++ output)

/-- The bytes between two quotation marks: a backslash takes the byte after it
along. -/
inductive Quoted : CString → Prop
  | nil : Quoted []
  | plain {c : UInt8} {body : CString} :
      c ≠ 34 → c ≠ 92 → Quoted body → Quoted (c :: body)
  | escape {e : UInt8} {body : CString} : Quoted body → Quoted (92 :: e :: body)

/-- A string literal and the C string it stands for. -/
def SpellsString (text value : CString) : Prop :=
  ∃ body output, text = 34 :: (body ++ [34]) ∧ Quoted body ∧
    SpellsBody body output ∧ value = output.takeWhile fun c => c ≠ 0

/-! ## Digits -/

/-- A byte in a range that starts at some digit. -/
private theorem byte_of_range {c first last : UInt8}
    (h : first ≤ c ∧ c ≤ last) :
    ∃ d, d ≤ last.toNat - first.toNat ∧ c.toNat = first.toNat + d ∧
      c = UInt8.ofNat (first.toNat + d) := by
  have hfirst := UInt8.le_iff_toNat_le.mp h.1
  have hlast := UInt8.le_iff_toNat_le.mp h.2
  have hsum : c.toNat = first.toNat + (c.toNat - first.toNat) := by omega
  refine ⟨c.toNat - first.toNat, by omega, hsum, ?_⟩
  rw [← hsum, UInt8.ofNat_toNat]

/-- `parse_hex4` knows the digits. -/
theorem hexValue_iff {c : UInt8} {d : Nat} :
    hexValue c = some d ↔ HexDigit c d := by
  constructor
  · intro h
    unfold hexValue at h
    split at h
    · rename_i hc
      obtain ⟨d, hd, hvalue, hbyte⟩ := byte_of_range hc
      have hten : c.toNat - 48 = d := by
        rw [hvalue, show (48 : UInt8).toNat = 48 from rfl]
        omega
      rw [hten] at h
      cases h
      rw [hbyte]
      exact .decimal (Nat.lt_succ_of_le hd)
    split at h
    · rename_i hc
      obtain ⟨d, hd, hvalue, hbyte⟩ := byte_of_range hc
      have hten : c.toNat - 55 = 10 + d := by
        rw [hvalue, show (65 : UInt8).toNat = 65 from rfl]
        omega
      rw [hten] at h
      cases h
      rw [hbyte]
      exact .upper (Nat.lt_succ_of_le hd)
    split at h
    · rename_i hc
      obtain ⟨d, hd, hvalue, hbyte⟩ := byte_of_range hc
      have hten : c.toNat - 87 = 10 + d := by
        rw [hvalue, show (97 : UInt8).toNat = 97 from rfl]
        omega
      rw [hten] at h
      cases h
      rw [hbyte]
      exact .lower (Nat.lt_succ_of_le hd)
    · cases h
  · intro h
    cases h with
    | decimal hd =>
        have hall : ∀ d : Fin 10,
            hexValue (UInt8.ofNat (48 + d)) = some d.val := by decide
        exact hall ⟨d, hd⟩
    | @upper d hd =>
        have hall : ∀ d : Fin 6,
            hexValue (UInt8.ofNat (65 + d)) = some (10 + d.val) := by decide
        exact hall ⟨d, hd⟩
    | @lower d hd =>
        have hall : ∀ d : Fin 6,
            hexValue (UInt8.ofNat (97 + d)) = some (10 + d.val) := by decide
        exact hall ⟨d, hd⟩

theorem hexValue_lt {c : UInt8} {d : Nat} (h : hexValue c = some d) :
    d < 16 := by
  cases hexValue_iff.mp h <;> omega

/-- Every digit of a code unit takes four bits. -/
theorem parseHex4_lt (h₁ h₂ h₃ h₄ : UInt8) :
    parseHex4 h₁ h₂ h₃ h₄ < 0x10000 := by
  unfold parseHex4
  split
  · rename_i a b c d ha hb hc hd
    have := hexValue_lt ha
    have := hexValue_lt hb
    have := hexValue_lt hc
    have := hexValue_lt hd
    omega
  · decide

/-- `parse_hex4` is 0 for invalid digits. -/
theorem parseHex4_broken {h h₁ h₂ h₃ h₄ : UInt8}
    (hmem : h ∈ [h₁, h₂, h₃, h₄]) (hnone : hexValue h = none) :
    parseHex4 h₁ h₂ h₃ h₄ = 0 := by
  unfold parseHex4
  split
  · rename_i a b c d ha hb hc hd
    simp only [List.mem_cons, List.not_mem_nil, or_false] at hmem
    rcases hmem with rfl | rfl | rfl | rfl
    · cases hnone.symm.trans ha
    · cases hnone.symm.trans hb
    · cases hnone.symm.trans hc
    · cases hnone.symm.trans hd
  · rfl

/-- `parse_hex4` reads the code unit of four bytes. -/
theorem codeUnit_parseHex4 (h₁ h₂ h₃ h₄ : UInt8) :
    CodeUnit [h₁, h₂, h₃, h₄] (parseHex4 h₁ h₂ h₃ h₄) := by
  by_cases hdigits : ∃ h ∈ [h₁, h₂, h₃, h₄], hexValue h = none
  · obtain ⟨h, hmem, hnone⟩ := hdigits
    rw [parseHex4_broken hmem hnone]
    refine .broken rfl hmem ?_
    intro d hd
    rw [hexValue_iff.mpr hd] at hnone
    cases hnone
  · have hsome : ∀ h ∈ [h₁, h₂, h₃, h₄], ∃ d, hexValue h = some d := by
      intro h hmem
      exact Option.ne_none_iff_exists'.mp fun hnone => hdigits ⟨h, hmem, hnone⟩
    obtain ⟨a, ha⟩ := hsome h₁ (by simp)
    obtain ⟨b, hb⟩ := hsome h₂ (by simp)
    obtain ⟨c, hc⟩ := hsome h₃ (by simp)
    obtain ⟨d, hd⟩ := hsome h₄ (by simp)
    have hunit := CodeUnit.digits (hexValue_iff.mp ha) (hexValue_iff.mp hb)
      (hexValue_iff.mp hc) (hexValue_iff.mp hd)
    have hvalue : parseHex4 h₁ h₂ h₃ h₄ =
        4096 * a + 256 * b + 16 * c + d := by
      unfold parseHex4
      rw [ha, hb, hc, hd]
      dsimp only
      omega
    rwa [hvalue]

/-- A code unit is what `parse_hex4` reads. -/
theorem CodeUnit.parseHex4_eq {bytes : CString} {n : Nat}
    (h : CodeUnit bytes n) :
    ∃ h₁ h₂ h₃ h₄, bytes = [h₁, h₂, h₃, h₄] ∧
      parseHex4 h₁ h₂ h₃ h₄ = n := by
  cases h with
  | @digits h₁ h₂ h₃ h₄ a b c d ha hb hc hd =>
      refine ⟨h₁, h₂, h₃, h₄, rfl, ?_⟩
      unfold parseHex4
      rw [hexValue_iff.mpr ha, hexValue_iff.mpr hb, hexValue_iff.mpr hc,
        hexValue_iff.mpr hd]
      dsimp only
      omega
  | @broken _ h hlength hmem hbroken =>
      obtain ⟨h₁, h₂, h₃, h₄, rfl⟩ := List.length_eq_four.mp hlength
      refine ⟨h₁, h₂, h₃, h₄, rfl, parseHex4_broken hmem ?_⟩
      exact Option.eq_none_iff_forall_ne_some.mpr fun d hd =>
        hbroken d (hexValue_iff.mp hd)

/-! ## Characters -/

/-- The UTF-8 bytes `utf16_literal_to_utf8` writes are those of the
character. -/
theorem utf8_toNat (c : Char) : utf8 c.toNat = String.utf8EncodeChar c := by
  have hval : c.val.toNat = c.toNat := rfl
  have hlt : c.toNat < 0x110000 := by
    rcases c.valid with h | h <;> omega
  unfold utf8 String.utf8EncodeChar
  dsimp only
  rw [hval]
  by_cases h1 : c.toNat < 0x80
  · have h1' : c.toNat ≤ 0x7f := by omega
    rw [if_pos h1, if_pos h1']
  have h1' : ¬ c.toNat ≤ 0x7f := by omega
  rw [if_neg h1, if_neg h1']
  by_cases h2 : c.toNat < 0x800
  · have h2' : c.toNat ≤ 0x7ff := by omega
    have htop : c.toNat / 64 % 0x20 = c.toNat / 64 := by omega
    rw [if_pos h2, if_pos h2', htop]
    simp only [Nat.add_comm]
  have h2' : ¬ c.toNat ≤ 0x7ff := by omega
  rw [if_neg h2, if_neg h2']
  by_cases h3 : c.toNat < 0x10000
  · have h3' : c.toNat ≤ 0xffff := by omega
    have htop : c.toNat / 4096 % 0x10 = c.toNat / 4096 := by omega
    rw [if_pos h3, if_pos h3', htop]
    simp only [Nat.add_comm]
  · have h3' : ¬ c.toNat ≤ 0xffff := by omega
    have htop : c.toNat / 262144 % 0x08 = c.toNat / 262144 := by omega
    rw [if_neg h3, if_neg h3', htop]
    simp only [Nat.add_comm]

/-- Every code point that is no surrogate is a character. -/
private theorem exists_char {n : Nat} (h : n < 0xD800 ∨ 0xDFFF < n)
    (hlt : n < 0x110000) : ∃ c : Char, c.toNat = n := by
  have hvalid : n.isValidChar := by
    rcases h with h | h
    · exact .inl h
    · exact .inr ⟨h, hlt⟩
  exact ⟨Char.ofNatAux n hvalid, rfl⟩

/-! ## The body of a literal -/

theorem escapedByte_iff {e b : UInt8} :
    escapedByte e = some b ↔ (e, b) ∈ letterEscapes := by
  constructor
  · intro h
    unfold escapedByte at h
    split_ifs at h with hb hf hn hr ht hself
    · cases h
      rw [hb]
      decide
    · cases h
      rw [hf]
      decide
    · cases h
      rw [hn]
      decide
    · cases h
      rw [hr]
      decide
    · cases h
      rw [ht]
      decide
    · cases h
      rcases hself with rfl | rfl | rfl <;> decide
  · intro h
    simp only [letterEscapes, List.mem_cons, Prod.mk.injEq, List.not_mem_nil,
      or_false] at h
    rcases h with ⟨rfl, rfl⟩ | ⟨rfl, rfl⟩ | ⟨rfl, rfl⟩ | ⟨rfl, rfl⟩ |
      ⟨rfl, rfl⟩ | ⟨rfl, rfl⟩ | ⟨rfl, rfl⟩ | ⟨rfl, rfl⟩ <;> rfl

/-- The loop of `parse_string` passes one element. -/
theorem SpellsElement.unescape {element bytes : CString}
    (h : SpellsElement element bytes) (rest : CString) :
    DatahubEdge.unescape (element ++ rest) =
      (DatahubEdge.unescape rest).map (bytes ++ ·) := by
  cases h with
  | @plain c hc =>
      rw [List.cons_append, unescape.eq_def]
      simp only [if_pos hc]
      rfl
  | @letter e b hmem =>
      have he : e ≠ 117 := by
        rintro rfl
        simp [letterEscapes] at hmem
      rw [List.cons_append, List.cons_append, unescape.eq_def]
      simp only [ne_eq, not_true, if_false, if_pos he,
        escapedByte_iff.mpr hmem]
      rfl
  | @unicode digits c hunit =>
      obtain ⟨h₁, h₂, h₃, h₄, rfl, hvalue⟩ := hunit.parseHex4_eq
      have hchar : c.toNat < 0xD800 ∨ 0xDFFF < c.toNat ∧ c.toNat < 0x110000 :=
        c.valid
      have hlow : ¬ (0xDC00 ≤ c.toNat ∧ c.toNat ≤ 0xDFFF) := by omega
      have hhigh : ¬ (0xD800 ≤ c.toNat ∧ c.toNat ≤ 0xDBFF) := by omega
      simp only [List.cons_append, List.nil_append]
      rw [unescape.eq_def]
      simp only [ne_eq, not_true, if_false, hvalue, if_neg hlow,
        if_neg hhigh, utf8_toNat]
  | @surrogates high low h l c hhigh hh hlow hl hc =>
      obtain ⟨h₁, h₂, h₃, h₄, rfl, hfirst⟩ := hhigh.parseHex4_eq
      obtain ⟨l₁, l₂, l₃, l₄, rfl, hsecond⟩ := hlow.parseHex4_eq
      have hnot : ¬ (0xDC00 ≤ 0xD800 + h ∧ 0xD800 + h ≤ 0xDFFF) := by omega
      have hsurrogate : 0xD800 ≤ 0xD800 + h ∧ 0xD800 + h ≤ 0xDBFF := by omega
      have hpair : 0xDC00 ≤ 0xDC00 + l ∧ 0xDC00 + l ≤ 0xDFFF := by omega
      have hpoint : 0x10000 + (0xD800 + h) % 1024 * 1024 +
          (0xDC00 + l) % 1024 = c.toNat := by omega
      simp only [List.cons_append, List.nil_append]
      rw [unescape.eq_def]
      simp only [ne_eq, not_true, if_false, hfirst, hsecond, if_neg hnot,
        if_pos hsurrogate, true_and, if_pos hpair, hpoint, utf8_toNat]

/-- The loop of `parse_string` computes the bytes the body of a literal stands
for. -/
theorem unescape_iff {body output : CString} :
    unescape body = some output ↔ SpellsBody body output := by
  constructor
  · intro h
    fun_induction unescape body generalizing output with
    | case1 =>
        cases h
        exact .nil
    | case2 c rest hc ih =>
        obtain ⟨out, hout, rfl⟩ := Option.map_eq_some_iff.mp h
        exact .cons (.plain hc) (ih hout)
    | case3 c hc =>
        cases h
        rw [not_not.mp hc]
        exact .slash
    | case4 c hc e rest he hescaped => cases h
    | case5 c hc e rest he b hescaped ih =>
        obtain ⟨out, hout, rfl⟩ := Option.map_eq_some_iff.mp h
        rw [not_not.mp hc]
        exact .cons (.letter (escapedByte_iff.mp hescaped)) (ih hout)
    | case6 => cases h
    | case7 c hc e he h₁ h₂ h₃ h₄ first hlow hhigh s u l₁ l₂ l₃ l₄ rest
        second =>
        rename_i hpair ih
        obtain ⟨out, hout, rfl⟩ := Option.map_eq_some_iff.mp h
        obtain ⟨rfl, rfl, hsecond⟩ := hpair
        rw [not_not.mp hc, not_not.mp he]
        have hhighUnit : CodeUnit [h₁, h₂, h₃, h₄] first :=
          codeUnit_parseHex4 h₁ h₂ h₃ h₄
        have hlowUnit : CodeUnit [l₁, l₂, l₃, l₄] second :=
          codeUnit_parseHex4 l₁ l₂ l₃ l₄
        obtain ⟨x, hx⟩ := Nat.exists_eq_add_of_le hhigh.1
        obtain ⟨y, hy⟩ := Nat.exists_eq_add_of_le hsecond.1
        have hxlt : x < 0x400 := by omega
        have hylt : y < 0x400 := by omega
        obtain ⟨ch, hch⟩ := exists_char
          (n := 0x10000 + first % 1024 * 1024 + second % 1024) (by omega)
          (by omega)
        rw [← hch, utf8_toNat]
        rw [hx] at hhighUnit
        rw [hy] at hlowUnit
        have hpoint : ch.toNat = 0x10000 + 0x400 * x + y := by omega
        exact .cons (.surrogates hhighUnit hxlt hlowUnit hylt hpoint)
          (ih hout)
    | case8 => cases h
    | case9 => cases h
    | case10 c hc e he h₁ h₂ h₃ h₄ rest first hlow hhigh =>
        rename_i ih
        obtain ⟨out, hout, rfl⟩ := Option.map_eq_some_iff.mp h
        rw [not_not.mp hc, not_not.mp he]
        have hunit : CodeUnit [h₁, h₂, h₃, h₄] first :=
          codeUnit_parseHex4 h₁ h₂ h₃ h₄
        have hlt : first < 0x10000 := parseHex4_lt h₁ h₂ h₃ h₄
        obtain ⟨ch, hch⟩ := exists_char (n := first) (by omega) (by omega)
        rw [← hch] at hunit ⊢
        rw [utf8_toNat]
        exact .cons (.unicode hunit) (ih hout)
    | case11 => cases h
  · intro h
    induction h with
    | nil => rfl
    | slash => rfl
    | cons helement _ ih =>
        rw [helement.unescape, ih]
        rfl

/-! ## Whole literals -/

theorem closeQuote_quoted {body : CString} (h : Quoted body) (rest : CString) :
    closeQuote (body ++ 34 :: rest) = some (body, rest) := by
  induction h with
  | nil =>
      rw [List.nil_append, closeQuote.eq_def]
      rfl
  | plain hquote hslash _ ih =>
      rw [List.cons_append, closeQuote.eq_def]
      simp only [if_neg hquote, if_neg hslash, ih]
      rfl
  | escape _ ih =>
      rw [List.cons_append, List.cons_append, closeQuote.eq_def]
      simp only [if_neg (by decide : ¬ (92 : UInt8) = 34), if_true, ih]
      rfl

theorem quoted_of_closeQuote {text body rest : CString}
    (h : closeQuote text = some (body, rest)) :
    text = body ++ 34 :: rest ∧ Quoted body := by
  fun_induction closeQuote text generalizing body with
  | case1 => cases h
  | case2 rest' =>
      cases h
      exact ⟨rfl, .nil⟩
  | case3 => cases h
  | case4 hne e rest' ih =>
      obtain ⟨r, hr, heq⟩ := Option.map_eq_some_iff.mp h
      cases heq
      obtain ⟨htext, hquoted⟩ := ih hr
      exact ⟨by rw [htext]; rfl, .escape hquoted⟩
  | case5 c rest' hne hne' ih =>
      obtain ⟨r, hr, heq⟩ := Option.map_eq_some_iff.mp h
      cases heq
      obtain ⟨htext, hquoted⟩ := ih hr
      exact ⟨by rw [htext]; rfl, .plain hne hne' hquoted⟩

/-- `parse_string` reads exactly the string literals. -/
theorem parseString_iff {text value rest : CString} :
    parseString text = some (value, rest) ↔
      ∃ read, 34 :: text = read ++ rest ∧ SpellsString read value := by
  constructor
  · intro h
    unfold parseString at h
    cases hclose : closeQuote text with
    | none =>
        rw [hclose] at h
        cases h
    | some r =>
        obtain ⟨body, rest'⟩ := r
        obtain ⟨htext, hquoted⟩ := quoted_of_closeQuote hclose
        rw [hclose] at h
        dsimp [bind, Option.bind] at h
        cases houtput : unescape body with
        | none =>
            rw [houtput] at h
            cases h
        | some output =>
            rw [houtput] at h
            cases h
            refine ⟨34 :: (body ++ [34]), ?_, body, output, rfl, hquoted,
              unescape_iff.mp houtput, rfl⟩
            rw [htext]
            simp
  · rintro ⟨read, htext, body, output, rfl, hquoted, houtput, rfl⟩
    have htext' : text = body ++ 34 :: rest := by
      simpa using (List.cons.inj htext).2
    unfold parseString
    rw [htext', closeQuote_quoted hquoted]
    dsimp [bind, Option.bind]
    rw [unescape_iff.mpr houtput]

-- The digits `123\` end in the first byte of a pair, and the backslash left
-- over takes the closing quotation mark along.
example : parseString (cstr "a\\u123\\\\\"") = some (cstr "a", []) := by
  decide +kernel

end DatahubEdge
