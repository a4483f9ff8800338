import DatahubEdge.CJson.Literal
import DatahubEdge.Lib.Separated

/-!
# The texts `cJSON_Parse` accepts

A grammar of the accepted texts, level of nesting by level of nesting.  It is
wider than JSON: every byte up to the space is white space, control bytes may
stand in a string, and a string ends at the first zero byte an escape puts
into it.

`strtod` reads a prefix of what it is given, and the bytes after that prefix
do not change what it has read.

## Main results

* `reads_value`, `sound_value` — the parser reads what the grammar derives,
  and derives what it reads.
* `cJSONParse_spelled` — a text of the grammar is read as the tree it spells.
-/

namespace DatahubEdge

open Lib.Parsing

/-! ## The grammar -/

/-- The bytes `buffer_skip_whitespace` passes. -/
def whitespace (c : UInt8) : Bool := c ≤ 32

/-- A number that starts with a minus sign or a digit and that `strtod` reads
to its end. -/
structure SpellsNumber (strtod : CString → Option (Rat × Nat))
    (text : CString) (number : Rat) : Prop where
  head : ∃ c more, text = c :: more ∧ (c = 45 ∨ 48 ≤ c ∧ c ≤ 57)
  bytes : ∀ c ∈ text, isNumberByte c = true
  length : text.length ≤ 63
  read : strtod text = some (number, text.length)

/-- A member of an object: name, colon and value. -/
def SpellsMember (spells : CString → CJson → Prop) (text : CString)
    (member : CString × CJson) : Prop :=
  ∃ name after before value,
    text = name ++ (after ++ 58 :: (before ++ value)) ∧
    SpellsString name member.1 ∧ Blank whitespace after ∧
    Blank whitespace before ∧ spells value member.2

/-- Nothing, or a list of items with commas between them. -/
def SpellsChildren {β : Type} (spells : CString → β → Prop) (body : CString)
    (child : List β) : Prop :=
  child = [] ∧ Blank whitespace body ∨
    Separated whitespace spells 44 body child

/-- The text spells the tree, with at most `depth` levels of nesting. -/
def Spells (strtod : CString → Option (Rat × Nat)) :
    Nat → CString → CJson → Prop
  | _, text, .null => text = cstr "null"
  | _, text, .bool false => text = cstr "false"
  | _, text, .bool true => text = cstr "true"
  | _, text, .number number => SpellsNumber strtod text number
  | _, text, .string value => SpellsString text value
  | 0, _, .array _ => False
  | 0, _, .object _ => False
  | depth + 1, text, .array child =>
      ∃ body, text = 91 :: (body ++ [93]) ∧
        SpellsChildren (Spells strtod depth) body child
  | depth + 1, text, .object child =>
      ∃ body, text = 123 :: (body ++ [125]) ∧
        SpellsChildren (SpellsMember (Spells strtod depth)) body child

/-- A number ends where `strtod` stops reading it; every other value ends by
itself. -/
def Ends (strtod : CString → Option (Rat × Nat)) (item : CJson)
    (text rest : CString) : Prop :=
  ∀ number, item = .number number →
    strtod (((text ++ rest).take 63).takeWhile isNumberByte) =
      some (number, text.length)

/-- What `strtod` promises: it reads some bytes of its input, and the same
number from these alone. -/
structure ReadsPrefix (strtod : CString → Option (Rat × Nat)) : Prop where
  bound : ∀ {text number read}, strtod text = some (number, read) →
    0 < read ∧ read ≤ text.length
  take : ∀ {text number read}, strtod text = some (number, read) →
    strtod (text.take read) = some (number, read)

/-! ## White space -/

theorem skipWhitespace_eq : skipWhitespace = List.dropWhile whitespace := rfl

/-- White space ends a number. -/
theorem whitespace_ends (c : UInt8) (h : whitespace c = true) :
    isNumberByte c = false := by
  have hall : ∀ c : Fin 256, whitespace (UInt8.ofFin c) = true →
      isNumberByte (UInt8.ofFin c) = false := by decide +kernel
  exact hall c.toFin h

/-! ## Numbers -/

section Numbers

variable {strtod : CString → Option (Rat × Nat)}

/-- The first byte of a number starts nothing else and closes nothing. -/
theorem number_head {c : UInt8} (hc : c = 45 ∨ 48 ≤ c ∧ c ≤ 57) :
    whitespace c = false ∧ c ∉ [93, 125, 0xEF, 110, 102, 116, 34] := by
  have hall : ∀ c : Fin 256,
      (UInt8.ofFin c = 45 ∨ 48 ≤ UInt8.ofFin c ∧ UInt8.ofFin c ≤ 57) →
      whitespace (UInt8.ofFin c) = false ∧
        UInt8.ofFin c ∉ [93, 125, 0xEF, 110, 102, 116, 34] := by decide +kernel
  exact hall c.toFin hc

/-- The bytes handed to `strtod` end where the number does. -/
theorem take_takeWhile {text : CString} {c : UInt8} (rest : CString)
    (hbytes : ∀ b ∈ text, isNumberByte b = true) (hlength : text.length ≤ 63)
    (hc : isNumberByte c = false) :
    ((text ++ c :: rest).take 63).takeWhile isNumberByte = text := by
  rw [List.take_append, List.take_of_length_le hlength,
    List.takeWhile_append_of_pos hbytes]
  cases h : 63 - text.length with
  | zero => simp
  | succ n => simp [hc]

/-- A byte of another kind ends a number. -/
theorem ends_cons {depth : Nat} {text : CString} {c : UInt8} {item : CJson}
    (rest : CString) (h : Spells strtod depth text item)
    (hc : isNumberByte c = false) : Ends strtod item text (c :: rest) := by
  intro number hitem
  subst hitem
  rw [Spells] at h
  rw [take_takeWhile rest h.bytes h.length hc]
  exact h.read

private theorem take_of_prefix {a b : CString} {n : Nat} (h : a <+: b)
    (hn : n ≤ a.length) : a.take n = b.take n := by
  obtain ⟨after, rfl⟩ := h
  rw [List.take_append_of_le_length hn]

theorem sound_number (hstrtod : ReadsPrefix strtod) {c : UInt8}
    {more rest : CString} {item : CJson} (hc : c = 45 ∨ 48 ≤ c ∧ c ≤ 57)
    (h : parseNumber strtod (c :: more) = some (item, rest)) :
    ∃ read number, c :: more = read ++ rest ∧ item = .number number ∧
      SpellsNumber strtod read number ∧
      strtod (((c :: more).take 63).takeWhile isNumberByte) =
        some (number, read.length) := by
  unfold parseNumber at h
  cases hread : strtod (((c :: more).take 63).takeWhile isNumberByte) with
  | none =>
      rw [hread] at h
      cases h
  | some r =>
      obtain ⟨number, read⟩ := r
      rw [hread] at h
      cases h
      obtain ⟨hpos, hbound⟩ := hstrtod.bound hread
      have hwindow : ((c :: more).take 63).takeWhile isNumberByte <+:
          c :: more :=
        (List.takeWhile_prefix _).trans (List.take_prefix _ _)
      have htake := take_of_prefix hwindow hbound
      have hlength : ((c :: more).take read).length = read := by
        rw [← htake, List.length_take]
        omega
      refine ⟨(c :: more).take read, number,
        (List.take_append_drop read _).symm, rfl, ⟨?_, ?_, ?_, ?_⟩, ?_⟩
      · cases read with
        | zero => omega
        | succ n => exact ⟨c, more.take n, rfl, hc⟩
      · intro b hb
        rw [← htake] at hb
        exact List.mem_takeWhile_imp (List.mem_of_mem_take hb)
      · have h63 : (((c :: more).take 63).takeWhile isNumberByte).length ≤
            63 := by
          have h1 := (List.takeWhile_sublist isNumberByte
            (l := (c :: more).take 63)).length_le
          rw [List.length_take] at h1
          omega
        omega
      · rw [hlength, ← htake]
        exact hstrtod.take hread
      · rw [hlength]

end Numbers

/-! ## Values -/

section Values

variable {strtod : CString → Option (Rat × Nat)} {depth : Nat}

/-- The first byte of a value is no white space and closes nothing. -/
theorem spells_head {text : CString} {item : CJson}
    (h : Spells strtod depth text item) :
    ∃ c more, text = c :: more ∧ whitespace c = false ∧ c ≠ 93 ∧ c ≠ 125 ∧
      c ≠ 0xEF := by
  cases item with
  | null =>
      rw [Spells] at h
      exact ⟨110, cstr "ull", h, by decide⟩
  | bool value =>
      cases value with
      | false =>
          rw [Spells] at h
          exact ⟨102, cstr "alse", h, by decide⟩
      | true =>
          rw [Spells] at h
          exact ⟨116, cstr "rue", h, by decide⟩
  | number number =>
      rw [Spells] at h
      obtain ⟨c, more, htext, hc⟩ := h.head
      have hother := number_head hc
      simp only [List.mem_cons, not_or] at hother
      exact ⟨c, more, htext, hother.1, hother.2.1, hother.2.2.1,
        hother.2.2.2.1⟩
  | string value =>
      rw [Spells] at h
      obtain ⟨body, output, htext, _⟩ := h
      exact ⟨34, body ++ [34], htext, by decide⟩
  | array child =>
      cases depth with
      | zero =>
          rw [Spells] at h
          exact h.elim
      | succ depth =>
          rw [Spells] at h
          obtain ⟨body, htext, _⟩ := h
          exact ⟨91, body ++ [93], htext, by decide⟩
  | object child =>
      cases depth with
      | zero =>
          rw [Spells] at h
          exact h.elim
      | succ depth =>
          rw [Spells] at h
          obtain ⟨body, htext, _⟩ := h
          exact ⟨123, body ++ [125], htext, by decide⟩

/-- `parse_value` looks at the first byte of what is not a literal. -/
theorem parseValue_cons {c : UInt8} (rest : CString) (hnull : c ≠ 110)
    (hfalse : c ≠ 102) (htrue : c ≠ 116) :
    parseValue strtod depth (c :: rest) =
      if c = 34 then (parseString rest).map fun r => (.string r.1, r.2)
      else if c = 45 ∨ 48 ≤ c ∧ c ≤ 57 then parseNumber strtod (c :: rest)
      else
        match depth with
        | 0 => none
        | depth + 1 =>
            if c = 91 then parseArray (parseValue strtod depth) rest
            else if c = 123 then parseObject (parseValue strtod depth) rest
            else none := by
  have h1 : (cstr "null").isPrefixOf (c :: rest) = false := by
    show (110 == c && _) = false
    simp [beq_eq_false_iff_ne.mpr hnull.symm]
  have h2 : (cstr "false").isPrefixOf (c :: rest) = false := by
    show (102 == c && _) = false
    simp [beq_eq_false_iff_ne.mpr hfalse.symm]
  have h3 : (cstr "true").isPrefixOf (c :: rest) = false := by
    show (116 == c && _) = false
    simp [beq_eq_false_iff_ne.mpr htrue.symm]
  rw [← Bool.not_eq_true] at h1 h2 h3
  unfold parseValue
  refine (if_neg h1).trans ((if_neg h2).trans ((if_neg h3).trans ?_))
  cases depth with
  | zero => rfl
  | succ depth => rfl

/-- The loop over the children reads what spells them, up to the closing
byte. -/
theorem reads_children {β : Type} {spells : CString → β → Prop}
    {item : Parser UInt8 β} {close : UInt8} {body : CString} {child : List β}
    (hreads : Reads whitespace spells (fun c => isNumberByte c = false) item)
    (hopen : ∀ {c more value}, spells (c :: more) value → c ≠ close)
    (hclose : isNumberByte close = false ∧ whitespace close = false ∧
      close ≠ 44)
    (h : SpellsChildren spells body child) (node : List β → CJson)
    (rest : CString) :
    (match skipWhitespace (body ++ close :: rest) with
      | [] => none
      | c :: next =>
          if c = close then some (node [], next)
          else
            (sepBy skipWhitespace item 44 close ((c :: next).length + 1)
              (c :: next)).map fun r => (node r.1, r.2)) =
      some (node child, rest) := by
  rw [skipWhitespace_eq]
  rcases h with ⟨rfl, hblank⟩ | h
  · rw [hblank.dropWhile_cons hclose.2.1]
    dsimp only
    rw [if_pos rfl]
  · obtain ⟨c, more, hskip, hlist, shown, value, hvalue⟩ := h.trim hreads
    have hlength := hlist.length_le hreads
    have hread := sepBy_of_separated hreads whitespace_ends (by decide)
      hclose.1 (by decide) hclose.2.1 hclose.2.2 hlist
      ((c :: (more ++ close :: rest)).length + 1) rest (by
        simp only [List.length_cons, List.length_append] at hlength ⊢
        omega)
    rw [hskip]
    dsimp only
    rw [if_neg (hopen hvalue)]
    rw [List.cons_append] at hread
    rw [hread]
    rfl

/-- What the loop over the children reads spells them, up to the closing
byte. -/
theorem sound_children {β : Type} {spells : CString → β → Prop}
    {item : Parser UInt8 β} {close : UInt8} {text rest : CString}
    {node : List β → CJson} {tree : CJson} (hsound : Sound spells item)
    (h : (match skipWhitespace text with
      | [] => none
      | c :: next =>
          if c = close then some (node [], next)
          else
            (sepBy skipWhitespace item 44 close ((c :: next).length + 1)
              (c :: next)).map fun r => (node r.1, r.2)) =
      some (tree, rest)) :
    ∃ body child, text = body ++ close :: rest ∧ tree = node child ∧
      SpellsChildren spells body child := by
  rw [skipWhitespace_eq] at h
  obtain ⟨before, hbefore, htext⟩ := exists_blank whitespace text
  cases ht : text.dropWhile whitespace with
  | nil =>
      rw [ht] at h
      cases h
  | cons c next =>
      rw [ht] at h htext
      dsimp only at h
      by_cases hc : c = close
      · rw [if_pos hc] at h
        cases h
        exact ⟨before, [], by rw [htext, hc], rfl, .inl ⟨rfl, hbefore⟩⟩
      · rw [if_neg hc] at h
        obtain ⟨r, hr, heq⟩ := Option.map_eq_some_iff.mp h
        cases heq
        obtain ⟨read, hread, hlist⟩ := separated_of_sepBy hsound hr
        refine ⟨before ++ read, r.1, ?_, rfl, .inr (hlist.prepend hbefore)⟩
        rw [htext, hread, List.append_assoc]

theorem reads_member {spells : CString → CJson → Prop}
    {value : Parser UInt8 CJson}
    (hreads : Reads whitespace spells (fun c => isNumberByte c = false) value) :
    Reads whitespace (SpellsMember spells)
      (fun c => isNumberByte c = false) (parseMember value) where
  read := by
    intro text member c rest h hc
    obtain ⟨name, after, before, shown, rfl, hname, hafter, hbefore, hvalue⟩ :=
      h
    obtain ⟨body, output, rfl, hbody⟩ := hname
    obtain ⟨first, more, hshown, hfirst⟩ := hreads.head hvalue
    have hstring : parseString (body ++ [34] ++
        (after ++ 58 :: (before ++ shown)) ++ c :: rest) =
        some (member.1, after ++ 58 :: (before ++ (shown ++ c :: rest))) := by
      refine parseString_iff.mpr
        ⟨34 :: (body ++ [34]), ?_, body, output, rfl, hbody⟩
      simp
    have hcolon : skipWhitespace
        (after ++ 58 :: (before ++ (shown ++ c :: rest))) =
        58 :: (before ++ (shown ++ c :: rest)) := by
      rw [skipWhitespace_eq]
      exact hafter.dropWhile_cons (by decide)
    have hskip : skipWhitespace (before ++ (shown ++ c :: rest)) =
        shown ++ c :: rest := by
      rw [skipWhitespace_eq, hshown]
      exact hbefore.dropWhile_cons hfirst
    rw [List.cons_append, List.cons_append]
    unfold parseMember
    dsimp only
    rw [if_neg (not_not.mpr rfl), hstring]
    dsimp only [bind, Option.bind]
    rw [hcolon]
    dsimp only
    rw [if_neg (not_not.mpr rfl), hskip, hreads.read hvalue hc]
    rfl
  head := by
    intro text member h
    obtain ⟨name, after, before, shown, rfl, hname, _⟩ := h
    obtain ⟨body, output, rfl, _⟩ := hname
    exact ⟨34, _, rfl, by decide⟩

theorem sound_member {spells : CString → CJson → Prop}
    {value : Parser UInt8 CJson} (hsound : Sound spells value) :
    Sound (SpellsMember spells) (parseMember value) := by
  intro text member final h
  unfold parseMember at h
  cases text with
  | nil => cases h
  | cons c rest =>
      dsimp only at h
      by_cases hc : c = 34
      · rw [if_neg (not_not.mpr hc)] at h
        cases hname : parseString rest with
        | none =>
            rw [hname] at h
            cases h
        | some r =>
            obtain ⟨name, next⟩ := r
            obtain ⟨shown, hshown, hspells⟩ := parseString_iff.mp hname
            obtain ⟨after, hafter, hnext⟩ := exists_blank whitespace next
            rw [hname] at h
            dsimp only [bind, Option.bind] at h
            rw [skipWhitespace_eq] at h
            cases ht : next.dropWhile whitespace with
            | nil =>
                rw [ht] at h
                cases h
            | cons t next' =>
                rw [ht] at h hnext
                dsimp only at h
                by_cases hcolon : t = 58
                · rw [if_neg (not_not.mpr hcolon)] at h
                  obtain ⟨before, hbefore, hnext'⟩ :=
                    exists_blank whitespace next'
                  cases hvalue : value (next'.dropWhile whitespace) with
                  | none =>
                      rw [hvalue] at h
                      cases h
                  | some v =>
                      obtain ⟨item, final'⟩ := v
                      obtain ⟨read, hread, hitem⟩ := hsound _ _ _ hvalue
                      rw [hvalue] at h
                      cases h
                      refine ⟨shown ++ (after ++ 58 :: (before ++ read)), ?_,
                        shown, after, before, read, rfl, hspells, hafter,
                        hbefore, hitem⟩
                      rw [hc, hshown, hnext, hnext', hread, hcolon]
                      simp
                · rw [if_pos hcolon] at h
                  cases h
      · rw [if_pos hc] at h
        cases h

/-- A value is read up to its end if the values a level deeper are. -/
private theorem parseValue_level
    (hdeeper : ∀ depth', depth = depth' + 1 →
      Reads whitespace (Spells strtod depth')
        (fun c => isNumberByte c = false) (parseValue strtod depth'))
    {text rest : CString} {item : CJson} (h : Spells strtod depth text item)
    (hends : Ends strtod item text rest) :
    parseValue strtod depth (text ++ rest) = some (item, rest) := by
  cases item with
  | null =>
      rw [Spells] at h
      subst h
      unfold parseValue
      rfl
  | bool value =>
      cases value with
      | false =>
          rw [Spells] at h
          subst h
          unfold parseValue
          rfl
      | true =>
          rw [Spells] at h
          subst h
          unfold parseValue
          rfl
  | number number =>
      rw [Spells] at h
      obtain ⟨c, more, rfl, hc⟩ := h.head
      have hother := number_head hc
      simp only [List.mem_cons, not_or] at hother
      obtain ⟨_, _, _, _, hnull, hfalse, htrue, hquote, _⟩ := hother
      rw [List.cons_append, parseValue_cons _ hnull hfalse htrue,
        if_neg hquote, if_pos hc, ← List.cons_append]
      unfold parseNumber
      rw [hends number rfl]
      dsimp only [bind, Option.bind]
      rw [List.drop_left]
      rfl
  | string value =>
      rw [Spells] at h
      have hstring : parseString (text.tail ++ rest) = some (value, rest) := by
        obtain ⟨body, output, rfl, _⟩ := id h
        exact parseString_iff.mpr ⟨_, by simp, h⟩
      obtain ⟨body, output, rfl, _⟩ := h
      rw [List.cons_append, parseValue_cons _ (by decide) (by decide)
        (by decide), if_pos rfl]
      rw [List.tail_cons] at hstring
      rw [hstring]
      rfl
  | array child =>
      cases depth with
      | zero =>
          rw [Spells] at h
          exact h.elim
      | succ depth =>
          rw [Spells] at h
          obtain ⟨body, rfl, hbody⟩ := h
          have hopen : ∀ {c more value},
              Spells strtod depth (c :: more) value → c ≠ 93 := by
            intro c more value hvalue
            obtain ⟨c', more', heq, _, hc, _⟩ := spells_head hvalue
            cases heq
            exact hc
          have hread := reads_children (hdeeper depth rfl) hopen (by decide)
            hbody .array rest
          rw [List.cons_append, parseValue_cons _ (by decide) (by decide)
            (by decide)]
          rw [List.append_assoc]
          exact hread
  | object child =>
      cases depth with
      | zero =>
          rw [Spells] at h
          exact h.elim
      | succ depth =>
          rw [Spells] at h
          obtain ⟨body, rfl, hbody⟩ := h
          have hopen : ∀ {c more member},
              SpellsMember (Spells strtod depth) (c :: more) member →
                c ≠ 125 := by
            rintro c more member ⟨name, _, _, _, heq, ⟨body, _, rfl, _⟩, _⟩
            cases heq
            decide
          have hread := reads_children (reads_member (hdeeper depth rfl)) hopen
            (by decide) hbody .object rest
          rw [List.cons_append, parseValue_cons _ (by decide) (by decide)
            (by decide)]
          rw [List.append_assoc]
          exact hread

/-- The parser reads what the grammar derives, up to a byte that does not
belong to a number. -/
theorem reads_value (strtod : CString → Option (Rat × Nat)) (depth : Nat) :
    Reads whitespace (Spells strtod depth) (fun c => isNumberByte c = false)
      (parseValue strtod depth) := by
  have hhead : ∀ (depth : Nat) {text : CString} {item : CJson},
      Spells strtod depth text item →
        ∃ c rest, text = c :: rest ∧ whitespace c = false := by
    intro depth text item h
    obtain ⟨c, more, htext, hc, _⟩ := spells_head h
    exact ⟨c, more, htext, hc⟩
  induction depth with
  | zero =>
      refine ⟨?_, hhead 0⟩
      intro text item c rest h hc
      exact parseValue_level (fun _ hdepth => by omega) h (ends_cons rest h hc)
  | succ depth ih =>
      refine ⟨?_, hhead (depth + 1)⟩
      intro text item c rest h hc
      refine parseValue_level ?_ h (ends_cons rest h hc)
      intro depth' hdepth
      have hdepth' : depth' = depth := by omega
      rw [hdepth']
      exact ih

/-- A value is read up to its end, whatever follows. -/
theorem parseValue_spelled {text rest : CString} {item : CJson}
    (h : Spells strtod depth text item) (hends : Ends strtod item text rest) :
    parseValue strtod depth (text ++ rest) = some (item, rest) :=
  parseValue_level (fun depth' _ => reads_value strtod depth') h hends

/-- What is read as a value spells it, if this holds a level deeper. -/
private theorem sound_level (hstrtod : ReadsPrefix strtod)
    (hdeeper : ∀ depth', depth = depth' + 1 →
      Sound (Spells strtod depth') (parseValue strtod depth'))
    {text rest : CString} {item : CJson}
    (h : parseValue strtod depth text = some (item, rest)) :
    ∃ read, text = read ++ rest ∧ Spells strtod depth read item ∧
      Ends strtod item read rest := by
  unfold parseValue at h
  split at h
  · rename_i hnull
    cases h
    refine ⟨cstr "null", ?_, by rw [Spells], fun _ heq => by cases heq⟩
    exact (List.prefix_iff_eq_append.mp (List.isPrefixOf_iff_prefix.mp hnull)).symm
  split at h
  · rename_i hfalse
    cases h
    refine ⟨cstr "false", ?_, by rw [Spells], fun _ heq => by cases heq⟩
    exact (List.prefix_iff_eq_append.mp (List.isPrefixOf_iff_prefix.mp hfalse)).symm
  split at h
  · rename_i htrue
    cases h
    refine ⟨cstr "true", ?_, by rw [Spells], fun _ heq => by cases heq⟩
    exact (List.prefix_iff_eq_append.mp (List.isPrefixOf_iff_prefix.mp htrue)).symm
  cases text with
  | nil => cases h
  | cons c more =>
      dsimp only at h
      by_cases hquote : c = 34
      · rw [if_pos hquote] at h
        obtain ⟨r, hr, heq⟩ := Option.map_eq_some_iff.mp h
        cases heq
        obtain ⟨read, hread, hspells⟩ := parseString_iff.mp hr
        refine ⟨read, by rw [hquote, hread], ?_, fun _ heq => by cases heq⟩
        rw [Spells]
        exact hspells
      rw [if_neg hquote] at h
      by_cases hnumber : c = 45 ∨ 48 ≤ c ∧ c ≤ 57
      · rw [if_pos hnumber] at h
        obtain ⟨read, number, hread, rfl, hspells, hends⟩ :=
          sound_number hstrtod hnumber h
        refine ⟨read, hread, ?_, ?_⟩
        · rw [Spells]
          exact hspells
        · intro number' heq
          cases heq
          rw [← hread]
          exact hends
      rw [if_neg hnumber] at h
      cases depth with
      | zero => cases h
      | succ depth =>
          dsimp only at h
          by_cases hopen : c = 91
          · rw [if_pos hopen] at h
            obtain ⟨body, child, hread, rfl, hbody⟩ :=
              sound_children (hdeeper depth rfl) h
            refine ⟨91 :: (body ++ [93]), ?_, ?_, fun _ heq => by cases heq⟩
            · rw [hopen, hread]
              simp
            · rw [Spells]
              exact ⟨body, rfl, hbody⟩
          · rw [if_neg hopen] at h
            by_cases hbrace : c = 123
            · rw [if_pos hbrace] at h
              obtain ⟨body, child, hread, rfl, hbody⟩ :=
                sound_children (sound_member (hdeeper depth rfl)) h
              refine ⟨123 :: (body ++ [125]), ?_, ?_,
                fun _ heq => by cases heq⟩
              · rw [hbrace, hread]
                simp
              · rw [Spells]
                exact ⟨body, rfl, hbody⟩
            · rw [if_neg hbrace] at h
              cases h

/-- What the parser reads spells the value it returns. -/
theorem sound_value (hstrtod : ReadsPrefix strtod) (depth : Nat) :
    Sound (Spells strtod depth) (parseValue strtod depth) := by
  induction depth with
  | zero =>
      intro text item rest h
      obtain ⟨read, htext, hspells, _⟩ :=
        sound_level hstrtod (fun _ hdepth => by omega) h
      exact ⟨read, htext, hspells⟩
  | succ depth ih =>
      intro text item rest h
      have hdeeper : ∀ depth', depth + 1 = depth' + 1 →
          Sound (Spells strtod depth') (parseValue strtod depth') := by
        intro depth' hdepth
        have hdepth' : depth' = depth := by omega
        rw [hdepth']
        exact ih
      obtain ⟨read, htext, hspells, _⟩ := sound_level hstrtod hdeeper h
      exact ⟨read, htext, hspells⟩

/-- `parse_value` accepts exactly the texts that start with what the grammar
derives, and returns the tree it spells with the bytes after it. -/
theorem parseValue_iff (hstrtod : ReadsPrefix strtod) {text rest : CString}
    {item : CJson} :
    parseValue strtod depth text = some (item, rest) ↔
      ∃ read, text = read ++ rest ∧ Spells strtod depth read item ∧
        Ends strtod item read rest := by
  constructor
  · intro h
    exact sound_level hstrtod (fun depth' _ => sound_value hstrtod depth') h
  · rintro ⟨read, rfl, hspells, hends⟩
    exact parseValue_spelled hspells hends

/-- White space in front of a value is passed. -/
theorem skip_spelled {before text : CString} {item : CJson}
    (hbefore : Blank whitespace before) (h : Spells strtod depth text item)
    (after : CString) :
    skipWhitespace (before ++ (text ++ after)) = text ++ after := by
  obtain ⟨c, more, rfl, hc, _⟩ := spells_head h
  rw [skipWhitespace_eq]
  exact hbefore.dropWhile_cons hc

/-- A byte order mark in front of a value is passed, and nothing is taken for
one that is none. -/
theorem skipBom_spelled {bom before text : CString} {item : CJson}
    (hbom : bom = [] ∨ bom = [0xEF, 0xBB, 0xBF])
    (hbefore : Blank whitespace before) (h : Spells strtod depth text item)
    (after : CString) :
    skipUtf8Bom (bom ++ (before ++ (text ++ after))) =
      before ++ (text ++ after) := by
  obtain ⟨c, more, rfl, _, _, _, hc⟩ := spells_head h
  unfold skipUtf8Bom
  rcases hbom with rfl | rfl
  · have hfirst : [0xEF, 0xBB, 0xBF].isPrefixOf
        (before ++ (c :: more ++ after)) = false := by
      cases before with
      | nil =>
          show ((0xEF : UInt8) == c && _) = false
          rw [beq_eq_false_iff_ne.mpr hc.symm, Bool.false_and]
      | cons w before =>
          have hw : (0xEF : UInt8) ≠ w := by
            rintro rfl
            exact absurd (hbefore 0xEF (by simp)) (by decide)
          show ((0xEF : UInt8) == w && _) = false
          rw [beq_eq_false_iff_ne.mpr hw, Bool.false_and]
    rw [List.nil_append, hfirst, if_neg (by simp)]
  · rw [if_pos]
    · rfl
    · constructor
      · simp
        omega
      · rfl

end Values

end DatahubEdge
