import DatahubEdge.CJson.Objects
import DatahubEdge.CJson.Parse

/-!
# `cJSON_Parse` in memory

The parser fills in a node that is there already; for an array or an object it
links new nodes to a list and releases the list when it fails.  `malloc` gives
an address that is not in use, or none: it may depend on how often it has been
called and on what is allocated.  A string that is allocated is part of its
node.

## Main results

* `parseValueAt_meets` — a value that is parsed, and nothing else, is put into
  the node; if it is not parsed, no node is left behind.
* `cJSONParseAt_meets` — the tree in memory is the one `cJSONParse` returns.
-/

namespace DatahubEdge.Nodes

open Lib.Linked Lib.Parsing

/-! ## The parser -/

structure State where
  memory : Memory
  /-- How often `malloc` has been called. -/
  calls : Nat
  /-- Whether it has returned NULL. -/
  denied : Bool

/-- A parser of the node at an address.  It returns the bytes that remain, or
nothing for `false`. -/
abbrev NodeParser :=
  Nat → CString → State → Except HeapFault (Option CString × State)

section Parser

variable (malloc : Nat → Memory → Option Nat)
  (strtod : CString → Option (Rat × Nat))

def allocate (s : State) : Option Nat × State :=
  match malloc s.calls s.memory with
  | none => (none, ⟨s.memory, s.calls + 1, true⟩)
  | some a => (some a, ⟨s.memory, s.calls + 1, s.denied⟩)

/-- Writing members of the node that is parsed. -/
def fill (s : State) (item : Nat) (f : Node Label → Node Label) :
    Except HeapFault State := do
  let memory ← update s.memory item f
  return { s with memory }

/-- `parse_string` after the opening quotation mark. -/
def parseStringAt : NodeParser := fun item text s =>
  match closeQuote text with
  | none => return (none, s)
  | some (body, rest) =>
      match allocate malloc s with
      | (none, s) => return (none, s)
      | (some _, s) =>
          match unescape body with
          | none => return (none, s)
          | some output => do
              let s ← fill s item fun n =>
                { n with label := { n.label with
                  type := .string
                  valuestring := some (output.takeWhile fun c => c ≠ 0) } }
              return (some rest, s)

/-- `parse_number`. -/
def parseNumberAt : NodeParser := fun item text s =>
  match strtod ((text.take 63).takeWhile isNumberByte) with
  | none => return (none, s)
  | some (number, count) => do
      let s ← fill s item fun n =>
        { n with label := { n.label with
          type := .number
          valuedouble := number
          valueint := saturatedInt number } }
      return (some (text.drop count), s)

/-- The loop of `parse_array` and `parse_object`, from `head` and
`current_item` on, and `head` after it. -/
def childLoop (child : NodeParser) (close : UInt8) :
    Nat → Option Nat → Option Nat → CString → State →
      Except HeapFault (Option CString × Option Nat × State)
  | 0, head, _, _, s => return (none, head, s)
  | fuel + 1, head, currentItem, text, s =>
      match allocate malloc s with
      | (none, s) => return (none, head, s)
      | (some node, s) => do
          let memory := newItem s.memory (some node)
          let memory ← unlessNull memory currentItem fun currentItem =>
            suffixObject memory currentItem node
          let head := head.or (some node)
          let (result, s) ← child node (skipWhitespace text) { s with memory }
          match result with
          | none => return (none, head, s)
          | some rest =>
              match skipWhitespace rest with
              | [] => return (none, head, s)
              | t :: rest =>
                  if t = 44 then
                    childLoop child close fuel head (some node) rest s
                  else if t = close then return (some rest, head, s)
                  else return (none, head, s)

/-- What `parse_array` and `parse_object` do after the opening bracket. -/
def parseChildren (child : NodeParser) (close : UInt8) (type : NodeType) :
    NodeParser := fun item text s =>
  match skipWhitespace text with
  | [] => return (none, s)
  | c :: rest =>
      if c = close then do
        let s ← fill s item fun n =>
          { n with label := { n.label with type }, child := none }
        return (some rest, s)
      else do
        let (result, head, s) ← childLoop malloc child close
          ((c :: rest).length + 1) none none (c :: rest) s
        match result with
        | none => do
            -- no list is longer than the calls of `malloc`
            let memory ← unlessNull s.memory head fun head =>
              delete (s.calls + 1) s.memory (some head)
            return (none, { s with memory })
        | some rest => do
            let s ← fill s item fun n =>
              { n with label := { n.label with type }, child := head }
            return (some rest, s)

/-- `parse_array` after the opening bracket. -/
def parseArrayAt (value : NodeParser) : NodeParser :=
  parseChildren malloc value 93 .array

/-- A member of an object: name, colon and value. -/
def parseMemberAt (value : NodeParser) : NodeParser := fun item text s =>
  match text with
  | [] => return (none, s)
  | c :: rest =>
      if c ≠ 34 then return (none, s)
      else do
        let (result, s) ← parseStringAt malloc item rest s
        match result with
        | none => return (none, s)
        | some rest => do
            -- the text that has been parsed is the name
            let s ← fill s item fun n =>
              { n with label := { n.label with
                string := n.label.valuestring
                valuestring := none } }
            match skipWhitespace rest with
            | [] => return (none, s)
            | c :: rest =>
                if c ≠ 58 then return (none, s)
                else value item (skipWhitespace rest) s

/-- `parse_object` after the opening brace. -/
def parseObjectAt (value : NodeParser) : NodeParser :=
  parseChildren malloc (parseMemberAt malloc value) 125 .object

/-- `parse_value` where `depth` more levels of nesting are allowed. -/
def parseValueAt : Nat → NodeParser
  | depth, item, text, s =>
      if (cstr "null").isPrefixOf text then do
        let s ← fill s item fun n =>
          { n with label := { n.label with type := .null } }
        return (some (text.drop 4), s)
      else if (cstr "false").isPrefixOf text then do
        let s ← fill s item fun n =>
          { n with label := { n.label with type := .false } }
        return (some (text.drop 5), s)
      else if (cstr "true").isPrefixOf text then do
        let s ← fill s item fun n =>
          { n with label := { n.label with type := .true, valueint := 1 } }
        return (some (text.drop 4), s)
      else
        match text with
        | [] => return (none, s)
        | c :: rest =>
            if c = 34 then parseStringAt malloc item rest s
            else if c = 45 ∨ 48 ≤ c ∧ c ≤ 57 then
              parseNumberAt strtod item text s
            else
              match depth with
              | 0 => return (none, s)
              | depth + 1 =>
                  if c = 91 then
                    parseArrayAt malloc (parseValueAt depth) item rest s
                  else if c = 123 then
                    parseObjectAt malloc (parseValueAt depth) item rest s
                  else return (none, s)

/-- `cJSON_Parse`. -/
def cJSONParseAt (value : Option CString) (s : State) :
    Except HeapFault (Option Nat × State) :=
  match value with
  | none => return (none, s)
  | some value =>
      match allocate malloc s with
      | (none, s) => return (none, s)
      | (some item, s) => do
          let (result, s) ← parseValueAt malloc strtod nestingLimit item
            (skipWhitespace (skipUtf8Bom value))
            { s with memory := newItem s.memory (some item) }
          match result with
          | some _ => return (some item, s)
          | none => do
              let memory ← delete (s.calls + 1) s.memory (some item)
              return (none, { s with memory })

end Parser

/-! ## What a parser does to memory -/

/-- A node has got a label and new children, and nothing else is different. -/
structure Grown (h h' : Memory) (item : Nat) (n : Node Label) (label : Label)
    (C : Siblings Label) : Prop where
  node : h' item = some { n with child := C.headOr none, label := label }
  children : Segment h' none none C
  nodup : C.addrs.Nodup
  fresh : ∀ b ∈ C.addrs, h b = none
  frame : ∀ b, b ≠ item → b ∉ C.addrs → h' b = h b

/-- There is a list of new nodes, and nothing else is different. -/
structure Listed (h h' : Memory) (S : Siblings Label) : Prop where
  list : Segment h' none none S
  nodup : S.addrs.Nodup
  fresh : ∀ b ∈ S.addrs, h b = none
  frame : ∀ b, b ∉ S.addrs → h' b = h b

section Growth

variable {h h' h'' : Memory} {item : Nat} {n : Node Label} {label : Label}
  {S C : Siblings Label}

theorem Grown.leaf (hchild : n.child = none) :
    Grown h (set h item { n with label := label }) item n label .nil := by
  refine ⟨?_, trivial, List.nodup_nil, nofun, fun b hb _ => set_ne hb⟩
  rw [set_self, Siblings.headOr, ← hchild]

theorem Listed.nil : Listed h h .nil :=
  ⟨trivial, List.nodup_nil, nofun, fun _ _ => rfl⟩

/-- When the list is released everything is as before. -/
theorem Listed.erase (hS : Listed h h' S) : erase h' S.addrs = h := by
  funext b
  by_cases hb : b ∈ S.addrs
  · rw [erase_of_mem hb, hS.fresh b hb]
  · rw [erase_of_not_mem hb, hS.frame b hb]

/-- The list with a node linked to its end. -/
theorem Listed.link {a : Nat} (hS : Listed h h' S) (ha : h' a = none)
    (hnode : h'' a = some ⟨none, S.lastOr none, none, label⟩)
    (hlast : ∀ z n, S.lastOr none = some z → h' z = some n →
      h'' z = some { n with next := some a })
    (hother : ∀ b, b ≠ a → S.lastOr none ≠ some b → h'' b = h' b) :
    Listed h h'' (S.append (.cons a label .nil .nil)) := by
  have hnot : a ∉ S.addrs := by
    intro hmem
    have hsome := hS.list.isSome a hmem
    rw [ha] at hsome
    cases hsome
  have haddrs : (S.append (.cons a label .nil .nil)).addrs =
      S.addrs ++ [a] := Siblings.addrs_append _ _
  refine ⟨?_, ?_, ?_, ?_⟩
  · refine segment_append.mpr ⟨?_, hnode, trivial, trivial⟩
    apply hS.list.relinkNext hS.nodup hlast
    intro b hb hne
    exact hother b (ne_of_mem_of_not_mem hb hnot) hne
  · rw [haddrs, ← List.concat_eq_append]
    exact List.Nodup.concat hnot hS.nodup
  · intro b hb
    rw [haddrs, List.mem_append, List.mem_singleton] at hb
    rcases hb with hb | rfl
    · exact hS.fresh b hb
    · rw [← hS.frame b hnot]
      exact ha
  · intro b hb
    rw [haddrs, List.mem_append, List.mem_singleton, not_or] at hb
    rw [hother b hb.2, hS.frame b hb.1]
    exact fun hz => hb.1 (Siblings.mem_of_lastOr hz)

/-- A new node at the end of the list. -/
theorem Listed.push {a : Nat} (hS : Listed h h' S) (ha : h' a = none) :
    ∃ h'', unlessNull (newItem h' (some a)) (S.lastOr none)
        (fun z => suffixObject (newItem h' (some a)) z a) = .ok h'' ∧
      Listed h h'' (S.append (.cons a .zero .nil .nil)) ∧
      h'' a = some ⟨none, S.lastOr none, none, .zero⟩ := by
  cases hz : S.lastOr none with
  | none =>
      refine ⟨newItem h' (some a), rfl, hS.link ha ?_ ?_ ?_, set_self⟩
      · rw [hz]
        exact set_self
      · intro z n hz'
        rw [hz] at hz'
        cases hz'
      · exact fun b hb _ => set_ne hb
  | some z =>
      have hzS : z ∈ S.addrs := Siblings.mem_of_lastOr hz
      obtain ⟨m, hm⟩ := Option.isSome_iff_exists.mp (hS.list.isSome z hzS)
      have hza : z ≠ a := by
        rintro rfl
        rw [ha] at hm
        cases hm
      have hmNew : newItem h' (some a) z = some m := (set_ne hza).trans hm
      have hzEq : ∀ b, S.lastOr none ≠ some b → some z ≠ some b :=
        fun b hb => hz ▸ hb
      have hnode : touch (touch (newItem h' (some a)) (some z) fun n =>
          { n with next := some a }) (some a)
            (fun n => { n with prev := some z }) a =
              some ⟨none, some z, none, .zero⟩ := by
        rw [touch_self, touch_ne fun heq => hza (Option.some.inj heq), newItem,
          set_self]
        rfl
      refine ⟨_, ?_, hS.link ha (hz ▸ hnode) ?_ ?_, hnode⟩
      · show suffixObject (newItem h' (some a)) z a = _
        rw [suffixObject, update_eq (by rw [hmNew]; rfl)]
        show update _ a _ = _
        rw [update_eq]
        rw [isSome_touch, newItem, set_self]
        rfl
      · intro z' n hz' hn
        rw [hz] at hz'
        cases hz'
        rw [touch_ne fun heq => hza (Option.some.inj heq).symm, touch_self,
          newItem, set_ne hza, hn]
        rfl
      · intro b hb hne
        rw [touch_ne fun heq => hb (Option.some.inj heq).symm,
          touch_ne (hzEq b hne), newItem, set_ne hb]

/-- The last node of the list is filled in. -/
theorem Listed.grow {a : Nat} {old : Label}
    (hS : Listed h h' (S.append (.cons a old .nil .nil)))
    (hgrown : Grown h' h'' a ⟨none, S.lastOr none, none, old⟩ label C) :
    Listed h h'' (S.append (.cons a label C .nil)) := by
  have haddrs : (S.append (.cons a old .nil .nil)).addrs = S.addrs ++ [a] :=
    Siblings.addrs_append _ _
  have haddrs' : (S.append (.cons a label C .nil)).addrs =
      S.addrs ++ a :: C.addrs := by
    rw [Siblings.addrs_append, Siblings.addrs_single]
  have hnodup := hS.nodup
  rw [haddrs, List.nodup_append] at hnodup
  obtain ⟨hnodupS, _, hapart⟩ := hnodup
  have hnot : a ∉ S.addrs := fun hmem =>
    hapart a hmem a (List.mem_singleton.mpr rfl) rfl
  -- the new nodes are not those of the list
  have hnew : ∀ b ∈ C.addrs, b ∉ S.addrs ++ [a] := by
    intro b hb hmem
    have hsome := hS.list.isSome b (haddrs ▸ hmem)
    rw [hgrown.fresh b hb] at hsome
    cases hsome
  have hframe : ∀ b ∈ S.addrs, h'' b = h' b := by
    intro b hb
    apply hgrown.frame
    · exact ne_of_mem_of_not_mem hb hnot
    · exact fun hC => hnew b hC (List.mem_append_left _ hb)
  refine ⟨?_, ?_, ?_, ?_⟩
  · obtain ⟨hlist, _⟩ := segment_append.mp hS.list
    exact segment_append.mpr ⟨hlist.congr hframe, hgrown.node,
      hgrown.children, trivial⟩
  · rw [haddrs', List.nodup_append, List.nodup_cons]
    refine ⟨hnodupS, ⟨?_, hgrown.nodup⟩, ?_⟩
    · exact fun hmem => hnew a hmem (by simp)
    · rintro b hb c hc rfl
      rcases List.mem_cons.mp hc with rfl | hc
      · exact hnot hb
      · exact hnew b hc (List.mem_append_left _ hb)
  · intro b hb
    rw [haddrs', List.mem_append, List.mem_cons] at hb
    rcases hb with hb | rfl | hb
    · exact hS.fresh b (haddrs ▸ List.mem_append_left _ hb)
    · exact hS.fresh b (haddrs ▸ by simp)
    · have hnotS : b ∉ (S.append (.cons a old .nil .nil)).addrs :=
        haddrs ▸ hnew b hb
      rw [← hS.frame b hnotS]
      exact hgrown.fresh b hb
  · intro b hb
    rw [haddrs', List.mem_append, List.mem_cons, not_or, not_or] at hb
    rw [hgrown.frame b hb.2.1 hb.2.2, hS.frame]
    rw [haddrs, List.mem_append, List.mem_singleton, not_or]
    exact ⟨hb.1, hb.2.1⟩

end Growth

/-! ## What a parser returns -/

/-- How a parser of a node ends, compared with a parser of its text.  `R`
relates the label and the children to what has been parsed. -/
inductive Outcome {β : Type} (parsed : Option (β × CString))
    (R : Label → Siblings Label → β → Prop)
    (item : Nat) (n : Node Label) (s s' : State) : Option CString → Prop where
  | refused (label : Label) (hrefused : parsed = none ∨ s'.denied = true)
      (hmemory : s'.memory = set s.memory item { n with label := label })
      (hcalls : s.calls ≤ s'.calls) : Outcome parsed R item n s s' none
  | accepted (out : β) (rest : CString) (label : Label) (C : Siblings Label)
      (hparsed : parsed = some (out, rest)) (hR : R label C out)
      (hgrown : Grown s.memory s'.memory item n label C)
      (hcalls : s.calls + C.addrs.length ≤ s'.calls) :
      Outcome parsed R item n s s' (some rest)

/-- On a node without children the parser does what the parser of the text
says, or fails because an allocation is denied. -/
def Meets {β : Type} (parser : NodeParser) (spec : Parser UInt8 β)
    (R : Label → Label → Siblings Label → β → Prop) : Prop :=
  ∀ item text (s : State) n, s.memory item = some n → n.child = none →
    ∃ result s', parser item text s = .ok (result, s') ∧
      Outcome (spec text) (R n.label) item n s s' result

/-- What the siblings of a list have been parsed from. -/
def Children {β : Type} (R : Label → Siblings Label → β → Prop) :
    Siblings Label → List β → Prop
  | .nil, [] => True
  | .cons _ label child next, out :: outs =>
      R label child out ∧ Children R next outs
  | _, _ => False

section Leaves

variable {malloc : Nat → Memory → Option Nat}
  {strtod : CString → Option (Rat × Nat)} {item : Nat} {n : Node Label}
  {s : State}

theorem fill_eq (hn : s.memory item = some n) (f : Node Label → Node Label) :
    fill s item f = .ok { s with memory := set s.memory item (f n) } := by
  rw [fill, update, read_eq hn]
  rfl

variable (malloc) in
/-- A text is parsed into the members of the node. -/
theorem parseStringAt_cases (text : CString) (hn : s.memory item = some n) :
    ∃ s', s.calls ≤ s'.calls ∧
      ((parseStringAt malloc item text s = .ok (none, s') ∧
          s'.memory = s.memory ∧
          (parseString text = none ∨ s'.denied = true)) ∨
        ∃ out rest, parseStringAt malloc item text s = .ok (some rest, s') ∧
          parseString text = some (out, rest) ∧
          s'.memory = set s.memory item { n with label := { n.label with
            type := .string, valuestring := some out } }) := by
  cases hclose : closeQuote text with
  | none =>
      refine ⟨s, Nat.le_refl _, .inl ⟨?_, rfl, .inl ?_⟩⟩
      · rw [parseStringAt, hclose]
        rfl
      · rw [parseString, hclose]
        rfl
  | some p =>
      obtain ⟨body, rest⟩ := p
      cases hm : malloc s.calls s.memory with
      | none =>
          refine ⟨⟨s.memory, s.calls + 1, true⟩, Nat.le_succ _,
            .inl ⟨?_, rfl, .inr rfl⟩⟩
          simp only [parseStringAt, hclose, allocate, hm]
          rfl
      | some a =>
          cases hu : unescape body with
          | none =>
              refine ⟨⟨s.memory, s.calls + 1, s.denied⟩, Nat.le_succ _,
                .inl ⟨?_, rfl, .inl ?_⟩⟩
              · simp only [parseStringAt, hclose, allocate, hm, hu]
                rfl
              · rw [parseString, hclose]
                show (unescape body).bind _ = none
                rw [hu]
                rfl
          | some output =>
              refine ⟨⟨_, s.calls + 1, s.denied⟩, Nat.le_succ _,
                .inr ⟨output.takeWhile fun c => c ≠ 0, rest, ?_, ?_, rfl⟩⟩
              · have hn' : (⟨s.memory, s.calls + 1, s.denied⟩ :
                    State).memory item = some n := hn
                simp only [parseStringAt, hclose, allocate, hm, hu]
                rw [fill_eq hn']
                rfl
              · rw [parseString, hclose]
                show (unescape body).bind _ = _
                rw [hu]
                rfl

/-- A parser that only gives the node another label. -/
theorem Outcome.leaf {β : Type} {parsed : Option (β × CString)}
    {R : Label → Siblings Label → β → Prop} {s' : State} {out : β}
    {rest : CString} (label : Label) (hchild : n.child = none)
    (hparsed : parsed = some (out, rest)) (hR : R label .nil out)
    (hmemory : s'.memory = set s.memory item { n with label := label })
    (hcalls : s.calls ≤ s'.calls) :
    Outcome parsed R item n s s' (some rest) := by
  refine .accepted out rest label .nil hparsed hR ?_ hcalls
  rw [hmemory]
  exact Grown.leaf hchild

/-- A parser that fails without having written anything. -/
theorem Outcome.unchanged {β : Type} {parsed : Option (β × CString)}
    {R : Label → Siblings Label → β → Prop} {s' : State}
    (hn : s.memory item = some n) (hrefused : parsed = none ∨ s'.denied = true)
    (hmemory : s'.memory = s.memory) (hcalls : s.calls ≤ s'.calls) :
    Outcome parsed R item n s s' none := by
  refine .refused n.label hrefused ?_ hcalls
  rw [hmemory]
  exact (set_same hn).symm

end Leaves

/-! ## Lists of children -/

section Lists

variable {β : Type} {malloc : Nat → Memory → Option Nat}
  {child : NodeParser} {spec : Parser UInt8 β}
  {R : Label → Label → Siblings Label → β → Prop} {close : UInt8}

section Turn

variable {fuel a : Nat} {head current : Option Nat} {text : CString}
  {s s₂ : State} {h₁ : Memory}

/-- A turn of the loop whose child is not parsed. -/
theorem childLoop_refused (hm : malloc s.calls s.memory = some a)
    (hlink : unlessNull (newItem s.memory (some a)) current
      (fun z => suffixObject (newItem s.memory (some a)) z a) = .ok h₁)
    (hparse : child a (skipWhitespace text) ⟨h₁, s.calls + 1, s.denied⟩ =
      .ok (none, s₂)) :
    childLoop malloc child close (fuel + 1) head current text s =
      .ok (none, head.or (some a), s₂) := by
  simp only [childLoop, allocate, hm]
  rw [hlink]
  show child a (skipWhitespace text) ⟨h₁, s.calls + 1, s.denied⟩ >>= _ = _
  rw [hparse]
  rfl

/-- A turn of the loop whose child is parsed. -/
theorem childLoop_accepted {rest : CString}
    (hm : malloc s.calls s.memory = some a)
    (hlink : unlessNull (newItem s.memory (some a)) current
      (fun z => suffixObject (newItem s.memory (some a)) z a) = .ok h₁)
    (hparse : child a (skipWhitespace text) ⟨h₁, s.calls + 1, s.denied⟩ =
      .ok (some rest, s₂)) :
    childLoop malloc child close (fuel + 1) head current text s =
      (match skipWhitespace rest with
      | [] => .ok (none, head.or (some a), s₂)
      | t :: rest =>
          if t = 44 then
            childLoop malloc child close fuel (head.or (some a)) (some a) rest
              s₂
          else if t = close then .ok (some rest, head.or (some a), s₂)
          else .ok (none, head.or (some a), s₂)) := by
  simp only [childLoop, allocate, hm]
  rw [hlink]
  show child a (skipWhitespace text) ⟨h₁, s.calls + 1, s.denied⟩ >>= _ = _
  rw [hparse]
  rfl

end Turn

theorem childLoop_meets
    (hmalloc : ∀ i h a, malloc i h = some a → h a = none)
    (hchild : Meets child spec R) {h₀ : Memory} {c₀ : Nat}
    (fuel : Nat) {S : Siblings Label} (text : CString) {s : State}
    (hS : Listed h₀ s.memory S) (hsize : c₀ + S.addrs.length ≤ s.calls) :
    ∃ result s' T, childLoop malloc child close fuel (S.headOr none)
        (S.lastOr none) text s =
          .ok (result, (S.append T).headOr none, s') ∧
      Listed h₀ s'.memory (S.append T) ∧
      c₀ + (S.append T).addrs.length ≤ s'.calls ∧
      match result with
      | none => sepBy skipWhitespace spec 44 close fuel text = none ∨
          s'.denied = true
      | some rest => ∃ outs,
          sepBy skipWhitespace spec 44 close fuel text = some (outs, rest) ∧
            Children (R .zero) T outs := by
  induction fuel generalizing S text s with
  | zero =>
      refine ⟨none, s, .nil, ?_, ?_, ?_, .inl rfl⟩
      · rw [Siblings.append_nil]
        rfl
      · rw [Siblings.append_nil]
        exact hS
      · rw [Siblings.append_nil]
        exact hsize
  | succ fuel ih =>
      cases hm : malloc s.calls s.memory with
      | none =>
          refine ⟨none, ⟨s.memory, s.calls + 1, true⟩, .nil, ?_, ?_, ?_,
            .inr rfl⟩
          · rw [Siblings.append_nil]
            simp only [childLoop, allocate, hm]
            rfl
          · rw [Siblings.append_nil]
            exact hS
          · rw [Siblings.append_nil]
            exact Nat.le_succ_of_le hsize
      | some a =>
          obtain ⟨h₁, hlink, hlisted, hnode⟩ :=
            hS.push (hmalloc _ _ _ hm)
          obtain ⟨result, s₂, hparse, houtcome⟩ := hchild a
            (skipWhitespace text) ⟨h₁, s.calls + 1, s.denied⟩ _ hnode rfl
          have hhead : ∀ label C T, (S.append (.cons a label C T)).headOr
              none = S.headOr (some a) :=
            fun label C T => Siblings.headOr_append S _ none
          have hor : (S.headOr none).or (some a) = S.headOr (some a) := by
            cases S with
            | nil => rfl
            | cons item label child next => rfl
          cases houtcome with
          | refused label hrefused hmemory hcalls =>
              have hgrown : Grown h₁ s₂.memory a _ label .nil :=
                hmemory ▸ Grown.leaf rfl
              refine ⟨none, s₂, .cons a label .nil .nil, ?_,
                hlisted.grow hgrown, ?_, ?_⟩
              · rw [childLoop_refused hm hlink hparse, hor, hhead]
              · rw [Siblings.addrs_append, Siblings.addrs_single,
                  List.length_append]
                exact Nat.le_trans (Nat.succ_le_succ hsize) hcalls
              · refine hrefused.imp_left ?_
                intro hnone
                rw [sepBy, hnone]
          | accepted out rest label C hparsed hR hgrown hcalls =>
              have hlisted₂ := hlisted.grow hgrown
              have hsize₂ : c₀ + (S.append (.cons a label C .nil)).addrs.length
                  ≤ s₂.calls := by
                have hcalls' : s.calls + 1 + C.addrs.length ≤ s₂.calls := hcalls
                rw [Siblings.addrs_append, Siblings.addrs_single,
                  List.length_append, List.length_cons]
                omega
              rw [childLoop_accepted hm hlink hparse, hor]
              cases hskip : skipWhitespace rest with
              | nil =>
                  exact ⟨none, s₂, .cons a label C .nil, by rw [hhead],
                    hlisted₂, hsize₂, .inl (sepBy_end hparsed hskip)⟩
              | cons t rest' =>
                  rw [sepBy_item hparsed hskip]
                  show ∃ result s' T, (if t = 44 then _ else _) = _ ∧ _
                  by_cases hsep : t = 44
                  · rw [if_pos hsep, if_pos hsep]
                    obtain ⟨result', s', T, hloop, hlisted', hsize', hend⟩ :=
                      ih rest' hlisted₂ hsize₂
                    rw [Siblings.lastOr_append] at hloop
                    rw [Siblings.append_assoc] at hloop hlisted' hsize'
                    rw [hhead] at hloop
                    refine ⟨result', s', .cons a label C T, hloop, hlisted',
                      hsize', ?_⟩
                    cases result' with
                    | none =>
                        refine hend.imp_left ?_
                        intro hnone
                        rw [hnone]
                        rfl
                    | some rest'' =>
                        obtain ⟨outs, houts, hchildren⟩ := hend
                        refine ⟨out :: outs, ?_, hR, hchildren⟩
                        rw [houts]
                        rfl
                  · rw [if_neg hsep, if_neg hsep]
                    by_cases hclose : t = close
                    · rw [if_pos hclose, if_pos hclose]
                      exact ⟨some rest', s₂, .cons a label C .nil,
                        by rw [hhead], hlisted₂, hsize₂, [out], rfl, hR,
                        trivial⟩
                    · rw [if_neg hclose, if_neg hclose]
                      exact ⟨none, s₂, .cons a label C .nil, by rw [hhead],
                        hlisted₂, hsize₂, .inl rfl⟩

/-- The children between two brackets, as far as their text goes. -/
def children (spec : Parser UInt8 β) (close : UInt8) :
    Parser UInt8 (List β) := fun text =>
  match skipWhitespace text with
  | [] => none
  | c :: rest =>
      if c = close then some ([], rest)
      else sepBy skipWhitespace spec 44 close ((c :: rest).length + 1)
        (c :: rest)

/-- An array or an object gets its children, or none are left behind. -/
theorem parseChildren_meets
    (hmalloc : ∀ i h a, malloc i h = some a → h a = none)
    (hchild : Meets child spec R) (type : NodeType) :
    Meets (parseChildren malloc child close type)
      (children spec close) fun old label C outs =>
        label = { old with type } ∧ Children (R .zero) C outs := by
  intro item text s n hn hnone
  cases htext : skipWhitespace text with
  | nil =>
      refine ⟨none, s, ?_, .unchanged hn (.inl ?_) rfl (Nat.le_refl _)⟩
      · simp only [parseChildren, htext]
        rfl
      · simp only [children, htext]
  | cons c rest =>
      have hspec : children spec close text =
          if c = close then some ([], rest)
          else sepBy skipWhitespace spec 44 close ((c :: rest).length + 1)
            (c :: rest) := by
        simp only [children, htext]
      by_cases hc : c = close
      · rw [hspec, if_pos hc]
        refine ⟨some rest, ⟨_, s.calls, s.denied⟩, ?_, .leaf
          { n.label with type } hnone
          rfl ⟨rfl, trivial⟩ rfl (Nat.le_refl _)⟩
        simp only [parseChildren, htext]
        rw [if_pos hc, fill_eq hn, hnone]
        rfl
      · rw [hspec, if_neg hc]
        have hstart : Listed s.memory s.memory .nil := Listed.nil
        obtain ⟨result, s', T, hloop, hlisted, hsize, hend⟩ :
            ∃ result s' T, childLoop malloc child close
              ((c :: rest).length + 1) none none (c :: rest) s =
                .ok (result, Siblings.headOr none T, s') ∧ _ :=
          childLoop_meets hmalloc hchild ((c :: rest).length + 1) (c :: rest)
            hstart (Nat.le_refl _)
        have hlisted' : Listed s.memory s'.memory T := hlisted
        have hsize' : s.calls + T.addrs.length ≤ s'.calls := hsize
        cases result with
        | none =>
            have hdelete : unlessNull s'.memory (T.headOr none)
                (fun head => delete (s'.calls + 1) s'.memory (some head)) =
                  .ok s.memory := by
              have hall : delete (s'.calls + 1) s'.memory (T.headOr none) =
                  .ok s.memory := by
                rw [← hlisted'.erase]
                exact delete_siblings hlisted'.list hlisted'.nodup (by omega)
              cases T with
              | nil => exact hall
              | cons a label C next => exact hall
            refine ⟨none, ⟨s.memory, s'.calls, s'.denied⟩, ?_,
              .unchanged hn hend rfl
                (Nat.le_trans (Nat.le_add_right _ _) hsize')⟩
            simp only [parseChildren, htext]
            rw [if_neg hc, hloop]
            show unlessNull s'.memory (T.headOr none) _ >>= _ = _
            rw [hdelete]
            rfl
        | some rest' =>
            obtain ⟨outs, houts, hchildren⟩ := hend
            have hitem : item ∉ T.addrs := by
              intro hmem
              have hfresh := hlisted'.fresh item hmem
              rw [hn] at hfresh
              cases hfresh
            have hn' : s'.memory item = some n := by
              rw [hlisted'.frame item hitem]
              exact hn
            refine ⟨some rest', ⟨set s'.memory item { n with
                child := T.headOr none, label := { n.label with type } },
              s'.calls, s'.denied⟩, ?_, .accepted outs rest' { n.label with type } T houts
                ⟨rfl, hchildren⟩ ?_ hsize'⟩
            · simp only [parseChildren, htext]
              rw [if_neg hc, hloop]
              show fill s' item _ >>= _ = _
              rw [fill_eq hn']
              rfl
            · refine ⟨set_self, hlisted'.list.congr ?_, hlisted'.nodup,
                hlisted'.fresh, ?_⟩
              · intro b hb
                exact set_ne (ne_of_mem_of_not_mem hb hitem)
              · intro b hb hbT
                exact (set_ne hb).trans (hlisted'.frame b hbT)

end Lists

/-! ## Values -/

/-- Every object among the siblings and below them has keys for its
children. -/
def Named : Siblings Label → Prop
  | .nil => True
  | .cons _ label child next =>
      (label.type = .object → Keyed child) ∧ Named child ∧ Named next

/-- A node has got a value; its key is the old one. -/
def Stands (old label : Label) (C : Siblings Label) (tree : CJson) : Prop :=
  label.string = old.string ∧ node label (values C) = tree ∧
    (label.type = .object → Keyed C) ∧ Named C

/-- A node has got a name and a value. -/
def StandsUnder (_old label : Label) (C : Siblings Label)
    (m : CString × CJson) : Prop :=
  label.string = some m.1 ∧ node label (values C) = m.2 ∧
    (label.type = .object → Keyed C) ∧ Named C

section Values

variable {malloc : Nat → Memory → Option Nat}
  {strtod : CString → Option (Rat × Nat)} {value : NodeParser}
  {spec : Parser UInt8 CJson} {old : Label}

theorem children_stands {C : Siblings Label} {outs : List CJson}
    (h : Children (Stands old) C outs) :
    (values C).map Prod.snd = outs ∧ Named C := by
  induction C generalizing outs with
  | nil =>
      cases outs with
      | nil => exact ⟨rfl, trivial⟩
      | cons out outs => cases h
  | cons item label child next _ ih =>
      cases outs with
      | nil => cases h
      | cons out outs =>
          obtain ⟨⟨_, htree, hkeyed, hnamed⟩, hnext⟩ := h
          obtain ⟨houts, hrest⟩ := ih hnext
          refine ⟨?_, hkeyed, hnamed, hrest⟩
          rw [values, List.map_cons, htree, houts]

theorem children_standsUnder {C : Siblings Label} {outs : Obj CJson}
    (h : Children (StandsUnder old) C outs) :
    objectOf C = outs ∧ Keyed C ∧ Named C := by
  induction C generalizing outs with
  | nil =>
      cases outs with
      | nil => exact ⟨rfl, trivial, trivial⟩
      | cons out outs => cases h
  | cons item label child next _ ih =>
      cases outs with
      | nil => cases h
      | cons out outs =>
          obtain ⟨⟨hname, htree, hkeyed, hnamed⟩, hnext⟩ := h
          obtain ⟨houts, hkeys, hrest⟩ := ih hnext
          refine ⟨?_, ⟨?_, hkeys⟩, hkeyed, hnamed, hrest⟩
          · show (label.string.getD [], node label (values child)) ::
              objectOf next = out :: outs
            rw [hname, htree, houts]
            rfl
          · rw [hname]
            exact Option.some_ne_none _

/-- A value that has no children. -/
theorem stands_leaf {label : Label} {tree : CJson}
    (hstring : label.string = old.string) (htree : node label [] = tree)
    (htype : label.type ≠ .object) : Stands old label .nil tree :=
  ⟨hstring, htree, fun hobject => absurd hobject htype, trivial⟩

/-- What was written into the node before does not count. -/
theorem Grown.after {h h' : Memory} {item : Nat} {n : Node Label}
    {label label' : Label} {C : Siblings Label}
    (hgrown : Grown (set h item { n with label := label' }) h' item
      { n with label := label' } label C) : Grown h h' item n label C := by
  refine ⟨hgrown.node, hgrown.children, hgrown.nodup, ?_, ?_⟩
  · intro b hb
    have hfresh := hgrown.fresh b hb
    have hne : b ≠ item := by
      rintro rfl
      rw [set_self] at hfresh
      cases hfresh
    rw [set_ne hne] at hfresh
    exact hfresh
  · intro b hb hbC
    exact (hgrown.frame b hb hbC).trans (set_ne hb)

/-- A member whose name has been parsed. -/
theorem parseMemberAt_named (hvalue : Meets value spec Stands)
    {item : Nat} {n : Node Label} {s s₁ : State} {rest rest' name : CString}
    (hnone : n.child = none) (hcalls : s.calls ≤ s₁.calls)
    (hrun : parseStringAt malloc item rest s = .ok (some rest', s₁))
    (hparsed : parseString rest = some (name, rest'))
    (hmemory : s₁.memory = set s.memory item { n with label := { n.label with
      type := .string, valuestring := some name } }) :
    ∃ result s', parseMemberAt malloc value item (34 :: rest) s =
        .ok (result, s') ∧
      Outcome (parseMember spec (34 :: rest)) (StandsUnder n.label)
        item n s s' result := by
  let label : Label := { n.label with
    type := .string, valuestring := none, string := some name }
  let s₂ : State :=
    ⟨set s.memory item { n with label }, s₁.calls, s₁.denied⟩
  have hn₁ : s₁.memory item = some { n with label := { n.label with
      type := .string, valuestring := some name } } := by
    rw [hmemory, set_self]
  have hn₂ : s₂.memory item = some { n with label } := set_self
  have hfill : fill s₁ item (fun n => { n with label := { n.label with
      string := n.label.valuestring, valuestring := none } }) = .ok s₂ := by
    rw [fill_eq hn₁, hmemory, set_set]
  have hstart : parseMemberAt malloc value item (34 :: rest) s =
      (match skipWhitespace rest' with
      | [] => .ok (none, s₂)
      | c :: rest =>
          if c ≠ 58 then .ok (none, s₂)
          else value item (skipWhitespace rest) s₂) := by
    show parseStringAt malloc item rest s >>= _ = _
    rw [hrun]
    show fill s₁ item _ >>= _ = _
    rw [hfill]
    rfl
  have hspec : parseMember spec (34 :: rest) =
      (match skipWhitespace rest' with
      | [] => none
      | c :: rest =>
          if c ≠ 58 then none
          else (spec (skipWhitespace rest)).bind fun r =>
            some ((name, r.1), r.2)) := by
    show (parseString rest).bind _ = _
    rw [hparsed]
    rfl
  rw [hstart, hspec]
  cases skipWhitespace rest' with
  | nil => exact ⟨none, s₂, rfl, .refused label (.inl rfl) rfl hcalls⟩
  | cons c rest'' =>
      show ∃ result s', (if c ≠ 58 then _ else _) = _ ∧
        Outcome (if c ≠ 58 then _ else _) _ item n s s' result
      by_cases hcolon : c = 58
      · rw [if_neg (not_not.mpr hcolon), if_neg (not_not.mpr hcolon)]
        obtain ⟨result, s', hparse, houtcome⟩ :=
          hvalue item (skipWhitespace rest'') s₂ _ hn₂ hnone
        refine ⟨result, s', hparse, ?_⟩
        cases houtcome with
        | refused label' hrefused hmemory' hcalls' =>
            refine .refused label' ?_ ?_ (Nat.le_trans hcalls hcalls')
            · refine hrefused.imp_left ?_
              intro hnil
              rw [hnil]
              rfl
            · rw [hmemory']
              exact set_set _
        | accepted tree rest₃ label' C hvalueSpec hstands hgrown hcalls' =>
            refine .accepted (name, tree) rest₃ label' C ?_ ?_ hgrown.after
              (Nat.le_trans (Nat.add_le_add_right hcalls _) hcalls')
            · rw [hvalueSpec]
              rfl
            · exact hstands
      · rw [if_pos hcolon, if_pos hcolon]
        exact ⟨none, s₂, rfl, .refused label (.inl rfl) rfl hcalls⟩

theorem parseMemberAt_meets (hvalue : Meets value spec Stands) :
    Meets (parseMemberAt malloc value) (parseMember spec)
      StandsUnder := by
  intro item text s n hn hnone
  cases text with
  | nil =>
      exact ⟨none, s, rfl, .unchanged hn (.inl rfl) rfl (Nat.le_refl _)⟩
  | cons c rest =>
      by_cases hquote : c = 34
      · subst hquote
        obtain ⟨s₁, hcalls, hstring⟩ :=
          parseStringAt_cases malloc rest hn
        rcases hstring with ⟨hrun, hmemory, hrefused⟩ |
          ⟨name, rest', hrun, hparsed, hmemory⟩
        · refine ⟨none, s₁, ?_, .unchanged hn ?_ hmemory hcalls⟩
          · show parseStringAt malloc item rest s >>= _ = _
            rw [hrun]
            rfl
          · refine hrefused.imp_left ?_
            intro hnil
            show (parseString rest).bind _ = _
            rw [hnil]
            rfl
        · exact parseMemberAt_named hvalue hnone hcalls hrun hparsed hmemory
      · refine ⟨none, s, ?_, .unchanged hn (.inl ?_) rfl (Nat.le_refl _)⟩
        · exact if_pos hquote
        · exact if_pos hquote

theorem parseStringAt_meets : Meets (parseStringAt malloc)
    (fun text => (parseString text).map fun r => (.string r.1, r.2))
    Stands := by
  intro item text s n hn hnone
  obtain ⟨s', hcalls, hstring⟩ := parseStringAt_cases malloc text hn
  rcases hstring with ⟨hrun, hmemory, hrefused⟩ |
    ⟨out, rest, hrun, hparsed, hmemory⟩
  · refine ⟨none, s', hrun, .unchanged hn ?_ hmemory hcalls⟩
    refine hrefused.imp_left ?_
    intro hnil
    show (parseString text).map _ = none
    rw [hnil]
    rfl
  · have hspec : (parseString text).map
        (fun r => ((.string r.1 : CJson), r.2)) = some (.string out, rest) := by
      rw [hparsed]
      rfl
    exact ⟨some rest, s', hrun, .leaf { n.label with
      type := .string, valuestring := some out } hnone hspec
        (stands_leaf rfl rfl fun htype => by cases htype) hmemory hcalls⟩

theorem parseNumberAt_meets :
    Meets (parseNumberAt strtod) (parseNumber strtod) Stands := by
  intro item text s n hn hnone
  cases hstrtod : strtod ((text.take 63).takeWhile isNumberByte) with
  | none =>
      refine ⟨none, s, ?_, .unchanged hn (.inl ?_) rfl (Nat.le_refl _)⟩
      · rw [parseNumberAt, hstrtod]
        rfl
      · rw [parseNumber, hstrtod]
        rfl
  | some r =>
      obtain ⟨number, count⟩ := r
      have hspec : parseNumber strtod text =
          some (.number number, text.drop count) := by
        rw [parseNumber, hstrtod]
        rfl
      refine ⟨some (text.drop count), ⟨_, s.calls, s.denied⟩, ?_, .leaf
        { n.label with
          type := .number
          valuedouble := number
          valueint := saturatedInt number } hnone hspec
        (stands_leaf rfl rfl fun htype => by cases htype) rfl (Nat.le_refl _)⟩
      rw [parseNumberAt, hstrtod]
      show fill s item _ >>= _ = _
      rw [fill_eq hn]
      rfl

/-- A parser that meets one specification meets another. -/
theorem Outcome.map {β γ : Type} {parsed : Option (β × CString)}
    {R : Label → Siblings Label → β → Prop}
    {R' : Label → Siblings Label → γ → Prop} {item : Nat} {n : Node Label}
    {s s' : State} {result : Option CString} (f : β → γ)
    (hR : ∀ label C out, R label C out → R' label C (f out))
    (h : Outcome parsed R item n s s' result) :
    Outcome (parsed.map fun r => (f r.1, r.2)) R' item n s s'
      result := by
  cases h with
  | refused label hrefused hmemory hcalls =>
      refine .refused label (hrefused.imp_left ?_) hmemory hcalls
      intro hnil
      rw [hnil]
      rfl
  | accepted out rest label C hparsed hout hgrown hcalls =>
      refine .accepted (f out) rest label C ?_ (hR label C out hout) hgrown
        hcalls
      rw [hparsed]
      rfl

theorem parseArray_eq (text : CString) : parseArray spec text =
    (children spec 93 text).map fun r => (.array r.1, r.2) := by
  rw [parseArray, children]
  cases skipWhitespace text with
  | nil => rfl
  | cons c rest =>
      show (if c = 93 then _ else _) = Option.map _ (if c = 93 then _ else _)
      split
      · rfl
      · rfl

theorem parseObject_eq (text : CString) : parseObject spec text =
    (children (parseMember spec) 125 text).map
      fun r => (.object r.1, r.2) := by
  rw [parseObject, children]
  cases skipWhitespace text with
  | nil => rfl
  | cons c rest =>
      show (if c = 125 then _ else _) = Option.map _ (if c = 125 then _ else _)
      split
      · rfl
      · rfl

theorem parseArrayAt_meets
    (hmalloc : ∀ i h a, malloc i h = some a → h a = none)
    (hvalue : Meets value spec Stands) :
    Meets (parseArrayAt malloc value) (parseArray spec) Stands := by
  intro item text s n hn hnone
  obtain ⟨result, s', hrun, houtcome⟩ :=
    parseChildren_meets hmalloc hvalue .array item text s n hn hnone
  refine ⟨result, s', hrun, ?_⟩
  rw [parseArray_eq]
  apply houtcome.map CJson.array
  rintro _ C outs ⟨rfl, hchildren⟩
  obtain ⟨houts, hnamed⟩ := children_stands hchildren
  refine ⟨rfl, ?_, (fun hobject => by cases hobject), hnamed⟩
  rw [← houts]
  rfl

theorem parseObjectAt_meets
    (hmalloc : ∀ i h a, malloc i h = some a → h a = none)
    (hvalue : Meets value spec Stands) :
    Meets (parseObjectAt malloc value) (parseObject spec) Stands := by
  intro item text s n hn hnone
  obtain ⟨result, s', hrun, houtcome⟩ := parseChildren_meets hmalloc
    (parseMemberAt_meets hvalue) .object item text s n hn hnone
  refine ⟨result, s', hrun, ?_⟩
  rw [parseObject_eq]
  apply houtcome.map CJson.object
  rintro _ C outs ⟨rfl, hchildren⟩
  obtain ⟨houts, hkeyed, hnamed⟩ := children_standsUnder hchildren
  refine ⟨rfl, ?_, fun _ => hkeyed, hnamed⟩
  rw [← houts]
  rfl

/-- The literals. -/
theorem literal_meets {s : State} {item : Nat} {n : Node Label}
    {tree : CJson} (rest : CString) (g : Label → Label)
    (hn : s.memory item = some n) (hnone : n.child = none)
    (hstands : Stands n.label (g n.label) .nil tree) :
    ∃ result s', (do
        let s ← fill s item fun n => { n with label := g n.label }
        return (some rest, s)) = .ok (result, s') ∧
      Outcome (some (tree, rest)) (Stands n.label) item n s s'
        result := by
  refine ⟨some rest, ⟨_, s.calls, s.denied⟩, ?_,
    .leaf (g n.label) hnone rfl hstands rfl (Nat.le_refl _)⟩
  rw [fill_eq hn]
  rfl

/-- The values, given the parser of the values a level deeper. -/
theorem parseValueAt_step
    (hmalloc : ∀ i h a, malloc i h = some a → h a = none) (depth : Nat)
    (hdeeper : ∀ depth', depth = depth' + 1 →
      Meets (parseValueAt malloc strtod depth')
        (parseValue strtod depth') Stands) :
    Meets (parseValueAt malloc strtod depth) (parseValue strtod depth)
      Stands := by
  intro item text s n hn hnone
  have hrefused : ∃ result s', (pure (none, s) :
        Except HeapFault (Option CString × State)) = .ok (result, s') ∧
      Outcome none (Stands n.label) item n s s' result :=
    ⟨none, s, rfl, .unchanged hn (.inl rfl) rfl (Nat.le_refl _)⟩
  unfold parseValueAt parseValue
  split
  · exact literal_meets _ (fun label => { label with type := .null }) hn
      hnone (stands_leaf rfl rfl fun htype => by cases htype)
  split
  · exact literal_meets _ (fun label => { label with type := .false }) hn
      hnone (stands_leaf rfl rfl fun htype => by cases htype)
  split
  · exact literal_meets _
      (fun label => { label with type := .true, valueint := 1 }) hn hnone
      (stands_leaf rfl rfl fun htype => by cases htype)
  cases text with
  | nil => exact hrefused
  | cons c rest =>
      dsimp only
      split
      · exact parseStringAt_meets item rest s n hn hnone
      split
      · exact parseNumberAt_meets item (c :: rest) s n hn hnone
      cases depth with
      | zero => exact hrefused
      | succ depth =>
          have hvalue := hdeeper depth rfl
          dsimp only
          split
          · exact parseArrayAt_meets hmalloc hvalue item rest s n hn hnone
          split
          · exact parseObjectAt_meets hmalloc hvalue item rest s n hn hnone
          · exact hrefused

/-- A node is parsed as its text is. -/
theorem parseValueAt_meets
    (hmalloc : ∀ i h a, malloc i h = some a → h a = none) (depth : Nat) :
    Meets (parseValueAt malloc strtod depth) (parseValue strtod depth)
      Stands := by
  induction depth with
  | zero =>
      apply parseValueAt_step hmalloc
      intro depth' hdepth
      cases hdepth
  | succ depth ih =>
      apply parseValueAt_step hmalloc
      intro depth' hdepth
      cases hdepth
      exact ih

/-- A new root that has been filled in joins the forest. -/
theorem Grown.holds {h h' : Memory} {F C : Siblings Label} {item : Nat}
    {label : Label} (hF : Holds h F) (hfresh : h item = none)
    (hgrown : Grown (newItem h (some item)) h' item
      ⟨none, none, none, .zero⟩ label C) :
    Holds h' (.cons item label C F) := by
  have hitem : item ∉ F.addrs := by
    rw [← hF.allocated, hfresh]
    exact Bool.false_ne_true
  have hitemC : item ∉ C.addrs := by
    intro hmem
    have hnone := hgrown.fresh item hmem
    rw [newItem, set_self] at hnone
    cases hnone
  have hold : ∀ b, b ≠ item → newItem h (some item) b = h b :=
    fun b hb => set_ne hb
  have happart : ∀ b ∈ C.addrs, b ∉ F.addrs := by
    intro b hb hbF
    have hnone := hgrown.fresh b hb
    have hsome := (hF.allocated b).mpr hbF
    rw [hold b (ne_of_mem_of_not_mem hb hitemC)] at hnone
    rw [hnone] at hsome
    cases hsome
  have hframe : ∀ b, b ≠ item → b ∉ C.addrs → h' b = h b :=
    fun b hb hbC => (hgrown.frame b hb hbC).trans (hold b hb)
  refine ⟨⟨hgrown.node, hgrown.children, hF.roots.congr ?_⟩, ?_, ?_⟩
  · intro b hb
    exact hframe b (ne_of_mem_of_not_mem hb hitem) fun hC => happart b hC hb
  · rw [Siblings.addrs, List.nodup_cons, List.mem_append, not_or,
      List.nodup_append]
    refine ⟨⟨hitemC, hitem⟩, hgrown.nodup, hF.nodup, ?_⟩
    rintro b hb c hc rfl
    exact happart b hb hc
  · intro b
    rw [Siblings.addrs, List.mem_cons, List.mem_append]
    by_cases hb : b = item
    · rw [hb, hgrown.node]
      simp
    · by_cases hbC : b ∈ C.addrs
      · simp [hgrown.children.isSome b hbC, hbC]
      · rw [hframe b hb hbC, hF.allocated]
        simp [hb, hbC]

/-- From memory that holds a forest, `cJSON_Parse` returns the root of a new
tree that stands for what the text is parsed into, or NULL and the memory as it
was; it returns NULL only for a text that is not parsed, or when an allocation
is denied. -/
theorem cJSONParseAt_meets
    (hmalloc : ∀ i h a, malloc i h = some a → h a = none)
    {F : Siblings Label} {h : Memory} (hF : Holds h F) (calls : Nat)
    (text : Option CString) :
    ∃ result s', cJSONParseAt malloc strtod text ⟨h, calls, false⟩ =
        .ok (result, s') ∧
      match result with
      | none => s'.memory = h ∧
          (text.bind (cJSONParse strtod) = none ∨ s'.denied = true)
      | some item => ∃ label C, Holds s'.memory (.cons item label C F) ∧
          Named (.cons item label C .nil) ∧
          text.bind (cJSONParse strtod) = some (node label (values C)) := by
  cases text with
  | none => exact ⟨none, _, rfl, rfl, .inl rfl⟩
  | some text =>
      cases hm : malloc calls h with
      | none =>
          refine ⟨none, ⟨h, calls + 1, true⟩, ?_, rfl, .inr rfl⟩
          simp only [cJSONParseAt, allocate, hm]
          rfl
      | some item =>
          have hfresh := hmalloc _ _ _ hm
          have hn : newItem h (some item) item =
              some ⟨none, none, none, .zero⟩ := set_self
          obtain ⟨result, s', hparse, houtcome⟩ :
              ∃ result s', parseValueAt malloc strtod nestingLimit item
                (skipWhitespace (skipUtf8Bom text))
                ⟨newItem h (some item), calls + 1, false⟩ =
                  .ok (result, s') ∧ _ :=
            parseValueAt_meets hmalloc nestingLimit item _ _ _ hn rfl
          cases houtcome with
          | refused label hrefused hmemory hcalls =>
              have hset : s'.memory =
                  set h item ⟨none, none, none, label⟩ := by
                rw [hmemory]
                exact set_set _
              have hlisted : Listed h s'.memory
                  (.cons item label .nil .nil) := by
                apply Listed.nil.link hfresh
                · rw [hset]
                  exact set_self
                · intro z n hz
                  cases hz
                · intro b hb _
                  rw [hset]
                  exact set_ne hb
              have hdelete : delete (s'.calls + 1) s'.memory (some item) =
                  .ok h := by
                rw [← hlisted.erase]
                exact delete_siblings hlisted.list hlisted.nodup
                  (Nat.succ_lt_succ (Nat.lt_of_lt_of_le (Nat.succ_pos _)
                    hcalls))
              refine ⟨none, ⟨h, s'.calls, s'.denied⟩, ?_, rfl, ?_⟩
              · simp only [cJSONParseAt, allocate, hm]
                rw [hparse]
                show delete (s'.calls + 1) s'.memory (some item) >>= _ = _
                rw [hdelete]
                rfl
              · refine hrefused.imp_left ?_
                intro hnil
                show Option.map Prod.fst _ = none
                rw [hnil]
                rfl
          | accepted tree rest label C hparsed hstands hgrown hcalls =>
              obtain ⟨_, htree, hkeyed, hnamed⟩ := hstands
              refine ⟨some item, s', ?_, label, C, hgrown.holds hF hfresh,
                ⟨hkeyed, hnamed, trivial⟩, ?_⟩
              · simp only [cJSONParseAt, allocate, hm]
                rw [hparse]
                rfl
              · rw [htree]
                show Option.map Prod.fst _ = _
                rw [hparsed]
                rfl

end Values

/-- A `malloc` that numbers what it gives. -/
def numbered (calls : Nat) (h : Memory) : Option Nat :=
  match h (calls + 1) with
  | none => some (calls + 1)
  | some _ => none

theorem numbered_fresh (calls : Nat) (h : Memory) (a : Nat)
    (ha : numbered calls h = some a) : h a = none := by
  unfold numbered at ha
  split at ha
  · cases ha
    assumption
  · cases ha

def sampleText : CString := cstr "[null,\x7b\"a\":true\x7d]"

/-- The root is the first node that is allocated. -/
theorem sample_cJSONParseAt_meets : ∃ s' label C,
    cJSONParseAt numbered (fun _ => none) (some sampleText)
        ⟨fun _ => none, 0, false⟩ = .ok (some 1, s') ∧
    Holds s'.memory (.cons 1 label C .nil) ∧
    cJSONParse (fun _ => none) sampleText = some (node label (values C)) := by
  obtain ⟨result, s', hrun, hend⟩ := cJSONParseAt_meets numbered_fresh
    Holds.empty 0 (some sampleText)
  have hroot : (cJSONParseAt numbered (fun _ => none) (some sampleText)
      ⟨fun _ => none, 0, false⟩).toOption.map Prod.fst = some (some 1) := by
    decide +kernel
  rw [hrun] at hroot
  cases Option.some.inj hroot
  obtain ⟨label, C, hholds, _, htree⟩ := hend
  rw [Option.bind_some] at htree
  exact ⟨s', label, C, hrun, hholds, htree⟩

end DatahubEdge.Nodes
