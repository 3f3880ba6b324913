import Mathlib

/-! Elements with attributes and text, written out, and read back one character at a time.

        content ──<──▶ tag ──▶ start name ──▶ space ──▶ attribute name ──="──▶ value
         │   ▲          │          │            ▲                                │
         &   ;          /          >            └────────── after value ◀───"────┘
         ▼   │          ▼          ▼                             │
       reference     end name    content ◀───────────>───────────┘

    What was written is read back when each of its characters may stand in a document, and is
    refused otherwise: `read_writeAll`, `read_writeAll_eq_none`. -/

namespace SorobanPulse.Lib.Xml

abbrev Attribute := List Char × List Char

inductive Node where
  | text (cs : List Char)
  | element (name : List Char) (attributes : List Attribute) (children : List Node)

def Node.isText : Node → Bool
  | .text _ => true
  | .element _ _ _ => false

/-! ### Characters -/

/-- A character that a document may hold. A carriage return is none: it is read as a line feed. -/
def legal (c : Char) : Bool :=
  c = '\t' || c = '\n' || (32 ≤ c.toNat && c.toNat ≠ 0xFFFE && c.toNat ≠ 0xFFFF)

def nameStart (c : Char) : Bool := c.isAlpha || c = '_' || c = ':'

def nameChar (c : Char) : Bool := nameStart c || c.isDigit || c = '-' || c = '.'

def isName : List Char → Bool
  | [] => false
  | c :: cs => nameStart c && cs.all nameChar

/-- The references that every reader knows. -/
def entities : List (Char × List Char) :=
  [('&', ['a', 'm', 'p']), ('<', ['l', 't']), ('>', ['g', 't']), ('"', ['q', 'u', 'o', 't']),
    ('\'', ['a', 'p', 'o', 's'])]

def entityName (c : Char) : Option (List Char) := (entities.find? (·.1 = c)).map (·.2)

def entityChar (name : List Char) : Option Char := (entities.find? (·.2 = name)).map (·.1)

/-! ### Writing -/

def escapeChar (c : Char) : List Char :=
  match entityName c with
  | some name => '&' :: name ++ [';']
  | none => [c]

def escape (cs : List Char) : List Char := cs.flatMap escapeChar

def writeAttribute (a : Attribute) : List Char := ' ' :: a.1 ++ '=' :: '"' :: escape a.2 ++ ['"']

mutual
def Node.write : Node → List Char
  | .text cs => escape cs
  | .element name attributes children =>
    '<' :: name ++ attributes.flatMap writeAttribute ++ '>' :: writeAll children ++
      '<' :: '/' :: name ++ ['>']

def writeAll : List Node → List Char
  | [] => []
  | node :: nodes => node.write ++ writeAll nodes
end

mutual
/-- The characters of its texts and values. -/
def Node.chars : Node → List Char
  | .text cs => cs
  | .element _ attributes children => attributes.flatMap (·.2) ++ allChars children

def allChars : List Node → List Char
  | [] => []
  | node :: nodes => node.chars ++ allChars nodes
end

/-- Names, each attribute once. -/
def AttributesWellFormed (attributes : List Attribute) : Prop :=
  (∀ a ∈ attributes, isName a.1) ∧ (attributes.map (·.1)).Nodup

mutual
/-- No text is empty, and none comes after another. -/
def Node.WellFormed : Node → Prop
  | .text cs => cs ≠ []
  | .element name attributes children =>
    isName name ∧ AttributesWellFormed attributes ∧ AllWellFormed children

def AllWellFormed : List Node → Prop
  | [] => True
  | node :: nodes =>
    node.WellFormed ∧ AllWellFormed nodes ∧ (node.isText → ∀ next ∈ nodes.head?, ¬next.isText)
end

/-! ### Reading -/

/-- An element that has begun, with its children so far. -/
structure Frame where
  name : List Char
  attributes : List Attribute
  children : List Node

/-- The innermost element that has begun, and those around it. -/
structure Place where
  top : Frame
  outer : List Frame

def Place.document : Place := ⟨⟨[], [], []⟩, []⟩

def Place.push (place : Place) (node : Node) : Place :=
  { place with top := { place.top with children := place.top.children ++ [node] } }

/-- The text since the last tag. -/
def Place.flush (place : Place) (text : List Char) : Place :=
  if text = [] then place else place.push (.text text)

def Place.enter (place : Place) (name : List Char) (attributes : List Attribute) : Place :=
  ⟨⟨name, attributes, []⟩, place.top :: place.outer⟩

def Place.leave (place : Place) (name : List Char) : Option Place :=
  match place.outer with
  | [] => none
  | parent :: outer =>
    if name = place.top.name then
      some (Place.push ⟨parent, outer⟩
        (.element place.top.name place.top.attributes place.top.children))
    else none

inductive Mode where
  | content (text : List Char)
  | reference (text name : List Char)
  | tag
  | startName (name : List Char)
  | space (name : List Char) (attributes : List Attribute)
  | attributeName (name : List Char) (attributes : List Attribute) (key : List Char)
  | equals (name : List Char) (attributes : List Attribute) (key : List Char)
  | value (name : List Char) (attributes : List Attribute) (key value : List Char)
  | valueReference (name : List Char) (attributes : List Attribute) (key value entity : List Char)
  | afterValue (name : List Char) (attributes : List Attribute)
  | endName (name : List Char)

abbrev Reader := Place × Mode

def move (place : Place) : Mode → Char → Option Reader
  | .content text, c =>
    if c = '<' then some (place.flush text, .tag)
    else if c = '&' then some (place, .reference text [])
    else some (place, .content (text ++ [c]))
  | .reference text name, c =>
    if c = ';' then (entityChar name).map fun d => (place, .content (text ++ [d]))
    else some (place, .reference text (name ++ [c]))
  | .tag, c =>
    if c = '/' then some (place, .endName [])
    else if nameStart c then some (place, .startName [c])
    else none
  | .startName name, c =>
    if nameChar c then some (place, .startName (name ++ [c]))
    else if c = ' ' then some (place, .space name [])
    else if c = '>' then some (place.enter name [], .content [])
    else none
  | .space name attributes, c =>
    if nameStart c then some (place, .attributeName name attributes [c]) else none
  | .attributeName name attributes key, c =>
    if nameChar c then some (place, .attributeName name attributes (key ++ [c]))
    else if c = '=' ∧ (attributes.all fun a => a.1 ≠ key) then
      some (place, .equals name attributes key)
    else none
  | .equals name attributes key, c =>
    if c = '"' then some (place, .value name attributes key []) else none
  | .value name attributes key value, c =>
    if c = '"' then some (place, .afterValue name (attributes ++ [(key, value)]))
    else if c = '&' then some (place, .valueReference name attributes key value [])
    else if c = '<' then none
    else some (place, .value name attributes key (value ++ [c]))
  | .valueReference name attributes key value entity, c =>
    if c = ';' then
      (entityChar entity).map fun d => (place, .value name attributes key (value ++ [d]))
    else some (place, .valueReference name attributes key value (entity ++ [c]))
  | .afterValue name attributes, c =>
    if c = ' ' then some (place, .space name attributes)
    else if c = '>' then some (place.enter name attributes, .content [])
    else none
  | .endName name, c =>
    if nameChar c then some (place, .endName (name ++ [c]))
    else if c = '>' then (place.leave name).map (·, .content [])
    else none

def step (reader : Reader) (c : Char) : Option Reader :=
  if legal c then move reader.1 reader.2 c else none

def read (cs : List Char) : Option (List Node) := do
  match ← cs.foldlM step (Place.document, Mode.content []) with
  | (⟨top, []⟩, .content text) => some ((Place.mk top []).flush text).top.children
  | _ => none

section
variable {place : Place} {c : Char} {cs text name key : List Char} {attributes : List Attribute}
  {node : Node} {nodes : List Node}

/-! ### Names -/

theorem nameChar_of_nameStart (h : nameStart c) : nameChar c := by
  simp [nameChar, h]

theorem legal_of_nameChar (h : nameChar c) : legal c := by
  have hrange : 45 ≤ c.toNat ∧ c.toNat ≤ 122 := by
    simp only [nameChar, nameStart, Char.isAlpha, Char.isUpper, Char.isLower, Char.isDigit,
      Bool.or_eq_true, Bool.and_eq_true, decide_eq_true_eq, UInt32.le_iff_toNat_le, ge_iff_le,
      or_assoc] at h
    rcases h with h | h | rfl | rfl | h | rfl | rfl
    · exact ⟨Nat.le_trans (by decide) h.1, Nat.le_trans h.2 (by decide)⟩
    · exact ⟨Nat.le_trans (by decide) h.1, h.2⟩
    · decide
    · decide
    · exact ⟨Nat.le_trans (by decide) h.1, Nat.le_trans h.2 (by decide)⟩
    · decide
    · decide
  simp only [legal, Bool.or_eq_true, Bool.and_eq_true, decide_eq_true_eq]
  omega

theorem ne_of_nameChar {d : Char} (h : nameChar c) (hd : nameChar d = false) : c ≠ d := by
  rintro rfl
  rw [h] at hd
  cases hd

/-- Characters that are collected in a mode. -/
theorem foldlM_collect {p : Char → Bool} {mode : List Char → Mode} (name : List Char)
    (hcs : ∀ c ∈ cs, p c ∧ legal c)
    (hmove : ∀ name c, p c → move place (mode name) c = some (place, mode (name ++ [c]))) :
    cs.foldlM step (place, mode name) = some (place, mode (name ++ cs)) := by
  induction cs generalizing name with
  | nil => simp
  | cons c cs ih =>
    obtain ⟨hc, hlegal⟩ := hcs c List.mem_cons_self
    have hrest := ih (name ++ [c]) fun d hd => hcs d (List.mem_cons_of_mem _ hd)
    simp [step, hlegal, hmove name c hc, hrest]

/-! ### References -/

/-- A mode that takes characters, and the one for the reference of a character. -/
structure Takes (place : Place) (mode : List Char → Mode) (inside : List Char → List Char → Mode) :
    Prop where
  plain : ∀ text c, entityName c = none →
    move place (mode text) c = some (place, mode (text ++ [c]))
  ampersand : ∀ text, move place (mode text) '&' = some (place, inside text [])
  name : ∀ text name c, c ≠ ';' →
    move place (inside text name) c = some (place, inside text (name ++ [c]))
  semicolon : ∀ text name d, entityChar name = some d →
    move place (inside text name) ';' = some (place, mode (text ++ [d]))

theorem ne_of_entityName (h : entityName c = none) : c ≠ '&' ∧ c ≠ '<' ∧ c ≠ '"' := by
  refine ⟨?_, ?_, ?_⟩ <;> rintro rfl <;> cases h

theorem takes_content : Takes place .content .reference where
  plain text c h := by simp [move, ne_of_entityName h]
  ampersand text := by simp [move]
  name text name c h := by simp [move, h]
  semicolon text name d h := by simp [move, h]

theorem takes_value :
    Takes place (.value name attributes key) (.valueReference name attributes key) where
  plain text c h := by simp [move, ne_of_entityName h]
  ampersand text := by simp [move]
  name text name c h := by simp [move, h]
  semicolon text name d h := by simp [move, h]

/-- Each character of the table has its own reference. -/
theorem entities_spec : ∀ e ∈ entities, entityName e.1 = some e.2 ∧ entityChar e.2 = some e.1 ∧
    legal e.1 ∧ ∀ c ∈ e.2, (c ≠ ';') ∧ legal c := by
  have hentity : ∀ e ∈ entities,
      entityName e.1 = some e.2 ∧ entityChar e.2 = some e.1 ∧ legal e.1 := by decide
  have hinside : ∀ e ∈ entities, (e.2.all fun c => decide (c ≠ ';' ∧ legal c)) = true := by decide
  intro e he
  obtain ⟨hname, hchar, hlegal⟩ := hentity e he
  refine ⟨hname, hchar, hlegal, fun c hc => ?_⟩
  simpa using List.all_eq_true.mp (hinside e he) c hc

theorem mem_entities_of_entityName (h : entityName c = some name) : (c, name) ∈ entities := by
  obtain ⟨⟨d, name'⟩, hfind, rfl⟩ := Option.map_eq_some_iff.mp h
  have hd := List.find?_some hfind
  have hmem := List.mem_of_find?_eq_some hfind
  simp only [decide_eq_true_eq] at hd
  exact hd ▸ hmem

/-- An escaped text is taken as it was. -/
theorem foldlM_escape {mode : List Char → Mode} {inside : List Char → List Char → Mode}
    (htakes : Takes place mode inside) (text : List Char) (hlegal : ∀ c ∈ cs, legal c) :
    (escape cs).foldlM step (place, mode text) = some (place, mode (text ++ cs)) := by
  induction cs generalizing text with
  | nil => simp [escape]
  | cons c cs ih =>
    have hrest := ih (text ++ [c]) fun d hd => hlegal d (List.mem_cons_of_mem _ hd)
    have hc := hlegal c List.mem_cons_self
    have hfirst : (escapeChar c).foldlM step (place, mode text) =
        some (place, mode (text ++ [c])) := by
      rw [escapeChar]
      split
      · next name hname =>
        obtain ⟨-, hchar, -, hinside⟩ := entities_spec _ (mem_entities_of_entityName hname)
        have hcollect : name.foldlM step (place, inside text []) =
            some (place, inside text ([] ++ name)) :=
          foldlM_collect (p := (· ≠ ';')) [] (fun d hd => by simpa using hinside d hd)
            (fun name d hd => htakes.name text name d (by simpa using hd))
        simp [step, legal, htakes.ampersand, List.foldlM_append, hcollect,
          htakes.semicolon text name c hchar]
      · next hnone => simp [step, hc, htakes.plain text c hnone]
    rw [escape, List.flatMap_cons, List.foldlM_append, hfirst]
    simpa [escape] using hrest

/-! ### Tags -/

theorem forall_of_isName (h : isName cs) : ∀ c ∈ cs, nameChar c ∧ legal c := by
  cases cs with
  | nil => cases h
  | cons first rest =>
    rw [isName, Bool.and_eq_true, List.all_eq_true] at h
    obtain ⟨hfirst, hrest⟩ := h
    intro c hc
    rcases List.mem_cons.mp hc with rfl | hc
    · exact ⟨nameChar_of_nameStart hfirst, legal_of_nameChar (nameChar_of_nameStart hfirst)⟩
    · exact ⟨hrest c hc, legal_of_nameChar (hrest c hc)⟩

/-- A name after its first character. -/
theorem foldlM_name {mode : List Char → Mode} {start : Mode} (h : isName cs)
    (hstart : ∀ c, nameStart c → move place start c = some (place, mode [c]))
    (hmove : ∀ name c, nameChar c → move place (mode name) c = some (place, mode (name ++ [c]))) :
    cs.foldlM step (place, start) = some (place, mode cs) := by
  cases cs with
  | nil => cases h
  | cons first rest =>
    have hall := forall_of_isName h
    rw [isName, Bool.and_eq_true] at h
    have hrest : rest.foldlM step (place, mode [first]) = some (place, mode ([first] ++ rest)) :=
      foldlM_collect [first] (fun c hc => hall c (List.mem_cons_of_mem _ hc)) hmove
    simp [step, (hall first List.mem_cons_self).2, hstart first h.1, hrest]

theorem foldlM_writeAttribute {a : Attribute} {start : Mode} (hname : isName a.1)
    (hnew : a.1 ∉ attributes.map (·.1)) (hlegal : ∀ c ∈ a.2, legal c)
    (hstart : move place start ' ' = some (place, .space name attributes)) :
    (writeAttribute a).foldlM step (place, start) =
      some (place, .afterValue name (attributes ++ [a])) := by
  have hkey : a.1.foldlM step (place, .space name attributes) =
      some (place, .attributeName name attributes a.1) :=
    foldlM_name hname (fun c hc => by simp [move, hc]) (fun key c hc => by simp [move, hc])
  have hequals : step (place, .attributeName name attributes a.1) '=' =
      some (place, .equals name attributes a.1) := by
    have hother : ∀ value, (a.1, value) ∉ attributes := fun value hmem =>
      hnew (List.mem_map.mpr ⟨_, hmem, rfl⟩)
    simpa [step, legal, move, nameChar, nameStart] using hother
  have hvalue : (escape a.2).foldlM step (place, .value name attributes a.1 []) =
      some (place, .value name attributes a.1 ([] ++ a.2)) :=
    foldlM_escape takes_value [] hlegal
  have hspace : step (place, start) ' ' = some (place, .space name attributes) := hstart
  have hopen : step (place, .equals name attributes a.1) '"' =
      some (place, .value name attributes a.1 []) := rfl
  have hclose : step (place, .value name attributes a.1 a.2) '"' =
      some (place, .afterValue name (attributes ++ [a])) := rfl
  rw [List.nil_append] at hvalue
  simp [writeAttribute, List.foldlM_append, hspace, hkey, hequals, hopen, hvalue, hclose]

/-- In a start tag, after its name and some attributes. -/
def tagMode (name : List Char) : List Attribute → Mode
  | [] => .startName name
  | a :: attributes => .afterValue name (a :: attributes)

theorem tagMode_concat (name : List Char) (attributes : List Attribute) (a : Attribute) :
    tagMode name (attributes ++ [a]) = .afterValue name (attributes ++ [a]) := by
  cases attributes <;> rfl

theorem move_tagMode_space : move place (tagMode name attributes) ' ' =
    some (place, .space name attributes) := by
  cases attributes <;> rfl

theorem move_tagMode_close : move place (tagMode name attributes) '>' =
    some (place.enter name attributes, .content []) := by
  cases attributes <;> rfl

theorem foldlM_attributes {more : List Attribute}
    (hwell : AttributesWellFormed (attributes ++ more)) (hlegal : ∀ a ∈ more, ∀ c ∈ a.2, legal c) :
    (more.flatMap writeAttribute).foldlM step (place, tagMode name attributes) =
      some (place, tagMode name (attributes ++ more)) := by
  induction more generalizing attributes with
  | nil => simp
  | cons a more ih =>
    obtain ⟨hnames, hnodup⟩ := hwell
    have hnew : a.1 ∉ attributes.map (·.1) := by
      rw [List.map_append, List.map_cons] at hnodup
      exact fun hmem => List.disjoint_of_nodup_append hnodup hmem List.mem_cons_self
    have hfirst : (writeAttribute a).foldlM step (place, tagMode name attributes) =
        some (place, .afterValue name (attributes ++ [a])) :=
      foldlM_writeAttribute (hnames a (by simp)) hnew (hlegal a List.mem_cons_self)
        move_tagMode_space
    have hassoc : attributes ++ [a] ++ more = attributes ++ a :: more := by simp
    have hrest : (more.flatMap writeAttribute).foldlM step
        (place, tagMode name (attributes ++ [a])) =
          some (place, tagMode name (attributes ++ [a] ++ more)) :=
      ih (by rw [hassoc]; exact ⟨hnames, hnodup⟩) fun b hb => hlegal b (List.mem_cons_of_mem _ hb)
    rw [tagMode_concat, hassoc] at hrest
    simp [List.foldlM_append, hfirst, hrest]

theorem foldlM_startTag (hname : isName name) (hwell : AttributesWellFormed attributes)
    (hlegal : ∀ a ∈ attributes, ∀ c ∈ a.2, legal c) :
    ('<' :: name ++ attributes.flatMap writeAttribute ++ ['>']).foldlM step (place, .content text) =
      some ((place.flush text).enter name attributes, .content []) := by
  have hopen : step (place, .content text) '<' = some (place.flush text, .tag) := rfl
  have hstart : name.foldlM step (place.flush text, .tag) =
      some (place.flush text, tagMode name []) := by
    refine foldlM_name hname (fun c hc => ?_) (fun name c hc => by simp [move, hc])
    have hslash : c ≠ '/' := ne_of_nameChar (nameChar_of_nameStart hc) (by decide)
    simp [move, hc, hslash]
  have hattributes : (attributes.flatMap writeAttribute).foldlM step
      (place.flush text, tagMode name []) =
        some (place.flush text, tagMode name ([] ++ attributes)) :=
    foldlM_attributes hwell hlegal
  have hclose : step (place.flush text, tagMode name attributes) '>' =
      some ((place.flush text).enter name attributes, .content []) := move_tagMode_close
  simp [List.foldlM_append, hopen, hstart, hattributes, hclose]

theorem flush_frame : (place.flush text).outer = place.outer ∧
    (place.flush text).top.name = place.top.name ∧
      (place.flush text).top.attributes = place.top.attributes := by
  rw [Place.flush]
  split <;> exact ⟨rfl, rfl, rfl⟩

theorem foldlM_endTag {parent : Frame} {outer : List Frame} (hname : isName place.top.name)
    (houter : place.outer = parent :: outer) :
    ('<' :: '/' :: place.top.name ++ ['>']).foldlM step (place, .content text) =
      some (Place.push ⟨parent, outer⟩ (.element place.top.name place.top.attributes
        (place.flush text).top.children), .content []) := by
  obtain ⟨houter', hname', hattributes⟩ := @flush_frame place text
  have hopen : step (place, .content text) '<' = some (place.flush text, .tag) := rfl
  have hslash : step (place.flush text, .tag) '/' = some (place.flush text, .endName []) := rfl
  have hcollect : place.top.name.foldlM step (place.flush text, .endName []) =
      some (place.flush text, .endName ([] ++ place.top.name)) :=
    foldlM_collect [] (forall_of_isName hname) (fun name c hc => by simp [move, hc])
  have hclose : step (place.flush text, .endName place.top.name) '>' =
      ((place.flush text).leave place.top.name).map (·, .content []) := rfl
  simp [List.foldlM_append, hopen, hslash, hcollect, hclose, Place.leave, houter', houter, hname',
    hattributes]

/-! ### Documents -/

def Place.pushAll (place : Place) (nodes : List Node) : Place := nodes.foldl Place.push place

theorem pushAll_eq (place : Place) (nodes : List Node) :
    place.pushAll nodes =
      { place with top := { place.top with children := place.top.children ++ nodes } } := by
  rw [Place.pushAll]
  induction nodes generalizing place with
  | nil => simp
  | cons node nodes ih =>
    rw [List.foldl_cons, ih]
    simp [Place.push]

/-- A list of elements. -/
theorem allWellFormed_of_elements (h : ∀ node ∈ nodes, node.WellFormed ∧ node.isText = false) :
    AllWellFormed nodes := by
  induction nodes with
  | nil => trivial
  | cons node nodes ih =>
    obtain ⟨hwell, helement⟩ := h node List.mem_cons_self
    refine ⟨hwell, ih fun next hnext => h next (List.mem_cons_of_mem _ hnext), ?_⟩
    simp [helement]

/-- Written nodes are pushed, but for a text at their end, which is not over yet. -/
theorem foldlM_writeAll (place : Place) (text : List Char) : ∀ nodes, AllWellFormed nodes →
    (∀ c ∈ allChars nodes, legal c) → (text ≠ [] → ∀ node ∈ nodes.head?, ¬node.isText) →
      ∃ place' text', (writeAll nodes).foldlM step (place, .content text) =
        some (place', .content text') ∧ place'.flush text' = (place.flush text).pushAll nodes
  | [], _, _, _ => ⟨place, text, by simp [writeAll], rfl⟩
  | .text cs :: nodes, ⟨hcs, hnodes, hnext⟩, hlegal, htext => by
    have hempty : text = [] := by
      by_contra hne
      exact htext hne _ rfl rfl
    subst hempty
    have htaken : (escape cs).foldlM step (place, .content []) =
        some (place, .content ([] ++ cs)) :=
      foldlM_escape takes_content [] fun c hc => hlegal c (List.mem_append_left _ hc)
    obtain ⟨place', text', hread, hflush⟩ := foldlM_writeAll place cs nodes hnodes
      (fun c hc => hlegal c (List.mem_append_right _ hc)) fun _ => hnext rfl
    refine ⟨place', text', ?_, ?_⟩
    · simp [writeAll, Node.write, List.foldlM_append, htaken, hread]
    · rw [hflush, Place.flush, if_neg hcs]
      rfl
  | .element name attributes children :: nodes, ⟨⟨hname, hattributes, hchildren⟩, hnodes, _⟩,
      hlegal, _ => by
    have hvalues : ∀ a ∈ attributes, ∀ c ∈ a.2, legal c := fun a ha c hc =>
      hlegal c (List.mem_append_left _ (List.mem_append_left _ (List.mem_flatMap.mpr ⟨a, ha, hc⟩)))
    have hstart : _ = some ((place.flush text).enter name attributes, Mode.content []) :=
      foldlM_startTag hname hattributes hvalues
    obtain ⟨inner, rest, hread, hflush⟩ := foldlM_writeAll
      ((place.flush text).enter name attributes) [] children hchildren
      (fun c hc => hlegal c (List.mem_append_left _ (List.mem_append_right _ hc)))
      fun hne => absurd rfl hne
    -- the place after the children is the one the element began in
    obtain ⟨houter, hframe, hkept⟩ := @flush_frame inner rest
    rw [hflush, pushAll_eq] at houter hframe hkept
    have hend : ('<' :: '/' :: name ++ ['>']).foldlM step (inner, .content rest) =
        some ((place.flush text).push (.element name attributes children), .content []) := by
      have hclosed := @foldlM_endTag inner rest _ _ (hframe ▸ hname) houter.symm
      rw [← hframe, ← hkept, hflush, pushAll_eq] at hclosed
      exact hclosed
    obtain ⟨place', text', hread', hflush'⟩ := foldlM_writeAll
      ((place.flush text).push (.element name attributes children)) [] nodes hnodes
      (fun c hc => hlegal c (List.mem_append_right _ hc)) fun hne => absurd rfl hne
    refine ⟨place', text', ?_, hflush'⟩
    have hwrite : writeAll (.element name attributes children :: nodes) =
        ('<' :: name ++ attributes.flatMap writeAttribute ++ ['>']) ++ writeAll children ++
          ('<' :: '/' :: name ++ ['>']) ++ writeAll nodes := by
      simp [writeAll, Node.write]
    rw [hwrite, List.foldlM_append, List.foldlM_append, List.foldlM_append, hstart]
    simp only [Option.bind_eq_bind, Option.bind_some, hread, hend, hread']

theorem foldlM_of_not_legal {reader : Reader} (hmem : c ∈ cs) (hc : legal c = false) :
    cs.foldlM step reader = none := by
  induction cs generalizing reader with
  | nil => cases hmem
  | cons first rest ih =>
    rcases List.mem_cons.mp hmem with rfl | hrest
    · simp [step, hc]
    · rw [List.foldlM_cons]
      cases step reader first with
      | none => rfl
      | some next => exact ih hrest

theorem mem_escape (hmem : c ∈ cs) (hc : legal c = false) : c ∈ escape cs := by
  refine List.mem_flatMap.mpr ⟨c, hmem, ?_⟩
  rw [escapeChar]
  split
  · next name hname =>
    obtain ⟨-, -, hlegal, -⟩ := entities_spec _ (mem_entities_of_entityName hname)
    rw [hc] at hlegal
    cases hlegal
  · exact List.mem_singleton_self c

theorem allChars_append (nodes more : List Node) :
    allChars (nodes ++ more) = allChars nodes ++ allChars more := by
  induction nodes with
  | nil => rfl
  | cons node nodes ih => simp [allChars, ih]

theorem mem_writeAll (hc : legal c = false) : ∀ nodes, c ∈ allChars nodes → c ∈ writeAll nodes
  | .text cs :: nodes, hmem => by
    rw [writeAll, Node.write, List.mem_append]
    rcases List.mem_append.mp hmem with hmem | hmem
    · exact .inl (mem_escape hmem hc)
    · exact .inr (mem_writeAll hc nodes hmem)
  | .element name attributes children :: nodes, hmem => by
    rw [writeAll, Node.write, List.mem_append]
    rcases List.mem_append.mp hmem with hmem | hmem
    · rcases List.mem_append.mp hmem with hvalue | hchild
      · obtain ⟨a, ha, hvalue⟩ := List.mem_flatMap.mp hvalue
        have hwritten : c ∈ attributes.flatMap writeAttribute :=
          List.mem_flatMap.mpr ⟨a, ha, by simp [writeAttribute, mem_escape hvalue hc]⟩
        simp [hwritten]
      · have hwritten := mem_writeAll hc children hchild
        simp [hwritten]
    · exact .inr (mem_writeAll hc nodes hmem)

/-- What was written is read. -/
theorem read_writeAll (hwell : AllWellFormed nodes) (hlegal : ∀ c ∈ allChars nodes, legal c) :
    read (writeAll nodes) = some nodes := by
  obtain ⟨place', text', hread, hflush⟩ := foldlM_writeAll .document [] nodes hwell hlegal
    fun hne => absurd rfl hne
  have hframe := (@flush_frame place' text').1
  rw [hflush, pushAll_eq] at hframe
  obtain ⟨top, outer⟩ := place'
  obtain rfl : [] = outer := hframe
  have hchildren := congrArg (fun place => place.top.children) hflush
  rw [pushAll_eq] at hchildren
  rw [read, hread]
  exact congrArg some hchildren

/-- No reader takes a document with a character that it may not hold. -/
theorem read_writeAll_eq_none (hmem : c ∈ allChars nodes) (hc : legal c = false) :
    read (writeAll nodes) = none := by
  have hnone : (writeAll nodes).foldlM step (Place.document, Mode.content []) = none :=
    foldlM_of_not_legal (mem_writeAll hc nodes hmem) hc
  rw [read, hnone]
  rfl

end

end SorobanPulse.Lib.Xml
