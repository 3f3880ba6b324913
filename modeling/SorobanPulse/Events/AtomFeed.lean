import SorobanPulse.Events.GetEvents
import SorobanPulse.JsonInjective
import SorobanPulse.Lib.ReplaceAll
import SorobanPulse.Lib.Xml

/-! `/v1/events/feed.rss`: rows of `events` as an Atom feed.

        rows ──render_atom_feed──▶ text ──a reader of XML──▶ nodes ──▶ entries

    The texts of a row come from the network. The feed reads back as its rows exactly when they hold
    no character that an XML document may not hold: `readFeed_iff`. -/

namespace SorobanPulse.Events
open Lib

/-! ### Rendering -/

/-- `escape_xml`. -/
def escapeXml (value : String) : String :=
  let replace (c : Char) (new : String) (text : List Char) := replaceAll [c] new.toList text
  String.ofList (replace '\'' "&apos;" (replace '"' "&quot;" (replace '>' "&gt;"
    (replace '<' "&lt;" (replace '&' "&amp;" value.toList)))))

section
variable (double : UInt64 → String)

/-- `render_feed_entry`. -/
def renderFeedEntry (row : EventRow) : String :=
  "<entry>" ++
    ("<title>" ++ (escapeXml row.eventType ++ " event for " ++ escapeXml row.contractId) ++
      "</title>") ++
    ("<id>" ++ ("urn:soroban-pulse:event:" ++ uuidText row.id) ++ "</id>") ++
    ("<updated>" ++ escapeXml (rfc3339 row.timestamp) ++ "</updated>") ++
    ("<summary type=\"html\">" ++
      ("ledger " ++ toString row.ledger ++ " tx " ++ escapeXml row.txHash) ++ "</summary>") ++
    ("<content type=\"application/json\">" ++ escapeXml (jsonText double row.eventData) ++
      "</content>") ++
    "</entry>"

/-- The time of the first row, or `Utc::now()`. -/
def feedUpdated (now : Timestamp) (rows : List EventRow) : String :=
  rfc3339 ((rows.head?.map (·.timestamp)).getD now)

/-- `render_atom_feed`. -/
def renderAtomFeed (now : Timestamp) (rows : List EventRow) : String :=
  let head := "<?xml version=\"1.0\" encoding=\"utf-8\"?>" ++
    ("<feed xmlns=\"http://www.w3.org/2005/Atom\">" ++
      ("<title>" ++ "Soroban Pulse Events" ++ "</title>") ++
      ("<id>" ++ "urn:soroban-pulse:events" ++ "</id>") ++
      ("<updated>" ++ escapeXml (feedUpdated now rows) ++ "</updated>"))
  rows.foldl (fun feed row => feed ++ renderFeedEntry double row) head ++ "</feed>"

end

/-! ### Feeds and their entries -/

structure FeedEntry where
  title : String
  id : String
  updated : String
  summary : String
  content : String
  deriving DecidableEq

structure Feed where
  updated : String
  entries : List FeedEntry
  deriving DecidableEq

/-- What an entry says of its row. -/
def FeedEntry.of (double : UInt64 → String) (row : EventRow) : FeedEntry where
  title := row.eventType ++ " event for " ++ row.contractId
  id := "urn:soroban-pulse:event:" ++ uuidText row.id
  updated := rfc3339 row.timestamp
  summary := "ledger " ++ toString row.ledger ++ " tx " ++ row.txHash
  content := jsonText double row.eventData

def Feed.of (double : UInt64 → String) (now : Timestamp) (rows : List EventRow) : Feed :=
  ⟨feedUpdated now rows, rows.map (FeedEntry.of double)⟩

/-- An element with one text. -/
def textNode (name : String) (attributes : List (String × String)) (text : String) : Xml.Node :=
  .element name.toList (attributes.map fun a => (a.1.toList, a.2.toList)) [.text text.toList]

def FeedEntry.node (entry : FeedEntry) : Xml.Node :=
  .element "entry".toList []
    [textNode "title" [] entry.title, textNode "id" [] entry.id,
      textNode "updated" [] entry.updated, textNode "summary" [("type", "html")] entry.summary,
      textNode "content" [("type", "application/json")] entry.content]

def Feed.node (feed : Feed) : Xml.Node :=
  .element "feed".toList [("xmlns".toList, "http://www.w3.org/2005/Atom".toList)]
    ([textNode "title" [] "Soroban Pulse Events", textNode "id" [] "urn:soroban-pulse:events",
      textNode "updated" [] feed.updated] ++ feed.entries.map FeedEntry.node)

/-! ### Reading a feed -/

/-- The text of an element of this name. -/
def textOf (name : String) : Xml.Node → Option String
  | .element name' _ [.text cs] => if name' = name.toList then some (String.ofList cs) else none
  | _ => none

def readEntry : Xml.Node → Option FeedEntry
  | .element name _ [title, id, updated, summary, content] => do
    guard (name = "entry".toList)
    return ⟨← textOf "title" title, ← textOf "id" id, ← textOf "updated" updated,
      ← textOf "summary" summary, ← textOf "content" content⟩
  | _ => none

def feedOfNodes : List Xml.Node → Option Feed
  | [.element name _ (_ :: _ :: updated :: entries)] => do
    guard (name = "feed".toList)
    return ⟨← textOf "updated" updated, ← entries.mapM readEntry⟩
  | _ => none

def xmlDeclaration : String := "<?xml version=\"1.0\" encoding=\"utf-8\"?>"

def readFeed (text : String) : Option Feed := do
  guard (xmlDeclaration.toList <+: text.toList)
  feedOfNodes (← Xml.read (text.toList.drop xmlDeclaration.toList.length))

section
variable {double : UInt64 → String} {now : Timestamp} {rows : List EventRow} {row : EventRow}

/-! ### What is written -/

theorem toList_escapeXml (value : String) :
    (escapeXml value).toList = Xml.escape value.toList := by
  rw [escapeXml, String.toList_ofList, Xml.escape]
  dsimp only
  rw [replaceAll_singleton, replaceAll_singleton, replaceAll_singleton, replaceAll_singleton,
    replaceAll_singleton, List.flatMap_assoc, List.flatMap_assoc, List.flatMap_assoc,
    List.flatMap_assoc]
  refine List.flatMap_congr fun c _ => ?_
  by_cases hamp : c = '&'
  · subst hamp
    decide
  by_cases hlt : c = '<'
  · subst hlt
    decide
  by_cases hgt : c = '>'
  · subst hgt
    decide
  by_cases hquot : c = '"'
  · subst hquot
    decide
  by_cases hapos : c = '\''
  · subst hapos
    decide
  have hname : Xml.entityName c = none := by
    simp [Xml.entityName, Xml.entities, Ne.symm hamp, Ne.symm hlt, Ne.symm hgt, Ne.symm hquot,
      Ne.symm hapos]
  have hescape : Xml.escapeChar c = [c] := by rw [Xml.escapeChar, hname]
  rw [if_neg hamp, List.flatMap_singleton, if_neg hlt, List.flatMap_singleton, if_neg hgt,
    List.flatMap_singleton, if_neg hquot, List.flatMap_singleton, if_neg hapos, hescape]

@[simp] theorem escapeXml_append (s t : String) :
    escapeXml (s ++ t) = escapeXml s ++ escapeXml t := by
  rw [← String.toList_inj]
  simp [toList_escapeXml, Xml.escape]

/-- The characters of numbers, ids and times: a document may hold them, and they stay as they are. -/
def Bland (text : String) : Prop := ∀ c ∈ text.toList, Xml.nameChar c ∨ c = '+' ∨ c = ' '

theorem legal_of_bland {text : String} (h : Bland text) : ∀ c ∈ text.toList, Xml.legal c := by
  intro c hc
  rcases h c hc with hname | rfl | rfl
  · exact Xml.legal_of_nameChar hname
  · decide
  · decide

theorem escapeXml_of_bland {text : String} (h : Bland text) : escapeXml text = text := by
  rw [← String.toList_inj, toList_escapeXml, Xml.escape]
  have hsame : ∀ c ∈ text.toList, Xml.escapeChar c = [c] := by
    intro c hc
    have hne : ∀ d, Xml.nameChar d = false → d ≠ '+' → d ≠ ' ' → c ≠ d := by
      rintro d hd hplus hspace rfl
      rcases h c hc with hname | heq | heq
      · rw [hd] at hname
        cases hname
      · exact hplus heq
      · exact hspace heq
    have hname : Xml.entityName c = none := by
      by_contra hsome
      obtain ⟨name, hname⟩ := Option.ne_none_iff_exists'.mp hsome
      have hmem := Xml.mem_entities_of_entityName hname
      have hspecial : ∀ e ∈ Xml.entities, Xml.nameChar e.1 = false ∧ e.1 ≠ '+' ∧ e.1 ≠ ' ' := by
        decide
      obtain ⟨hd, hplus, hspace⟩ := hspecial _ hmem
      exact hne c hd hplus hspace rfl
    simp [Xml.escapeChar, hname]
  rw [List.flatMap_congr hsame, List.flatMap_singleton']

theorem escapeXml_of_all {text : String}
    (h : (text.toList.all fun c => Xml.nameChar c || c = '+' || c = ' ') = true) :
    escapeXml text = text := by
  refine escapeXml_of_bland fun c hc => ?_
  simpa [or_assoc] using List.all_eq_true.mp h c hc

theorem Bland.append {s t : String} (hs : Bland s) (ht : Bland t) : Bland (s ++ t) := by
  intro c hc
  rw [String.toList_append] at hc
  rcases List.mem_append.mp hc with hc | hc
  · exact hs c hc
  · exact ht c hc

theorem bland_int (n : ℤ) : Bland (toString n) := by
  intro c hc
  rcases integral_toString c hc with hdigit | rfl
  · exact .inl (by simp [Xml.nameChar, hdigit])
  · exact .inl (by decide)

theorem nameChar_hexDigits {c : Char} {width n : ℕ} (h : c ∈ hexDigits width n) : Xml.nameChar c := by
  obtain ⟨d, hd, rfl⟩ := mem_hexDigits width h
  have hall : ∀ d < 16, Xml.nameChar (hexDigit d) := by decide
  exact hall d hd

theorem bland_uuidText (id : Uuid) : Bland (uuidText id) := by
  have hgroups : (uuidText id).toList = (hexDigits 32 id.toNat).take 8 ++
      '-' :: ((hexDigits 32 id.toNat).drop 8).take 4 ++
      '-' :: ((hexDigits 32 id.toNat).drop 12).take 4 ++
      '-' :: ((hexDigits 32 id.toNat).drop 16).take 4 ++
      '-' :: (hexDigits 32 id.toNat).drop 20 := by
    simp [uuidText, uuidGroups, List.intercalate]
  have hdigits : ∀ n m, ∀ c ∈ ((hexDigits 32 id.toNat).drop n).take m, Xml.nameChar c :=
    fun n m c hc => nameChar_hexDigits (List.mem_of_mem_drop (List.mem_of_mem_take hc))
  have htail : ∀ c ∈ (hexDigits 32 id.toNat).drop 20, Xml.nameChar c :=
    fun c hc => nameChar_hexDigits (List.mem_of_mem_drop hc)
  intro c hc
  left
  rw [hgroups] at hc
  simp only [List.mem_append, List.mem_cons] at hc
  rcases hc with (((hc | rfl | hc) | rfl | hc) | rfl | hc) | rfl | hc
  · exact hdigits 0 8 c hc
  · decide
  · exact hdigits 8 4 c hc
  · decide
  · exact hdigits 12 4 c hc
  · decide
  · exact hdigits 16 4 c hc
  · decide
  · exact htail c hc

theorem nameChar_decimal {c : Char} {width n : ℕ} (h : c ∈ decimal width n) : Xml.nameChar c := by
  simp [Xml.nameChar, isDigit_of_mem_decimal h]

theorem bland_rfc3339 (t : Timestamp) : Bland (rfc3339 t) := by
  -- years after 9999 have a plus, and those before 0 a minus
  have hyear : ∀ y, ∀ c ∈ yearText y, Xml.nameChar c ∨ c = '+' ∨ c = ' ' := by
    intro y c hc
    rw [yearText] at hc
    split at hc
    · exact .inl (nameChar_decimal hc)
    · rcases List.mem_cons.mp hc with rfl | hc
      · split <;> decide
      · exact .inl (nameChar_decimal hc)
  have hfraction : ∀ micros, ∀ c ∈ fractionText micros, Xml.nameChar c := by
    intro micros c hc
    rw [fractionText] at hc
    split at hc
    · cases hc
    · split at hc
      all_goals
        rcases List.mem_cons.mp hc with rfl | hc
        · decide
        · exact nameChar_decimal hc
  have hzone : "+00:00".toList = '+' :: decimal 2 0 ++ ':' :: decimal 2 0 := by decide
  intro c hc
  rw [rfc3339, rfc3339Date, String.toList_ofList, hzone] at hc
  simp only [List.mem_append, List.mem_cons] at hc
  -- year, month, day, hour, minute, second, fraction and zone, with what stands between them
  rcases hc with ((((((hc | rfl | hc) | rfl | hc) | rfl | hc) | rfl | hc) | rfl | hc) | hc) |
    (rfl | hc) | rfl | hc
  · exact hyear _ c hc
  · exact .inl (by decide)
  · exact .inl (nameChar_decimal hc)
  · exact .inl (by decide)
  · exact .inl (nameChar_decimal hc)
  · exact .inl (by decide)
  · exact .inl (nameChar_decimal hc)
  · exact .inl (by decide)
  · exact .inl (nameChar_decimal hc)
  · exact .inl (by decide)
  · exact .inl (nameChar_decimal hc)
  · exact .inl (hfraction _ c hc)
  · exact .inr (.inl rfl)
  · exact .inl (nameChar_decimal hc)
  · exact .inl (by decide)
  · exact .inl (nameChar_decimal hc)

/-- An element with one text, between its tags. -/
theorem write_textNode {name first last text : String} {attributes : List (String × String)}
    (hfirst : first.toList = '<' :: name.toList ++
      (attributes.map fun a => (a.1.toList, a.2.toList)).flatMap Xml.writeAttribute ++ ['>'])
    (hlast : last.toList = '<' :: '/' :: name.toList ++ ['>']) :
    (textNode name attributes text).write = (first ++ escapeXml text ++ last).toList := by
  simp [textNode, Xml.Node.write, Xml.writeAll, toList_escapeXml, hfirst, hlast]

theorem write_entry (entry : FeedEntry) : entry.node.write =
    ("<entry>" ++ ("<title>" ++ escapeXml entry.title ++ "</title>") ++
      ("<id>" ++ escapeXml entry.id ++ "</id>") ++
      ("<updated>" ++ escapeXml entry.updated ++ "</updated>") ++
      ("<summary type=\"html\">" ++ escapeXml entry.summary ++ "</summary>") ++
      ("<content type=\"application/json\">" ++ escapeXml entry.content ++ "</content>") ++
      "</entry>").toList := by
  have htitle : (textNode "title" [] entry.title).write =
      ("<title>" ++ escapeXml entry.title ++ "</title>").toList :=
    write_textNode (by decide) (by decide)
  have hid : (textNode "id" [] entry.id).write = ("<id>" ++ escapeXml entry.id ++ "</id>").toList :=
    write_textNode (by decide) (by decide)
  have hupdated : (textNode "updated" [] entry.updated).write =
      ("<updated>" ++ escapeXml entry.updated ++ "</updated>").toList :=
    write_textNode (by decide) (by decide)
  have hsummary : (textNode "summary" [("type", "html")] entry.summary).write =
      ("<summary type=\"html\">" ++ escapeXml entry.summary ++ "</summary>").toList :=
    write_textNode (by decide) (by decide)
  have hcontent : (textNode "content" [("type", "application/json")] entry.content).write =
      ("<content type=\"application/json\">" ++ escapeXml entry.content ++ "</content>").toList :=
    write_textNode (by decide) (by decide)
  have hfirst : "<entry>".toList = '<' :: "entry".toList ++ ['>'] := by decide
  have hlast : "</entry>".toList = '<' :: '/' :: "entry".toList ++ ['>'] := by decide
  rw [FeedEntry.node, Xml.Node.write]
  simp only [Xml.writeAll, htitle, hid, hupdated, hsummary, hcontent, String.toList_append, hfirst,
    hlast, List.flatMap_nil, List.append_assoc, List.cons_append, List.nil_append, List.append_nil]

theorem toList_renderFeedEntry (row : EventRow) :
    (renderFeedEntry double row).toList = (FeedEntry.of double row).node.write := by
  have hfor : escapeXml " event for " = " event for " := escapeXml_of_all (by decide)
  have hurn : escapeXml "urn:soroban-pulse:event:" = "urn:soroban-pulse:event:" :=
    escapeXml_of_all (by decide)
  have hledger : escapeXml "ledger " = "ledger " := escapeXml_of_all (by decide)
  have htx : escapeXml " tx " = " tx " := escapeXml_of_all (by decide)
  have htitle : escapeXml (FeedEntry.of double row).title =
      escapeXml row.eventType ++ " event for " ++ escapeXml row.contractId := by
    rw [FeedEntry.of, escapeXml_append, escapeXml_append, hfor]
  have hid : escapeXml (FeedEntry.of double row).id =
      "urn:soroban-pulse:event:" ++ uuidText row.id := by
    rw [FeedEntry.of, escapeXml_append, hurn, escapeXml_of_bland (bland_uuidText row.id)]
  have hsummary : escapeXml (FeedEntry.of double row).summary =
      "ledger " ++ toString row.ledger ++ " tx " ++ escapeXml row.txHash := by
    rw [FeedEntry.of, escapeXml_append, escapeXml_append, escapeXml_append, hledger, htx,
      escapeXml_of_bland (bland_int row.ledger)]
  rw [write_entry, htitle, hid, hsummary, renderFeedEntry]
  rfl

theorem writeAll_map (entries : List FeedEntry) :
    Xml.writeAll (entries.map FeedEntry.node) = entries.flatMap (·.node.write) := by
  induction entries with
  | nil => rfl
  | cons entry entries ih => rw [List.map_cons, Xml.writeAll, ih, List.flatMap_cons]

theorem toList_foldl (head : String) (rows : List EventRow) :
    (rows.foldl (fun feed row => feed ++ renderFeedEntry double row) head).toList =
      head.toList ++ (rows.map (FeedEntry.of double)).flatMap (·.node.write) := by
  induction rows generalizing head with
  | nil => simp
  | cons row rows ih =>
    rw [List.foldl_cons, ih, String.toList_append, toList_renderFeedEntry]
    simp

theorem toList_renderAtomFeed (now : Timestamp) (rows : List EventRow) :
    (renderAtomFeed double now rows).toList =
      xmlDeclaration.toList ++ Xml.writeAll [(Feed.of double now rows).node] := by
  have hname : escapeXml "Soroban Pulse Events" = "Soroban Pulse Events" :=
    escapeXml_of_all (by decide)
  have hurn : escapeXml "urn:soroban-pulse:events" = "urn:soroban-pulse:events" :=
    escapeXml_of_all (by decide)
  have htitle : (textNode "title" [] "Soroban Pulse Events").write =
      ("<title>" ++ "Soroban Pulse Events" ++ "</title>").toList := by
    rw [← hname]
    exact write_textNode (by decide) (by decide)
  have hid : (textNode "id" [] "urn:soroban-pulse:events").write =
      ("<id>" ++ "urn:soroban-pulse:events" ++ "</id>").toList := by
    rw [← hurn]
    exact write_textNode (by decide) (by decide)
  have hupdated : (textNode "updated" [] (feedUpdated now rows)).write =
      ("<updated>" ++ escapeXml (feedUpdated now rows) ++ "</updated>").toList :=
    write_textNode (by decide) (by decide)
  have hfirst : "<feed xmlns=\"http://www.w3.org/2005/Atom\">".toList = '<' :: "feed".toList ++
      [("xmlns".toList, "http://www.w3.org/2005/Atom".toList)].flatMap Xml.writeAttribute ++
        ['>'] := by decide
  have hlast : "</feed>".toList = '<' :: '/' :: "feed".toList ++ ['>'] := by decide
  rw [renderAtomFeed, String.toList_append, toList_foldl, Feed.of, Feed.node]
  simp only [Xml.writeAll, Xml.Node.write, htitle, hid, hupdated, hfirst, hlast, writeAll_map,
    xmlDeclaration, String.toList_append, List.append_assoc, List.cons_append, List.nil_append,
    List.append_nil]

/-! ### What is read back -/

/-- A row whose texts a document may hold. -/
def EventRow.Legal (double : UInt64 → String) (row : EventRow) : Prop :=
  ∀ text ∈ [row.eventType, row.contractId, row.txHash, jsonText double row.eventData],
    ∀ c ∈ text.toList, Xml.legal c

theorem wellFormed_textNode {name text : String} {attributes : List (String × String)}
    (hname : Xml.isName name.toList)
    (hattributes : Xml.AttributesWellFormed (attributes.map fun a => (a.1.toList, a.2.toList)))
    (htext : text.toList ≠ []) : (textNode name attributes text).WellFormed := by
  simp [textNode, Xml.Node.WellFormed, Xml.AllWellFormed, hname, hattributes, htext]

theorem attributes_type (value : String) :
    Xml.AttributesWellFormed ([("type", value)].map fun a => (a.1.toList, a.2.toList)) := by
  refine ⟨?_, by simp⟩
  intro a ha
  have htype : Xml.isName "type".toList := by decide
  rw [List.map_singleton, List.mem_singleton] at ha
  subst ha
  simpa using htype

theorem attributes_nil : Xml.AttributesWellFormed [] := ⟨by simp, by simp⟩

theorem rfc3339_ne_nil (t : Timestamp) : (rfc3339 t).toList ≠ [] := by
  obtain ⟨d, rest, htime, -⟩ := rfc3339_colon t
  simp [htime]

theorem wellFormed_entry (hdouble : DoubleText double) (row : EventRow) :
    (FeedEntry.of double row).node.WellFormed := by
  have hcontent : (jsonText double row.eventData).toList ≠ [] := by
    obtain ⟨c, cs, hchars, -⟩ := exists_jsonChars_eq hdouble row.eventData
    simp [jsonText, hchars]
  have htitle : (FeedEntry.of double row).title.toList ≠ [] := by
    simp [FeedEntry.of, String.toList_append]
  have hid : (FeedEntry.of double row).id.toList ≠ [] := by
    simp [FeedEntry.of, String.toList_append]
  have hsummary : (FeedEntry.of double row).summary.toList ≠ [] := by
    simp [FeedEntry.of, String.toList_append]
  refine ⟨by decide, attributes_nil, Xml.allWellFormed_of_elements ?_⟩
  simp only [List.forall_mem_cons, List.not_mem_nil, false_imp_iff, implies_true, and_true]
  exact ⟨⟨wellFormed_textNode (by decide) attributes_nil htitle, rfl⟩,
    ⟨wellFormed_textNode (by decide) attributes_nil hid, rfl⟩,
    ⟨wellFormed_textNode (by decide) attributes_nil (rfc3339_ne_nil row.timestamp), rfl⟩,
    ⟨wellFormed_textNode (by decide) (attributes_type _) hsummary, rfl⟩,
    ⟨wellFormed_textNode (by decide) (attributes_type _) hcontent, rfl⟩⟩

theorem wellFormed_feed (hdouble : DoubleText double) (now : Timestamp) (rows : List EventRow) :
    Xml.AllWellFormed [(Feed.of double now rows).node] := by
  have hxmlns : Xml.AttributesWellFormed
      [("xmlns".toList, "http://www.w3.org/2005/Atom".toList)] := by
    have hname : Xml.isName "xmlns".toList := by decide
    exact ⟨by simpa using hname, by simp⟩
  refine Xml.allWellFormed_of_elements ?_
  rw [List.forall_mem_singleton]
  refine ⟨⟨by decide, hxmlns, Xml.allWellFormed_of_elements ?_⟩, rfl⟩
  rw [List.forall_mem_append]
  constructor
  · simp only [List.forall_mem_cons, List.not_mem_nil, false_imp_iff, implies_true, and_true]
    exact ⟨⟨wellFormed_textNode (by decide) attributes_nil (by simp), rfl⟩,
      ⟨wellFormed_textNode (by decide) attributes_nil (by simp), rfl⟩,
      ⟨wellFormed_textNode (by decide) attributes_nil (rfc3339_ne_nil _), rfl⟩⟩
  · intro node hnode
    obtain ⟨entry, hentry, rfl⟩ := List.mem_map.mp hnode
    obtain ⟨row, -, rfl⟩ := List.mem_map.mp hentry
    exact ⟨wellFormed_entry hdouble row, rfl⟩

/-- A document may hold the text. -/
def LegalText (text : String) : Prop := ∀ c ∈ text.toList, Xml.legal c

@[simp] theorem legalText_append {s t : String} :
    LegalText (s ++ t) ↔ LegalText s ∧ LegalText t := by
  simp [LegalText, or_imp, forall_and]

theorem legalText_of_all {text : String} (h : text.toList.all Xml.legal = true) :
    LegalText text := List.all_eq_true.mp h

theorem legal_textNode {name text : String} {attributes : List (String × String)}
    (hattributes : ∀ a ∈ attributes, LegalText a.2) :
    (∀ c ∈ (textNode name attributes text).chars, Xml.legal c) ↔ LegalText text := by
  have hvalues : ∀ c ∈ (attributes.map fun a => (a.1.toList, a.2.toList)).flatMap (·.2),
      Xml.legal c := by
    intro c hc
    obtain ⟨_, ha, hc⟩ := List.mem_flatMap.mp hc
    obtain ⟨a, hmem, rfl⟩ := List.mem_map.mp ha
    exact hattributes a hmem c hc
  rw [textNode, Xml.Node.chars, List.forall_mem_append, and_iff_right hvalues]
  simp [Xml.allChars, Xml.Node.chars, LegalText]

theorem legal_entry (row : EventRow) :
    (∀ c ∈ (FeedEntry.of double row).node.chars, Xml.legal c) ↔ row.Legal double := by
  have hnone : ∀ a ∈ ([] : List (String × String)), LegalText a.2 := by simp
  have hhtml : ∀ a ∈ [("type", "html")], LegalText a.2 := by
    rw [List.forall_mem_singleton]
    exact legalText_of_all (by decide)
  have hjson : ∀ a ∈ [("type", "application/json")], LegalText a.2 := by
    rw [List.forall_mem_singleton]
    exact legalText_of_all (by decide)
  have hid : LegalText (FeedEntry.of double row).id :=
    legalText_append.mpr ⟨legalText_of_all (by decide), legal_of_bland (bland_uuidText row.id)⟩
  have hupdated : LegalText (FeedEntry.of double row).updated :=
    legal_of_bland (bland_rfc3339 row.timestamp)
  have htitle : LegalText (FeedEntry.of double row).title ↔
      LegalText row.eventType ∧ LegalText row.contractId := by
    have hfor : LegalText " event for " := legalText_of_all (by decide)
    simp [FeedEntry.of, hfor]
  have hsummary : LegalText (FeedEntry.of double row).summary ↔ LegalText row.txHash := by
    have hledger : LegalText "ledger " := legalText_of_all (by decide)
    have htx : LegalText " tx " := legalText_of_all (by decide)
    have hnumber : LegalText (toString row.ledger) := legal_of_bland (bland_int row.ledger)
    rw [FeedEntry.of, legalText_append, legalText_append, legalText_append]
    simp only [hledger, htx, hnumber, true_and]
  rw [FeedEntry.node, Xml.Node.chars]
  simp only [Xml.allChars, List.flatMap_nil, List.nil_append, List.append_nil,
    List.forall_mem_append, legal_textNode hnone, legal_textNode hhtml, legal_textNode hjson, hid,
    hupdated, htitle, hsummary, true_and]
  simp [EventRow.Legal, LegalText, FeedEntry.of, and_assoc]

theorem legal_feed (now : Timestamp) (rows : List EventRow) :
    (∀ c ∈ (Feed.of double now rows).node.chars, Xml.legal c) ↔
      ∀ row ∈ rows, row.Legal double := by
  have hnone : ∀ a ∈ ([] : List (String × String)), LegalText a.2 := by simp
  have hxmlns : ∀ c ∈ "http://www.w3.org/2005/Atom".toList, Xml.legal c :=
    legalText_of_all (by decide)
  have hname : LegalText "Soroban Pulse Events" := legalText_of_all (by decide)
  have hurn : LegalText "urn:soroban-pulse:events" := legalText_of_all (by decide)
  have hupdated : LegalText (feedUpdated now rows) := legal_of_bland (bland_rfc3339 _)
  have hentries : (∀ c ∈ Xml.allChars ((rows.map (FeedEntry.of double)).map FeedEntry.node),
      Xml.legal c) ↔ ∀ row ∈ rows, row.Legal double := by
    induction rows with
    | nil => simp [Xml.allChars]
    | cons row rows ih =>
      rw [List.map_cons, List.map_cons, Xml.allChars, List.forall_mem_append, legal_entry, ih,
        List.forall_mem_cons]
      exact legal_of_bland (bland_rfc3339 _)
  rw [Feed.node, Xml.Node.chars, Xml.allChars_append, List.forall_mem_append, List.forall_mem_append]
  simp only [Feed.of, hentries, Xml.allChars, List.flatMap_cons, List.flatMap_nil, List.append_nil,
    List.forall_mem_append, legal_textNode hnone, hname, hurn, hupdated, true_and, and_true,
    and_iff_right hxmlns]

theorem readEntry_node (entry : FeedEntry) : readEntry entry.node = some entry := by
  simp [readEntry, FeedEntry.node, textNode, textOf]

theorem feedOfNodes_node (feed : Feed) : feedOfNodes [feed.node] = some feed := by
  have hentries (entries : List FeedEntry) :
      (entries.map FeedEntry.node).mapM readEntry = some entries := by
    induction entries with
    | nil => rfl
    | cons entry entries ih => simp [readEntry_node, ih]
  simp [feedOfNodes, Feed.node, textNode, textOf, hentries]

/-- The reader gets one element, the feed's. -/
theorem readFeed_eq (now : Timestamp) (rows : List EventRow) :
    readFeed (renderAtomFeed double now rows) =
      (Xml.read (Xml.writeAll [(Feed.of double now rows).node])).bind feedOfNodes := by
  rw [readFeed, @toList_renderAtomFeed double now rows, List.drop_left]
  simp

theorem legal_allChars_feed (now : Timestamp) (rows : List EventRow) :
    (∀ c ∈ Xml.allChars [(Feed.of double now rows).node], Xml.legal c) ↔
      ∀ row ∈ rows, row.Legal double := by
  simp only [Xml.allChars, List.append_nil]
  exact legal_feed now rows

/-- Rows of texts that a document may hold are read back. -/
theorem readFeed_of_legal (hdouble : DoubleText double) (now : Timestamp) {rows : List EventRow}
    (h : ∀ row ∈ rows, row.Legal double) :
    readFeed (renderAtomFeed double now rows) = some (Feed.of double now rows) := by
  rw [readFeed_eq, Xml.read_writeAll (wellFormed_feed hdouble now rows)
    ((legal_allChars_feed now rows).mpr h)]
  exact feedOfNodes_node _

/-- What a feed shows of a row. -/
def EventRow.shown (row : EventRow) : Uuid × ℤ × String × Value :=
  (row.id, row.ledger, row.txHash, row.eventData)

theorem shown_of_entry (hdouble : DoubleText double) {row' : EventRow}
    (h : FeedEntry.of double row = FeedEntry.of double row') : row.shown = row'.shown := by
  simp only [FeedEntry.of, FeedEntry.mk.injEq] at h
  obtain ⟨-, hid, -, hsummary, hcontent⟩ := h
  have huuid : row.id = row'.id := by
    have htext : uuidText row.id = uuidText row'.id := String.append_right_inj _ |>.mp hid
    have hparse := parseUuid_uuidText row.id
    rw [htext, parseUuid_uuidText] at hparse
    exact (Option.some.inj hparse).symm
  have hdata : row.eventData = row'.eventData := jsonText_injective hdouble hcontent
  -- the number of the ledger ends at the first blank
  have hblank (n : ℤ) : ' ' ∉ (toString n).toList := by
    intro hmem
    rcases integral_toString _ hmem with hdigit | hminus
    · exact absurd hdigit (by decide)
    · exact absurd hminus (by decide)
  have htx : " tx ".toList = ' ' :: "tx ".toList := by decide
  have hlist := congrArg String.toList hsummary
  simp only [String.toList_append, htx, List.append_assoc, List.cons_append,
    List.append_cancel_left_eq] at hlist
  obtain ⟨hledger, hrest⟩ := eq_of_append_separator (hblank _) (hblank _) hlist
  have hhash : row.txHash = row'.txHash :=
    String.toList_inj.mp (List.append_cancel_left hrest)
  have hnumber := toString_int_injective (String.toList_inj.mp hledger)
  rw [EventRow.shown, EventRow.shown, huuid, hdata, hhash, hnumber]

/-- Feeds of one text show the same rows. -/
theorem shown_of_renderAtomFeed (hdouble : DoubleText double) {now' : Timestamp}
    {rows' : List EventRow} (hrows : ∀ row ∈ rows, row.Legal double)
    (hrows' : ∀ row ∈ rows', row.Legal double)
    (h : renderAtomFeed double now rows = renderAtomFeed double now' rows') :
    rows.map EventRow.shown = rows'.map EventRow.shown := by
  have hread := readFeed_of_legal hdouble now hrows
  rw [h, readFeed_of_legal hdouble now' hrows'] at hread
  have hentries : rows'.map (FeedEntry.of double) = rows.map (FeedEntry.of double) :=
    congrArg Feed.entries (Option.some.inj hread)
  clear hrows hrows' h hread
  induction rows generalizing rows' with
  | nil =>
    rw [List.map_nil, List.map_eq_nil_iff] at hentries
    rw [hentries]
  | cons row rows ih =>
    cases rows' with
    | nil => cases hentries
    | cons row' rows' =>
      rw [List.map_cons, List.map_cons, List.cons.injEq] at hentries
      rw [List.map_cons, List.map_cons, shown_of_entry hdouble hentries.1, ih hentries.2]

/-- A feed reads back as its rows exactly when a document may hold their texts, and feeds of such
    rows that have one text show the same rows. -/
theorem readFeed_iff (hdouble : DoubleText double) (now : Timestamp) (rows : List EventRow) :
    (readFeed (renderAtomFeed double now rows) = some (Feed.of double now rows) ↔
      ∀ row ∈ rows, row.Legal double) ∧
    ∀ (now' : Timestamp) (rows' : List EventRow), (∀ row ∈ rows, row.Legal double) →
      (∀ row ∈ rows', row.Legal double) →
        renderAtomFeed double now rows = renderAtomFeed double now' rows' →
          rows.map EventRow.shown = rows'.map EventRow.shown := by
  refine ⟨⟨?_, readFeed_of_legal hdouble now⟩, fun now' rows' hrows hrows' h =>
    shown_of_renderAtomFeed hdouble hrows hrows' h⟩
  intro h
  rw [readFeed_eq] at h
  refine (legal_allChars_feed now rows).mp fun c hc => ?_
  by_contra hillegal
  rw [Xml.read_writeAll_eq_none hc (Bool.not_eq_true _ ▸ hillegal)] at h
  cases h

end

def feedRow : EventRow where
  id := 7
  contractId := "C<&>"
  eventType := "contract"
  txHash := "ab"
  ledger := 5
  timestamp := 0
  eventData := .string "a \"b\""
  createdAt := 0

theorem readFeed_feedRow :
    readFeed (renderAtomFeed bitsText 0 [feedRow]) = some (Feed.of bitsText 0 [feedRow]) := by
  refine (readFeed_iff doubleText_bitsText 0 [feedRow]).1.mpr ?_
  simp only [EventRow.Legal, List.forall_mem_singleton, List.forall_mem_cons]
  exact ⟨legalText_of_all (by decide), legalText_of_all (by decide), legalText_of_all (by decide),
    legalText_of_all (by decide)⟩

end SorobanPulse.Events
