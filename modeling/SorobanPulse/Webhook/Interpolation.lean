import SorobanPulse.JsonLocations
import SorobanPulse.Webhook.Template

/-! When the interpolation of a webhook template is simultaneous, and leaves a JSON document whole.

        {{a}}{{b}}    a = {{b}}, b = x    in one pass: {{b}}x    one after the other: xx

    The placeholders are replaced one after the other, each in the whole text so far. That is one
    pass as long as what is replaced is the template's own; and a document stays the same document
    as long as nothing put into a literal ends it, escapes or is a control character. -/

namespace SorobanPulse.Webhook
open Lib

/-! ### What interpolation is asked for -/

/-- Every placeholder replaced by the value of its path, all in one pass. -/
def simultaneous (template : List Char) (context : Context) : List Char :=
  render (pathValue context) (pieces template)

/-- The tokens of a template with the values put into its literals. -/
def documentTokens (σ : List Char → List Char) (mode : JsonToken.Mode) :
    List TemplatePiece → Option (JsonToken.Mode × List JsonToken)
  | [] => some (mode, [])
  | .char c :: ps =>
    (JsonToken.step mode c).bind fun read =>
      (documentTokens σ read.1 ps).map fun rest => (rest.1, read.2 ++ rest.2)
  | .hole path :: ps =>
    (documentTokens σ mode ps).map fun rest => (rest.1, (σ path).map .inside ++ rest.2)

/-- The holes stand inside of literals. -/
def HolesInside (mode : JsonToken.Mode) : List TemplatePiece → Prop
  | [] => True
  | .char c :: ps => ∀ mode' tokens, JsonToken.step mode c = some (mode', tokens) →
    HolesInside mode' ps
  | .hole _ :: ps => mode = .inside ∧ HolesInside .inside ps

/-- A JSON document with placeholders in its string literals only. -/
structure JsonTemplate (grammar : JsonGrammar) (template : List Char) : Prop where
  document : (grammar.fromStr template).isSome
  inside : HolesInside .outside (pieces template)

section
variable (grammar : JsonGrammar) (double : UInt64 → String)

/-- The text is that of one pass, and a document is the document with the values in its literals. -/
structure Interpolates (template : String) (event : Value) : Prop where
  text : interpolateText template.toList (extractContext double event) =
    simultaneous template.toList (extractContext double event)
  document : JsonTemplate grammar template.toList → ∃ tokens value,
    documentTokens (pathValue (extractContext double event)) .outside (pieces template.toList) =
      some (.outside, tokens) ∧
    grammar.build tokens = some value ∧ transform grammar double template event = .ok value

end

/-- The placeholders of some paths are filled already. -/
def filled (σ : List Char → List Char) (done : List (List Char)) (path : List Char) : List Char :=
  if done.contains path then σ path else placeholder path

/-- What is replaced is the template's own: with the placeholders before it filled, there is no other
    occurrence of a placeholder in the text, or it is replaced by itself. -/
def NeverRescanned (σ : List Char → List Char) (template : List Char) : Prop :=
  ∀ done path rest, captures template = done ++ path :: rest →
    σ path = placeholder path ∨
      OnlyHoles (filled σ done) (placeholder path) path (pieces template)

/-- The values can stand in a literal as they are. -/
def PlainValues (σ : List Char → List Char) (template : List Char) : Prop :=
  ∀ path ∈ captures template, ∀ c ∈ σ path, JsonToken.Plain c

/-! ### One pass -/

section
variable {σ : List Char → List Char} {template : List Char} {path : List Char}
  {done rest : List (List Char)}

theorem update_filled (σ : List Char → List Char) (done : List (List Char)) (path : List Char) :
    Function.update (filled σ done) path (σ path) = filled σ (done ++ [path]) := by
  funext path'
  by_cases h : path' = path
  · subst h
    rw [Function.update_self, filled,
      if_pos (List.contains_iff_mem.mpr (List.mem_append_right _ List.mem_cons_self))]
  · rw [Function.update_of_ne h, filled, filled]
    simp [h]

/-- Replacing one placeholder fills its holes. -/
theorem replaceAll_filled (h : σ path = placeholder path ∨
      OnlyHoles (filled σ done) (placeholder path) path (pieces template)) :
    replaceAll (placeholder path) (σ path) (render (filled σ done) (pieces template)) =
      render (filled σ (done ++ [path])) (pieces template) := by
  have hfilled : filled σ done path = placeholder path ∨ filled σ done path = σ path := by
    rw [filled]
    split
    · exact .inr rfl
    · exact .inl rfl
  rw [← update_filled]
  rcases h with hself | honly
  · have hkey : filled σ done path = σ path := hfilled.elim (fun h => h.trans hself.symm) id
    have hupdate := Function.update_eq_self path (filled σ done)
    rw [hkey] at hupdate
    rw [hupdate, hself, replaceAll_self (placeholder_ne_nil path)]
  · exact replaceAll_render (placeholder_ne_nil path) honly hfilled

theorem foldl_filled (h : NeverRescanned σ template) (hsplit : captures template = done ++ rest) :
    rest.foldl (fun result path => replaceAll (placeholder path) (σ path) result)
        (render (filled σ done) (pieces template)) =
      render (filled σ (captures template)) (pieces template) := by
  induction rest generalizing done with
  | nil => rw [hsplit, List.append_nil]; rfl
  | cons path rest ih =>
    rw [List.foldl_cons, replaceAll_filled (h done path rest hsplit)]
    exact ih (hsplit.trans (List.append_cons done path rest))

theorem interpolateText_eq {context : Context} (h : NeverRescanned (pathValue context) template) :
    interpolateText template context = simultaneous template context := by
  have hnone : render (filled (pathValue context) []) (pieces template) = template :=
    render_pieces template
  have hall : render (filled (pathValue context) (captures template)) (pieces template) =
      simultaneous template context :=
    render_congr fun path hpath => if_pos (List.contains_iff_mem.mpr hpath)
  have hfold := foldl_filled h (List.nil_append (captures template)).symm
  rwa [hnone, hall] at hfold

end

/-! ### Documents -/

section
variable {σ τ : List Char → List Char} {mode mode' : JsonToken.Mode} {ps : List TemplatePiece}
  {tokens : List JsonToken}

/-- A text that is plain stays within its literal. -/
theorem run_plain {text : List Char} (h : ∀ c ∈ text, JsonToken.Plain c) (rest : List Char) :
    JsonToken.run .inside (text ++ rest) =
      (JsonToken.run .inside rest).map fun read => (read.1, text.map .inside ++ read.2) := by
  induction text with
  | nil => simp
  | cons c text ih =>
    obtain ⟨hc, htext⟩ := List.forall_mem_cons.mp h
    rw [List.cons_append, JsonToken.run, JsonToken.step_plain hc, Option.bind_some, ih htext,
      Option.map_map]
    rfl

/-- With plain values the text is read as the document it should be. -/
theorem run_render (hplain : ∀ path ∈ holes ps, ∀ c ∈ σ path, JsonToken.Plain c)
    (hinside : HolesInside mode ps) :
    JsonToken.run mode (render σ ps) = documentTokens σ mode ps := by
  induction ps generalizing mode with
  | nil => rfl
  | cons p ps ih =>
    cases p with
    | char c =>
      rw [render, JsonToken.run, documentTokens]
      refine Option.bind_congr fun step hstep => ?_
      rw [ih hplain (hinside step.1 step.2 hstep)]
    | hole path =>
      obtain ⟨hpath, hrest⟩ := List.forall_mem_cons.mp hplain
      obtain ⟨rfl, hinside⟩ := hinside
      rw [render, run_plain hpath, ih hrest hinside, documentTokens]

theorem plain_placeholder {path : List Char} (h : IsPath path) :
    ∀ c ∈ placeholder path, JsonToken.Plain c := by
  have hopen : JsonToken.Plain '{' := by decide
  have hclose : JsonToken.Plain '}' := by decide
  intro c hc
  rw [placeholder, List.mem_cons, List.mem_cons, List.mem_append] at hc
  rcases hc with rfl | rfl | hc | hc
  · exact hopen
  · exact hopen
  · exact plain_of_isPathChar (h.chars c hc)
  · simp only [List.mem_cons, List.not_mem_nil, or_false, or_self] at hc
    exact hc ▸ hclose

/-- What is outside of the literals does not depend on the values. -/
theorem documentTokens_congr (τ : List Char → List Char)
    (h : documentTokens σ mode ps = some (mode', tokens)) :
    ∃ tokens', documentTokens τ mode ps = some (mode', tokens') ∧
      tokens.filter JsonToken.isOutside = tokens'.filter JsonToken.isOutside := by
  induction ps generalizing mode tokens with
  | nil => exact ⟨tokens, h, rfl⟩
  | cons p ps ih =>
    cases p with
    | char c =>
      rw [documentTokens] at h
      obtain ⟨⟨mode, read⟩, hstep, h⟩ := Option.bind_eq_some_iff.mp h
      obtain ⟨⟨_, rest⟩, hrest, heq⟩ := Option.map_eq_some_iff.mp h
      obtain ⟨rfl, rfl⟩ := Prod.mk.inj heq
      obtain ⟨rest', hrest', hfilter⟩ := ih hrest
      refine ⟨read ++ rest', ?_, by rw [List.filter_append, List.filter_append, hfilter]⟩
      rw [documentTokens, hstep, Option.bind_some, hrest']
      rfl
    | hole path =>
      rw [documentTokens] at h
      obtain ⟨⟨_, rest⟩, hrest, heq⟩ := Option.map_eq_some_iff.mp h
      obtain ⟨rfl, rfl⟩ := Prod.mk.inj heq
      obtain ⟨rest', hrest', hfilter⟩ := ih hrest
      refine ⟨(τ path).map .inside ++ rest', by rw [documentTokens, hrest']; rfl, ?_⟩
      have hinside : ∀ text : List Char,
          (text.map JsonToken.inside).filter JsonToken.isOutside = [] := by
        intro text
        rw [List.filter_eq_nil_iff]
        intro token htoken
        obtain ⟨c, -, rfl⟩ := List.mem_map.mp htoken
        exact Bool.false_ne_true
      rw [List.filter_append, List.filter_append, hinside, hinside, hfilter]

end

section
variable {grammar : JsonGrammar} {double : UInt64 → String} {template : List Char}

/-- The document with the values in its literals is one too. -/
theorem JsonTemplate.tokens (h : JsonTemplate grammar template) (σ : List Char → List Char) :
    ∃ tokens value, documentTokens σ .outside (pieces template) = some (.outside, tokens) ∧
      grammar.build tokens = some value := by
  obtain ⟨value, hvalue⟩ := Option.isSome_iff_exists.mp h.document
  obtain ⟨tokens, htokens, hbuild⟩ := Option.bind_eq_some_iff.mp hvalue
  obtain ⟨⟨mode, _⟩, hrun, hmode⟩ := Option.bind_eq_some_iff.mp htokens
  have hplain : ∀ path ∈ holes (pieces template), ∀ c ∈ placeholder path, JsonToken.Plain c :=
    fun path hpath => plain_placeholder (isPath_of_mem_captures hpath)
  have hrender := run_render hplain h.inside
  rw [render_pieces, hrun] at hrender
  dsimp only at hmode
  split at hmode
  · next houtside =>
    obtain rfl := Option.some.inj hmode
    subst houtside
    obtain ⟨tokens', htokens', hfilter⟩ := documentTokens_congr σ hrender.symm
    have haccepts := grammar.accepts _ _ hfilter
    rw [hbuild] at haccepts
    obtain ⟨value', hvalue'⟩ := Option.isSome_iff_exists.mp haccepts.symm
    exact ⟨tokens', value', htokens', hvalue'⟩
  · cases hmode

end

section
variable {grammar : JsonGrammar} {double : UInt64 → String} {template : String} {event : Value}

/-- What never rescans a value, and puts plain ones into a document, is one pass. -/
theorem interpolates_of_neverRescanned
    (hscan : NeverRescanned (pathValue (extractContext double event)) template.toList)
    (hplain : JsonTemplate grammar template.toList →
      PlainValues (pathValue (extractContext double event)) template.toList) :
    Interpolates grammar double template event := by
  have htext := interpolateText_eq hscan
  refine ⟨htext, fun hdocument => ?_⟩
  obtain ⟨tokens, value, htokens, hvalue⟩ :=
    hdocument.tokens (pathValue (extractContext double event))
  refine ⟨tokens, value, htokens, hvalue, ?_⟩
  have hrun := run_render (hplain hdocument) hdocument.inside
  rw [htokens] at hrun
  rw [transform, interpolateTemplate, htext, simultaneous, JsonGrammar.fromStr, JsonToken.ofText,
    hrun, Option.bind_some, if_pos rfl, Option.bind_some, hvalue]

end

/-! ### Events with texts of our choice -/

section
variable {double : UInt64 → String} {text : String → String} {map : List (String × Value)}

theorem flattenMembers_strings (h : ∀ e ∈ map, e.2 = .string (text e.1)) (context : Context)
    (key : String) : flattenMembers double "" map context key =
      if key ∈ map.map (·.1) then some (text key) else context key := by
  induction map generalizing context with
  | nil => rfl
  | cons e map ih =>
    obtain ⟨he, hrest⟩ := List.forall_mem_cons.mp h
    obtain ⟨key', value⟩ := e
    obtain rfl : value = .string (text key') := he
    rw [flattenMembers, if_pos rfl, flattenJson, ih hrest, Context.insert]
    simp only [List.map_cons, List.mem_cons]
    by_cases hmem : key ∈ map.map (·.1)
    · simp [hmem]
    · by_cases hkey : key = key'
      · subst hkey
        simp [hmem]
      · simp [hmem, hkey]

/-- One text for each of these paths. -/
def membersWith (text : String → String) : List (List Char) → List (String × Value)
  | [] => []
  | path :: paths =>
    insertMember (String.ofList path) (.string (text (String.ofList path))) (membersWith text paths)

def eventWith (text : String → String) (paths : List (List Char)) : Value :=
  .object (membersWith text paths)

theorem ordered_eventWith (text : String → String) (paths : List (List Char)) :
    (eventWith text paths).Ordered := by
  rw [eventWith, Value.Ordered, orderedMembers_iff]
  induction paths with
  | nil => exact ⟨.nil, nofun⟩
  | cons path paths ih =>
    refine ⟨pairwise_insertMember ih.1 _ _, fun e he => ?_⟩
    rcases mem_insertMember he with rfl | he
    · exact trivial
    · exact ih.2 e he

theorem string_of_mem_membersWith {paths : List (List Char)} {e : String × Value}
    (h : e ∈ membersWith text paths) : e.2 = .string (text e.1) := by
  induction paths with
  | nil => cases h
  | cons path paths ih =>
    rcases mem_insertMember h with rfl | h
    · rfl
    · exact ih h

theorem mem_keys_membersWith {paths : List (List Char)} {key : String} :
    key ∈ (membersWith text paths).map (·.1) ↔ key.toList ∈ paths := by
  induction paths with
  | nil => exact iff_of_false List.not_mem_nil List.not_mem_nil
  | cons path paths ih =>
    rw [membersWith, mem_keys_insertMember, ih, List.mem_cons, ← String.toList_inj,
      String.toList_ofList]

/-- The values are these texts, and there is nothing at other paths. -/
theorem pathValue_eventWith (text : String → String) (paths : List (List Char)) (path : List Char) :
    pathValue (extractContext double (eventWith text paths)) path =
      if path ∈ paths then (text (String.ofList path)).toList else [] := by
  rw [pathValue, extractContext, eventWith, flattenJson,
    flattenMembers_strings fun e he => string_of_mem_membersWith he]
  simp only [mem_keys_membersWith, String.toList_ofList]
  split <;> rfl

end

/-! ### A control character in a document -/

section
variable {σ : List Char → List Char} {mode mode' : JsonToken.Mode} {ps : List TemplatePiece}
  {tokens : List JsonToken}

/-- A line break in a literal is an error. -/
theorem run_render_newline (hσ : ∀ path, σ path = [] ∨ σ path = ['\n'])
    (hbreak : ∃ path ∈ holes ps, σ path = ['\n']) (hinside : HolesInside mode ps) :
    JsonToken.run mode (render σ ps) = none := by
  induction ps generalizing mode with
  | nil =>
    obtain ⟨path, hpath, -⟩ := hbreak
    cases hpath
  | cons p ps ih =>
    cases p with
    | char c =>
      rw [render, JsonToken.run, Option.bind_eq_none_iff]
      intro read hread
      rw [ih hbreak (hinside read.1 read.2 hread)]
      rfl
    | hole path =>
      obtain ⟨rfl, hinside⟩ := hinside
      rw [render]
      rcases hσ path with hnil | hnewline
      · obtain ⟨path', hmem, hpath'⟩ := hbreak
        rcases List.mem_cons.mp hmem with rfl | hmem
        · rw [hnil] at hpath'
          cases hpath'
        · rw [hnil, List.nil_append, ih ⟨path', hmem, hpath'⟩ hinside]
      · rw [hnewline]
        rfl

theorem length_documentTokens_le (h : documentTokens σ mode ps = some (mode', tokens)) :
    tokens.length ≤ (render σ ps).length := by
  induction ps generalizing mode tokens with
  | nil =>
    obtain ⟨-, rfl⟩ := Prod.mk.inj (Option.some.inj h)
    exact le_rfl
  | cons p ps ih =>
    cases p with
    | char c =>
      rw [documentTokens] at h
      obtain ⟨⟨mode, read⟩, hstep, h⟩ := Option.bind_eq_some_iff.mp h
      obtain ⟨⟨_, rest⟩, hrest, heq⟩ := Option.map_eq_some_iff.mp h
      obtain ⟨rfl, rfl⟩ := Prod.mk.inj heq
      have hone := JsonToken.length_step_le hstep
      have hlen := ih hrest
      change (read ++ rest).length ≤ (c :: render σ ps).length
      rw [List.length_cons, List.length_append]
      omega
    | hole path =>
      rw [documentTokens] at h
      obtain ⟨⟨_, rest⟩, hrest, heq⟩ := Option.map_eq_some_iff.mp h
      obtain ⟨rfl, rfl⟩ := Prod.mk.inj heq
      have hlen := ih hrest
      change ((σ path).map JsonToken.inside ++ rest).length ≤ (σ path ++ render σ ps).length
      rw [List.length_append, List.length_append, List.length_map]
      omega

/-- A document with a placeholder begins outside of its literals. -/
theorem head_documentTokens (hinside : HolesInside .outside ps) (hholes : holes ps ≠ [])
    (h : documentTokens σ .outside ps = some (mode', tokens)) :
    ∃ c rest, tokens = .outside c :: rest := by
  cases ps with
  | nil => exact absurd rfl hholes
  | cons p ps =>
    cases p with
    | char c =>
      rw [documentTokens, JsonToken.step] at h
      obtain ⟨⟨_, rest⟩, hrest, heq⟩ := Option.map_eq_some_iff.mp h
      obtain ⟨-, rfl⟩ := Prod.mk.inj heq
      exact ⟨c, rest, rfl⟩
    | hole path => cases hinside.1

end

/-- A document with a placeholder does not stay one for every event. -/
theorem captures_eq_nil_of_interpolates {grammar : JsonGrammar} {double : UInt64 → String}
    {template : String}
    (h : ∀ event : Value, event.Ordered → Interpolates grammar double template event)
    (hdocument : JsonTemplate grammar template.toList) : captures template.toList = [] := by
  by_contra hne
  obtain ⟨path, hpath⟩ := List.exists_mem_of_ne_nil _ hne
  have hevent := h _ (ordered_eventWith (fun _ => "\n") [path])
  have hvalue : ∀ path', pathValue
      (extractContext double (eventWith (fun _ => "\n") [path])) path' =
        if path' ∈ [path] then ['\n'] else [] := pathValue_eventWith _ _
  obtain ⟨tokens, value, htokens, hbuild, htransform⟩ := hevent.document hdocument
  have hrun : JsonToken.run .outside (simultaneous template.toList
      (extractContext double (eventWith (fun _ => "\n") [path]))) = none := by
    refine run_render_newline (fun path' => ?_) ⟨path, hpath, ?_⟩ hdocument.inside
    · rw [hvalue]
      split
      · exact .inr rfl
      · exact .inl rfl
    · rw [hvalue, if_pos List.mem_cons_self]
  rw [transform, interpolateTemplate, hevent.text, JsonGrammar.fromStr, JsonToken.ofText, hrun]
    at htransform
  obtain rfl := Except.ok.inj htransform
  have hinfix := grammar.strings _ _ _ _ hbuild List.mem_cons_self
  rw [String.toList_ofList] at hinfix
  have hlen := length_documentTokens_le htokens
  have heq := hinfix.sublist.eq_of_length_le (by rwa [List.length_map])
  obtain ⟨c, rest, rfl⟩ := head_documentTokens hdocument.inside hne htokens
  have hmem : JsonToken.outside c ∈ JsonToken.outside c :: rest := List.mem_cons_self
  rw [← heq] at hmem
  obtain ⟨d, -, hd⟩ := List.mem_map.mp hmem
  cases hd

/-! ### Two placeholders -/

section
variable {σ : List Char → List Char} {ps ws : List TemplatePiece} {path : List Char}
  {text : List Char}

theorem count_placeholder (h : IsPath path) : (placeholder path).count ' ' = 0 := by
  rw [List.count_eq_zero, placeholder, List.mem_cons, List.mem_cons, List.mem_append]
  rintro (h' | h' | hmem | hmem)
  · revert h'
    decide
  · revert h'
    decide
  · exact (isPathChar_ne_brace (h.chars _ hmem)).2.2 rfl
  · revert hmem
    decide

/-- The spaces that the values bring. -/
theorem count_render {p : List Char → Bool} (hpath : ∀ path ∈ holes ps, IsPath path)
    (hσ : ∀ path ∈ holes ps, (σ path).count ' ' = if p path then 1 else 0) :
    (render σ ps).count ' ' = (render placeholder ps).count ' ' + (holes ps).countP p := by
  induction ps with
  | nil => rfl
  | cons piece ps ih =>
    cases piece with
    | char c =>
      rw [render, render, List.count_cons, List.count_cons, ih hpath hσ]
      exact Nat.add_right_comm _ _ _
    | hole path =>
      obtain ⟨hfirst, hpath⟩ := List.forall_mem_cons.mp hpath
      obtain ⟨hvalue, hσ⟩ := List.forall_mem_cons.mp hσ
      rw [render, render, List.count_append, List.count_append, hvalue, count_placeholder hfirst,
        ih hpath hσ, holes, List.countP_cons]
      omega

/-- What becomes of the holes when one kind of them is replaced. -/
def refill (path : List Char) (ws : List TemplatePiece) (path' : List Char) : List TemplatePiece :=
  if path' = path then ws else [.hole path']

theorem holes_refill (path : List Char) (ws : List TemplatePiece) (path' : List Char) :
    holes (refill path ws path') = if path' = path then holes ws else [path'] := by
  rw [refill]
  split <;> rfl

theorem replaceAll_eq_refill (hpath : IsPath path) (text : List Char) :
    replaceAll (placeholder path) (render placeholder ws) text =
      render placeholder (bindHoles (refill path ws) (pieces text)) := by
  have hreplace := replaceAll_render (placeholder_ne_nil path) (onlyHoles_pieces hpath text)
    (.inl rfl : placeholder path = placeholder path ∨ _ = render placeholder ws)
  rw [render_pieces] at hreplace
  rw [hreplace, render_bindHoles]
  refine render_congr fun path' _ => ?_
  rw [refill]
  split
  · next heq => rw [heq, Function.update_self]
  · next hne => rw [Function.update_of_ne hne, render, render, List.append_nil]

/-- A space for every placeholder that is replaced. -/
theorem count_replaceAll (hpath : IsPath path) (hspace : (render placeholder ws).count ' ' = 1)
    (text : List Char) :
    (replaceAll (placeholder path) (render placeholder ws) text).count ' ' =
      text.count ' ' + (captures text).count path := by
  have hvalid : ∀ path ∈ holes (pieces text), IsPath path := fun _ => isPath_of_mem_captures
  rw [replaceAll_eq_refill hpath, render_bindHoles, count_render (p := (· == path)) hvalid,
    render_pieces]
  · rfl
  · intro path' hpath'
    rw [refill]
    by_cases heq : path' = path
    · rw [if_pos heq, hspace, if_pos (beq_iff_eq.mpr heq)]
    · rw [if_neg heq, if_neg (mt beq_iff_eq.mp heq), render, render, List.append_nil,
        count_placeholder (hvalid path' hpath')]

/-- The other placeholders are still there, with those that the value brings. -/
theorem captures_replaceAll (hpath : IsPath path) (hws : ∀ path ∈ holes ws, IsPath path)
    (text : List Char) :
    ((captures text).flatMap fun path' => if path' = path then holes ws else [path']).Sublist
      (captures (replaceAll (placeholder path) (render placeholder ws) text)) := by
  have hholes : holes (bindHoles (refill path ws) (pieces text)) =
      (captures text).flatMap fun path' => if path' = path then holes ws else [path'] := by
    rw [holes_bindHoles, captures]
    exact List.flatMap_congr fun path' _ => holes_refill path ws path'
  rw [replaceAll_eq_refill hpath, ← hholes]
  refine holes_sublist_captures fun path' hpath' => ?_
  rw [hholes] at hpath'
  obtain ⟨path'', hmem, hpath'⟩ := List.mem_flatMap.mp hpath'
  split at hpath'
  · exact hws path' hpath'
  · exact List.mem_singleton.mp hpath' ▸ isPath_of_mem_captures hmem

end

section
variable {σ : List Char → List Char} {ws : List Char → List TemplatePiece}
  {paths : List (List Char)}

/-- A placeholder is replaced, or its turn still comes. -/
theorem countP_flatMap_le (path : List Char) (paths new l : List (List Char)) :
    l.countP (· ∈ path :: paths) ≤ l.count path +
      (l.flatMap fun path' => if path' = path then new else [path']).countP (· ∈ paths) := by
  induction l with
  | nil => exact le_rfl
  | cons path' l ih =>
    rw [List.flatMap_cons, List.countP_append, List.countP_cons, List.count_cons]
    by_cases heq : path' = path
    · subst heq
      simp only [List.mem_cons_self, decide_true, if_true, beq_self_eq_true]
      omega
    · have hmem : decide (path' ∈ path :: paths) = decide (path' ∈ paths) :=
        decide_eq_decide.mpr (by rw [List.mem_cons, or_iff_right heq])
      rw [if_neg heq, hmem, List.countP_singleton]
      omega

/-- In every run a space is left for each placeholder whose turn comes. -/
theorem count_foldl_le (hpaths : ∀ path ∈ paths, IsPath path)
    (hσ : ∀ path ∈ paths, σ path = render placeholder (ws path))
    (hws : ∀ path ∈ paths, ∀ path' ∈ holes (ws path), IsPath path')
    (hspace : ∀ path ∈ paths, (render placeholder (ws path)).count ' ' = 1) (text : List Char) :
    text.count ' ' + (captures text).countP (· ∈ paths) ≤
      (paths.foldl (fun result path => replaceAll (placeholder path) (σ path) result) text).count
        ' ' := by
  induction paths generalizing text with
  | nil => simp
  | cons path paths ih =>
    obtain ⟨hpath, hpaths⟩ := List.forall_mem_cons.mp hpaths
    obtain ⟨hvalue, hσ⟩ := List.forall_mem_cons.mp hσ
    obtain ⟨hfirst, hws⟩ := List.forall_mem_cons.mp hws
    obtain ⟨hone, hspace⟩ := List.forall_mem_cons.mp hspace
    rw [List.foldl_cons, hvalue]
    have hrest := ih hpaths hσ hws hspace
      (replaceAll (placeholder path) (render placeholder (ws path)) text)
    rw [count_replaceAll hpath hone] at hrest
    have hkept := (captures_replaceAll hpath hfirst text).countP_le (p := (· ∈ paths))
    have hturn := countP_flatMap_le path paths (holes (ws path)) (captures text)
    omega

end

section
variable {σ : List Char → List Char} {path next template : List Char} {paths : List (List Char)}

/-- A space, and for one path the placeholder of another behind it. -/
def spaced (path next path' : List Char) : List TemplatePiece :=
  .char ' ' :: if path' = path then [.hole next] else []

theorem holes_spaced (path next path' : List Char) :
    holes (spaced path next path') = if path' = path then [next] else [] := by
  rw [spaced]
  split <;> rfl

theorem count_spaced (h : IsPath next) (path path' : List Char) :
    (render placeholder (spaced path next path')).count ' ' = 1 := by
  rw [spaced, render, List.count_cons]
  split
  · rw [render, render, List.append_nil, count_placeholder h]
    rfl
  · rfl

/-- One pass brings one space for each placeholder. -/
theorem count_onePass (hnext : IsPath next) (hσ : ∀ path' ∈ captures template,
      σ path' = render placeholder (spaced path next path')) :
    (render σ (pieces template)).count ' ' = template.count ' ' + (captures template).length := by
  have hone : ∀ path' ∈ holes (pieces template), (σ path').count ' ' = if true then 1 else 0 := by
    intro path' hpath'
    rw [hσ path' hpath', count_spaced hnext]
    rfl
  rw [count_render (fun _ => isPath_of_mem_captures) hone, render_pieces, List.countP_true]
  rfl

theorem countP_flatMap_eq {l : List (List Char)} (hnext : next ∈ paths)
    (hl : ∀ path' ∈ l, path' = path ∨ path' ∈ paths) :
    (l.flatMap fun path' => if path' = path then [next] else [path']).countP (· ∈ paths) =
      l.length := by
  induction l with
  | nil => rfl
  | cons path' l ih =>
    obtain ⟨hfirst, hl⟩ := List.forall_mem_cons.mp hl
    have hmem : (if path' = path then [next] else [path']).countP (· ∈ paths) = 1 := by
      split
      · simp [hnext]
      · next hne => simp [hfirst.resolve_left hne]
    rw [List.flatMap_cons, List.countP_append, ih hl, hmem, List.length_cons, Nat.add_comm]

/-- One after the other brings more, when the first value has the second placeholder in it. -/
theorem count_onePass_lt (hcaptures : captures template = path :: next :: paths)
    (hσ : ∀ path' ∈ captures template, σ path' = render placeholder (spaced path next path')) :
    template.count ' ' + (captures template).length < ((captures template).foldl
      (fun result path => replaceAll (placeholder path) (σ path) result) template).count ' ' := by
  have hmem : ∀ path' ∈ next :: paths, path' ∈ captures template := fun path' hpath' =>
    hcaptures ▸ List.mem_cons_of_mem path hpath'
  have hpath : path ∈ captures template := hcaptures ▸ List.mem_cons_self
  have hvalid : ∀ path' ∈ captures template, IsPath path' := fun _ => isPath_of_mem_captures
  have hnext : IsPath next := hvalid next (hmem next List.mem_cons_self)
  have hholes : ∀ path' path'', path'' ∈ holes (spaced path next path') → IsPath path'' := by
    intro path' path'' hpath''
    rw [holes_spaced] at hpath''
    split at hpath''
    · exact List.mem_singleton.mp hpath'' ▸ hnext
    · cases hpath''
  -- the first step leaves as many placeholders, and the turn of each of them still comes
  have hspace := count_replaceAll (hvalid path hpath) (count_spaced hnext path path) template
  have hkept := (captures_replaceAll (hvalid path hpath) (hholes path) template).countP_le
    (p := (· ∈ next :: paths))
  have hturn : ((captures template).flatMap fun path' =>
      if path' = path then holes (spaced path next path) else [path']).countP
        (· ∈ next :: paths) = (captures template).length := by
    rw [holes_spaced, if_pos rfl]
    exact countP_flatMap_eq List.mem_cons_self fun path' hpath' =>
      List.mem_cons.mp (hcaptures ▸ hpath')
  have hrun := count_foldl_le (fun path' hpath' => hvalid path' (hmem path' hpath'))
    (fun path' hpath' => hσ path' (hmem path' hpath')) (fun path' _ => hholes path')
    (fun path' _ => count_spaced hnext path path')
    (replaceAll (placeholder path) (render placeholder (spaced path next path)) template)
  have hpos : 0 < (captures template).count path := List.count_pos_iff.mpr hpath
  have hfold : (captures template).foldl
      (fun result path => replaceAll (placeholder path) (σ path) result) template =
        (next :: paths).foldl (fun result path => replaceAll (placeholder path) (σ path) result)
          (replaceAll (placeholder path) (render placeholder (spaced path next path)) template) := by
    rw [← hσ path hpath, hcaptures, List.foldl_cons]
  rw [hfold]
  omega

end

/-- With two placeholders, the first one's value can be another placeholder for the second one to
    replace. -/
theorem length_captures_le_of_interpolates {grammar : JsonGrammar} {double : UInt64 → String}
    {template : String}
    (h : ∀ event : Value, event.Ordered → Interpolates grammar double template event) :
    (captures template.toList).length ≤ 1 := by
  by_contra hlen
  obtain ⟨path, next, paths, hcaptures⟩ : ∃ path next paths,
      captures template.toList = path :: next :: paths := by
    revert hlen
    match captures template.toList with
    | [] => exact fun hlen => absurd (Nat.zero_le 1) hlen
    | [path] => exact fun hlen => absurd le_rfl hlen
    | path :: next :: paths => exact fun _ => ⟨path, next, paths, rfl⟩
  have hnext : IsPath next :=
    isPath_of_mem_captures (hcaptures ▸ List.mem_cons_of_mem path List.mem_cons_self)
  let text : String → String := fun key =>
    String.ofList (render placeholder (spaced path next key.toList))
  have hσ : ∀ path' ∈ captures template.toList,
      pathValue (extractContext double (eventWith text (captures template.toList))) path' =
        render placeholder (spaced path next path') := by
    intro path' hpath'
    rw [pathValue_eventWith, if_pos hpath', String.toList_ofList, String.toList_ofList]
  have htext := congrArg (List.count ' ')
    (h _ (ordered_eventWith text (captures template.toList))).text
  have hlt := count_onePass_lt hcaptures hσ
  have hpass := count_onePass hnext hσ
  rw [← hpass] at hlt
  exact absurd htext hlt.ne'

/-- With one placeholder nothing is rescanned. -/
theorem neverRescanned_of_length_le {template : List Char} (h : (captures template).length ≤ 1)
    (σ : List Char → List Char) : NeverRescanned σ template := by
  intro done path rest hsplit
  refine .inr ?_
  have hmem : path ∈ captures template :=
    hsplit ▸ List.mem_append_right done List.mem_cons_self
  have hdone : done = [] := by
    rw [hsplit, List.length_append, List.length_cons] at h
    exact List.length_eq_zero_iff.mp (by omega)
  have hfilled : filled σ [] = placeholder := rfl
  rw [hdone, hfilled]
  exact onlyHoles_pieces (isPath_of_mem_captures hmem) template

/-- Interpolation is one pass, and keeps a document whole, for every event that never has a value
    rescanned nor an unplain one in a document; and a template is safe from all events exactly if it
    has one placeholder at most, and none in a document. -/
theorem interpolates_iff (grammar : JsonGrammar) (double : UInt64 → String) (template : String) :
    (∀ event : Value, NeverRescanned (pathValue (extractContext double event)) template.toList →
      (JsonTemplate grammar template.toList →
        PlainValues (pathValue (extractContext double event)) template.toList) →
      Interpolates grammar double template event) ∧
    ((∀ event : Value, event.Ordered → Interpolates grammar double template event) ↔
      (captures template.toList).length ≤ 1 ∧
        (JsonTemplate grammar template.toList → captures template.toList = [])) := by
  refine ⟨fun event => interpolates_of_neverRescanned, ?_⟩
  constructor
  · intro h
    exact ⟨length_captures_le_of_interpolates h, captures_eq_nil_of_interpolates h⟩
  · rintro ⟨hlen, hdocument⟩ event -
    refine interpolates_of_neverRescanned (neverRescanned_of_length_le hlen _) fun hjson => ?_
    intro path hpath
    rw [hdocument hjson] at hpath
    cases hpath

/-! ### Two templates -/

/-- Documents of one string literal. -/
def literalGrammar : JsonGrammar where
  build tokens :=
    if tokens.filter JsonToken.isOutside = [.outside '"', .outside '"'] then
      some (.string (String.ofList (tokens.filterMap fun
        | .outside _ => none
        | .inside c => some c)))
    else none
  accepts tokens tokens' h := by
    rw [h]
    split <;> rfl
  strings tokens map key s h := by
    split at h <;> cases h

def eventX : Value := .object [("x", .string "a")]

theorem interpolates_literal :
    Interpolates literalGrammar (fun _ => "") "\"{{x}}\"" eventX := by
  have hcaptures : captures "\"{{x}}\"".toList = [['x']] := by decide
  refine (interpolates_iff literalGrammar (fun _ => "") "\"{{x}}\"").1 eventX
    (neverRescanned_of_length_le (by rw [hcaptures]; exact le_rfl) _) fun _ path hpath => ?_
  rw [hcaptures] at hpath
  obtain rfl := List.mem_singleton.mp hpath
  have hvalue : pathValue (extractContext (fun _ => "") eventX) ['x'] = ['a'] := by decide
  rw [hvalue]
  exact List.forall_mem_singleton.mpr (by decide)

def eventAB : Value := .object [("a", .string "{{b}}"), ("b", .string "x")]

/-- The value of `a` is expanded once more. -/
theorem not_interpolates_twice :
    interpolateText "{{a}}{{b}}".toList (extractContext (fun _ => "") eventAB) = ['x', 'x'] ∧
      ¬Interpolates literalGrammar (fun _ => "") "{{a}}{{b}}" eventAB := by
  have hpieces : pieces "{{a}}{{b}}".toList = [.hole ['a'], .hole ['b']] := by decide
  have hcaptures : captures "{{a}}{{b}}".toList = [['a'], ['b']] := by rw [captures, hpieces]; rfl
  have ha : pathValue (extractContext (fun _ => "") eventAB) ['a'] = ['{', '{', 'b', '}', '}'] := by
    decide
  have hb : pathValue (extractContext (fun _ => "") eventAB) ['b'] = ['x'] := by decide
  have htwice : interpolateText "{{a}}{{b}}".toList (extractContext (fun _ => "") eventAB) =
      ['x', 'x'] := by
    rw [interpolateText, hcaptures, List.foldl_cons, List.foldl_cons, List.foldl_nil, ha, hb]
    decide
  refine ⟨htwice, fun h => ?_⟩
  have htext := h.text
  rw [htwice, simultaneous, hpieces, render, render, render, ha, hb] at htext
  cases htext

end SorobanPulse.Webhook
