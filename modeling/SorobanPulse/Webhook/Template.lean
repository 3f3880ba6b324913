import SorobanPulse.JsonText
import SorobanPulse.Lib.JsonTokens
import SorobanPulse.Lib.ReplaceAll

/-! Templates of webhook payloads: `transform`.

        {"contract":"{{contract_id}}"}    event    ──▶    {"contract":"CA123"}

    The event is flattened to texts by their paths. For every placeholder of the template, in turn,
    all its occurrences in the text so far are replaced; what comes out is parsed as JSON, and put
    into an object as it is if that fails.

    The grammar of JSON above its tokens is a parameter. -/

namespace SorobanPulse.Webhook
open Lib

/-! ### Placeholders -/

/-- `[a-zA-Z0-9_\.\[\]]` -/
def isPathChar (c : Char) : Bool := c.isAlphanum || c = '_' || c = '.' || c = '[' || c = ']'

/-- `{{path}}` -/
def placeholder (path : List Char) : List Char := '{' :: '{' :: (path ++ ['}', '}'])

/-- What `\{\{([a-zA-Z0-9_\.\[\]]+)\}\}` captures where it matches at the start of a text. -/
def matchPath : List Char → Option (List Char)
  | '{' :: '{' :: rest =>
    let path := rest.takeWhile isPathChar
    if path ≠ [] ∧ ['}', '}'] <+: rest.dropWhile isPathChar then some path else none
  | _ => none

abbrev TemplatePiece := Piece Char (List Char)

/-- `skip` characters belong to the match before them. -/
def piecesFrom : ℕ → List Char → List TemplatePiece
  | _, [] => []
  | skip + 1, _ :: text => piecesFrom skip text
  | 0, c :: text =>
    match matchPath (c :: text) with
    | some path => .hole path :: piecesFrom (path.length + 3) text
    | none => .char c :: piecesFrom 0 text

/-- The template as the regex splits it. -/
def pieces (template : List Char) : List TemplatePiece := piecesFrom 0 template

/-- `captures_iter`: the paths of the matches, from left to right. -/
def captures (template : List Char) : List (List Char) := holes (pieces template)

/-! ### Flattening -/

/-- A `HashMap<String, String>`. -/
abbrev Context := String → Option String

def Context.insert (context : Context) (key value : String) : Context :=
  Function.update context key (some value)

section
variable (double : UInt64 → String)

mutual
/-- `flatten_json` -/
def flattenJson (pre : String) (value : Value) (context : Context) : Context :=
  match value with
  | .object map => flattenMembers pre map context
  | .array arr => flattenItems pre 0 arr context
  | .string s => context.insert pre s
  | .number n => context.insert pre (jsonText double (.number n))
  | .bool b => context.insert pre (jsonText double (.bool b))
  | .null => context.insert pre "null"

def flattenMembers (pre : String) (map : List (String × Value)) (context : Context) : Context :=
  match map with
  | [] => context
  | (key, val) :: rest =>
    let newKey := if pre = "" then key else pre ++ "." ++ key
    flattenMembers pre rest (flattenJson newKey val context)

def flattenItems (pre : String) (idx : ℕ) (arr : List Value) (context : Context) : Context :=
  match arr with
  | [] => context
  | val :: rest =>
    let newKey := pre ++ "[" ++ toString idx ++ "]"
    flattenItems pre (idx + 1) rest (flattenJson newKey val context)
end

def extractContext (event : Value) : Context := flattenJson double "" event fun _ => none

end

/-! ### Interpolation -/

/-- `context.get(var_path).cloned().unwrap_or_else(|| "".to_string())` -/
def pathValue (context : Context) (path : List Char) : List Char :=
  ((context (String.ofList path)).getD "").toList

/-- The loop of `interpolate_template`. -/
def interpolateText (template : List Char) (context : Context) : List Char :=
  (captures template).foldl
    (fun result path => replaceAll (placeholder path) (pathValue context path) result) template

/-- What `serde_json::from_str` makes of the tokens of a text. Whether it accepts them is decided
    outside of the literals, and the strings in an object are what its literals hold. -/
structure JsonGrammar where
  build : List JsonToken → Option Value
  accepts : ∀ tokens tokens', tokens.filter JsonToken.isOutside = tokens'.filter JsonToken.isOutside →
    (build tokens).isSome = (build tokens').isSome
  strings : ∀ tokens map key s, build tokens = some (.object map) → (key, .string s) ∈ map →
    s.toList.map .inside <:+: tokens

/-- `serde_json::from_str(text).ok()` -/
def JsonGrammar.fromStr (grammar : JsonGrammar) (text : List Char) : Option Value :=
  (JsonToken.ofText text).bind grammar.build

/-- `interpolate_template` -/
def interpolateTemplate (grammar : JsonGrammar) (template : List Char) (context : Context) :
    Except String Value :=
  let result := interpolateText template context
  match grammar.fromStr result with
  | some value => .ok value
  | none => .ok (.object [("result", .string (String.ofList result))])

/-- `WebhookTemplate::transform` -/
def transform (grammar : JsonGrammar) (double : UInt64 → String) (template : String)
    (event : Value) : Except String Value :=
  interpolateTemplate grammar template.toList (extractContext double event)

end SorobanPulse.Webhook

/-! How the regex splits a template: every `{{path}}` in a text is a match of its own.

    A path has no brace in it, so no two matches overlap, and where a text is put together from
    characters and placeholders the placeholders are found again. -/

namespace SorobanPulse.Webhook
open Lib

/-- What `[a-zA-Z0-9_\.\[\]]+` matches. -/
structure IsPath (path : List Char) : Prop where
  nonempty : path ≠ []
  chars : ∀ c ∈ path, isPathChar c = true

section
variable {path path' rest pre post text : List Char} {c : Char}

theorem isPathChar_ne_brace (h : isPathChar c = true) : c ≠ '{' ∧ c ≠ '}' ∧ c ≠ ' ' := by
  refine ⟨?_, ?_, ?_⟩ <;> (rintro rfl; revert h; decide)

theorem plain_of_isPathChar (h : isPathChar c = true) : JsonToken.Plain c := by
  refine ⟨?_, ?_, ?_⟩
  · rintro rfl
    revert h
    decide
  · rintro rfl
    revert h
    decide
  · have hcontrol : ∀ n < 32, isPathChar (Char.ofNat n) = false := by decide
    by_contra hlt
    have hfalse := hcontrol c.toNat (Nat.not_le.mp hlt)
    rw [Char.ofNat_toNat, h] at hfalse
    cases hfalse

theorem placeholder_append (path post : List Char) :
    placeholder path ++ post = '{' :: '{' :: (path ++ '}' :: '}' :: post) := by
  simp [placeholder]

theorem placeholder_ne_nil (path : List Char) : placeholder path ≠ [] := List.cons_ne_nil _ _

theorem takeWhile_path (h : ∀ c ∈ path, isPathChar c = true) (post : List Char) :
    (path ++ '}' :: post).takeWhile isPathChar = path ∧
      (path ++ '}' :: post).dropWhile isPathChar = '}' :: post := by
  have hbrace : isPathChar '}' = false := by decide
  rw [List.takeWhile_append_of_pos h, List.dropWhile_append_of_pos h, List.takeWhile_cons,
    List.dropWhile_cons, hbrace]
  exact ⟨List.append_nil path, rfl⟩

theorem matchPath_eq_some : matchPath text = some path ↔ IsPath path ∧ placeholder path <+: text := by
  constructor
  · intro h
    unfold matchPath at h
    split at h
    · next rest =>
      dsimp only at h
      split at h
      · next hmatch =>
        obtain rfl := Option.some.inj h
        obtain ⟨post, hpost⟩ := hmatch.2
        refine ⟨⟨hmatch.1, fun c hc => List.mem_takeWhile_imp hc⟩, post, ?_⟩
        have hrest := List.takeWhile_append_dropWhile (p := isPathChar) (l := rest)
        rw [placeholder_append]
        conv_rhs => rw [← hrest, ← hpost]
        rfl
      · cases h
    · cases h
  · rintro ⟨hpath, post, rfl⟩
    obtain ⟨htake, hdrop⟩ := takeWhile_path hpath.chars ('}' :: post)
    rw [placeholder_append, matchPath, htake, hdrop]
    exact if_pos ⟨hpath.nonempty, List.prefix_append ['}', '}'] post⟩

/-- Two matches at one place are the same. -/
theorem placeholder_append_inj (h : IsPath path) (h' : IsPath path')
    (heq : placeholder path ++ rest = placeholder path' ++ post) : path = path' := by
  have hmatch : matchPath (placeholder path ++ rest) = some path :=
    matchPath_eq_some.mpr ⟨h, List.prefix_append _ _⟩
  have hmatch' : matchPath (placeholder path ++ rest) = some path' :=
    matchPath_eq_some.mpr ⟨h', heq ▸ List.prefix_append _ _⟩
  exact Option.some.inj (hmatch.symm.trans hmatch')

/-- A text that has no such character ends before one. -/
theorem prefix_of_append_cons {xs : List Char} (hc : c ∉ xs)
    (h : xs ++ rest = pre ++ c :: post) : ∃ pre', pre = xs ++ pre' ∧ rest = pre' ++ c :: post := by
  rcases List.append_eq_append_iff.mp h with ⟨pre', hpre, hrest⟩ | ⟨xs', hxs, htail⟩
  · exact ⟨pre', hpre, hrest⟩
  · cases xs' with
    | nil => exact ⟨[], by rw [hxs, List.append_nil, List.append_nil], htail.symm⟩
    | cons x xs' =>
      obtain ⟨rfl, -⟩ := List.cons.inj htail
      exact absurd (hxs ▸ List.mem_append_right pre List.mem_cons_self) hc

theorem not_brace_mem (h : IsPath path) : '{' ∉ path ++ ['}', '}'] := by
  intro hmem
  rcases List.mem_append.mp hmem with hmem | hmem
  · exact (isPathChar_ne_brace (h.chars _ hmem)).1 rfl
  · revert hmem
    decide

/-- The next match starts behind this one. -/
theorem placeholder_disjoint (h : IsPath path) (hpre : pre ≠ [])
    (heq : placeholder path ++ rest = pre ++ (placeholder path' ++ post)) :
    ∃ pre', pre = placeholder path ++ pre' ∧ rest = pre' ++ (placeholder path' ++ post) := by
  have hbraces := not_brace_mem h
  rw [placeholder_append path'] at heq ⊢
  simp only [placeholder, List.cons_append] at heq ⊢
  match pre with
  | [] => exact absurd rfl hpre
  | [x] =>
    -- the second brace would be the first character of the path
    simp only [List.cons_append, List.cons.injEq, List.nil_append] at heq
    obtain ⟨-, -, heq⟩ := heq
    cases path with
    | nil => exact absurd rfl h.nonempty
    | cons y path =>
      obtain ⟨rfl, -⟩ := List.cons.inj heq
      exact absurd List.mem_cons_self hbraces
  | x :: y :: pre =>
    simp only [List.cons_append, List.cons.injEq] at heq
    obtain ⟨rfl, rfl, heq⟩ := heq
    obtain ⟨pre', rfl, hrest⟩ := prefix_of_append_cons hbraces heq
    exact ⟨pre', rfl, hrest⟩

/-! ### The pieces of a template -/

theorem piecesFrom_eq_drop (skip : ℕ) (text : List Char) :
    piecesFrom skip text = pieces (text.drop skip) := by
  induction text generalizing skip with
  | nil => cases skip <;> rfl
  | cons c text ih =>
    cases skip with
    | zero => rfl
    | succ skip => exact ih skip

theorem pieces_cons (h : matchPath (c :: text) = none) :
    pieces (c :: text) = .char c :: pieces text := by
  rw [pieces, piecesFrom, h]
  rfl

theorem pieces_placeholder (h : IsPath path) (rest : List Char) :
    pieces (placeholder path ++ rest) = .hole path :: pieces rest := by
  have hmatch : matchPath (placeholder path ++ rest) = some path :=
    matchPath_eq_some.mpr ⟨h, List.prefix_append _ _⟩
  have hdrop : ('{' :: (path ++ '}' :: '}' :: rest)).drop (path.length + 3) = rest := by
    rw [List.drop_succ_cons, ← List.drop_drop, List.drop_left]
    rfl
  rw [placeholder_append] at hmatch ⊢
  rw [pieces, piecesFrom, hmatch]
  dsimp only
  rw [piecesFrom_eq_drop, hdrop]

/-- A template is empty, or it starts with a match, or with a character that is none. -/
theorem pieces_cases (text : List Char) :
    text = [] ∨ (∃ path rest, IsPath path ∧ text = placeholder path ++ rest) ∨
      ∃ c rest, matchPath (c :: rest) = none ∧ text = c :: rest := by
  cases text with
  | nil => exact .inl rfl
  | cons c rest =>
    cases hmatch : matchPath (c :: rest) with
    | none => exact .inr (.inr ⟨c, rest, hmatch, rfl⟩)
    | some path =>
      obtain ⟨hpath, rest, hrest⟩ := matchPath_eq_some.mp hmatch
      exact .inr (.inl ⟨path, rest, hpath, hrest.symm⟩)

theorem length_placeholder (path : List Char) : (placeholder path).length = path.length + 4 := by
  simp [placeholder]

/-- The template put together again. -/
theorem render_pieces (template : List Char) : render placeholder (pieces template) = template := by
  induction hn : template.length using Nat.strong_induction_on generalizing template with
  | _ n ih =>
    rcases pieces_cases template with rfl | ⟨path, rest, hpath, rfl⟩ | ⟨c, rest, hmatch, rfl⟩
    · rfl
    · rw [List.length_append, length_placeholder] at hn
      rw [pieces_placeholder hpath, render, ih rest.length (by omega) rest rfl]
    · rw [List.length_cons] at hn
      rw [pieces_cons hmatch, render, ih rest.length (by omega) rest rfl]

theorem isPath_of_mem_captures {template : List Char} (h : path ∈ captures template) :
    IsPath path := by
  induction hn : template.length using Nat.strong_induction_on generalizing template with
  | _ n ih =>
    rw [captures] at h
    rcases pieces_cases template with rfl | ⟨path', rest, hpath, rfl⟩ | ⟨c, rest, hmatch, rfl⟩
    · cases h
    · rw [List.length_append, length_placeholder] at hn
      rw [pieces_placeholder hpath, holes] at h
      rcases List.mem_cons.mp h with rfl | h
      · exact hpath
      · exact ih rest.length (by omega) h rfl
    · rw [List.length_cons] at hn
      rw [pieces_cons hmatch, holes] at h
      exact ih rest.length (by omega) h rfl

/-- Every occurrence of a placeholder in a template is one of its matches. -/
theorem onlyHoles_pieces (h : IsPath path) (template : List Char) :
    OnlyHoles placeholder (placeholder path) path (pieces template) := by
  intro pre post heq
  refine ⟨rfl, ?_⟩
  rw [render_pieces] at heq
  induction hn : template.length using Nat.strong_induction_on generalizing template pre with
  | _ n ih =>
    rcases pieces_cases template with rfl | ⟨path', rest, hpath, rfl⟩ | ⟨c, rest, hmatch, rfl⟩
    · have hnil := (List.append_eq_nil_iff.mp heq.symm).2
      exact absurd (List.append_eq_nil_iff.mp hnil).1 (placeholder_ne_nil path)
    · rw [pieces_placeholder hpath]
      by_cases hpre : pre = []
      · subst hpre
        obtain rfl := placeholder_append_inj hpath h heq
        exact ⟨[], pieces rest, rfl, rfl⟩
      · obtain ⟨pre', rfl, hrest⟩ := placeholder_disjoint hpath hpre heq
        rw [List.length_append, length_placeholder] at hn
        obtain ⟨before, after, hsplit, hbefore⟩ := ih rest.length (by omega) rest pre' hrest rfl
        exact ⟨.hole path' :: before, after, by rw [hsplit]; rfl, by rw [render, hbefore]⟩
    · rw [pieces_cons hmatch]
      cases pre with
      | nil =>
        have hpath := matchPath_eq_some.mpr ⟨h, post, heq.symm⟩
        rw [hmatch] at hpath
        cases hpath
      | cons x pre =>
        obtain ⟨rfl, hrest⟩ := List.cons.inj heq
        rw [List.length_cons] at hn
        obtain ⟨before, after, hsplit, hbefore⟩ := ih rest.length (by omega) rest pre hrest rfl
        exact ⟨.char c :: before, after, by rw [hsplit]; rfl, by rw [render, hbefore]⟩

/-! ### Texts with placeholders -/

variable {ps : List TemplatePiece} {region : List Char}

/-- A text without an opening brace holds no placeholder. -/
theorem holes_of_render_append (hregion : '{' ∉ region)
    (h : render placeholder ps = region ++ post) :
    ∃ qs, holes ps = holes qs ∧ render placeholder qs = post ∧ qs.length ≤ ps.length := by
  induction region generalizing ps with
  | nil => exact ⟨ps, rfl, h, le_rfl⟩
  | cons x region ih =>
    rw [List.mem_cons, not_or] at hregion
    obtain ⟨hx, hregion⟩ := hregion
    cases ps with
    | nil => cases h
    | cons p ps =>
      cases p with
      | char c =>
        obtain ⟨qs, hholes, hqs, hlen⟩ := ih hregion (List.cons.inj h).2
        exact ⟨qs, hholes, hqs, hlen.trans (Nat.le_succ _)⟩
      | hole path => exact absurd (List.cons.inj h).1 hx

/-- The placeholders of a text are all found in it, and maybe others between them. -/
theorem holes_sublist_captures (h : ∀ path ∈ holes ps, IsPath path) :
    (holes ps).Sublist (captures (render placeholder ps)) := by
  induction hn : ps.length using Nat.strong_induction_on generalizing ps with
  | _ n ih =>
    cases ps with
    | nil => exact List.nil_sublist _
    | cons p ps =>
      rw [List.length_cons] at hn
      cases p with
      | hole path =>
        obtain ⟨hpath, hrest⟩ := List.forall_mem_cons.mp h
        rw [render, captures, pieces_placeholder hpath]
        exact (ih ps.length (by omega) hrest rfl).cons_cons path
      | char c =>
        rw [render, captures]
        cases hmatch : matchPath (c :: render placeholder ps) with
        | none =>
          rw [pieces_cons hmatch]
          exact ih ps.length (by omega) (show ∀ path ∈ holes ps, IsPath path from h) rfl
        | some path =>
          obtain ⟨hpath, rest, hrest⟩ := matchPath_eq_some.mp hmatch
          have htail := hrest
          rw [placeholder_append] at htail
          have htail := (List.cons.inj htail).2
          rw [← hrest, pieces_placeholder hpath]
          -- the characters of the match are no holes
          cases ps with
          | nil => cases htail
          | cons p ps =>
            cases p with
            | hole path' =>
              have hfirst := (List.cons.inj htail).2
              obtain ⟨x, path, rfl⟩ := List.exists_cons_of_ne_nil hpath.nonempty
              have hx := hpath.chars x List.mem_cons_self
              rw [(List.cons.inj hfirst).1] at hx
              exact absurd rfl (isPathChar_ne_brace hx).1
            | char d =>
              have hregion : render placeholder ps = (path ++ ['}', '}']) ++ rest := by
                rw [← (List.cons.inj htail).2, List.append_assoc]
                rfl
              obtain ⟨qs, hholes, rfl, hlen⟩ :=
                holes_of_render_append (not_brace_mem hpath) hregion
              rw [List.length_cons] at hn
              have hvalid : ∀ path ∈ holes qs, IsPath path := hholes ▸ h
              have hsub := ih qs.length (by omega) hvalid rfl
              rw [← hholes] at hsub
              exact hsub.cons path

end

end SorobanPulse.Webhook
