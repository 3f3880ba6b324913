import SorobanPulse.Notifications.ContentFilter

/-! Which paths of a content filter select what they name.

        $.transfer['to'][0]    ──▶    member "transfer", member "to", element 0

    Every step is read back as written, with three exceptions, all in brackets: a key ends at its
    first `]`, it loses the quotes it begins and ends with, and an index that is no `usize` is
    a key. -/

namespace SorobanPulse.Notifications
open Lib
open Events (isWhitespace)

/-- A step in the documented syntax. -/
inductive Rendering where
  | dotted (key : String) (nonempty : key ≠ "") (plain : ∀ c ∈ key.toList, c ≠ '.' ∧ c ≠ '[')
  | quoted (quote : Char) (isQuote : isQuote quote = true) (key : String) (nonempty : key ≠ "")
  | index (i : ℕ)

namespace Rendering

def step : Rendering → Step
  | dotted key _ _ => .member key
  | quoted _ _ key _ => .member key
  | index i => .element i

def text : Rendering → List Char
  | dotted key _ _ => '.' :: key.toList
  | quoted quote _ key _ => '[' :: quote :: (key.toList ++ [quote, ']'])
  | index i => '[' :: (Nat.toDigits 10 i ++ [']'])

/-- What brackets leave as it is. -/
def Clean : Rendering → Prop
  | dotted _ _ _ => True
  | quoted _ _ key _ =>
    ']' ∉ key.toList ∧ (∀ c ∈ key.toList.head?, isQuote c = false) ∧
      ∀ c ∈ key.toList.getLast?, isQuote c = false
  | index i => i < 2 ^ 64

end Rendering

/-- `$`, and the steps behind it. -/
def renderPath (steps : List Rendering) : String :=
  String.ofList ('$' :: steps.flatMap Rendering.text)

/-- The path is accepted, whatever the filter does with the value, and selects what its steps lead
    to in every document. -/
structure Selects (steps : List Rendering) : Prop where
  accepted : ∀ (regexNew : RegexNew) (op : FilterOp) (value : String),
    (op = .Matches → ∃ re, regexNew value = .ok re) →
      ContentFilter.validate regexNew ⟨renderPath steps, op, value⟩ = .ok ()
  selects : ∀ data, (parsePath (renderPath steps)).bind (resolve data) =
    data.locate (steps.map Rendering.step)

/-! ### One step -/

section
variable {inner key rest : List Char} {i : ℕ}

/-- What can stand behind a step: nothing, or the next one. -/
def StepsFollow (rest : List Char) : Prop := ∀ c ∈ rest.head?, c = '.' ∨ c = '['

theorem stepsFollow_flatMap (steps : List Rendering) :
    StepsFollow (steps.flatMap Rendering.text) := by
  intro c hc
  cases steps with
  | nil => cases hc
  | cons r steps =>
    cases r with
    | dotted key nonempty plain => exact .inl (Option.some.inj hc).symm
    | quoted quote isQuote key nonempty => exact .inr (Option.some.inj hc).symm
    | index i => exact .inr (Option.some.inj hc).symm

theorem parseSegments_dot (hkey : key ≠ []) (hplain : ∀ c ∈ key, c ≠ '.' ∧ c ≠ '[')
    (hrest : StepsFollow rest) : parseSegments ('.' :: (key ++ rest)) =
      (parseSegments rest).map (.member (String.ofList key) :: ·) := by
  have hstay : ∀ c ∈ key, (!(decide (c = '.') || decide (c = '['))) = true := by
    intro c hc
    simp [hplain c hc]
  have hstop : ∀ c ∈ rest.head?, (!(decide (c = '.') || decide (c = '['))) = false := by
    intro c hc
    rcases hrest c hc with rfl | rfl <;> rfl
  have htake : rest.takeWhile (fun c => !(decide (c = '.') || decide (c = '['))) = [] := by
    cases rest with
    | nil => rfl
    | cons c rest => rw [List.takeWhile_cons, hstop c rfl]; rfl
  rw [parseSegments, if_pos rfl]
  dsimp only
  rw [List.takeWhile_append_of_pos hstay, List.dropWhile_append_of_pos hstay, htake,
    List.append_nil, if_neg hkey, dropWhile_eq_self_iff.mpr hstop]

theorem parseSegments_bracket (hinner : ']' ∉ inner) :
    parseSegments ('[' :: (inner ++ ']' :: rest)) =
      (bracketSegment inner).bind fun s => (parseSegments rest).map (s :: ·) := by
  have hstay : ∀ c ∈ inner, decide (c ≠ ']') = true := by
    intro c hc
    rw [decide_eq_true_eq]
    rintro rfl
    exact hinner hc
  have htake : (inner ++ ']' :: rest).takeWhile (· ≠ ']') = inner := by
    rw [List.takeWhile_append_of_pos hstay]
    simp
  have hdrop : (inner ++ ']' :: rest).dropWhile (· ≠ ']') = ']' :: rest := by
    rw [List.dropWhile_append_of_pos hstay]
    simp
  rw [parseSegments, if_neg (by decide), if_pos rfl]
  dsimp only
  rw [htake]
  split
  · next h =>
    rw [hdrop] at h
    cases h
  · next h =>
    rw [hdrop] at h
    obtain ⟨-, rfl⟩ := List.cons.inj h
    rfl

theorem not_isWhitespace_of_isQuote {c : Char} (h : isQuote c = true) : isWhitespace c = false := by
  rw [isQuote, Bool.or_eq_true, decide_eq_true_eq, decide_eq_true_eq] at h
  rcases h with rfl | rfl <;> decide

theorem not_isDigit_of_isQuote {c : Char} (h : isQuote c = true) : c ≠ '+' ∧ c.isDigit = false := by
  rw [isQuote, Bool.or_eq_true, decide_eq_true_eq, decide_eq_true_eq] at h
  rcases h with rfl | rfl <;> decide

/-- Behind a quote the bracket holds a key. -/
theorem bracketSegment_quote {quote : Char} (hquote : isQuote quote = true) (cs : List Char) :
    bracketSegment (quote :: cs) =
      if trimMatches isQuote (quote :: cs.rdropWhile isWhitespace) = [] then none
      else some (.member (String.ofList
        (trimMatches isQuote (quote :: cs.rdropWhile isWhitespace)))) := by
  obtain ⟨hplus, hdigit⟩ := not_isDigit_of_isQuote hquote
  rw [bracketSegment, trimMatches_cons_of_neg (not_isWhitespace_of_isQuote hquote)]
  dsimp only
  rw [parseUnsigned_eq_none List.mem_cons_self hplus hdigit]

theorem bracketSegment_quoted {quote : Char} (hquote : isQuote quote = true) (key : List Char) :
    bracketSegment (quote :: (key ++ [quote])) =
      if trimMatches isQuote key = [] then none
      else some (.member (String.ofList (trimMatches isQuote key))) := by
  rw [bracketSegment_quote hquote, List.rdropWhile_concat_neg _ _ _
    (Bool.eq_false_iff.mp (not_isWhitespace_of_isQuote hquote)), trimMatches_around hquote]

theorem not_isWhitespace_of_isDigit {c : Char} (h : c.isDigit = true) : isWhitespace c = false := by
  have hlow : 48 ≤ c.toNat := (Char.isDigit_iff_toNat.mp h).1
  have hhigh : c.toNat ≤ 57 := (Char.isDigit_iff_toNat.mp h).2
  simp [isWhitespace]
  omega

theorem trimMatches_digits {p : Char → Bool} (hp : ∀ c : Char, c.isDigit = true → p c = false)
    (i : ℕ) : trimMatches p (Nat.toDigits 10 i) = Nat.toDigits 10 i := by
  have hdigit : ∀ c ∈ Nat.toDigits 10 i, p c = false := fun c hc =>
    hp c (Nat.isDigit_of_mem_toDigits (by decide) (by decide) hc)
  exact trimMatches_eq_self_iff.mpr ⟨fun c hc => hdigit c (List.mem_of_mem_head? hc),
    fun c hc => hdigit c (List.mem_of_mem_getLast? hc)⟩

/-- An index that is no `usize` is a key. -/
theorem bracketSegment_index (i : ℕ) : bracketSegment (Nat.toDigits 10 i) =
    if i < 2 ^ 64 then some (.element i) else some (.member (String.ofList (Nat.toDigits 10 i))) := by
  have hquote : ∀ c : Char, c.isDigit = true → isQuote c = false := by
    intro c hc
    by_contra h
    rw [(not_isDigit_of_isQuote (Bool.not_eq_false _ ▸ h)).2] at hc
    cases hc
  rw [bracketSegment, trimMatches_digits fun _ => not_isWhitespace_of_isDigit]
  dsimp only
  rw [trimMatches_digits hquote, ← decimal_zero]
  by_cases h : i < 2 ^ 64
  · rw [parseUnsigned_decimal h, if_pos h]
  · rw [parseUnsigned_decimal_of_le (not_lt.mp h), if_neg h]
    exact if_neg (decimal_ne_nil 0 i)

end

/-! ### Whole paths -/

section
variable {r : Rendering} {rest : List Char} {segments : List Segment}

theorem not_mem_cons_quote {quote : Char} (hquote : isQuote quote = true) {cs : List Char}
    (h : ']' ∉ cs) : ']' ∉ quote :: cs := by
  intro hmem
  rcases List.mem_cons.mp hmem with rfl | hmem
  · cases hquote
  · exact h hmem

theorem not_mem_quoted {quote : Char} (hquote : isQuote quote = true) {cs : List Char}
    (h : ']' ∉ cs) : ']' ∉ quote :: (cs ++ [quote]) := by
  refine not_mem_cons_quote hquote fun hmem => ?_
  rcases List.mem_append.mp hmem with hmem | hmem
  · exact h hmem
  · obtain rfl := List.mem_singleton.mp hmem
    cases hquote

theorem text_quoted {quote : Char} {hquote : isQuote quote = true} {key : String}
    {nonempty : key ≠ ""} : (Rendering.quoted quote hquote key nonempty).text ++ rest =
      '[' :: ((quote :: (key.toList ++ [quote])) ++ ']' :: rest) := by
  rw [Rendering.text]
  simp

/-- A step that is clean is read back. -/
theorem parse_of_clean (hr : r.Clean) (hrest : StepsFollow rest) :
    parseSegments (r.text ++ rest) = (parseSegments rest).map (r.step :: ·) := by
  cases r with
  | dotted key nonempty plain =>
    have hkey : key.toList ≠ [] := fun h => nonempty (String.toList_eq_nil_iff.mp h)
    rw [Rendering.text, List.cons_append, parseSegments_dot hkey plain hrest, String.ofList_toList]
    rfl
  | quoted quote hquote key nonempty =>
    obtain ⟨hbracket, hends⟩ := hr
    have hkey : key.toList ≠ [] := fun h => nonempty (String.toList_eq_nil_iff.mp h)
    rw [text_quoted, parseSegments_bracket (not_mem_quoted hquote hbracket),
      bracketSegment_quoted hquote, trimMatches_eq_self_iff.mpr hends, if_neg hkey,
      String.ofList_toList]
    rfl
  | index i =>
    rw [Rendering.text, List.cons_append, List.append_assoc, List.singleton_append,
      parseSegments_bracket (not_mem_toDigits rfl i), bracketSegment_index,
      if_pos (show i < 2 ^ 64 from hr)]
    rfl

/-- Any other becomes another key, if the path is read at all. -/
theorem parse_of_not_clean (hr : ¬r.Clean) (h : parseSegments (r.text ++ rest) = some segments) :
    ∃ key tail, segments = .member key :: tail ∧ Step.member key ≠ r.step := by
  cases r with
  | dotted key nonempty plain => exact absurd trivial hr
  | quoted quote hquote key nonempty =>
    -- a bracket in the key ends the segment early, and the key that is read is shorter
    by_cases hbracket : ']' ∈ key.toList
    · obtain ⟨pre, post, hsplit, hpre⟩ := List.eq_append_cons_of_mem hbracket
      have htext : (Rendering.quoted quote hquote key nonempty).text ++ rest =
          '[' :: ((quote :: pre) ++ ']' :: (post ++ quote :: ']' :: rest)) := by
        rw [Rendering.text, hsplit]
        simp
      rw [htext, parseSegments_bracket (not_mem_cons_quote hquote hpre),
        bracketSegment_quote hquote] at h
      split at h
      · cases h
      · obtain ⟨tail, -, rfl⟩ := Option.map_eq_some_iff.mp h
        refine ⟨_, tail, rfl, fun heq => ?_⟩
        have hkey := congrArg (fun s : String => s.toList.length) (Step.member.inj heq)
        have hlen : (trimMatches isQuote (quote :: pre.rdropWhile isWhitespace)).length ≤
            pre.length := by
          rw [trimMatches, List.dropWhile_cons, if_pos hquote]
          exact (length_trimMatches_le _ _).trans (List.rdropWhile_prefix _ _).length_le
        rw [String.toList_ofList, hsplit, List.length_append, List.length_cons] at hkey
        omega
    · rw [text_quoted, parseSegments_bracket (not_mem_quoted hquote hbracket),
        bracketSegment_quoted hquote] at h
      split at h
      · cases h
      · obtain ⟨tail, -, rfl⟩ := Option.map_eq_some_iff.mp h
        -- without one the key comes out trimmed, and is the same only if there was nothing to trim
        refine ⟨_, tail, rfl, fun heq => hr ⟨hbracket, trimMatches_eq_self_iff.mp ?_⟩⟩
        have hkey := congrArg String.toList (Step.member.inj heq)
        rwa [String.toList_ofList] at hkey
  | index i =>
    rw [Rendering.text, List.cons_append, List.append_assoc, List.singleton_append,
      parseSegments_bracket (not_mem_toDigits rfl i), bracketSegment_index,
      -- an index beyond usize is read as a member
      if_neg (show ¬i < 2 ^ 64 from hr)] at h
    obtain ⟨tail, -, rfl⟩ := Option.map_eq_some_iff.mp h
    exact ⟨_, tail, rfl, by rintro ⟨⟩⟩

theorem parse_of_all_clean {steps : List Rendering} (h : ∀ r ∈ steps, r.Clean) :
    parseSegments (steps.flatMap Rendering.text) = some (steps.map Rendering.step) := by
  induction steps with
  | nil => rw [List.flatMap_nil, parseSegments]; rfl
  | cons r steps ih =>
    obtain ⟨hr, hsteps⟩ := List.forall_mem_cons.mp h
    rw [List.flatMap_cons, parse_of_clean hr (stepsFollow_flatMap steps), ih hsteps]
    rfl

/-- The least document in which the steps lead somewhere. -/
def nest : List Step → Value
  | [] => .null
  | .member key :: steps => .object [(key, nest steps)]
  | .element i :: steps => .array (List.replicate i .null ++ [nest steps])

theorem child_nest (s : Step) (steps : List Step) :
    (nest (s :: steps)).child s = some (nest steps) := by
  cases s with
  | member key => exact lookup_cons_self key _ _
  | element i =>
    change (List.replicate i Value.null ++ [nest steps])[i]? = _
    rw [List.getElem?_append_right (by rw [List.length_replicate]), List.length_replicate,
      Nat.sub_self]
    rfl

theorem child_nest_of_ne {s : Step} {key : String} (h : Step.member key ≠ s) (steps : List Step) :
    (nest (s :: steps)).child (.member key) = none := by
  cases s with
  | member key' =>
    exact lookup_cons_ne (e := (key', nest steps)) (fun heq => h (congrArg Step.member heq.symm)) []
  | element i => rfl

theorem locate_nest (steps : List Step) : (nest steps).locate steps = some .null := by
  induction steps with
  | nil => rfl
  | cons s steps ih => rw [Value.locate_cons (child_nest s steps), ih]

/-- With a step that is not clean the path misses what is there. -/
theorem locate_nest_of_not_clean {steps : List Rendering} (h : ¬∀ r ∈ steps, r.Clean)
    (hparse : parseSegments (steps.flatMap Rendering.text) = some segments) :
    (nest (steps.map Rendering.step)).locate segments = none := by
  induction steps generalizing segments with
  | nil => exact absurd (fun r hr => nomatch hr) h
  | cons r steps ih =>
    rw [List.flatMap_cons] at hparse
    by_cases hr : r.Clean
    · rw [parse_of_clean hr (stepsFollow_flatMap steps)] at hparse
      obtain ⟨segments, htail, rfl⟩ := Option.map_eq_some_iff.mp hparse
      rw [List.map_cons, Value.locate_cons (child_nest _ _)]
      exact ih (fun hsteps => h (List.forall_mem_cons.mpr ⟨hr, hsteps⟩)) htail
    · obtain ⟨key, tail, rfl, hne⟩ := parse_of_not_clean hr hparse
      rw [List.map_cons, Value.locate, child_nest_of_ne hne]
      rfl

theorem parsePath_renderPath (steps : List Rendering) :
    parsePath (renderPath steps) = parseSegments (steps.flatMap Rendering.text) := by
  rw [parsePath, renderPath, String.toList_ofList]
  rfl

end

theorem clean_of_selects {steps : List Rendering} (h : Selects steps) : ∀ r ∈ steps, r.Clean := by
  by_contra hclean
  have hfound := h.selects (nest (steps.map Rendering.step))
  rw [locate_nest, parsePath_renderPath] at hfound
  obtain ⟨segments, hparse, hresolve⟩ := Option.bind_eq_some_iff.mp hfound
  rw [resolve, locate_nest_of_not_clean hclean hparse] at hresolve
  cases hresolve

/-- A path selects what it names exactly if every step is clean. -/
theorem selects_iff (steps : List Rendering) (h : steps ≠ []) :
    Selects steps ↔ ∀ r ∈ steps, r.Clean := by
  constructor
  · exact clean_of_selects
  · intro hclean
    have hparse := (parsePath_renderPath steps).trans (parse_of_all_clean hclean)
    refine ⟨fun regexNew op value hregex => ?_, fun data => by rw [hparse]; rfl⟩
    have hdollar : (renderPath steps).toList.head? = some '$' := by
      rw [renderPath, String.toList_ofList]
      rfl
    have hsome : ¬(some (steps.map Rendering.step)).elim true List.isEmpty = true := by
      rw [Option.elim, List.isEmpty_iff, List.map_eq_nil_iff]
      exact h
    rw [ContentFilter.validate, if_neg (not_not_intro hdollar), hparse, if_neg hsome]
    split
    · next hop =>
      obtain ⟨re, hre⟩ := hregex hop
      rw [hre]
    · rfl

/-! ### A key with a bracket -/

def toId : List Rendering :=
  [.dotted "to" (by decide) (by simp), .quoted '\'' rfl "id" (by decide), .index 0]

theorem selects_toId : Selects toId := by
  refine (selects_iff toId (by decide)).mpr ?_
  rw [toId, List.forall_mem_cons, List.forall_mem_cons, List.forall_mem_singleton]
  have hindex : 0 < 2 ^ 64 := by decide
  exact ⟨trivial, ⟨by decide, by simp [isQuote], by simp [isQuote]⟩, hindex⟩

def closingBracket : List Rendering := [.quoted '\'' rfl "a]b" (by decide)]

/-- The key ends at its bracket, and what is left of it is no step. -/
theorem not_selects_closingBracket : renderPath closingBracket = "$['a]b']" ∧
    parsePath "$['a]b']" = none ∧ ¬Selects closingBracket := by
  have htext : renderPath closingBracket = "$['a]b']" := rfl
  refine ⟨htext, ?_, fun h => (clean_of_selects h _ List.mem_cons_self).1 (by decide)⟩
  have hinner : ']' ∉ ['\'', 'a'] := by decide
  have hrest : parseSegments ['b', '\'', ']'] = none := by
    rw [parseSegments, if_neg (by decide), if_neg (by decide)]
  have hread : parseSegments ('[' :: (['\'', 'a'] ++ ']' :: ['b', '\'', ']'])) = none := by
    rw [parseSegments_bracket hinner, hrest]
    exact Option.bind_fun_none _
  rw [← htext, parsePath_renderPath]
  exact hread

end SorobanPulse.Notifications
