import Mathlib

/-! Comma-separated values: RFC 4180, with LF as a line break besides CRLF.

                    ┌──────────── " ───────────┐
                    ▼                          │
        fieldStart ─┬─ " ──▶ quoted ─ " ──▶ quoteSeen ─┐
            ▲       └─ c ──▶ plain ────────────────────┤
            └────────────────── , or a line break ─────┘

    A field is written as it is, when it has none of the four special characters, or in quotes with
    its own quotes doubled. Both are read back: `parse_lines`. A line of fields that were written as
    they are is read back only when all of them are plain: `parse_line_iff`. -/

namespace SorobanPulse.Lib.Csv

/-! ### Reading -/

inductive State where
  | fieldStart
  | plain
  | quoted
  | quoteSeen
  | carriageReturn
  deriving DecidableEq

abbrev Field := List Char

/-- `field` and `record` are what was read of the current ones. -/
def read (st : State) (field : Field) (record : List Field) : List Char → Option (List (List Field))
  | [] =>
    match st with
    | .fieldStart => if record = [] then some [] else some [record ++ [field]]
    | .plain | .quoteSeen => some [record ++ [field]]
    | .quoted | .carriageReturn => none
  | c :: cs =>
    match st with
    | .quoted =>
      if c = '"' then read .quoteSeen field record cs else read .quoted (field ++ [c]) record cs
    | .carriageReturn =>
      if c = '\n' then (read .fieldStart [] [] cs).map ((record ++ [field]) :: ·) else none
    | st =>
      if c = ',' then read .fieldStart [] (record ++ [field]) cs
      else if c = '\n' then (read .fieldStart [] [] cs).map ((record ++ [field]) :: ·)
      else if c = '\r' then read .carriageReturn field record cs
      else if c = '"' then
        match st with
        | .fieldStart => read .quoted field record cs
        | .quoteSeen => read .quoted (field ++ ['"']) record cs
        | _ => none
      else if st = .quoteSeen then none
      else read .plain (field ++ [c]) record cs

/-- The records of a text. -/
def parse (text : List Char) : Option (List (List Field)) := read .fieldStart [] [] text

example : parse "a,\"b\"\"c\"\r\n,d\n".toList =
    some [["a".toList, "b\"c".toList], [[], "d".toList]] := by
  decide

/-! ### Writing -/

def isSpecial (c : Char) : Bool := c == ',' || c == '"' || c == '\n' || c == '\r'

/-- No character of the field is special. -/
def Plain (f : Field) : Prop := ∀ c ∈ f, isSpecial c = false

instance (f : Field) : Decidable (Plain f) := inferInstanceAs (Decidable (∀ c ∈ f, _))

def doubleQuotes (f : Field) : List Char := f.flatMap fun c => if c = '"' then ['"', '"'] else [c]

/-- The texts of a field. -/
inductive Encodes : Field → List Char → Prop
  | plain {f : Field} : Plain f → Encodes f f
  | quoted (f : Field) : Encodes f ('"' :: (doubleQuotes f ++ ['"']))

/-- Fields between commas, and a line break. -/
def line (texts : List (List Char)) : List Char := [','].intercalate texts ++ ['\n']

section
variable {st : State} {f acc text rest : List Char} {record : List Field} {c : Char}

theorem not_special (h : isSpecial c = false) : c ≠ ',' ∧ c ≠ '"' ∧ c ≠ '\n' ∧ c ≠ '\r' := by
  simpa [isSpecial, and_assoc] using h

/-! ### One character -/

theorem read_nil (st : State) : read st f record [] =
    match st with
    | .fieldStart => if record = [] then some [] else some [record ++ [f]]
    | .plain | .quoteSeen => some [record ++ [f]]
    | .quoted | .carriageReturn => none := rfl

theorem read_fieldStart_cons : read .fieldStart f record (c :: rest) =
    if c = ',' then read .fieldStart [] (record ++ [f]) rest
    else if c = '\n' then (read .fieldStart [] [] rest).map ((record ++ [f]) :: ·)
    else if c = '\r' then read .carriageReturn f record rest
    else if c = '"' then read .quoted f record rest
    else read .plain (f ++ [c]) record rest := rfl

theorem read_plain_cons : read .plain f record (c :: rest) =
    if c = ',' then read .fieldStart [] (record ++ [f]) rest
    else if c = '\n' then (read .fieldStart [] [] rest).map ((record ++ [f]) :: ·)
    else if c = '\r' then read .carriageReturn f record rest
    else if c = '"' then none
    else read .plain (f ++ [c]) record rest := rfl

theorem read_quoted_cons : read .quoted f record (c :: rest) =
    if c = '"' then read .quoteSeen f record rest else read .quoted (f ++ [c]) record rest := rfl

theorem read_quoteSeen_cons : read .quoteSeen f record (c :: rest) =
    if c = ',' then read .fieldStart [] (record ++ [f]) rest
    else if c = '\n' then (read .fieldStart [] [] rest).map ((record ++ [f]) :: ·)
    else if c = '\r' then read .carriageReturn f record rest
    else if c = '"' then read .quoted (f ++ ['"']) record rest
    else none := rfl

theorem read_carriageReturn_cons : read .carriageReturn f record (c :: rest) =
    if c = '\n' then (read .fieldStart [] [] rest).map ((record ++ [f]) :: ·) else none := rfl

/-- A state in which a field may end. -/
def State.mayEnd (st : State) : Prop := st = .fieldStart ∨ st = .plain ∨ st = .quoteSeen

theorem read_comma (hst : st.mayEnd) :
    read st f record (',' :: rest) = read .fieldStart [] (record ++ [f]) rest := by
  rcases hst with rfl | rfl | rfl <;>
    simp [read_fieldStart_cons, read_plain_cons, read_quoteSeen_cons]

theorem read_newline (hst : st.mayEnd) :
    read st f record ('\n' :: rest) = (read .fieldStart [] [] rest).map ((record ++ [f]) :: ·) := by
  rcases hst with rfl | rfl | rfl <;>
    simp [read_fieldStart_cons, read_plain_cons, read_quoteSeen_cons]

theorem read_char (hst : st = .fieldStart ∨ st = .plain) (hc : isSpecial c = false) :
    read st f record (c :: rest) = read .plain (f ++ [c]) record rest := by
  obtain ⟨hcomma, hquote, hlf, hcr⟩ := not_special hc
  rcases hst with rfl | rfl <;>
    simp [read_fieldStart_cons, read_plain_cons, hcomma, hquote, hlf, hcr]

/-! ### What was written is read -/

theorem read_plain (h : Plain f) :
    read .plain acc record (f ++ rest) = read .plain (acc ++ f) record rest := by
  induction f generalizing acc with
  | nil => simp
  | cons c f ih =>
    rw [List.cons_append, read_char (.inr rfl) (h c List.mem_cons_self),
      ih fun d hd => h d (List.mem_cons_of_mem _ hd), List.append_assoc, List.singleton_append]

theorem read_quoted :
    read .quoted acc record (doubleQuotes f ++ '"' :: rest) =
      read .quoteSeen (acc ++ f) record rest := by
  induction f generalizing acc with
  | nil => simp [doubleQuotes, read_quoted_cons]
  | cons c f ih =>
    rw [doubleQuotes, List.flatMap_cons, ← doubleQuotes, List.append_assoc]
    by_cases hc : c = '"'
    · subst hc
      rw [if_pos rfl]
      simp [read_quoted_cons, read_quoteSeen_cons, ih]
    · rw [if_neg hc]
      simp [read_quoted_cons, hc, ih]

/-- At the end of its text, a field has been read. -/
theorem read_encodes (h : Encodes f text) :
    ∃ st : State, st.mayEnd ∧
      read .fieldStart [] record (text ++ rest) = read st f record rest := by
  cases h with
  | plain hplain =>
    cases f with
    | nil => exact ⟨.fieldStart, .inl rfl, rfl⟩
    | cons c f =>
      refine ⟨.plain, .inr (.inl rfl), ?_⟩
      rw [List.cons_append, read_char (.inl rfl) (hplain c List.mem_cons_self),
        read_plain fun d hd => hplain d (List.mem_cons_of_mem _ hd)]
      rfl
  | quoted =>
    refine ⟨.quoteSeen, .inr (.inr rfl), ?_⟩
    have hopen : read .fieldStart [] record ('"' :: (doubleQuotes f ++ '"' :: rest)) =
        read .quoted [] record (doubleQuotes f ++ '"' :: rest) := by
      simp [read_fieldStart_cons]
    rw [List.cons_append, List.append_assoc, List.singleton_append, hopen, read_quoted]
    rfl

theorem line_singleton : line [text] ++ rest = text ++ '\n' :: rest := by
  simp [line]

theorem line_cons {next : List Char} {texts : List (List Char)} :
    line (text :: next :: texts) ++ rest = text ++ ',' :: (line (next :: texts) ++ rest) := by
  simp [line, List.intercalate_cons_cons]

theorem read_line {fields : List Field} {texts : List (List Char)}
    (h : List.Forall₂ Encodes fields texts) (hne : fields ≠ []) :
    read .fieldStart [] record (line texts ++ rest) =
      (read .fieldStart [] [] rest).map ((record ++ fields) :: ·) := by
  induction h generalizing record with
  | nil => exact absurd rfl hne
  | @cons f text fields texts hf htexts ih =>
    cases htexts with
    | nil =>
      obtain ⟨st, hst, hread⟩ := read_encodes hf
      rw [line_singleton, hread, read_newline hst]
    | cons hg hrest =>
      obtain ⟨st, hst, hread⟩ := read_encodes hf
      rw [line_cons, hread, read_comma hst, ih (List.cons_ne_nil _ _), List.append_assoc,
        List.singleton_append]

/-- Lines of encoded fields are read back. -/
theorem parse_lines {records : List (List Field)} {lines : List (List (List Char))}
    (h : List.Forall₂ (List.Forall₂ Encodes) records lines) (hne : ∀ r ∈ records, r ≠ []) :
    parse (lines.flatMap line) = some records := by
  induction h with
  | nil => rfl
  | cons hfields _ ih =>
    rw [parse] at ih ⊢
    rw [List.flatMap_cons, read_line hfields (hne _ List.mem_cons_self),
      ih fun r hr => hne r (List.mem_cons_of_mem _ hr)]
    rfl

/-! ### Unquoted fields that are not plain -/

variable {first : List Field} {others : List (List Field)}

/-- The first record keeps what was read of it. -/
theorem first_of_read (h : read st f record rest = some (first :: others)) :
    ∃ more tail, first = record ++ (f ++ more) :: tail := by
  induction rest generalizing st f record with
  | nil =>
    cases st <;> simp only [read_nil, reduceCtorEq, Option.some.injEq, List.cons.injEq] at h
    · split at h
      · cases h
      · cases h
        exact ⟨[], [], by simp⟩
    · exact ⟨[], [], by simp [← h.1]⟩
    · exact ⟨[], [], by simp [← h.1]⟩
  | cons c cs ih =>
    -- a comma ends the field, a line end the record, and any other character makes the field longer
    have hcomma (h : read .fieldStart [] (record ++ [f]) cs = some (first :: others)) :
        ∃ more tail, first = record ++ (f ++ more) :: tail := by
      obtain ⟨more, tail, htail⟩ := ih h
      exact ⟨[], ([] ++ more) :: tail, by simp [htail]⟩
    have hnewline
        (h : (read .fieldStart [] [] cs).map ((record ++ [f]) :: ·) = some (first :: others)) :
        ∃ more tail, first = record ++ (f ++ more) :: tail := by
      obtain ⟨_, -, heq⟩ := Option.map_eq_some_iff.mp h
      cases heq
      exact ⟨[], [], by simp⟩
    have hlonger {st' : State} {d : Char}
        (h : read st' (f ++ [d]) record cs = some (first :: others)) :
        ∃ more tail, first = record ++ (f ++ more) :: tail := by
      obtain ⟨more, tail, htail⟩ := ih h
      exact ⟨d :: more, tail, by simp [htail]⟩
    by_cases hc : c = ',' ∨ c = '\n'
    · -- inside quotes both are data, after them they separate
      cases st with
      | quoted =>
        rw [read_quoted_cons] at h
        split at h
        · exact ih h
        · exact hlonger h
      | carriageReturn =>
        rw [read_carriageReturn_cons] at h
        split at h
        · exact hnewline h
        · cases h
      | fieldStart | plain | quoteSeen =>
        rcases hc with rfl | rfl
        · exact hcomma (by rwa [read_comma (by simp [State.mayEnd])] at h)
        · exact hnewline (by rwa [read_newline (by simp [State.mayEnd])] at h)
    · rw [not_or] at hc
      cases st <;> simp only [read_fieldStart_cons, read_plain_cons, read_quoted_cons,
        read_quoteSeen_cons, read_carriageReturn_cons, hc.1, hc.2, if_false, reduceCtorEq] at h
      · split at h
        · exact ih h
        · split at h
          · exact ih h
          · exact hlonger h
      · split at h
        · exact ih h
        · split at h
          · cases h
          · exact hlonger h
      · split at h
        · exact ih h
        · exact hlonger h
      · split at h
        · exact ih h
        · split at h
          · exact hlonger h
          · cases h

/-- A comma or a line break ends a field. -/
theorem first_of_end (hst : st.mayEnd) (hc : c = ',' ∨ c = '\n' ∨ c = '\r')
    (h : read st f record (c :: rest) = some (first :: others)) :
    ∃ tail, first = record ++ f :: tail := by
  rcases hc with rfl | rfl | rfl
  · rw [read_comma hst] at h
    obtain ⟨more, tail, htail⟩ := first_of_read h
    exact ⟨([] ++ more) :: tail, by rw [htail, List.append_assoc, List.singleton_append]⟩
  · rw [read_newline hst] at h
    obtain ⟨_, -, heq⟩ := Option.map_eq_some_iff.mp h
    cases heq
    exact ⟨[], rfl⟩
  · have hcr : read st f record ('\r' :: rest) = read .carriageReturn f record rest := by
      rcases hst with rfl | rfl | rfl <;>
        simp [read_fieldStart_cons, read_plain_cons, read_quoteSeen_cons]
    rw [hcr] at h
    cases rest with
    | nil => cases h
    | cons d rest =>
      rw [read_carriageReturn_cons] at h
      split at h
      · obtain ⟨_, -, heq⟩ := Option.map_eq_some_iff.mp h
        cases heq
        exact ⟨[], rfl⟩
      · cases h

/-- A quoted field has fewer characters than its text, and those that are no quotes in common
    with it. -/
theorem quoted_of_read :
    (∀ {f record}, read .quoted f record rest = some (first :: others) →
      ∃ content u s tail, first = record ++ (f ++ content) :: tail ∧ rest = u ++ s ∧
        u.countP (· ≠ '"') = content.countP (· ≠ '"') ∧ content.length < u.length) ∧
    ∀ {f record}, read .quoteSeen f record rest = some (first :: others) →
      ∃ content u s tail, first = record ++ (f ++ content) :: tail ∧ rest = u ++ s ∧
        u.countP (· ≠ '"') = content.countP (· ≠ '"') ∧ content.length ≤ u.length := by
  induction rest with
  | nil =>
    refine ⟨fun h => (by cases h), fun {f record} h => ?_⟩
    obtain ⟨more, tail, htail⟩ := first_of_read h
    cases h
    exact ⟨[], [], [], [], by simp, rfl, rfl, Nat.le_refl _⟩
  | cons c cs ih =>
    refine ⟨fun {f record} h => ?_, fun {f record} h => ?_⟩
    · rw [read_quoted_cons] at h
      split at h
      · next hc =>
        obtain ⟨content, u, s, tail, hfirst, hcs, hcount, hlength⟩ := ih.2 h
        refine ⟨content, c :: u, s, tail, hfirst, by rw [hcs, List.cons_append], ?_, ?_⟩
        · simpa [hc] using hcount
        · simpa using Nat.lt_succ_of_le hlength
      · next hc =>
        obtain ⟨content, u, s, tail, hfirst, hcs, hcount, hlength⟩ := ih.1 h
        refine ⟨c :: content, c :: u, s, tail, by simp [hfirst], by rw [hcs, List.cons_append],
          ?_, ?_⟩
        · simpa [hc] using hcount
        · simpa using hlength
    · by_cases hc : c = '"'
      · subst hc
        simp only [read_quoteSeen_cons, if_true, Char.reduceEq, if_false] at h
        obtain ⟨content, u, s, tail, hfirst, hcs, hcount, hlength⟩ := ih.1 h
        refine ⟨'"' :: content, '"' :: u, s, tail, by simp [hfirst], by rw [hcs, List.cons_append],
          ?_, ?_⟩
        · simpa using hcount
        · simpa using hlength.le
      · -- the field is over
        have hend : c = ',' ∨ c = '\n' ∨ c = '\r' := by
          by_contra hne
          rw [not_or, not_or] at hne
          simp [read_quoteSeen_cons, hc, hne] at h
        obtain ⟨tail, htail⟩ := first_of_end (.inr (.inr rfl)) hend h
        exact ⟨[], [], c :: cs, tail, by rw [htail, List.append_nil], rfl, rfl, Nat.le_refl _⟩

/-- A field in quotes is not read as its own text. -/
theorem ne_of_quoted {q : List Char} {sep : Char} (hsep : sep ≠ '"')
    (h : read .quoted [] record (q ++ sep :: rest) = some (first :: others)) (tail : List Field) :
    first ≠ record ++ ('"' :: q) :: tail := by
  rintro rfl
  obtain ⟨content, u, s, tail', hfirst, htext, hcount, hlength⟩ := quoted_of_read.1 h
  have hcontent : content = '"' :: q := by
    simpa using (List.cons.inj (List.append_cancel_left hfirst)).1.symm
  subst hcontent
  -- the text goes on behind the separator, which the field has no counterpart of
  have hprefix : q ++ [sep] <+: u := by
    have hq : q ++ [sep] <+: q ++ sep :: rest := ⟨rest, by simp⟩
    refine List.prefix_of_prefix_length_le hq ⟨s, htext.symm⟩ ?_
    rw [List.length_append, List.length_singleton]
    exact (Nat.lt_of_succ_lt hlength)
  have hmore := hprefix.sublist.countP_le (p := (· ≠ '"'))
  rw [hcount] at hmore
  simp [hsep] at hmore

theorem exists_special (h : ¬Plain f) :
    ∃ p c q, f = p ++ c :: q ∧ Plain p ∧ isSpecial c = true := by
  induction f with
  | nil => exact absurd (fun c hc => (by cases hc)) h
  | cons c f ih =>
    cases hc : isSpecial c with
    | true => exact ⟨[], c, f, rfl, fun d hd => (by cases hd), hc⟩
    | false =>
      have htail : ¬Plain f := by
        intro hf
        refine h fun d hd => ?_
        rcases List.mem_cons.mp hd with rfl | hd
        · exact hc
        · exact hf d hd
      obtain ⟨p, d, q, rfl, hp, hd⟩ := ih htail
      refine ⟨c :: p, d, q, rfl, fun e he => ?_, hd⟩
      rcases List.mem_cons.mp he with rfl | he
      · exact hc
      · exact hp e he

/-- A text that is read as itself is plain. -/
theorem plain_of_field {sep : Char} (hsep : sep ≠ '"') {tail : List Field}
    (h : read .fieldStart [] record (text ++ sep :: rest) =
      some ((record ++ text :: tail) :: others)) :
    Plain text := by
  by_contra hnot
  obtain ⟨p, c, q, rfl, hp, hc⟩ := exists_special hnot
  rw [List.append_assoc, List.cons_append] at h
  have hshort : ∀ tail', record ++ (p ++ c :: q) :: tail ≠ record ++ p :: tail' := by
    intro tail' heq
    have hlength := congrArg List.length (List.cons.inj (List.append_cancel_left heq)).1
    simp at hlength
  by_cases hquote : c = '"'
  · subst hquote
    cases p with
    | nil =>
      have hopen : read .fieldStart [] record ('"' :: (q ++ sep :: rest)) =
          read .quoted [] record (q ++ sep :: rest) := by
        simp [read_fieldStart_cons]
      rw [List.nil_append, hopen] at h
      exact ne_of_quoted hsep h tail rfl
    | cons d p =>
      rw [List.cons_append, read_char (.inl rfl) (hp d List.mem_cons_self),
        read_plain fun e he => hp e (List.mem_cons_of_mem _ he)] at h
      simp [read_plain_cons] at h
  · obtain ⟨st, hst, hread⟩ := read_encodes (.plain hp)
    rw [hread] at h
    have hend : c = ',' ∨ c = '\n' ∨ c = '\r' := by
      simpa [isSpecial, hquote, or_assoc] using hc
    obtain ⟨tail', htail'⟩ := first_of_end hst hend h
    exact hshort tail' htail'

/-- A line of texts that is read as these texts has plain texts only. -/
theorem plain_of_read {texts : List (List Char)}
    (h : read .fieldStart [] record (line texts ++ rest) = some ((record ++ texts) :: others)) :
    ∀ t ∈ texts, Plain t := by
  induction texts generalizing record with
  | nil => intro t ht; cases ht
  | cons text texts ih =>
    cases texts with
    | nil =>
      rw [line_singleton] at h
      intro t ht
      rw [List.mem_singleton.mp ht]
      exact plain_of_field (by decide) h
    | cons next texts =>
      rw [line_cons] at h
      have hhead : Plain text := plain_of_field (by decide) h
      intro t ht
      rcases List.mem_cons.mp ht with rfl | ht
      · exact hhead
      · obtain ⟨st, hst, hread⟩ := read_encodes (.plain hhead)
        rw [hread, read_comma hst] at h
        refine @ih (record ++ [text]) ?_ t ht
        rw [h, List.append_assoc, List.singleton_append]

/-- A line of texts, as they are, is a record of these texts exactly if they are all plain. -/
theorem parse_line_iff {texts : List (List Char)} {records : List (List Field)} (hne : texts ≠ [])
    (hrest : parse rest = some records) :
    parse (line texts ++ rest) = some (texts :: records) ↔ ∀ t ∈ texts, Plain t := by
  constructor
  · intro h
    exact plain_of_read h
  · intro h
    have hself : List.Forall₂ Encodes texts texts := by
      rw [List.forall₂_same]
      exact fun t ht => .plain (h t ht)
    rw [parse] at hrest ⊢
    rw [read_line hself hne, hrest]
    rfl

end

end SorobanPulse.Lib.Csv
