import Mathlib

/-! SQL's three-valued logic: a truth value is `true`, `false` or unknown (`none`).

    `AND` is false as soon as one operand is, `OR` true as soon as one is; unknown otherwise spreads.
    Over a list the connectives associate, so nesting and flattening do not change a truth value. -/

namespace SorobanPulse.Lib

abbrev Truth := Option Bool

namespace Truth

def and : Truth → Truth → Truth
  | some false, _ => some false
  | _, some false => some false
  | some true, some true => some true
  | _, _ => none

def or : Truth → Truth → Truth
  | some true, _ => some true
  | _, some true => some true
  | some false, some false => some false
  | _, _ => none

def not (a : Truth) : Truth := a.map (!·)

/-- The conjunction of a list; true when it is empty. -/
def all (ts : List Truth) : Truth := ts.foldr and (some true)

/-- The disjunction of a list; false when it is empty. -/
def any (ts : List Truth) : Truth := ts.foldr or (some false)

@[simp] theorem not_not (a : Truth) : not (not a) = a := by
  rcases a with _ | _ | _ <;> rfl

theorem and_assoc (a b c : Truth) : and (and a b) c = and a (and b c) := by
  rcases a with _ | _ | _ <;> rcases b with _ | _ | _ <;> rcases c with _ | _ | _ <;> rfl

theorem or_assoc (a b c : Truth) : or (or a b) c = or a (or b c) := by
  rcases a with _ | _ | _ <;> rcases b with _ | _ | _ <;> rcases c with _ | _ | _ <;> rfl

@[simp] theorem true_and (a : Truth) : and (some true) a = a := by
  rcases a with _ | _ | _ <;> rfl

@[simp] theorem and_true (a : Truth) : and a (some true) = a := by
  rcases a with _ | _ | _ <;> rfl

@[simp] theorem false_or (a : Truth) : or (some false) a = a := by
  rcases a with _ | _ | _ <;> rfl

@[simp] theorem or_false (a : Truth) : or a (some false) = a := by
  rcases a with _ | _ | _ <;> rfl

/-! ### Lists -/

@[simp] theorem all_nil : all [] = some true := rfl

@[simp] theorem all_cons (t : Truth) (ts : List Truth) : all (t :: ts) = and t (all ts) := rfl

@[simp] theorem any_nil : any [] = some false := rfl

@[simp] theorem any_cons (t : Truth) (ts : List Truth) : any (t :: ts) = or t (any ts) := rfl

theorem all_append (ts us : List Truth) : all (ts ++ us) = and (all ts) (all us) := by
  induction ts with
  | nil => rw [List.nil_append, all_nil, true_and]
  | cons t ts ih => rw [List.cons_append, all_cons, ih, all_cons, and_assoc]

theorem any_append (ts us : List Truth) : any (ts ++ us) = or (any ts) (any us) := by
  induction ts with
  | nil => rw [List.nil_append, any_nil, false_or]
  | cons t ts ih => rw [List.cons_append, any_cons, ih, any_cons, or_assoc]

/-- Reading a chain `t AND u₁ AND u₂ …` from the left. -/
theorem foldl_and (t : Truth) (us : List Truth) : us.foldl and t = all (t :: us) := by
  induction us generalizing t with
  | nil => rw [List.foldl_nil, all_cons, all_nil, and_true]
  | cons u us ih => rw [List.foldl_cons, ih, all_cons, all_cons, all_cons, and_assoc]

/-- Reading a chain `t OR u₁ OR u₂ …` from the left. -/
theorem foldl_or (t : Truth) (us : List Truth) : us.foldl or t = any (t :: us) := by
  induction us generalizing t with
  | nil => rw [List.foldl_nil, any_cons, any_nil, or_false]
  | cons u us ih => rw [List.foldl_cons, ih, any_cons, any_cons, any_cons, or_assoc]

end Truth

end SorobanPulse.Lib

/-! Reading SQL conditions.

    A `WHERE` fragment is lexed, parsed with PostgreSQL's operator precedence and evaluated in
    three-valued logic over a row and the bound parameters. The fragment covered is the one of
    comparisons, `ILIKE`, `BETWEEN`, `IN`, `IS [NOT] NULL` between operands (columns, `$n` and their
    casts) under `NOT`, `AND` and `OR`. From the loosest to the tightest:

        disjunction  ::=  conjunction ( OR conjunction )*
        conjunction  ::=  negation ( AND negation )*
        negation     ::=  NOT negation  |  ( disjunction )  |  predicate
        predicate    ::=  operand ( = | > | < | ILIKE ) operand  |  operand BETWEEN operand AND operand
                       |  operand IN ( operand , … )  |  operand IS [ NOT ] NULL
        operand      ::=  ( column | $n ) ( :: type )*

    `Reads text c` says that `text`, wherever a negation may stand, is read as `c` and nothing more.
    Its rules (`Reads.not`, `Reads.and`, …) follow the grammar, so that a printer of conditions is
    shown correct by one rule a constructor; `Reads.parse` takes them to the whole text. -/

namespace SorobanPulse.Lib.Sql

/-! ### Tokens -/

inductive Keyword where
  | AND | OR | NOT | IS | NULL | IN | BETWEEN | ILIKE
  deriving DecidableEq, Repr

inductive Token where
  | keyword (k : Keyword)
  | ident (name : String)
  | param (i : ℕ)
  | symbol (c : Char)
  deriving DecidableEq, Repr

def isWordChar (c : Char) : Bool := c.isAlphanum || c == '_' || c == '$'

/-- Keywords are read in either case. -/
def keyword? (w : List Char) : Option Keyword :=
  match String.ofList (w.map Char.toUpper) with
  | "AND" => some .AND
  | "OR" => some .OR
  | "NOT" => some .NOT
  | "IS" => some .IS
  | "NULL" => some .NULL
  | "IN" => some .IN
  | "BETWEEN" => some .BETWEEN
  | "ILIKE" => some .ILIKE
  | _ => none

/-- The token of a maximal run of word characters. -/
def word : List Char → Token
  | '$' :: digits => .param (Nat.ofDigitChars 10 digits 0)
  | w =>
    match keyword? w with
    | some k => .keyword k
    | none => .ident (String.ofList w)

/-- The word read so far, its last character first. -/
def flush (acc : List Char) : List Token := if acc = [] then [] else [word acc.reverse]

def lex : List Char → List Char → List Token
  | [], acc => flush acc
  | c :: cs, acc =>
    if isWordChar c then lex cs (c :: acc)
    else flush acc ++ (if c = ' ' then [] else [.symbol c]) ++ lex cs []

def tokens (text : String) : List Token := lex text.toList []

/-! ### Syntax -/

inductive Comparison where
  | eq | gt | lt | ge | le
  deriving DecidableEq, Repr

inductive Operand where
  | column (name : String)
  | param (i : ℕ)
  | cast (a : Operand) (type : String)
  deriving DecidableEq, Repr

inductive Condition where
  | compare (op : Comparison) (a b : Operand)
  | ilike (a b : Operand)
  | between (a lo hi : Operand)
  | isIn (a : Operand) (bs : List Operand)
  | isNull (a : Operand)
  | isNotNull (a : Operand)
  | not (c : Condition)
  | and (c d : Condition)
  | or (c d : Condition)
  deriving DecidableEq, Repr

/-! ### Parser -/

def castTail (a : Operand) : List Token → Operand × List Token
  | .symbol ':' :: .symbol ':' :: .ident type :: rest => castTail (.cast a type) rest
  | rest => (a, rest)

def operand : List Token → Option (Operand × List Token)
  | .ident name :: rest => some (castTail (.column name) rest)
  | .param i :: rest => some (castTail (.param i) rest)
  | _ => none

/-- `operand, …, operand )`. -/
def operands : ℕ → List Token → Option (List Operand × List Token)
  | 0, _ => none
  | n + 1, toks =>
    (operand toks).bind fun (a, rest) =>
      match rest with
      | .symbol ',' :: rest => (operands n rest).map fun (as, rest) => (a :: as, rest)
      | .symbol ')' :: rest => some ([a], rest)
      | _ => none

def comparison? : Char → Option Comparison
  | '=' => some .eq
  | '>' => some .gt
  | '<' => some .lt
  | _ => none

/-- What follows the first operand of a predicate. -/
def predicateTail (n : ℕ) (a : Operand) : List Token → Option (Condition × List Token)
  | .symbol s :: rest =>
    (comparison? s).bind fun op => (operand rest).map fun (b, rest) => (.compare op a b, rest)
  | .keyword .ILIKE :: rest => (operand rest).map fun (b, rest) => (.ilike a b, rest)
  | .keyword .BETWEEN :: rest =>
    (operand rest).bind fun (lo, rest) =>
      match rest with
      | .keyword .AND :: rest => (operand rest).map fun (hi, rest) => (.between a lo hi, rest)
      | _ => none
  | .keyword .IN :: .symbol '(' :: rest =>
    (operands n rest).map fun (bs, rest) => (.isIn a bs, rest)
  | .keyword .IS :: .keyword .NULL :: rest => some (.isNull a, rest)
  | .keyword .IS :: .keyword .NOT :: .keyword .NULL :: rest => some (.isNotNull a, rest)
  | _ => none

mutual
def disjunction : ℕ → List Token → Option (Condition × List Token)
  | 0, _ => none
  | n + 1, toks => (conjunction n toks).bind fun (c, rest) => orTail n c rest

def orTail : ℕ → Condition → List Token → Option (Condition × List Token)
  | 0, _, _ => none
  | n + 1, c, .keyword .OR :: rest =>
    (conjunction n rest).bind fun (d, rest) => orTail n (.or c d) rest
  | _ + 1, c, rest => some (c, rest)

def conjunction : ℕ → List Token → Option (Condition × List Token)
  | 0, _ => none
  | n + 1, toks => (negation n toks).bind fun (c, rest) => andTail n c rest

def andTail : ℕ → Condition → List Token → Option (Condition × List Token)
  | 0, _, _ => none
  | n + 1, c, .keyword .AND :: rest =>
    (negation n rest).bind fun (d, rest) => andTail n (.and c d) rest
  | _ + 1, c, rest => some (c, rest)

def negation : ℕ → List Token → Option (Condition × List Token)
  | 0, _ => none
  | n + 1, .keyword .NOT :: rest => (negation n rest).map fun (c, rest) => (.not c, rest)
  | n + 1, .symbol '(' :: rest =>
    (disjunction n rest).bind fun (c, rest) =>
      match rest with
      | .symbol ')' :: rest => some (c, rest)
      | _ => none
  | n + 1, toks => (operand toks).bind fun (a, rest) => predicateTail n a rest
end

/-- Read a whole text; the fuel covers the nesting and the chains of any text of its length. -/
def parse (text : String) : Option Condition :=
  match disjunction (4 * (tokens text).length + 3) (tokens text) with
  | some (c, []) => some c
  | _ => none

example : parse "a IS NULL OR NOT b = $1 AND c IS NULL" =
    some (.or (.isNull (.column "a"))
      (.and (.not (.compare .eq (.column "b") (.param 1))) (.isNull (.column "c")))) := by
  decide +kernel

/-! ### Evaluation -/

/-- The database's operators on the values `V`, `NULL` among them. -/
structure Operators (V : Type) where
  compare : Comparison → V → V → Truth
  ilike : V → V → Truth
  isNull : V → Bool
  cast : String → V → V

section
variable {V : Type} (ops : Operators V) (row : String → V) (params : List V)

/-- `params[i-1]` stands for `$i`; an unbound parameter has no value. -/
def Operand.eval : Operand → Option V
  | .column name => some (row name)
  | .param 0 => none
  | .param (i + 1) => params[i]?
  | .cast a type => a.eval.map (ops.cast type)

def Operators.between (x lo hi : V) : Truth := (ops.compare .ge x lo).and (ops.compare .le x hi)

def Operators.isIn (x : V) (ys : List V) : Truth := .any (ys.map (ops.compare .eq x))

def Condition.eval : Condition → Option Truth
  | .compare op a b =>
    (a.eval ops row params).bind fun x => (b.eval ops row params).map (ops.compare op x)
  | .ilike a b => (a.eval ops row params).bind fun x => (b.eval ops row params).map (ops.ilike x)
  | .between a lo hi =>
    (a.eval ops row params).bind fun x => (lo.eval ops row params).bind fun l =>
      (hi.eval ops row params).map (ops.between x l)
  | .isIn a bs =>
    (a.eval ops row params).bind fun x =>
      (bs.mapM (Operand.eval ops row params)).map (ops.isIn x)
  | .isNull a => (a.eval ops row params).map fun x => some (ops.isNull x)
  | .isNotNull a => (a.eval ops row params).map fun x => some (!ops.isNull x)
  | .not c => c.eval.map Truth.not
  | .and c d => c.eval.bind fun t => d.eval.map (Truth.and t)
  | .or c d => c.eval.bind fun t => d.eval.map (Truth.or t)

end

section
variable {V : Type} {ops : Operators V} {row : String → V} {params : List V} {c : Condition}
  {cs : List Condition} {t : Truth} {ts : List Truth}

/-- A chain of one connective, evaluated from the left. -/
theorem eval_foldl {connect : Condition → Condition → Condition} {op : Truth → Truth → Truth}
    (hop : ∀ {c d : Condition} {t u : Truth}, c.eval ops row params = some t →
      d.eval ops row params = some u → (connect c d).eval ops row params = some (op t u))
    (hc : c.eval ops row params = some t)
    (h : List.Forall₂ (fun d u => d.eval ops row params = some u) cs ts) :
    (cs.foldl connect c).eval ops row params = some (ts.foldl op t) := by
  induction h generalizing c t with
  | nil => exact hc
  | cons hd _ ih =>
    rw [List.foldl_cons, List.foldl_cons]
    exact ih (hop hc hd)

theorem eval_foldl_and (hc : c.eval ops row params = some t)
    (h : List.Forall₂ (fun d u => d.eval ops row params = some u) cs ts) :
    (cs.foldl .and c).eval ops row params = some (.all (t :: ts)) := by
  rw [← Truth.foldl_and]
  exact eval_foldl (fun hc hd => by rw [Condition.eval, hc, hd]; rfl) hc h

theorem eval_foldl_or (hc : c.eval ops row params = some t)
    (h : List.Forall₂ (fun d u => d.eval ops row params = some u) cs ts) :
    (cs.foldl .or c).eval ops row params = some (.any (t :: ts)) := by
  rw [← Truth.foldl_or]
  exact eval_foldl (fun hc hd => by rw [Condition.eval, hc, hd]; rfl) hc h

end

/-! ### Lexing a concatenation -/

/-- The text begins, or ends, with a character that is not part of a word. -/
def Opens (text : String) : Prop := ∃ c cs, text.toList = c :: cs ∧ isWordChar c = false

def Closes (text : String) : Prop := ∃ cs c, text.toList = cs ++ [c] ∧ isWordChar c = false

theorem lex_append_opens (a : List Char) {c : Char} (cs acc : List Char)
    (hc : isWordChar c = false) : lex (a ++ c :: cs) acc = lex a acc ++ lex (c :: cs) [] := by
  induction a generalizing acc with
  | nil =>
    rw [List.nil_append, lex, lex, lex, hc]
    simp [flush]
  | cons d a ih =>
    rw [List.cons_append, lex, lex]
    split
    · exact ih (d :: acc)
    · rw [ih []]; simp only [List.append_assoc]

theorem lex_append_closes (a : List Char) {c : Char} (b acc : List Char)
    (hc : isWordChar c = false) : lex (a ++ [c] ++ b) acc = lex (a ++ [c]) acc ++ lex b [] := by
  have hone : lex (c :: b) [] = lex [c] [] ++ lex b [] := by
    rw [lex, lex, hc]
    simp [lex, flush]
  rw [List.append_assoc, List.singleton_append, lex_append_opens a b acc hc,
    lex_append_opens a [] acc hc, hone, List.append_assoc]

theorem tokens_append_opens (a : String) {b : String} (hb : Opens b) :
    tokens (a ++ b) = tokens a ++ tokens b := by
  obtain ⟨c, cs, hb, hc⟩ := hb
  rw [tokens, String.toList_append, hb, lex_append_opens _ _ _ hc, ← hb]; rfl

theorem tokens_append_closes {a : String} (ha : Closes a) (b : String) :
    tokens (a ++ b) = tokens a ++ tokens b := by
  obtain ⟨cs, c, ha, hc⟩ := ha
  rw [tokens, String.toList_append, ha, lex_append_closes _ _ _ hc, ← ha]; rfl

/-- A separator ends the word before it and begins the one after it. -/
theorem tokens_separated (a b : String) {sep : String} (ho : Opens sep) (hc : Closes sep) :
    tokens (a ++ sep ++ b) = tokens a ++ tokens sep ++ tokens b := by
  have hcs : Closes (a ++ sep) := by
    obtain ⟨cs, c, hsep, hw⟩ := hc
    exact ⟨a.toList ++ cs, c, by rw [String.toList_append, hsep, List.append_assoc], hw⟩
  rw [tokens_append_closes hcs, tokens_append_opens a ho]

theorem tokens_intercalate {sep : String} (ho : Opens sep) (hc : Closes sep) (x : String)
    (xs : List String) :
    tokens (sep.intercalate (x :: xs)) =
      tokens x ++ xs.flatMap fun y => tokens sep ++ tokens y := by
  induction xs generalizing x with
  | nil =>
    have hone : sep.intercalate [x] = x := by
      rw [← String.toList_inj, String.toList_intercalate]; simp
    rw [hone, List.flatMap_nil, List.append_nil]
  | cons y ys ih =>
    have hcons : sep.intercalate (x :: y :: ys) = x ++ sep ++ sep.intercalate (y :: ys) := by
      rw [← String.toList_inj, String.toList_intercalate, String.toList_append,
        String.toList_append, String.toList_intercalate, List.map_cons, List.map_cons,
        List.intercalate_cons_cons, List.append_assoc]
    rw [hcons, tokens_separated _ _ ho hc, ih, List.flatMap_cons, List.append_assoc,
      List.append_assoc]

theorem lex_word (w acc : List Char) (hw : ∀ c ∈ w, isWordChar c = true) :
    lex w acc = flush (w.reverse ++ acc) := by
  induction w generalizing acc with
  | nil => rfl
  | cons c w ih =>
    rw [lex, if_pos (hw c List.mem_cons_self), ih _ fun d hd => hw d (List.mem_cons_of_mem _ hd),
      List.reverse_cons, List.append_assoc]
    rfl

theorem isWordChar_of_isDigit {c : Char} (h : c.isDigit = true) : isWordChar c = true := by
  simp [isWordChar, Char.isAlphanum, h]

/-- A placeholder is one token. -/
theorem tokens_placeholder (i : ℕ) : tokens ("$" ++ toString i) = [.param i] := by
  have hlist : ("$" ++ toString i).toList = '$' :: Nat.toDigits 10 i := by
    rw [String.toList_append, Nat.toString_eq_repr, Nat.toList_repr]; rfl
  have hw : ∀ c ∈ '$' :: Nat.toDigits 10 i, isWordChar c = true := by
    intro c hc
    rcases List.mem_cons.mp hc with rfl | hc
    · rfl
    · exact isWordChar_of_isDigit (Nat.isDigit_of_mem_toDigits (by omega) (by omega) hc)
  rw [tokens, hlist, lex_word _ _ hw, flush, if_neg (by simp), List.append_nil, List.reverse_reverse,
    word, Nat.ofDigitChars_ten_toDigits]

/-! ### What a text is read as -/

/-- The text, before anything but a cast, is read as the operand. -/
def ReadsOperand (text : String) (a : Operand) : Prop :=
  ∀ rest, (∀ r, rest ≠ .symbol ':' :: r) → operand (tokens text ++ rest) = some (a, rest)

/-- The text, before anything but a cast, is read as a negation with the fuel of its length. -/
def Reads (text : String) (c : Condition) : Prop :=
  ∀ n rest, (∀ r, rest ≠ .symbol ':' :: r) → 4 * (tokens text).length ≤ n →
    negation n (tokens text ++ rest) = some (c, rest)

variable {text x y z sep : String} {a b lo hi : Operand} {c d : Condition} {n : ℕ}
  {rest : List Token}

theorem castTail_of_ne (hrest : ∀ r, rest ≠ .symbol ':' :: r) : castTail a rest = (a, rest) := by
  rw [castTail]
  rintro type r rfl
  exact hrest _ rfl

theorem ReadsOperand.column {name : String} (h : tokens text = [.ident name]) :
    ReadsOperand text (.column name) := by
  intro rest hrest
  rw [h, List.singleton_append, operand, castTail_of_ne hrest]

theorem ReadsOperand.cast {name type : String}
    (h : tokens text = [.ident name, .symbol ':', .symbol ':', .ident type]) :
    ReadsOperand text (.cast (.column name) type) := by
  intro rest hrest
  rw [h]
  exact congrArg some (castTail_of_ne hrest)

theorem ReadsOperand.placeholder (i : ℕ) : ReadsOperand ("$" ++ toString i) (.param i) := by
  intro rest hrest
  rw [tokens_placeholder, List.singleton_append, operand, castTail_of_ne hrest]

/-- What starts with an operand is a predicate. -/
theorem negation_of_operand {toks : List Token} (h : operand toks = some (a, rest)) :
    negation (n + 1) toks = predicateTail n a rest := by
  rw [negation]
  · rw [h]; rfl
  · rintro r rfl; cases h
  · rintro r rfl; cases h

/-- A predicate: an operand, then a tail that starts a word or a symbol of its own. -/
theorem Reads.predicate {tail : String} (ha : ReadsOperand x a) (ho : Opens tail)
    (hcast : ∀ rest r, tokens tail ++ rest ≠ .symbol ':' :: r)
    (htail : ∀ n rest, (∀ r, rest ≠ .symbol ':' :: r) → (tokens tail).length ≤ n →
      predicateTail n a (tokens tail ++ rest) = some (c, rest)) : Reads (x ++ tail) c := by
  intro n rest hrest hn
  rw [tokens_append_opens x ho] at hn ⊢
  have hop := ha (tokens tail ++ rest) (hcast rest)
  rw [← List.append_assoc] at hop
  have hpos : 0 < (tokens x).length := by
    by_contra hzero
    have hnil := ha [] (fun r => by simp)
    have hempty : tokens x = [] := List.length_eq_zero_iff.mp (by omega)
    rw [hempty] at hnil
    cases hnil
  rw [List.length_append] at hn
  obtain ⟨m, rfl⟩ : ∃ m, n = m + 1 := ⟨n - 1, by omega⟩
  rw [negation_of_operand hop]
  exact htail m rest hrest (by omega)

theorem Opens.append (h : Opens x) (y : String) : Opens (x ++ y) := by
  obtain ⟨c, cs, hx, hc⟩ := h
  exact ⟨c, cs ++ y.toList, by rw [String.toList_append, hx, List.cons_append], hc⟩

theorem Reads.compare {op : Comparison} {s : Char} (ho : Opens sep) (hc : Closes sep)
    (hsep : tokens sep = [.symbol s]) (hop : comparison? s = some op) (ha : ReadsOperand x a)
    (hb : ReadsOperand y b) : Reads (x ++ sep ++ y) (.compare op a b) := by
  rw [String.append_assoc]
  have htail : tokens (sep ++ y) = .symbol s :: tokens y := by
    rw [tokens_append_closes hc, hsep, List.singleton_append]
  refine .predicate ha (ho.append y) (fun rest r h => ?_) fun n rest hrest _ => ?_
  · rw [htail, List.cons_append] at h
    cases h
    cases hop
  · rw [htail, List.cons_append, predicateTail, hop, Option.bind_some, hb rest hrest]; rfl

theorem Reads.ilike (ha : ReadsOperand x a) (hb : ReadsOperand y b) :
    Reads (x ++ " ILIKE " ++ y) (.ilike a b) := by
  rw [String.append_assoc]
  have htail : tokens (" ILIKE " ++ y) = .keyword .ILIKE :: tokens y :=
    tokens_append_closes ⟨" ILIKE".toList, ' ', rfl, rfl⟩ y
  refine .predicate ha (.append ⟨' ', _, rfl, rfl⟩ y) (fun rest r h => ?_) fun n rest hrest _ => ?_
  · rw [htail] at h; cases h
  · rw [htail, List.cons_append, predicateTail, hb rest hrest]; rfl

theorem Reads.between (ha : ReadsOperand x a) (hlo : ReadsOperand y lo) (hhi : ReadsOperand z hi) :
    Reads (x ++ " BETWEEN " ++ y ++ " AND " ++ z) (.between a lo hi) := by
  have htail : tokens (" BETWEEN " ++ (y ++ " AND " ++ z)) =
      .keyword .BETWEEN :: (tokens y ++ .keyword .AND :: tokens z) := by
    rw [tokens_append_closes ⟨" BETWEEN".toList, ' ', rfl, rfl⟩,
      tokens_separated _ _ ⟨' ', _, rfl, rfl⟩ ⟨" AND".toList, ' ', rfl, rfl⟩, List.append_assoc]
    rfl
  have hassoc : x ++ " BETWEEN " ++ y ++ " AND " ++ z = x ++ (" BETWEEN " ++ (y ++ " AND " ++ z)) := by
    simp only [String.append_assoc]
  rw [hassoc]
  refine .predicate ha (.append ⟨' ', _, rfl, rfl⟩ _) (fun rest r h => ?_) fun n rest hrest _ => ?_
  · rw [htail] at h; cases h
  · have hlo' := hlo (.keyword .AND :: tokens z ++ rest) fun r h => by cases h
    rw [htail, List.cons_append, List.append_assoc, predicateTail, hlo', Option.bind_some]
    exact congrArg (Option.map _) (hhi rest hrest)

theorem Reads.isNotNull (ha : ReadsOperand x a) : Reads (x ++ " IS NOT NULL") (.isNotNull a) := by
  refine .predicate ha ⟨' ', _, rfl, rfl⟩ (fun rest r h => ?_) fun n rest _ _ => ?_
  · cases h
  · rfl

theorem length_le_flatMap (t : Token) (ys : List String) :
    ys.length ≤ (ys.flatMap fun y => t :: tokens y).length := by
  induction ys with
  | nil => exact Nat.le_refl _
  | cons y ys ih => rw [List.flatMap_cons, List.length_append, List.length_cons, List.length_cons]; omega

/-- A list of operands up to its closing parenthesis. -/
theorem operands_flatMap {ys : List String} {bs : List Operand} (h : List.Forall₂ ReadsOperand ys bs) :
    ∀ {x : String} {a : Operand} (n : ℕ) (rest : List Token), ReadsOperand x a → ys.length < n →
      operands n (tokens x ++ (ys.flatMap fun y => .symbol ',' :: tokens y) ++ .symbol ')' :: rest) =
        some (a :: bs, rest) := by
  induction h with
  | nil =>
    rintro x a (_ | n) rest ha hn
    · exact absurd hn (Nat.not_lt_zero _)
    · rw [List.flatMap_nil, List.append_nil, operands, ha _ (fun r h => by cases h)]; rfl
  | @cons y b ys bs hy _ ih =>
    rintro x a (_ | n) rest ha hn
    · exact absurd hn (Nat.not_lt_zero _)
    · have hcomma : tokens x ++ ((y :: ys).flatMap fun y => .symbol ',' :: tokens y) ++
          .symbol ')' :: rest = tokens x ++ (.symbol ',' :: (tokens y ++
            (ys.flatMap fun y => .symbol ',' :: tokens y) ++ .symbol ')' :: rest)) := by
        simp [List.flatMap_cons]
      rw [hcomma, operands, ha _ (fun r h => by cases h), Option.bind_some]
      exact congrArg (Option.map _) (ih n rest hy (Nat.lt_of_succ_lt_succ hn))

theorem Reads.isIn {ys : List String} {bs : List Operand} (ha : ReadsOperand x a)
    (hb : ReadsOperand y b) (h : List.Forall₂ ReadsOperand ys bs) :
    Reads (x ++ " IN (" ++ ", ".intercalate (y :: ys) ++ ")") (.isIn a (b :: bs)) := by
  have htail : tokens (" IN (" ++ (", ".intercalate (y :: ys) ++ ")")) =
      .keyword .IN :: .symbol '(' ::
        (tokens y ++ (ys.flatMap fun y => .symbol ',' :: tokens y) ++ [.symbol ')']) := by
    rw [tokens_append_closes ⟨" IN ".toList, '(', rfl, rfl⟩,
      tokens_append_opens _ ⟨')', [], rfl, rfl⟩,
      tokens_intercalate ⟨',', _, rfl, rfl⟩ ⟨",".toList, ' ', rfl, rfl⟩]
    rfl
  rw [String.append_assoc, String.append_assoc]
  refine .predicate ha (.append ⟨' ', _, rfl, rfl⟩ _) (fun rest r h => ?_) fun n rest _ hn => ?_
  · rw [htail] at h; cases h
  · have hlen : ys.length < n := by
      rw [htail] at hn
      have hflat := length_le_flatMap (.symbol ',') ys
      simp only [List.length_cons, List.length_append] at hn
      omega
    rw [htail]
    simp only [List.cons_append, List.append_assoc, List.nil_append]
    rw [predicateTail, ← List.append_assoc]
    exact congrArg (Option.map _) (operands_flatMap h n rest hb hlen)

/-! ### Connectives -/

theorem Reads.not (h : Reads x c) : Reads ("NOT " ++ x) (.not c) := by
  have htoks : tokens ("NOT " ++ x) = .keyword .NOT :: tokens x :=
    tokens_append_closes ⟨"NOT".toList, ' ', rfl, rfl⟩ x
  intro n rest hrest hn
  rw [htoks, List.length_cons] at hn
  obtain ⟨m, rfl⟩ : ∃ m, n = m + 1 := ⟨n - 1, by omega⟩
  rw [htoks, List.cons_append, negation, h m rest hrest (by omega)]; rfl

/-- A chain of negations, up to what is neither a cast nor another `AND`. -/
theorem andTail_chain {ys : List String} {ds : List Condition} (h : List.Forall₂ Reads ys ds) :
    ∀ (c : Condition) (n : ℕ) (rest : List Token), (∀ r, rest ≠ .symbol ':' :: r) →
      (∀ r, rest ≠ .keyword .AND :: r) →
      4 * (ys.flatMap fun y => .keyword .AND :: tokens y).length + 1 ≤ n →
      andTail n c ((ys.flatMap fun y => .keyword .AND :: tokens y) ++ rest) =
        some (ds.foldl .and c, rest) := by
  induction h with
  | nil =>
    intro c n rest _ hand hn
    obtain ⟨m, rfl⟩ : ∃ m, n = m + 1 := ⟨n - 1, by omega⟩
    rw [List.flatMap_nil, List.nil_append, andTail]
    · rfl
    · rintro r rfl; exact hand r rfl
  | @cons y d ys ds hy _ ih =>
    intro c n rest hcast hand hn
    rw [List.flatMap_cons, List.length_append, List.length_cons] at hn
    obtain ⟨m, rfl⟩ : ∃ m, n = m + 1 := ⟨n - 1, by omega⟩
    rw [List.flatMap_cons, List.cons_append, List.cons_append, List.append_assoc, andTail,
      hy m _ ?_ (by omega), Option.bind_some, List.foldl_cons]
    · exact ih (c.and d) m rest hcast hand (by omega)
    · -- what follows this negation is the next `AND` or the end of the chain
      cases ys with
      | nil => exact hcast
      | cons z zs => intro r hr; cases hr

theorem conjunction_chain {ys : List String} {ds : List Condition} (hx : Reads x c)
    (h : List.Forall₂ Reads ys ds) (hcast : ∀ r, rest ≠ .symbol ':' :: r)
    (hand : ∀ r, rest ≠ .keyword .AND :: r)
    (hn : 4 * ((tokens x).length + (ys.flatMap fun y => .keyword .AND :: tokens y).length) + 2 ≤ n) :
    conjunction n (tokens x ++ (ys.flatMap fun y => .keyword .AND :: tokens y) ++ rest) =
      some (ds.foldl .and c, rest) := by
  obtain ⟨m, rfl⟩ : ∃ m, n = m + 1 := ⟨n - 1, by omega⟩
  rw [conjunction, List.append_assoc, hx m _ ?_ (by omega), Option.bind_some]
  · exact andTail_chain h c m rest hcast hand (by omega)
  · cases ys with
    | nil => exact hcast
    | cons z zs => intro r hr; cases hr

theorem conjunction_single (hx : Reads x c) (hcast : ∀ r, rest ≠ .symbol ':' :: r)
    (hand : ∀ r, rest ≠ .keyword .AND :: r) (hn : 4 * (tokens x).length + 2 ≤ n) :
    conjunction n (tokens x ++ rest) = some (c, rest) := by
  have hone := conjunction_chain hx .nil hcast hand (n := n) (by simpa using hn)
  rwa [List.flatMap_nil, List.append_nil] at hone

/-- A chain of conjunctions, up to what continues neither of them. -/
theorem orTail_chain {ys : List String} {ds : List Condition} (h : List.Forall₂ Reads ys ds) :
    ∀ (c : Condition) (n : ℕ) (rest : List Token), (∀ r, rest ≠ .symbol ':' :: r) →
      (∀ r, rest ≠ .keyword .AND :: r) → (∀ r, rest ≠ .keyword .OR :: r) →
      4 * (ys.flatMap fun y => .keyword .OR :: tokens y).length + 1 ≤ n →
      orTail n c ((ys.flatMap fun y => .keyword .OR :: tokens y) ++ rest) =
        some (ds.foldl .or c, rest) := by
  induction h with
  | nil =>
    intro c n rest _ _ hor hn
    obtain ⟨m, rfl⟩ : ∃ m, n = m + 1 := ⟨n - 1, by omega⟩
    rw [List.flatMap_nil, List.nil_append, orTail]
    · rfl
    · rintro r rfl; exact hor r rfl
  | @cons y d ys ds hy _ ih =>
    intro c n rest hcast hand hor hn
    rw [List.flatMap_cons, List.length_append, List.length_cons] at hn
    obtain ⟨m, rfl⟩ : ∃ m, n = m + 1 := ⟨n - 1, by omega⟩
    rw [List.flatMap_cons, List.cons_append, List.cons_append, List.append_assoc, orTail,
      conjunction_single hy ?_ ?_ (by omega), Option.bind_some, List.foldl_cons]
    · exact ih (c.or d) m rest hcast hand hor (by omega)
    · cases ys with
      | nil => exact hcast
      | cons z zs => intro r hr; cases hr
    · cases ys with
      | nil => exact hand
      | cons z zs => intro r hr; cases hr

/-- A parenthesised disjunction is a negation. -/
theorem Reads.parenthesised (body : List Token) (hx : tokens x = .symbol '(' :: body ++ [.symbol ')'])
    (h : ∀ n rest, 4 * body.length + 3 ≤ n →
      disjunction n (body ++ .symbol ')' :: rest) = some (c, .symbol ')' :: rest)) : Reads x c := by
  intro n rest _ hn
  rw [hx, List.length_append, List.length_cons, List.length_singleton] at hn
  obtain ⟨m, rfl⟩ : ∃ m, n = m + 1 := ⟨n - 1, by omega⟩
  rw [hx, List.cons_append, List.cons_append, List.append_assoc, List.singleton_append, negation,
    h m rest (by omega)]
  rfl

theorem tokens_parenthesised {sep : String} {ys : List String} (ho : Opens sep) (hc : Closes sep) :
    tokens ("(" ++ sep.intercalate (x :: ys) ++ ")") =
      .symbol '(' :: (tokens x ++ ys.flatMap fun y => tokens sep ++ tokens y) ++ [.symbol ')'] := by
  rw [tokens_append_opens _ ⟨')', [], rfl, rfl⟩, tokens_append_closes ⟨[], '(', rfl, rfl⟩,
    tokens_intercalate ho hc]
  rfl

theorem Reads.and {ys : List String} {ds : List Condition} (hx : Reads x c)
    (h : List.Forall₂ Reads ys ds) :
    Reads ("(" ++ " AND ".intercalate (x :: ys) ++ ")") (ds.foldl .and c) := by
  refine .parenthesised (tokens x ++ ys.flatMap fun y => .keyword .AND :: tokens y) ?_ ?_
  · exact tokens_parenthesised ⟨' ', _, rfl, rfl⟩ ⟨" AND".toList, ' ', rfl, rfl⟩
  · intro n rest hn
    rw [List.length_append] at hn
    obtain ⟨m, rfl⟩ : ∃ m, n = m + 1 := ⟨n - 1, by omega⟩
    rw [disjunction, conjunction_chain hx h (by simp) (by simp) (by omega), Option.bind_some]
    exact orTail_chain .nil _ m _ (by simp) (by simp) (by simp) (by simp; omega)

theorem Reads.or {ys : List String} {ds : List Condition} (hx : Reads x c)
    (h : List.Forall₂ Reads ys ds) :
    Reads ("(" ++ " OR ".intercalate (x :: ys) ++ ")") (ds.foldl .or c) := by
  refine .parenthesised (tokens x ++ ys.flatMap fun y => .keyword .OR :: tokens y) ?_ ?_
  · exact tokens_parenthesised ⟨' ', _, rfl, rfl⟩ ⟨" OR".toList, ' ', rfl, rfl⟩
  · intro n rest hn
    rw [List.length_append] at hn
    obtain ⟨m, rfl⟩ : ∃ m, n = m + 1 := ⟨n - 1, by omega⟩
    rw [disjunction, List.append_assoc, conjunction_single hx ?_ ?_ (by omega), Option.bind_some]
    · exact orTail_chain h c m _ (by simp) (by simp) (by simp) (by omega)
    · cases ys with
      | nil => simp
      | cons z zs => intro r hr; cases hr
    · cases ys with
      | nil => simp
      | cons z zs => intro r hr; cases hr

/-- The whole text is read as the condition. -/
theorem Reads.parse (h : Reads x c) : parse x = some c := by
  have hone : conjunction (4 * (tokens x).length + 2) (tokens x) = some (c, []) := by
    have hnil : conjunction (4 * (tokens x).length + 2) (tokens x ++ []) = some (c, []) :=
      conjunction_single h (by simp) (by simp) (Nat.le_refl _)
    rwa [List.append_nil] at hnil
  have hend : orTail (4 * (tokens x).length + 2) c [] = some (c, []) :=
    orTail_chain .nil c _ [] (by simp) (by simp) (by simp) (by simp)
  rw [Sql.parse, disjunction, hone, Option.bind_some]
  dsimp only
  rw [hend]

end SorobanPulse.Lib.Sql
