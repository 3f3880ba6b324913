import Mathlib

/-! Numbered placeholders and the values bound to them.

    A prepared statement is put together from conditions that are pushed one after the other, each
    taking the next free numbers for its `$n`; the values are listed apart, by code of its own.

        conditions   a = $1     (b, c) > ($2, $3)     d = $4
        values       a          b    c                d

    The two lists *agree* when there is one value for each number and the value of `$n` is the one
    that the condition mentioning `$n` speaks of. For conditions numbered by pushing this is the
    equality of two lists of keys: which parameter, and which of its values. -/

namespace SorobanPulse.Lib.Placeholders

variable {P V α : Type*}

/-- A condition about `param`, with the placeholders its text mentions from left to right. -/
structure Condition (P : Type*) where
  param : P
  holes : List ℕ
  deriving DecidableEq, Repr

/-- A bound value: the `part`-th value of `param`. -/
structure Bind (P V : Type*) where
  param : P
  part : ℕ
  value : V
  deriving DecidableEq, Repr

def Bind.key (b : Bind P V) : P × ℕ := (b.param, b.part)

/-- What a condition says about its placeholders: number, parameter, which value of it. -/
def Condition.mentions (c : Condition P) : List (ℕ × P × ℕ) :=
  c.holes.zipIdx.map fun h => (h.1, c.param, h.2)

def mentions (conds : List (Condition P)) : List (ℕ × P × ℕ) := conds.flatMap Condition.mentions

/-- As many values as distinct placeholders, and each placeholder is given the value its condition
    speaks of. -/
def Agrees [DecidableEq P] (conds : List (Condition P)) (binds : List (Bind P V)) : Prop :=
  binds.length = ((mentions conds).map (·.1)).dedup.length ∧
    ∀ m ∈ mentions conds, (binds[m.1 - 1]?).map Bind.key = some m.2

/-- The values a condition is given. -/
def args (binds : List (Bind P V)) (c : Condition P) : List V :=
  c.holes.filterMap fun n => (binds[n - 1]?).map Bind.value

/-- Every value is one of those that `val` gives for its parameter. -/
def FromValues (val : P → List V) (binds : List (Bind P V)) : Prop :=
  ∀ b ∈ binds, (val b.param)[b.part]? = some b.value

/-- Under agreement a condition is given the values of its own parameter. -/
theorem Agrees.args_eq [DecidableEq P] {conds : List (Condition P)} {binds : List (Bind P V)}
    (h : Agrees conds binds) {val : P → List V} (hval : FromValues val binds) {c : Condition P}
    (hc : c ∈ conds) (hlen : c.holes.length = (val c.param).length) : args binds c = val c.param := by
  have hmap : c.holes.map (fun n => (binds[n - 1]?).map Bind.value) = (val c.param).map some := by
    apply List.ext_getElem
    · rw [List.length_map, List.length_map, hlen]
    · intro i hi hi'
      rw [List.length_map] at hi hi'
      rw [List.getElem_map, List.getElem_map]
      have hmention : (c.holes[i], c.param, i) ∈ mentions conds := by
        rw [mentions, List.mem_flatMap]
        refine ⟨c, hc, List.mem_map.mpr ⟨(c.holes[i], i), ?_, rfl⟩⟩
        rw [List.mk_mem_zipIdx_iff_getElem?]
        exact List.getElem?_eq_getElem hi
      rcases Option.map_eq_some_iff.mp (h.2 _ hmention) with ⟨b, hb, hkey⟩
      have hb' := hval b (List.mem_of_getElem? hb)
      rw [Bind.key, Prod.mk.injEq] at hkey
      rw [hkey.1, hkey.2, List.getElem?_eq_getElem hi'] at hb'
      rw [hb, Option.map_some, Option.some.inj hb']
  have hargs : args binds c = (c.holes.map fun n => (binds[n - 1]?).map Bind.value).filterMap id := by
    rw [args, List.filterMap_map]
    rfl
  rw [hargs, hmap, List.filterMap_map]
  exact List.filterMap_some

/-! ### Pushing conditions -/

/-- The conditions so far and the number of the next placeholder. -/
structure Builder (P : Type*) where
  conditions : List (Condition P)
  bindIdx : ℕ

/-- Pushes a condition with `width` placeholders when its parameter is supplied. -/
def Builder.push (b : Builder P) (supplied : Bool) (p : P) (width : ℕ) : Builder P :=
  if supplied then ⟨b.conditions ++ [⟨p, List.range' b.bindIdx width⟩], b.bindIdx + width⟩ else b

/-- The values of a parameter that is bound, one after the other. -/
def bindAll (p : P) (vs : List V) : List (Bind P V) := vs.zipIdx.map fun v => ⟨p, v.2, v.1⟩

/-- The values of a parameter that may be absent. -/
def bindOpt (p : P) (vs : Option (List V)) : List (Bind P V) := bindAll p (vs.getD [])

/-- `width` values of `p`. -/
def parts (p : P) (width : ℕ) : List (P × ℕ) := (List.range width).map (p, ·)

/-- The list `l` where `s` holds. -/
def guarded (s : Bool) (l : List α) : List α := if s then l else []

@[simp] theorem guarded_true (l : List α) : guarded true l = l := rfl
@[simp] theorem guarded_false (l : List α) : guarded false l = [] := rfl

@[simp] theorem guarded_eq_nil {s : Bool} {l : List α} (hl : l ≠ []) :
    guarded s l = [] ↔ s = false := by
  cases s <;> simp [hl]

@[simp] theorem parts_one (p : P) : parts p 1 = [(p, 0)] := rfl

@[simp] theorem length_parts (p : P) (w : ℕ) : (parts p w).length = w := by simp [parts]

theorem map_key_bindAll (p : P) (vs : List V) : (bindAll p vs).map Bind.key = parts p vs.length := by
  rw [bindAll, List.map_map]
  apply List.ext_getElem
  · simp [parts]
  · intro i _ _
    simp [parts, Bind.key]

/-- A parameter that is bound with `w` values exactly when `s` holds. -/
theorem map_key_bindOpt (p : P) {vs : Option (List V)} {w : ℕ} (h : ∀ l, vs = some l → l.length = w) :
    (bindOpt p vs).map Bind.key = guarded vs.isSome (parts p w) := by
  rw [bindOpt, map_key_bindAll]
  cases vs with
  | none => rfl
  | some l => rw [Option.getD_some, h l rfl, Option.isSome_some, guarded_true]

/-- The parameters that were pushed, and how many placeholders each has. -/
def widths (conds : List (Condition P)) : List (P × ℕ) :=
  conds.map fun c => (c.param, c.holes.length)

@[simp] theorem widths_nil : widths ([] : List (Condition P)) = [] := rfl

@[simp] theorem widths_cons (c : Condition P) (conds : List (Condition P)) :
    widths (c :: conds) = (c.param, c.holes.length) :: widths conds := rfl

@[simp] theorem widths_append (cs ds : List (Condition P)) :
    widths (cs ++ ds) = widths cs ++ widths ds := List.map_append

@[simp] theorem widths_push (b : Builder P) (s : Bool) (p : P) (w : ℕ) :
    widths (b.push s p w).conditions = widths b.conditions ++ guarded s [(p, w)] := by
  cases s <;> simp [Builder.push, widths]

@[simp] theorem fromValues_append {val : P → List V} {bs cs : List (Bind P V)} :
    FromValues val (bs ++ cs) ↔ FromValues val bs ∧ FromValues val cs :=
  List.forall_mem_append

theorem fromValues_bindAll {val : P → List V} {p : P} {vs : List V} (h : val p = vs) :
    FromValues val (bindAll p vs) := by
  intro b hb
  rcases List.mem_map.mp hb with ⟨v, hv, rfl⟩
  rw [h]
  exact List.mk_mem_zipIdx_iff_getElem?.mp hv

/-- The same values, said to be those of other parameters. -/
def relabel (σ : P → P) (binds : List (Bind P V)) : List (Bind P V) :=
  binds.map fun b => { b with param := σ b.param }

theorem args_relabel (σ : P → P) (binds : List (Bind P V)) (c : Condition P) :
    args (relabel σ binds) c = args binds c := by
  unfold args
  congr 1
  funext n
  rw [relabel, List.getElem?_map, Option.map_map]
  rfl

theorem map_key_relabel (σ : P → P) (binds : List (Bind P V)) :
    (relabel σ binds).map Bind.key = (binds.map Bind.key).map fun k => (σ k.1, k.2) := by
  rw [relabel, List.map_map, List.map_map]
  rfl

theorem FromValues.relabel {σ : P → P} {val val' : P → List V} {binds : List (Bind P V)}
    (h : FromValues val binds) (hσ : ∀ p, val' (σ p) = val p) :
    FromValues val' (Placeholders.relabel σ binds) := by
  intro b hb
  rcases List.mem_map.mp hb with ⟨b', hb', rfl⟩
  rw [hσ]
  exact h b' hb'

/-! ### Numbered conditions -/

/-- The conditions mention `$1`, `$2`, … in order, for the given keys. -/
structure Builder.Numbers (b : Builder P) (keys : List (P × ℕ)) : Prop where
  bindIdx : b.bindIdx = keys.length + 1
  mentions : mentions b.conditions = (keys.zipIdx 1).map fun k => (k.2, k.1)

theorem Builder.numbers_nil : Builder.Numbers (⟨[], 1⟩ : Builder P) [] := ⟨rfl, rfl⟩

theorem Builder.Numbers.of_eq {b : Builder P} {keys keys' : List (P × ℕ)} (h : b.Numbers keys)
    (hk : keys = keys') : b.Numbers keys' := hk ▸ h

theorem mentions_range' (p : P) (n w : ℕ) :
    (Condition.mk p (List.range' n w)).mentions = ((parts p w).zipIdx n).map fun k => (k.2, k.1) := by
  rw [Condition.mentions]
  apply List.ext_getElem
  · simp
  · intro i _ _
    simp [parts]

theorem Builder.Numbers.push {b : Builder P} {keys : List (P × ℕ)} (h : b.Numbers keys)
    (supplied : Bool) (p : P) (w : ℕ) :
    (b.push supplied p w).Numbers (keys ++ guarded supplied (parts p w)) := by
  cases supplied with
  | false => simpa [Builder.push] using h
  | true =>
    refine ⟨?_, ?_⟩
    · simp only [Builder.push, if_pos, h.bindIdx, guarded_true, List.length_append, length_parts]
      omega
    · have hm := h.mentions
      rw [Placeholders.mentions] at hm ⊢
      rw [Builder.push, if_pos rfl, guarded_true, List.flatMap_append, hm, List.zipIdx_append,
        List.map_append, List.flatMap_singleton, mentions_range', h.bindIdx, Nat.add_comm 1]

/-- The numbers are distinct, one for each key. -/
theorem Builder.Numbers.distinct {b : Builder P} {keys : List (P × ℕ)} (h : b.Numbers keys) :
    ((Placeholders.mentions b.conditions).map (·.1)).dedup.length = keys.length := by
  have hnum : (((keys.zipIdx 1).map fun k => (k.2, k.1)).map (·.1)) = List.range' 1 keys.length := by
    rw [List.map_map]
    apply List.ext_getElem
    · simp
    · intro i _ _
      simp
  rw [h.mentions, hnum, List.Nodup.dedup (List.nodup_range'), List.length_range']

/-- Conditions numbered by pushing agree with the values that have their keys, in their order. -/
theorem Builder.Numbers.agrees_iff [DecidableEq P] {b : Builder P} {keys : List (P × ℕ)}
    (h : b.Numbers keys) (binds : List (Bind P V)) :
    Agrees b.conditions binds ↔ binds.map Bind.key = keys := by
  rw [Agrees, h.distinct, h.mentions]
  constructor
  · rintro ⟨hlen, hall⟩
    apply List.ext_getElem
    · rw [List.length_map, hlen]
    · intro i hi hk
      rw [List.length_map] at hi
      have hmem : (keys[i], i + 1) ∈ keys.zipIdx 1 := by
        rw [List.mk_mem_zipIdx_iff_le_and_getElem?_sub, Nat.add_sub_cancel]
        exact ⟨Nat.le_add_left 1 i, List.getElem?_eq_getElem hk⟩
      have hbind := hall _ (List.mem_map_of_mem hmem)
      rw [Nat.add_sub_cancel, List.getElem?_eq_getElem hi, Option.map_some] at hbind
      rw [List.getElem_map, Option.some.inj hbind]
  · intro hkeys
    refine ⟨by rw [← hkeys, List.length_map], ?_⟩
    intro m hm
    rcases List.mem_map.mp hm with ⟨k, hk, rfl⟩
    rw [← List.getElem?_map, hkeys]
    exact (List.mk_mem_zipIdx_iff_le_and_getElem?_sub.mp hk).2

end SorobanPulse.Lib.Placeholders

/-! The placeholders `$n` in the text of a statement.

        ledger >= $1 AND ledger <= $12 LIMIT $3        1, 12, 3

    A dollar sign with digits behind it, as many as there are. Texts are put together at places where
    no digit follows, and then their placeholders are too: `placeholders_append`. -/

namespace SorobanPulse.Lib

/-- From left to right. -/
def placeholders : List Char → List ℕ
  | [] => []
  | c :: cs =>
    let ds := cs.takeWhile Char.isDigit
    if c = '$' ∧ ds ≠ [] then Nat.ofDigitChars 10 ds 0 :: placeholders cs else placeholders cs

example : placeholders "ledger >= $1 AND x = '$' LIMIT $12".toList = [1, 12] := by decide

section
variable {xs ys : List Char}

/-- No digit comes first. -/
def Detached (ys : List Char) : Prop := (ys.head?.all fun c => !c.isDigit) = true

instance (ys : List Char) : Decidable (Detached ys) := inferInstanceAs (Decidable (_ = _))

theorem Detached.append (h : Detached xs) (hne : xs ≠ []) : Detached (xs ++ ys) := by
  cases xs with
  | nil => exact absurd rfl hne
  | cons c xs => exact h

theorem takeWhile_append_detached (h : Detached ys) :
    (xs ++ ys).takeWhile Char.isDigit = xs.takeWhile Char.isDigit := by
  induction xs with
  | nil =>
    cases ys with
    | nil => rfl
    | cons c ys =>
      have hc : c.isDigit = false := by simpa [Detached] using h
      simp [hc]
  | cons c xs ih => simp only [List.cons_append, List.takeWhile_cons, ih]

theorem placeholders_append (h : Detached ys) :
    placeholders (xs ++ ys) = placeholders xs ++ placeholders ys := by
  induction xs with
  | nil => rfl
  | cons c xs ih =>
    simp only [List.cons_append, placeholders, takeWhile_append_detached h, ih]
    split
    · rfl
    · rfl

/-- A text without a dollar sign in front changes nothing. -/
theorem placeholders_append_left (h : '$' ∉ xs) : placeholders (xs ++ ys) = placeholders ys := by
  induction xs with
  | nil => rfl
  | cons c xs ih =>
    rw [List.mem_cons, not_or] at h
    rw [List.cons_append, placeholders, if_neg fun hc => h.1 hc.1.symm]
    exact ih h.2

theorem placeholders_eq_nil (h : '$' ∉ xs) : placeholders xs = [] := by
  rw [← List.append_nil xs, placeholders_append_left h]
  rfl

/-- `$n`. -/
theorem placeholders_param (n : ℕ) : placeholders ('$' :: Nat.toDigits 10 n) = [n] := by
  have hdigits : ∀ c ∈ Nat.toDigits 10 n, c.isDigit = true := fun c hc =>
    Nat.isDigit_of_mem_toDigits (by omega) (by omega) hc
  have hrest : '$' ∉ Nat.toDigits 10 n := fun h => absurd (hdigits _ h) (by decide)
  have hall : (Nat.toDigits 10 n).takeWhile Char.isDigit = Nat.toDigits 10 n :=
    List.takeWhile_eq_self_iff.mpr hdigits
  rw [placeholders, hall, if_pos ⟨rfl, Nat.toDigits_ne_nil⟩, Nat.ofDigitChars_ten_toDigits,
    placeholders_eq_nil hrest]

end

end SorobanPulse.Lib
