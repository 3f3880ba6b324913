import SorobanPulse.Normalizer.Pointer

/-! Where `pointer_get` evaluates a pointer as RFC 6901 does.

    The RFC reads `/` as the member under the empty key, keeps every empty token, knows no pointer
    without a leading slash, and numbers array elements without signs or leading zeros:

        {"": 1, "a": [7, 8]}     "/"       "//a"     "a/1"     "/a/01"
        RFC 6901                 1         none      none      none
        pointer_get              root      [7, 8]    8         8

    On all other pointers, and where a document happens to hold the same at both places, they agree. -/

namespace SorobanPulse.Normalizer
open Lib

/-- `array-index`: zero, or digits without a zero in front. -/
def arrayIndex (token : String) : Option ℕ :=
  match token.toList with
  | ['0'] => some 0
  | '0' :: _ => none
  | ds => digits? ds

def evalTokens : Value → List String → Option Value
  | v, [] => some v
  | .object map, token :: rest => (map.lookup token).bind fun v => evalTokens v rest
  | .array arr, token :: rest =>
    (arrayIndex token).bind fun i => arr[i]?.bind fun v => evalTokens v rest
  | _, _ :: _ => none

/-- Evaluation of a pointer by RFC 6901. -/
def rfc6901 (value : Value) (pointer : String) : Option Value :=
  match pointer.toList with
  | [] => some value
  | '/' :: rest => evalTokens value ((rest.splitOn '/').map unescape)
  | _ => none

/-- No array is longer than memory allows. -/
def Fits (value : Value) : Prop :=
  ∀ path items, value.locate path = some (.array items) → items.length < 2 ^ 63

/-- Every element on the way is named by its number, in plain decimal. -/
def Plain (names : List String) (path : List Step) : Prop :=
  ∀ token i, (token, Step.element i) ∈ names.zip path → token = toString i

def leadingSlashes (pointer : String) : ℕ := (pointer.toList.takeWhile (· = '/')).length

/-- What the document has to be like for a pointer. -/
def Conforming (value : Value) (pointer : String) : Prop :=
  match leadingSlashes pointer with
  | 0 => pointer = "" ∨ resolveTokens value (tokens pointer) = none
  | 1 => pointer ≠ "/" ∧
    ∀ path, resolveTokens value (tokens pointer) = some path → Plain (tokens pointer) path
  | k + 2 => ∀ w,
    (∃ path, resolveTokens value (tokens pointer) = some path ∧ value.locate path = some w) ↔
      ∃ path, resolveTokens value (List.replicate (k + 1) "" ++ tokens pointer) = some path ∧
        Plain (List.replicate (k + 1) "" ++ tokens pointer) path ∧ value.locate path = some w

section
variable {v w c : Value} {s : Step} {token pointer : String} {names : List String}
  {path : List Step}

theorem Fits.child (h : Fits v) (hc : v.child s = some c) : Fits c := by
  intro path items hpath
  exact h (s :: path) items ((Value.locate_cons hc path).trans hpath)

/-- The grammar of the RFC has exactly the plain numbers. -/
theorem arrayIndex_eq_some {i : ℕ} : arrayIndex token = some i ↔ token = toString i := by
  rw [← String.toList_inj, toList_toString_nat]
  constructor
  · intro h
    rw [arrayIndex] at h
    split at h
    · -- the number 0
      next hzero =>
      obtain rfl := Option.some.inj h
      exact hzero
    · cases h
    · next hzero hlead =>
      rw [digits?] at h
      split at h
      · next hdigits =>
        obtain rfl := Option.some.inj h
        -- digits without a leading zero are the digits of their value
        refine (toDigits_ofDigitChars hdigits.1 (List.all_eq_true.mp hdigits.2) ?_).2.symm
        intro hhead
        obtain ⟨ds, hds⟩ := List.head?_eq_some_iff.mp hhead
        exact hlead ds hds
      · cases h
  · intro h
    rw [arrayIndex, h]
    split
    · next hzero =>
      have hvalue := Nat.ofDigitChars_ten_toDigits (n := i)
      rw [hzero] at hvalue
      exact congrArg some hvalue
    · next ds hne hlead =>  -- a leading zero is the number 0 alone
      have hlen := length_toDigits_of_head? (n := i) (by rw [hlead]; rfl)
      rw [hlead, List.length_cons, Nat.succ.injEq, List.length_eq_zero_iff] at hlen
      exact absurd hlen hne
    · have hdigits := digits?_decimal 0 i
      simpa [decimal] using hdigits

theorem parseUsize_toString {i : ℕ} (h : i < 2 ^ 64) : parseUsize (toString i) = some i := by
  have htext : (toString i).toList = decimal 0 i := by
    rw [decimal_zero, toList_toString_nat]
  rw [parseUsize, htext, parseUnsigned_decimal h]

theorem plain_nil : Plain [] path := by
  intro token i h
  cases h

theorem plain_cons : Plain (token :: names) (s :: path) ↔
    (∀ i, s = .element i → token = toString i) ∧ Plain names path := by
  constructor
  · intro h
    exact ⟨fun i hi => h token i (hi ▸ List.mem_cons_self),
      fun t i hmem => h t i (List.mem_cons_of_mem _ hmem)⟩
  · rintro ⟨hfirst, hrest⟩ t i hmem
    rcases List.mem_cons.mp hmem with heq | hmem
    · obtain ⟨rfl, rfl⟩ := Prod.mk.inj heq
      exact hfirst i rfl
    · exact hrest t i hmem

/-- A token the RFC reads leads where the code's reading of it leads. -/
theorem evalTokens_cons (hv : Fits v) (token : String) (names : List String) :
    evalTokens v (token :: names) = some w ↔
      ∃ s c, stepOf v token = some s ∧ v.child s = some c ∧
        (∀ i, s = .element i → token = toString i) ∧ evalTokens c names = some w := by
  cases v with
  | array items =>
    rw [evalTokens]
    simp only [Option.bind_eq_some_iff, arrayIndex_eq_some]
    constructor
    · rintro ⟨i, rfl, c, hc, hw⟩
      have hlt := (List.getElem?_eq_some_iff.mp hc).1.trans (hv [] items rfl)
      refine ⟨.element i, c, ?_, hc, fun j hj => congrArg toString (Step.element.inj hj), hw⟩
      rw [stepOf, parseUsize_toString (by omega), Option.map_some]
    · rintro ⟨s, c, hs, hc, hplain, hw⟩
      obtain ⟨i, -, rfl⟩ := Option.map_eq_some_iff.mp hs
      exact ⟨i, hplain i rfl, c, hc, hw⟩
  | object map =>
    rw [evalTokens, Option.bind_eq_some_iff]
    constructor
    · rintro ⟨c, hc, hw⟩
      exact ⟨.member token, c, rfl, hc, fun _ h => Step.noConfusion h, hw⟩
    · rintro ⟨s, c, hs, hc, -, hw⟩
      obtain rfl := Option.some.inj hs
      exact ⟨c, hc, hw⟩
  | _ =>
    constructor
    · intro h
      cases h
    · rintro ⟨s, c, hs, -⟩
      cases hs

theorem evalTokens_eq_some (hv : Fits v) : evalTokens v names = some w ↔
    ∃ path, resolveTokens v names = some path ∧ Plain names path ∧ v.locate path = some w := by
  induction names generalizing v with
  | nil =>
    have hnil : evalTokens v [] = some v := by cases v <;> rfl
    rw [hnil]
    constructor
    · intro h
      exact ⟨[], by rw [resolveTokens], plain_nil, h⟩
    · rintro ⟨path, hpath, -, hw⟩
      rw [resolveTokens] at hpath
      obtain rfl := Option.some.inj hpath
      exact hw
  | cons token names ih =>
    rw [evalTokens_cons hv]
    constructor
    · rintro ⟨s, c, hs, hc, hplain, hw⟩
      obtain ⟨path, hpath, hnames, hw⟩ := (ih (hv.child hc)).mp hw
      refine ⟨s :: path, ?_, plain_cons.mpr ⟨hplain, hnames⟩, ?_⟩
      · rw [resolveTokens_cons hs hc, hpath, Option.map_some]
      · rw [Value.locate_cons hc, hw]
    · rintro ⟨path, hpath, hplain, hw⟩
      obtain ⟨s, c, rest, hs, hc, hrest, rfl⟩ := exists_of_resolveTokens hpath
      rw [plain_cons] at hplain
      rw [Value.locate_cons hc] at hw
      exact ⟨s, c, hs, hc, hplain.1, (ih (hv.child hc)).mpr ⟨rest, hrest, hplain.2, hw⟩⟩

theorem getLoop_eq_some : getLoop v names = some w ↔
    ∃ path, resolveTokens v names = some path ∧ v.locate path = some w := by
  rw [getLoop_eq, Option.bind_eq_some_iff]

/-- What is resolved is there. -/
theorem exists_locate_of_resolveTokens (h : resolveTokens v names = some path) :
    ∃ w, v.locate path = some w := by
  induction names generalizing v path with
  | nil =>
    rw [resolveTokens] at h
    obtain rfl := Option.some.inj h
    exact ⟨v, rfl⟩
  | cons token names ih =>
    obtain ⟨s, c, rest, -, hc, hrest, rfl⟩ := exists_of_resolveTokens h
    rw [Value.locate_cons hc]
    exact ih hrest

theorem getLoop_eq_none : getLoop v names = none ↔ resolveTokens v names = none := by
  rw [getLoop_eq]
  constructor
  · intro h
    cases hpath : resolveTokens v names with
    | none => rfl
    | some path =>
      obtain ⟨w, hw⟩ := exists_locate_of_resolveTokens hpath
      rw [hpath, Option.bind_some, hw] at h
      cases h
  · intro h
    rw [h, Option.bind_none]

/-! ### Leading slashes -/

/-- The slashes in front of a pointer, and the rest of it. -/
theorem toList_pointer (pointer : String) : ∃ rest : List Char, rest.head? ≠ some '/' ∧
    pointer.toList = List.replicate (leadingSlashes pointer) '/' ++ rest ∧
      tokens pointer = (rest.splitOn '/').map unescape := by
  refine ⟨pointer.toList.dropWhile (· = '/'), ?_, ?_, rfl⟩
  · intro h
    have hhead := List.head?_dropWhile_not (· = '/') pointer.toList
    rw [h] at hhead
    exact Bool.noConfusion hhead
  · have hslashes : pointer.toList.takeWhile (· = '/') =
        List.replicate (leadingSlashes pointer) '/' := by
      refine List.eq_replicate_iff.mpr ⟨rfl, fun c hc => ?_⟩
      simpa using List.mem_takeWhile_imp hc
    rw [← hslashes, List.takeWhile_append_dropWhile]

/-- Every slash but the first leaves an empty token in front. -/
theorem splitOn_slashes (k : ℕ) (rest : List Char) :
    ((List.replicate k '/' ++ rest).splitOn '/').map unescape =
      List.replicate k "" ++ (rest.splitOn '/').map unescape := by
  induction k with
  | zero => rfl
  | succ k ih =>
    rw [List.replicate_succ, List.cons_append, List.splitOn_cons_eq_if_modifyHead, if_pos (by simp),
      List.map_cons, ih, List.replicate_succ, List.cons_append]
    rfl

/-- The tokens of the RFC are those of the code behind the empty ones. -/
theorem rfc6901_eq {k : ℕ} (h : leadingSlashes pointer = k + 1) (v : Value) :
    rfc6901 v pointer = evalTokens v (List.replicate k "" ++ tokens pointer) := by
  obtain ⟨rest, -, hlist, htokens⟩ := toList_pointer pointer
  rw [h, List.replicate_succ, List.cons_append] at hlist
  rw [rfc6901, hlist, htokens, ← splitOn_slashes]
  rfl

theorem pointerGet_eq_getLoop (hne : pointer ≠ "") (hslash : pointer ≠ "/") (v : Value) :
    pointerGet v pointer = getLoop v (tokens pointer) := by
  rw [pointerGet, if_neg (not_or.mpr ⟨hne, hslash⟩)]

/-- A child is smaller than what it is a child of. -/
theorem nodes_lt_of_child (h : v.child s = some c) : c.nodes < v.nodes := by
  cases v with
  | array items =>
    cases s with
    | element i =>
      have hmem := List.le_sum_of_mem (List.mem_map_of_mem (f := Value.nodes) (List.mem_of_getElem? h))
      rw [Value.nodes, nodesList_eq_sum]
      omega
    | member key => cases h
  | object map =>
    cases s with
    | member key =>
      have hmem := List.le_sum_of_mem
        (List.mem_map_of_mem (f := fun e => e.2.nodes) (mem_of_lookup h))
      rw [Value.nodes, nodesMap_eq_sum]
      dsimp only at hmem
      omega
    | element i => cases h
  | _ => cases s <;> cases h

theorem nodes_pos (v : Value) : 0 < v.nodes := by
  cases v <;> simp [Value.nodes]

theorem nodes_le_of_locate (h : v.locate path = some w) : w.nodes ≤ v.nodes := by
  induction path generalizing v with
  | nil =>
    obtain rfl := Option.some.inj h
    exact le_rfl
  | cons s path ih =>
    obtain ⟨c, hc, h⟩ := Value.child_of_locate h
    exact (ih h).trans (nodes_lt_of_child hc).le

theorem length_lt_nodes (items : List Value) : items.length < (Value.array items).nodes := by
  rw [Value.nodes, nodesList_eq_sum]
  have hlen := List.length_le_sum_of_one_le (items.map Value.nodes)
    fun n hn => by
      obtain ⟨v, -, rfl⟩ := List.mem_map.mp hn
      exact nodes_pos v
  rw [List.length_map] at hlen
  omega

theorem fits_of_nodes_le (h : v.nodes ≤ 2 ^ 63) : Fits v := by
  intro path items hpath
  exact (length_lt_nodes items).trans_le ((nodes_le_of_locate hpath).trans h)

/-- The root is not its own member under the empty key. -/
theorem evalTokens_singleton_ne (hv : Fits v) (token : String) :
    evalTokens v [token] ≠ some v := by
  intro h
  obtain ⟨s, c, -, hc, -, hw⟩ := (evalTokens_cons hv token []).mp h
  have hnil : evalTokens c [] = some c := by cases c <;> rfl
  rw [hnil] at hw
  have hlt := nodes_lt_of_child hc
  rw [Option.some.inj hw] at hlt
  exact Nat.lt_irrefl _ hlt

end

/-- `pointer_get` evaluates a pointer as the RFC does exactly where it is conforming. -/
theorem pointerGet_eq_rfc6901_iff (value : Value) (pointer : String) (hvalue : Fits value) :
    pointerGet value pointer = rfc6901 value pointer ↔ Conforming value pointer := by
  rw [Conforming]
  split
  · next hlead =>  -- no slash in front: the RFC takes no such pointer, except the empty one
    by_cases hempty : pointer = ""
    · subst hempty
      exact ⟨fun _ => .inl rfl, fun _ => rfl⟩
    · have hslash : pointer ≠ "/" := by
        rintro rfl
        cases hlead
      have hrfc : rfc6901 value pointer = none := by
        obtain ⟨rest, hhead, hlist, -⟩ := toList_pointer pointer
        rw [hlead, List.replicate_zero, List.nil_append] at hlist
        rw [← hlist] at hhead
        rw [rfc6901]
        split
        · next hnil => exact absurd (String.toList_eq_nil_iff.mp hnil) hempty
        · next hcons =>
          rw [hcons] at hhead
          exact absurd rfl hhead
        · rfl
      rw [hrfc, pointerGet_eq_getLoop hempty hslash, getLoop_eq_none]
      simp [hempty]
  · next hlead =>
    have hempty : pointer ≠ "" := by
      rintro rfl
      cases hlead
    rw [rfc6901_eq hlead, List.replicate_zero, List.nil_append]
    by_cases hslash : pointer = "/"
    · subst hslash
      -- the RFC looks for the member with the empty name, the loop returns the value itself
      refine ⟨fun h => ?_, fun h => absurd rfl h.1⟩
      have htokens : tokens "/" = [""] := by decide
      rw [htokens] at h
      exact absurd h.symm (evalTokens_singleton_ne hvalue _)
    · rw [pointerGet_eq_getLoop hempty hslash]
      constructor
      · intro h
        -- agreement at the RFC's own path makes its spelling plain
        refine ⟨hslash, fun path hpath => ?_⟩
        obtain ⟨w, hw⟩ := exists_locate_of_resolveTokens hpath
        have hget := getLoop_eq_some.mpr ⟨path, hpath, hw⟩
        rw [h] at hget
        obtain ⟨path', hpath', hplain, -⟩ := (evalTokens_eq_some hvalue).mp hget
        rwa [Option.some_inj.mp (hpath.symm.trans hpath')]
      · -- spelled plainly, a path resolves to the same place in both
        rintro ⟨-, hplain⟩
        refine Option.ext fun w => ?_
        rw [getLoop_eq_some, evalTokens_eq_some hvalue]
        constructor
        · rintro ⟨path, hpath, hw⟩
          exact ⟨path, hpath, hplain path hpath, hw⟩
        · rintro ⟨path, hpath, -, hw⟩
          exact ⟨path, hpath, hw⟩
  · next k hlead =>  -- with more slashes the loop still reads the tokens behind them
    have hempty : pointer ≠ "" := by
      rintro rfl
      cases hlead
    have hslash : pointer ≠ "/" := by
      rintro rfl
      cases hlead
    rw [pointerGet_eq_getLoop hempty hslash, rfc6901_eq hlead]
    constructor
    · intro h w
      rw [← getLoop_eq_some, ← evalTokens_eq_some hvalue, h]
    · intro h
      refine Option.ext fun w => ?_
      rw [getLoop_eq_some, evalTokens_eq_some hvalue]
      exact h w

/-- `/amounts/1` of `{"amounts": ["0x0a", "0x10"]}`. -/
theorem pointerGet_eq_rfc6901_element :
    Conforming (.object [("amounts", .array [.string "0x0a", .string "0x10"])]) "/amounts/1" :=
  (pointerGet_eq_rfc6901_iff _ _ (fits_of_nodes_le (by decide))).mp rfl

/-- `/amounts/01` names an element for the code, and nothing for the RFC. -/
theorem not_pointerGet_eq_rfc6901 :
    let data := Value.object [("amounts", .array [.string "0x0a", .string "0x10"])]
    pointerGet data "/amounts/01" = some (.string "0x10") ∧
      ¬pointerGet data "/amounts/01" = rfc6901 data "/amounts/01" := by
  refine ⟨rfl, fun h => ?_⟩
  have hrfc : rfc6901 (.object [("amounts", .array [.string "0x0a", .string "0x10"])])
      "/amounts/01" = none := rfl
  rw [hrfc] at h
  cases h

end SorobanPulse.Normalizer
