import SorobanPulse.JsonLocations
import SorobanPulse.Lib.Decimal
import SorobanPulse.Lib.ReplaceAll

/-! JSON pointers as the normalizer reads them: `pointer_get` and `pointer_set`.

    The tokens of a pointer are resolved against a value one by one, a member of an object by its
    key and an element of an array by its number. Both functions resolve them alike, so a pointer
    that names a value is a lens: `pointerGet_pointerSet`, `pointerSet_pointerSet`,
    `locate_pointerSet`. -/

namespace SorobanPulse.Normalizer
open Lib

/-- `token.replace("~1", "/").replace("~0", "~")` -/
def unescape (token : List Char) : String :=
  String.ofList (replaceAll ['~', '0'] ['~'] (replaceAll ['~', '1'] ['/'] token))

/-- `pointer.trim_start_matches('/').split('/')`, unescaped. -/
def tokens (pointer : String) : List String :=
  ((pointer.toList.dropWhile (· = '/')).splitOn '/').map unescape

/-- `token.parse::<usize>().ok()` -/
def parseUsize (token : String) : Option ℕ := parseUnsigned (2 ^ 64) token.toList

/-- The loop of `pointer_get`. -/
def getLoop : Value → List String → Option Value
  | current, [] => some current
  | .object map, token :: rest => (map.lookup token).bind fun current => getLoop current rest
  | .array arr, token :: rest =>
    (parseUsize token).bind fun idx => arr[idx]?.bind fun current => getLoop current rest
  | _, _ :: _ => none

/-- Resolve a JSON pointer to the value it names. -/
def pointerGet (value : Value) (pointer : String) : Option Value :=
  if pointer = "" ∨ pointer = "/" then some value else getLoop value (tokens pointer)

/-- The loop of `pointer_set`: what becomes of `current`. -/
def setLoop (newVal : Value) : Value → List String → Value
  | current, [] => current
  | .object map, [token] => .object (insertMember token newVal map)
  | .object map, token :: rest =>
    .object (insertMember token (setLoop newVal ((map.lookup token).getD (.object [])) rest) map)
  | .array arr, [token] =>
    match parseUsize token with
    | some idx => .array (arr.set idx newVal)
    | none => .array arr
  | .array arr, token :: rest =>
    match parseUsize token with
    | some idx =>
      match arr[idx]? with
      | some current => .array (arr.set idx (setLoop newVal current rest))
      | none => .array arr
    | none => .array arr
  | current, _ :: _ => current

/-- Set a value at a JSON pointer path. -/
def pointerSet (root : Value) (pointer : String) (newVal : Value) : Value :=
  if pointer = "" ∨ pointer = "/" then newVal else setLoop newVal root (tokens pointer)

example : pointerSet (.object [("a", .array [.null, .bool true])]) "/a/01" (.bool false) =
    .object [("a", .array [.null, .bool false])] := by rfl

/-! ### Resolved paths -/

/-- Where a token leads from a value. -/
def stepOf : Value → String → Option Step
  | .object _, token => some (.member token)
  | .array _, token => (parseUsize token).map .element
  | _, _ => none

/-- The location that tokens name in a value, if there is one. -/
def resolveTokens : Value → List String → Option (List Step)
  | _, [] => some []
  | v, token :: rest =>
    (stepOf v token).bind fun s =>
      (v.child s).bind fun c => (resolveTokens c rest).map (s :: ·)

/-- The resolved path of a pointer. -/
def resolved (value : Value) (pointer : String) : Option (List Step) :=
  if pointer = "" ∨ pointer = "/" then some [] else resolveTokens value (tokens pointer)

section
variable {v w c new : Value} {s : Step} {token pointer : String} {names names' : List String}
  {path : List Step}

theorem resolveTokens_cons (hs : stepOf v token = some s) (hc : v.child s = some c)
    (names : List String) :
    resolveTokens v (token :: names) = (resolveTokens c names).map (s :: ·) := by
  rw [resolveTokens, hs, Option.bind_some, hc, Option.bind_some]

/-- Tokens that name a location lead to a child first. -/
theorem exists_of_resolveTokens (h : resolveTokens v (token :: names) = some path) :
    ∃ s c rest, stepOf v token = some s ∧ v.child s = some c ∧
      resolveTokens c names = some rest ∧ path = s :: rest := by
  rw [resolveTokens] at h
  obtain ⟨s, hs, h⟩ := Option.bind_eq_some_iff.mp h
  obtain ⟨c, hc, h⟩ := Option.bind_eq_some_iff.mp h
  obtain ⟨rest, hrest, rfl⟩ := Option.map_eq_some_iff.mp h
  exact ⟨s, c, rest, hs, hc, hrest, rfl⟩

/-- One turn of the loop goes into the child that the token leads to. -/
theorem getLoop_cons (v : Value) (token : String) (names : List String) :
    getLoop v (token :: names) =
      (stepOf v token).bind fun s => (v.child s).bind fun c => getLoop c names := by
  cases v with
  | array items =>
    change ((parseUsize token).bind fun idx => items[idx]?.bind fun c => getLoop c names) =
      ((parseUsize token).map Step.element).bind _
    rw [Option.bind_map]
    rfl
  | _ => rfl

/-- `pointer_get` finds what is at the resolved path. -/
theorem getLoop_eq (v : Value) (names : List String) :
    getLoop v names = (resolveTokens v names).bind v.locate := by
  induction names generalizing v with
  | nil => cases v <;> rfl
  | cons token names ih =>
    rw [getLoop_cons, resolveTokens]
    cases stepOf v token with
    | none => rfl
    | some s =>
      rw [Option.bind_some, Option.bind_some]
      cases hc : v.child s with
      | none => rfl
      | some c =>
        rw [Option.bind_some, Option.bind_some, ih]
        cases resolveTokens c names with
        | none => rfl
        | some path => exact (Value.locate_cons hc path).symm

theorem pointerGet_eq (v : Value) (pointer : String) :
    pointerGet v pointer = (resolved v pointer).bind v.locate := by
  rw [pointerGet, resolved]
  split
  · rfl
  · exact getLoop_eq v _

theorem pointerGet_eq_some (h : pointerGet v pointer = some w) :
    ∃ path, resolved v pointer = some path ∧ v.locate path = some w := by
  rw [pointerGet_eq] at h
  exact Option.bind_eq_some_iff.mp h

/-! ### Writing -/

theorem stepOf_withChild (v new : Value) (s : Step) (token : String) :
    stepOf (v.withChild s new) token = stepOf v token := by
  cases v <;> cases s <;> rfl

/-- Where its token leads to a child, the loop writes into it. -/
theorem setLoop_cons (hv : v.Ordered) (hs : stepOf v token = some s) (hc : v.child s = some c)
    (names : List String) :
    setLoop new v (token :: names) =
      v.withChild s (if names = [] then new else setLoop new c names) := by
  cases v with
  | array items =>
    obtain ⟨idx, hidx, rfl⟩ := Option.map_eq_some_iff.mp hs
    have hitem : items[idx]? = some c := hc
    cases names with
    | nil => simp [setLoop, hidx, Value.withChild]
    | cons next names =>
      rw [setLoop, hidx, if_neg (List.cons_ne_nil _ _)]
      · dsimp only
        rw [hitem]
        rfl
      · exact List.cons_ne_nil _ _
  | object map =>
    obtain rfl := Option.some.inj hs
    have hmember : map.lookup token = some c := hc
    cases names with
    | nil => simp [setLoop, insertMember_of_lookup hv.1 hmember, Value.withChild]
    | cons next names =>
      rw [setLoop, hmember, insertMember_of_lookup hv.1 hmember, if_neg (List.cons_ne_nil _ _)]
      · rfl
      · exact List.cons_ne_nil _ _
  | _ => cases hs

/-- `pointer_set` writes at the resolved path. -/
theorem setLoop_eq (hv : v.Ordered) (hne : names ≠ []) (h : resolveTokens v names = some path) :
    setLoop new v names = v.put path new := by
  induction names generalizing v path with
  | nil => exact absurd rfl hne
  | cons token names ih =>
    obtain ⟨s, c, rest, hs, hc, hrest, rfl⟩ := exists_of_resolveTokens h
    rw [setLoop_cons hv hs hc, Value.put_cons hc]
    split
    · next hnil =>
      subst hnil
      obtain rfl := Option.some.inj hrest
      rfl
    · next hnames => rw [ih (hv.child hc) hnames hrest]

theorem tokens_ne_nil (pointer : String) : tokens pointer ≠ [] :=
  fun h => List.splitOn_ne_nil _ _ (List.map_eq_nil_iff.mp h)

theorem pointerSet_eq (hv : v.Ordered) (h : resolved v pointer = some path) :
    pointerSet v pointer new = v.put path new := by
  rw [resolved] at h
  rw [pointerSet]
  split
  · next hroot =>
    rw [if_pos hroot] at h
    obtain rfl := Option.some.inj h
    rfl
  · next hroot =>
    rw [if_neg hroot] at h
    exact setLoop_eq hv (tokens_ne_nil pointer) h

/-- After the write the same tokens name the same location. -/
theorem resolveTokens_put (h : resolveTokens v names = some path) :
    resolveTokens (v.put path new) names = some path := by
  induction names generalizing v path with
  | nil =>
    obtain rfl := Option.some.inj h
    rfl
  | cons token names ih =>
    obtain ⟨s, c, rest, hs, hc, hrest, rfl⟩ := exists_of_resolveTokens h
    rw [Value.put_cons hc, resolveTokens_cons ((stepOf_withChild _ _ _ _).trans hs)
      (Value.child_withChild hc), ih hrest, Option.map_some]

theorem resolved_put (h : resolved v pointer = some path) :
    resolved (v.put path new) pointer = some path := by
  rw [resolved] at h ⊢
  split
  · next hroot => rwa [if_pos hroot] at h
  · next hroot =>
    rw [if_neg hroot] at h
    exact resolveTokens_put h

/-! ### A pointer is a lens -/

/-- What was set is found. -/
theorem pointerGet_pointerSet (hv : v.Ordered) (h : pointerGet v pointer = some w) :
    pointerGet (pointerSet v pointer new) pointer = some new := by
  obtain ⟨path, hpath, hw⟩ := pointerGet_eq_some h
  rw [pointerSet_eq hv hpath, pointerGet_eq, resolved_put hpath, Option.bind_some,
    Value.locate_put hw]

/-- The old value, set again, restores the root. -/
theorem pointerSet_pointerSet (hv : v.Ordered) (hnew : new.Ordered)
    (h : pointerGet v pointer = some w) :
    pointerSet (pointerSet v pointer new) pointer w = v := by
  obtain ⟨path, hpath, hw⟩ := pointerGet_eq_some h
  rw [pointerSet_eq hv hpath, pointerSet_eq (hv.put hnew) (resolved_put hpath), Value.put_put hw]

/-- What neither leads to the named location nor lies below it is unchanged. -/
theorem locate_pointerSet {q : List Step} (hv : v.Ordered) (h : pointerGet v pointer = some w)
    (hpath : resolved v pointer = some path) (hbelow : ¬path <+: q) (habove : ¬q <+: path) :
    (pointerSet v pointer new).locate q = v.locate q := by
  rw [pointerGet_eq, hpath, Option.bind_some] at h
  rw [pointerSet_eq hv hpath, Value.locate_put_of_disjoint h hbelow habove]

end

end SorobanPulse.Normalizer
