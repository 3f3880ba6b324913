import SorobanPulse.Ingest.BloomFilter
import SorobanPulse.Lib.Binary64

/-! Which keys an `EventBloomFilter` still reports after any number of rotations.

        inserted   … older generations │ previous │ inner
                             forgotten │     reported

    Generations are the lists of the keys set in them; a Bloom filter reports those and may report
    others. The previous generation is as long as a count at which the filter rotates. -/

namespace SorobanPulse.Ingest
open Lib

/-- The `f64` literal `0.01`. -/
def MIN_FILL_THRESHOLD : ℚ := 5764607523034235 / 2 ^ 59

/-- `count as f64 / capacity as f64` is not below the clamped threshold. -/
def fillReached (capacity : ℕ) (threshold : ℚ) (count : ℕ) : Bool :=
  decide (max MIN_FILL_THRESHOLD (min threshold 1) ≤ toF64 (toF64 count / toF64 capacity))

def EventBloomFilter.withFillThreshold (capacity : ℕ) (fillRatioThreshold : ℚ) :
    EventBloomFilter where
  inner := []
  previous := none
  insertCount := 0
  full := fillReached capacity fillRatioThreshold

def EventBloomFilter.seed (filter : EventBloomFilter) (entries : List SorobanEvent) :
    EventBloomFilter :=
  { filter with
    inner := (entries.map bloomKey).reverse ++ filter.inner
    insertCount := filter.insertCount + entries.length }.maybeRotate

/-- What a Bloom filter reports, given the keys set in it since its creation: at least those. -/
structure Reports where
  reports : List String → String → Bool
  complete : ∀ keys, ∀ key ∈ keys, reports keys key = true

/-- The filter that reports no other keys. -/
def Reports.exact : Reports := ⟨fun keys key => keys.contains key, by simp⟩

/-- `check`, with what the two Bloom filters report. -/
def EventBloomFilter.reported (filter : EventBloomFilter) (bloom : Reports) (key : String) : Bool :=
  bloom.reports filter.inner key || filter.previous.any fun keys => bloom.reports keys key

/-! ### Sequences of inserts -/

inductive Insert where
  | set (event : SorobanEvent)
  | seed (entries : List SorobanEvent)

def Insert.events : Insert → List SorobanEvent
  | .set event => [event]
  | .seed entries => entries

def EventBloomFilter.insert (filter : EventBloomFilter) : Insert → EventBloomFilter
  | .set event => filter.set event
  | .seed entries => filter.seed entries

/-- The keys inserted, in their order. -/
def insertedKeys (inserts : List Insert) : List String :=
  (inserts.flatMap Insert.events).map bloomKey

/-- How many of the last keys are to be remembered: all of them where rotation is disabled. -/
def remembered (capacity : ℕ) (threshold : ℚ) (inserted : ℕ) : ℕ :=
  if threshold = 1 then inserted else ⌈threshold * capacity⌉₊

/-- Whatever was inserted and whatever else the Bloom filters report, the last keys are reported. -/
def NeverForgets (capacity : ℕ) (threshold : ℚ) : Prop :=
  ∀ (bloom : Reports) (inserts : List Insert),
    let filter := inserts.foldl EventBloomFilter.insert (.withFillThreshold capacity threshold)
    ∀ key ∈ (insertedKeys inserts).reverse.take
        (remembered capacity threshold (insertedKeys inserts).length),
      filter.reported bloom key = true

/-! ### Generations -/

theorem EventBloomFilter.insert_eq_seed (filter : EventBloomFilter) (insert : Insert) :
    filter.insert insert = filter.seed insert.events := by
  cases insert <;> rfl

section
variable {full : ℕ → Bool} {filter : EventBloomFilter} {keys : List String}

/-- The keys are those of the two generations and of older ones, which are only there once a full
    generation has been rotated out. -/
structure Generations (full : ℕ → Bool) (filter : EventBloomFilter) (keys : List String) : Prop where
  sameFull : filter.full = full
  counted : filter.insertCount = filter.inner.length
  split : ∃ older, keys.reverse = filter.inner ++ (filter.previous.getD [] ++ older) ∧
    (older = [] ∨ full (filter.previous.getD []).length = true)

theorem Generations.maybeRotate (h : Generations full filter keys) :
    Generations full filter.maybeRotate keys := by
  rw [EventBloomFilter.maybeRotate]
  split
  · next hfull =>
    obtain ⟨older, hkeys, -⟩ := h.split
    rw [h.sameFull, h.counted] at hfull
    exact ⟨h.sameFull, rfl, filter.previous.getD [] ++ older, hkeys, .inr hfull⟩
  · exact h

theorem Generations.seed (h : Generations full filter keys) (entries : List SorobanEvent) :
    Generations full (filter.seed entries) (keys ++ entries.map bloomKey) := by
  refine Generations.maybeRotate ⟨h.sameFull, ?_, ?_⟩
  · simp only [List.length_append, List.length_reverse, List.length_map, h.counted]
    omega
  · obtain ⟨older, hkeys, holder⟩ := h.split
    refine ⟨older, ?_, holder⟩
    rw [List.reverse_append, hkeys, List.append_assoc]

theorem generations_run (capacity : ℕ) (threshold : ℚ) (inserts : List Insert) :
    Generations (fillReached capacity threshold)
      (inserts.foldl EventBloomFilter.insert (.withFillThreshold capacity threshold))
      (insertedKeys inserts) := by
  induction inserts using List.reverseRecOn with
  | nil => exact ⟨rfl, rfl, [], rfl, .inl rfl⟩
  | append_singleton inserts insert ih =>
    have hkeys : insertedKeys (inserts ++ [insert]) =
        insertedKeys inserts ++ insert.events.map bloomKey := by
      simp [insertedKeys]
    rw [List.foldl_append, hkeys, List.foldl_cons, List.foldl_nil,
      EventBloomFilter.insert_eq_seed]
    exact ih.seed insert.events

/-- If no shorter generation is rotated out, the last `w` keys are in the two generations. -/
theorem Generations.reported (h : Generations full filter keys) {w : ℕ}
    (hw : ∀ n < w, full n = false) (bloom : Reports) :
    ∀ key ∈ keys.reverse.take w, filter.reported bloom key = true := by
  intro key hkey
  obtain ⟨older, hkeys, holder⟩ := h.split
  have hmem : key ∈ filter.inner ++ filter.previous.getD [] := by
    rw [hkeys, ← List.append_assoc] at hkey
    obtain rfl | hfull := holder
    · rw [List.append_nil] at hkey
      exact List.mem_of_mem_take hkey
    · have hlong : w ≤ (filter.previous.getD []).length := by
        by_contra hshort
        rw [hw _ (Nat.lt_of_not_le hshort)] at hfull
        cases hfull
      rw [List.take_append_of_le_length (by rw [List.length_append]; omega)] at hkey
      exact List.mem_of_mem_take hkey
  rw [EventBloomFilter.reported, Bool.or_eq_true]
  obtain hinner | hprevious := List.mem_append.mp hmem
  · exact .inl (bloom.complete _ key hinner)
  · right
    cases hp : filter.previous with
    | none => simp [hp] at hprevious
    | some previous =>
      rw [hp] at hprevious
      exact bloom.complete _ key hprevious

end

/-! ### Two full generations -/

/-- An event with a key of its own. -/
def numberedEvent (i : ℕ) : SorobanEvent where
  contractId := ""
  eventType := ""
  txHash := String.ofList (List.replicate i 'a')
  ledger := 0
  ledgerClosedAt := ""
  value := .null

theorem bloomKey_numberedEvent_injective :
    Function.Injective fun i => bloomKey (numberedEvent i) := by
  intro i j h
  have hlength := congrArg String.length h
  simpa [bloomKey, numberedEvent, String.length_append] using hlength

def numberedSets (start n : ℕ) : List Insert :=
  (List.range' start n).map fun i => .set (numberedEvent i)

def numberedKeys (start n : ℕ) : List String :=
  (List.range' start n).map fun i => bloomKey (numberedEvent i)

theorem numberedSets_succ (start n : ℕ) : numberedSets start (n + 1) =
    numberedSets start n ++ [.set (numberedEvent (start + n))] := by
  simp [numberedSets, List.range'_concat]

theorem numberedKeys_succ (start n : ℕ) : numberedKeys start (n + 1) =
    numberedKeys start n ++ [bloomKey (numberedEvent (start + n))] := by
  simp [numberedKeys, List.range'_concat]

theorem length_numberedKeys (start n : ℕ) : (numberedKeys start n).length = n := by
  simp [numberedKeys]

theorem insertedKeys_append (inserts later : List Insert) :
    insertedKeys (inserts ++ later) = insertedKeys inserts ++ insertedKeys later := by
  simp [insertedKeys]

theorem insertedKeys_numberedSets (start n : ℕ) :
    insertedKeys (numberedSets start n) = numberedKeys start n := by
  induction n with
  | zero => rfl
  | succ n ih =>
    rw [numberedSets_succ, numberedKeys_succ, insertedKeys_append, ih]
    rfl

section
variable {full : ℕ → Bool} {filter : EventBloomFilter} {m : ℕ}

/-- Below the first full count nothing is rotated out. -/
theorem foldl_numberedSets_lt (hmin : ∀ n < m, full n = false) (hfull : filter.full = full)
    (hcount : filter.insertCount = 0) (hinner : filter.inner = []) (start : ℕ) {n : ℕ} (hn : n < m) :
    (numberedSets start n).foldl EventBloomFilter.insert filter =
      { filter with inner := (numberedKeys start n).reverse, insertCount := n } := by
  induction n with
  | zero =>
    obtain ⟨inner, previous, insertCount, full'⟩ := filter
    dsimp only at hcount hinner
    subst hcount hinner
    rfl
  | succ n ih =>
    rw [numberedSets_succ, numberedKeys_succ, List.foldl_append, ih (by omega), List.foldl_cons,
      List.foldl_nil, EventBloomFilter.insert, EventBloomFilter.set, EventBloomFilter.maybeRotate]
    simp only [hfull, hmin (n + 1) hn, Bool.false_eq_true, if_false, List.reverse_append,
      List.reverse_cons, List.reverse_nil, List.nil_append, List.singleton_append]

/-- At the first full count the generation is rotated out. -/
theorem foldl_numberedSets (hmin : ∀ n < m + 1, full n = false) (hreached : full (m + 1) = true)
    (hfull : filter.full = full) (hcount : filter.insertCount = 0) (hinner : filter.inner = [])
    (start : ℕ) :
    (numberedSets start (m + 1)).foldl EventBloomFilter.insert filter =
      { filter with inner := [], previous := some (numberedKeys start (m + 1)).reverse,
                    insertCount := 0 } := by
  rw [numberedSets_succ, numberedKeys_succ, List.foldl_append,
    foldl_numberedSets_lt hmin hfull hcount hinner start (Nat.lt_succ_self m), List.foldl_cons,
    List.foldl_nil, EventBloomFilter.insert, EventBloomFilter.set, EventBloomFilter.maybeRotate]
  simp only [hfull, hreached, if_true, List.reverse_append, List.reverse_cons, List.reverse_nil,
    List.nil_append, List.singleton_append]

end

section
variable {capacity m : ℕ} {threshold : ℚ}

/-- Two generations at the first full count. -/
def twoGenerations (m : ℕ) : List Insert := numberedSets 0 (m + 1) ++ numberedSets (m + 1) (m + 1)

theorem insertedKeys_twoGenerations (m : ℕ) : (insertedKeys (twoGenerations m)).reverse =
    (numberedKeys (m + 1) (m + 1)).reverse ++
      bloomKey (numberedEvent m) :: (numberedKeys 0 m).reverse := by
  rw [twoGenerations, insertedKeys_append, insertedKeys_numberedSets, insertedKeys_numberedSets,
    List.reverse_append, numberedKeys_succ 0, List.reverse_append, Nat.zero_add]
  rfl

/-- The last key of the first generation is older than the second. -/
theorem mem_take_twoGenerations {w : ℕ} (hw : m + 2 ≤ w) :
    bloomKey (numberedEvent m) ∈ (insertedKeys (twoGenerations m)).reverse.take w := by
  rw [insertedKeys_twoGenerations]
  obtain ⟨k, rfl⟩ := Nat.exists_eq_add_of_le hw
  have hlength : (numberedKeys (m + 1) (m + 1)).reverse.length = m + 1 := by
    rw [List.length_reverse, length_numberedKeys]
  rw [List.take_append, hlength, List.take_of_length_le (by omega)]
  refine List.mem_append_right _ ?_
  have hrest : m + 2 + k - (m + 1) = k + 1 := by omega
  rw [hrest, List.take_succ_cons]
  exact List.mem_cons_self

/-- It is forgotten. -/
theorem reported_twoGenerations (hmin : ∀ n < m + 1, fillReached capacity threshold n = false)
    (hreached : fillReached capacity threshold (m + 1) = true) :
    ((twoGenerations m).foldl EventBloomFilter.insert
      (.withFillThreshold capacity threshold)).reported .exact (bloomKey (numberedEvent m)) =
        false := by
  have hfirst : (numberedSets 0 (m + 1)).foldl EventBloomFilter.insert
      (.withFillThreshold capacity threshold) = _ := foldl_numberedSets hmin hreached rfl rfl rfl 0
  rw [twoGenerations, List.foldl_append, hfirst, foldl_numberedSets hmin hreached rfl rfl rfl]
  have hnot : bloomKey (numberedEvent m) ∉ numberedKeys (m + 1) (m + 1) := by
    intro hmem
    obtain ⟨i, hi, heq⟩ := List.mem_map.mp hmem
    obtain rfl : i = m := bloomKey_numberedEvent_injective heq
    have hle := (List.mem_range'_1.mp hi).1
    omega
  simp [EventBloomFilter.reported, Reports.exact, hnot]

theorem fillReached_zero : fillReached capacity threshold 0 = false := by
  have hmin : (0 : ℚ) < MIN_FILL_THRESHOLD := by norm_num [MIN_FILL_THRESHOLD]
  rw [fillReached, decide_eq_false_iff_not, Nat.cast_zero, toF64_zero, zero_div, toF64_zero, not_le]
  exact hmin.trans_le (le_max_left _ _)

/-- A full filter has reached any threshold. -/
theorem fillReached_capacity (hcapacity : 1 ≤ capacity) :
    fillReached capacity threshold capacity = true := by
  have hpos : (0 : ℚ) < capacity := by exact_mod_cast hcapacity
  have hmin : MIN_FILL_THRESHOLD ≤ 1 := by norm_num [MIN_FILL_THRESHOLD]
  rw [fillReached, decide_eq_true_eq, div_self (toF64_pos hpos).ne', toF64_one]
  exact max_le hmin (min_le_right _ _)

/-- A count that is reached is reached for the first time. -/
theorem exists_first {n : ℕ} (h : fillReached capacity threshold n = true) :
    ∃ m < n, (∀ k < m + 1, fillReached capacity threshold k = false) ∧
      fillReached capacity threshold (m + 1) = true := by
  have hex : ∃ n, fillReached capacity threshold n = true := ⟨n, h⟩
  have hle := Nat.find_min' hex h
  have hfind := Nat.find_spec hex
  have hne : Nat.find hex ≠ 0 := by
    intro hzero
    rw [hzero, fillReached_zero] at hfind
    cases hfind
  obtain ⟨m, hm⟩ := Nat.exists_eq_succ_of_ne_zero hne
  refine ⟨m, by omega, fun k hk => ?_, by rw [← Nat.succ_eq_add_one, ← hm]; exact hfind⟩
  rw [← Bool.not_eq_true]
  exact Nat.find_min hex (by omega)

/-- Keys are forgotten when more are to be remembered than the first full count. -/
theorem not_neverForgets {n : ℕ} (h : fillReached capacity threshold n = true)
    (hw : threshold = 1 ∨ n < ⌈threshold * capacity⌉₊) : ¬NeverForgets capacity threshold := by
  intro hnever
  obtain ⟨m, hm, hmin, hreached⟩ := exists_first h
  have hlength : (insertedKeys (twoGenerations m)).length = 2 * (m + 1) := by
    rw [← List.length_reverse, insertedKeys_twoGenerations]
    simp only [List.length_append, List.length_reverse, List.length_cons, length_numberedKeys]
    omega
  have hremembered :
      m + 2 ≤ remembered capacity threshold (insertedKeys (twoGenerations m)).length := by
    rw [remembered, hlength]
    split
    · omega
    · next hne =>
      have hlt := hw.resolve_left hne
      omega
  have hreport := hnever .exact (twoGenerations m) _ (mem_take_twoGenerations hremembered)
  rw [reported_twoGenerations hmin hreached] at hreport
  cases hreport

/-- The last keys are remembered exactly if the threshold is below 1.0 and rounding brings no shorter
    generation to it. -/
theorem neverForgets_iff (hcapacity : 1 ≤ capacity) (hthreshold : threshold ≤ 1) :
    NeverForgets capacity threshold ↔
      threshold < 1 ∧ ∀ n < ⌈threshold * capacity⌉₊, fillReached capacity threshold n = false := by
  constructor
  · intro hnever
    refine ⟨lt_of_le_of_ne hthreshold fun hone => ?_, fun n hn => ?_⟩
    · exact not_neverForgets (fillReached_capacity hcapacity) (.inl hone) hnever
    · by_contra hreached
      rw [Bool.not_eq_false] at hreached
      exact not_neverForgets hreached (.inr hn) hnever
  · rintro ⟨hlt, hshort⟩ bloom inserts filter key hkey
    rw [remembered, if_neg hlt.ne] at hkey
    exact (generations_run capacity threshold inserts).reported hshort bloom key hkey

end

/-- Half of a capacity of one: the last key is always reported. -/
theorem neverForgets_half : NeverForgets 1 (1 / 2) := by
  refine (neverForgets_iff le_rfl (by norm_num)).mpr ⟨by norm_num, fun n hn => ?_⟩
  have hceil : ⌈(1 / 2 : ℚ) * (1 : ℕ)⌉₊ = 1 := by norm_num
  rw [hceil] at hn
  rw [Nat.lt_one_iff.mp hn]
  exact fillReached_zero

/-- The threshold that is said to disable rotation, and a capacity of one: two inserts. -/
theorem not_neverForgets_one : ¬NeverForgets 1 1 :=
  not_neverForgets (fillReached_capacity le_rfl) (.inl rfl)

end SorobanPulse.Ingest
