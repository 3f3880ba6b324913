import SorobanPulse.Lib.Binary64
import SorobanPulse.Lib.Grouping
import SorobanPulse.Lib.Median
import Mathlib.Data.List.GetD
import Mathlib.Order.Compare

/-! Latency-scored RPC endpoints: the health of every configured URL, and the order they are tried in.

    Latencies are finite non-negative `f64`s, whose `total_cmp` is the order of the numbers. -/

namespace SorobanPulse.Rpc
open Lib

def MAX_CONSECUTIVE_ERRORS : UInt32 := 3
def LATENCY_WINDOW : ℕ := 10

/-- `u32::saturating_add`. -/
def saturatingAdd (a b : UInt32) : UInt32 := UInt32.ofNat (min (a.toNat + b.toNat) (2 ^ 32 - 1))

/-- `std::time::Duration`. -/
structure Duration where
  secs : UInt64
  nanos : Fin 1000000000
  deriving DecidableEq, Repr

def Duration.asSecsF64 (latency : Duration) : ℚ :=
  toF64 (toF64 latency.secs.toNat + toF64 (latency.nanos.val / 1000000000))

/-- The latencies of the last probes in milliseconds, oldest first, and the streak of errors. -/
structure EndpointHealth where
  samples : List ℚ := []
  consecutiveErrors : UInt32 := 0
  unavailable : Bool := false
  deriving DecidableEq

namespace EndpointHealth

/-- The median; of an even number of samples, the mean of the two in the middle. -/
def p50Ms (h : EndpointHealth) : Option ℚ :=
  if h.samples.isEmpty then none
  else
    let sorted := h.samples.mergeSort fun a b => decide (a ≤ b)
    let mid := sorted.length / 2
    if sorted.length % 2 = 0 then
      some (toF64 (toF64 (sorted.getD (mid - 1) 0 + sorted.getD mid 0) / 2))
    else some (sorted.getD mid 0)

def recordSuccess (h : EndpointHealth) : EndpointHealth :=
  { h with consecutiveErrors := 0, unavailable := false }

def pushSample (latency : Duration) (h : EndpointHealth) : EndpointHealth :=
  let samples := if h.samples.length = LATENCY_WINDOW then h.samples.drop 1 else h.samples
  { h with samples := samples ++ [toF64 (latency.asSecsF64 * 1000)] }

/-- The health after a failure, and whether the failure made the endpoint unavailable. -/
def recordFailure (h : EndpointHealth) : EndpointHealth × Bool :=
  let consecutiveErrors := saturatingAdd h.consecutiveErrors 1
  if !h.unavailable && decide (MAX_CONSECUTIVE_ERRORS ≤ consecutiveErrors) then
    ({ samples := [], consecutiveErrors, unavailable := true }, true)
  else ({ h with consecutiveErrors }, false)

end EndpointHealth

/-- The URLs in configuration order, and the health of each. -/
structure RpcEndpoints where
  urls : List String
  health : List EndpointHealth
  nodup : urls.Nodup
  oneEach : health.length = urls.length

namespace RpcEndpoints

/-- Duplicates are dropped; `none`: no URL is left, and the code panics. -/
def new (urls : List String) : Option RpcEndpoints :=
  let unique := firstBy id urls
  if unique.isEmpty then none
  else
    some {
      urls := unique
      health := unique.map fun _ => {}
      nodup := by simpa using nodup_firstBy id urls
      oneEach := List.length_map _ }

def len (e : RpcEndpoints) : ℕ := e.urls.length

-- an index out of range panics in the code; here it finds an empty URL, or a new endpoint
def url (e : RpcEndpoints) (idx : ℕ) : String := e.urls.getD idx ""

def lock (e : RpcEndpoints) (idx : ℕ) : EndpointHealth := e.health.getD idx {}

def p50LatencyMs (e : RpcEndpoints) (idx : ℕ) : Option ℚ := (e.lock idx).p50Ms

def isAvailable (e : RpcEndpoints) (idx : ℕ) : Bool := !(e.lock idx).unavailable

def modify (e : RpcEndpoints) (idx : ℕ) (f : EndpointHealth → EndpointHealth) : RpcEndpoints :=
  { e with health := e.health.modify idx f, oneEach := by rw [List.length_modify, e.oneEach] }

def recordSuccess (e : RpcEndpoints) (idx : ℕ) : RpcEndpoints :=
  e.modify idx EndpointHealth.recordSuccess

def recordLatency (e : RpcEndpoints) (idx : ℕ) (latency : Duration) : RpcEndpoints :=
  (e.modify idx (EndpointHealth.pushSample latency)).recordSuccess idx

def recordFailure (e : RpcEndpoints) (idx : ℕ) : RpcEndpoints × Bool :=
  (e.modify idx fun h => h.recordFailure.1, (e.lock idx).recordFailure.2)

end RpcEndpoints

/-- What `candidates` sorts by; an endpoint that has not been measured has infinite latency. -/
structure Keyed where
  unavailable : Bool
  erring : Bool
  latency : WithTop ℚ
  idx : ℕ

def Keyed.cmp : Keyed → Keyed → Ordering :=
  compareLex (compareOn Keyed.unavailable) (compareLex (compareOn Keyed.erring)
    (compareLex (compareOn Keyed.latency) (compareOn Keyed.idx)))

def RpcEndpoints.keyed (e : RpcEndpoints) (idx : ℕ) : Keyed where
  unavailable := (e.lock idx).unavailable
  erring := decide (0 < (e.lock idx).consecutiveErrors)
  latency := (e.lock idx).p50Ms.elim ⊤ (↑·)
  idx := idx

/-- The indices in the order requests try them. -/
def RpcEndpoints.candidates (e : RpcEndpoints) : List ℕ :=
  (((List.range e.len).map e.keyed).mergeSort fun a b => (a.cmp b).isLE).map Keyed.idx

/-- One of the three calls that change the health of an endpoint. -/
inductive Record where
  | latency (idx : ℕ) (latency : Duration)
  | success (idx : ℕ)
  | failure (idx : ℕ)
  deriving DecidableEq

def Record.idx : Record → ℕ
  | .latency idx _ => idx
  | .success idx => idx
  | .failure idx => idx

def RpcEndpoints.record (e : RpcEndpoints) : Record → RpcEndpoints
  | .latency idx latency => e.recordLatency idx latency
  | .success idx => e.recordSuccess idx
  | .failure idx => (e.recordFailure idx).1

def RpcEndpoints.recordAll (e : RpcEndpoints) (records : List Record) : RpcEndpoints :=
  records.foldl RpcEndpoints.record e

/-- How often the endpoint has failed since its last success; a measured probe is one. -/
def failuresSinceSuccess (idx : ℕ) (records : List Record) : ℕ :=
  ((records.filter fun r => r.idx = idx).reverse.takeWhile fun r => r matches .failure _).length

/-- The sample a record adds to the window of an endpoint. -/
def Record.sample (idx : ℕ) : Record → Option ℚ
  | .latency i elapsed => if i = idx then some (toF64 (elapsed.asSecsF64 * 1000)) else none
  | _ => none

/-- The latencies recorded of an endpoint, in milliseconds. -/
def latenciesMs (idx : ℕ) (records : List Record) : List ℚ := records.filterMap (Record.sample idx)

/-! ### The health of one endpoint -/

theorem saturatingAdd_toNat (a b : UInt32) :
    (saturatingAdd a b).toNat = min (a.toNat + b.toNat) (2 ^ 32 - 1) := by
  rw [saturatingAdd, UInt32.toNat_ofNat', Nat.mod_eq_of_lt (by omega)]

/-- The health of an endpoint that has failed `k` times since its last success. -/
structure EndpointHealth.Failed (h : EndpointHealth) (k : ℕ) : Prop where
  errors : h.consecutiveErrors.toNat = min k (2 ^ 32 - 1)
  unavailable : h.unavailable = true ↔ 3 ≤ k

theorem failed_new : EndpointHealth.Failed {} 0 := ⟨rfl, by simp⟩

theorem failed_recordSuccess (h : EndpointHealth) : h.recordSuccess.Failed 0 :=
  ⟨rfl, by simp [EndpointHealth.recordSuccess]⟩

theorem EndpointHealth.Failed.recordFailure {h : EndpointHealth} {k : ℕ} (hk : h.Failed k) :
    h.recordFailure.1.Failed (k + 1) := by
  have herrors : (saturatingAdd h.consecutiveErrors 1).toNat = min (k + 1) (2 ^ 32 - 1) := by
    rw [saturatingAdd_toNat, hk.errors, show (1 : UInt32).toNat = 1 from rfl]
    omega
  have hlimit : MAX_CONSECUTIVE_ERRORS ≤ saturatingAdd h.consecutiveErrors 1 ↔ 3 ≤ k + 1 := by
    rw [UInt32.le_iff_toNat_le, herrors, show MAX_CONSECUTIVE_ERRORS.toNat = 3 from rfl]
    omega
  unfold EndpointHealth.recordFailure
  dsimp only
  split
  · next hnow =>
    simp only [Bool.and_eq_true, decide_eq_true_eq] at hnow
    exact ⟨herrors, by simpa using hlimit.mp hnow.2⟩
  · next hnow =>
    refine ⟨herrors, ?_⟩
    dsimp only
    rw [hk.unavailable]
    simp only [Bool.and_eq_true, Bool.not_eq_true', decide_eq_true_eq, hlimit, not_and,
      Bool.eq_false_iff, ne_eq, hk.unavailable] at hnow
    omega

/-- Its samples are `f64`s, at most as many as fit the window, none if it is unavailable. -/
structure EndpointHealth.Windowed (h : EndpointHealth) : Prop where
  length : h.samples.length ≤ LATENCY_WINDOW
  float : ∀ x ∈ h.samples, 0 ≤ x ∧ toF64 x = x
  discarded : h.unavailable = true → h.samples = []

theorem asSecsF64_nonneg (latency : Duration) : 0 ≤ latency.asSecsF64 := by
  refine toF64_nonneg (add_nonneg (toF64_nonneg ?_) (toF64_nonneg ?_))
  · exact Nat.cast_nonneg _
  · exact div_nonneg (Nat.cast_nonneg _) (by norm_num)

theorem windowed_new : EndpointHealth.Windowed {} := ⟨Nat.zero_le _, by simp, fun _ => rfl⟩

theorem EndpointHealth.Windowed.recordSuccess {h : EndpointHealth} (hw : h.Windowed) :
    h.recordSuccess.Windowed :=
  ⟨hw.length, hw.float, fun hunavailable => by cases hunavailable⟩

theorem EndpointHealth.Windowed.recordLatency {h : EndpointHealth} (hw : h.Windowed)
    (latency : Duration) : (h.pushSample latency).recordSuccess.Windowed where
  length := by
    have hlength := hw.length
    have hwindow : LATENCY_WINDOW = 10 := rfl
    simp only [EndpointHealth.recordSuccess, pushSample, List.length_append, List.length_singleton]
    split
    · next hfull =>
      rw [List.length_drop]
      omega
    · next hroom => omega
  float := by
    intro x hx
    simp only [EndpointHealth.recordSuccess, pushSample, List.mem_append, List.mem_singleton] at hx
    rcases hx with hold | rfl
    · split at hold
      · exact hw.float x (List.mem_of_mem_drop hold)
      · exact hw.float x hold
    · have hms : 0 ≤ latency.asSecsF64 * 1000 :=
        mul_nonneg (asSecsF64_nonneg latency) (by norm_num)
      exact ⟨toF64_nonneg hms, toF64_toF64 hms⟩
  discarded := fun hunavailable => by cases hunavailable

theorem EndpointHealth.Windowed.recordFailure {h : EndpointHealth} (hw : h.Windowed) :
    h.recordFailure.1.Windowed := by
  unfold EndpointHealth.recordFailure
  dsimp only
  split
  · exact ⟨Nat.zero_le _, by simp, fun _ => rfl⟩
  · exact ⟨hw.length, hw.float, hw.discarded⟩

/-- The mean of two `f64`s, rounded, lies between them. -/
theorem mean_between {a b : ℚ} (ha : 0 ≤ a ∧ toF64 a = a) (hb : 0 ≤ b ∧ toF64 b = b)
    (hab : a ≤ b) : a ≤ toF64 (toF64 (a + b) / 2) ∧ toF64 (toF64 (a + b) / 2) ≤ b := by
  have hlow : a ≤ toF64 (a + b) / 2 := by
    have hdouble := toF64_mono (by linarith [ha.1]) (show 2 * a ≤ a + b by linarith)
    rw [toF64_two_mul ha.1, ha.2] at hdouble
    linarith
  have hhigh : toF64 (a + b) / 2 ≤ b := by
    have hdouble := toF64_mono (add_nonneg ha.1 hb.1) (show a + b ≤ 2 * b by linarith)
    rw [toF64_two_mul hb.1, hb.2] at hdouble
    linarith
  constructor
  · calc a = toF64 a := ha.2.symm
      _ ≤ _ := toF64_mono ha.1 hlow
  · calc toF64 (toF64 (a + b) / 2) ≤ toF64 b := toF64_mono (ha.1.trans hlow) hhigh
      _ = b := hb.2

theorem p50Ms_isMedian {h : EndpointHealth} (hw : h.Windowed) {m : ℚ} (hm : h.p50Ms = some m) :
    IsMedian h.samples m := by
  unfold EndpointHealth.p50Ms at hm
  split at hm
  · cases hm
  · next hsamples =>
    have hperm := List.mergeSort_perm h.samples fun a b => decide (a ≤ b)
    have hsorted : (h.samples.mergeSort fun a b => decide (a ≤ b)).Pairwise (· ≤ ·) := by
      refine (List.pairwise_mergeSort (fun a b c => ?_) (fun a b => ?_) _).imp of_decide_eq_true
      · simpa only [decide_eq_true_eq] using le_trans
      · simpa only [Bool.or_eq_true, decide_eq_true_eq] using le_total a b
    refine IsMedian.perm ?_ hperm
    have hfloat : ∀ x ∈ h.samples.mergeSort fun a b => decide (a ≤ b), 0 ≤ x ∧ toF64 x = x :=
      fun x hx => hw.float x (hperm.mem_iff.mp hx)
    have hpos : 0 < (h.samples.mergeSort fun a b => decide (a ≤ b)).length := by
      rw [hperm.length_eq]
      exact List.length_pos_iff.mpr (by simpa using hsamples)
    generalize h.samples.mergeSort (fun a b => decide (a ≤ b)) = sorted at *
    dsimp only at hm
    have hmid : sorted.length / 2 < sorted.length := by omega
    split at hm
    · -- an even number of samples: the mean of the two in the middle, rounded, lies between them
      next heven =>
      cases hm
      have hbefore : sorted.length / 2 - 1 < sorted.length := by omega
      have hle : sorted[sorted.length / 2 - 1] ≤ sorted[sorted.length / 2] :=
        hsorted.sortedLE.getElem_le_getElem_of_le (by omega)
      obtain ⟨hlow, hhigh⟩ := mean_between (hfloat _ (List.getElem_mem hbefore))
        (hfloat _ (List.getElem_mem hmid)) hle
      rw [List.getD_eq_getElem _ _ hbefore, List.getD_eq_getElem _ _ hmid]
      exact isMedian_of_between hsorted hbefore hmid (by omega) (by omega) hlow hhigh
    · next hodd =>
      cases hm
      rw [List.getD_eq_getElem _ _ hmid]
      exact isMedian_of_between hsorted hmid hmid (by omega) (by omega) le_rfl le_rfl

/-! ### The endpoints after any records -/

theorem failuresSinceSuccess_append (idx : ℕ) (records : List Record) (r : Record) :
    failuresSinceSuccess idx (records ++ [r]) =
      if r.idx = idx then
        match r with
        | .failure _ => failuresSinceSuccess idx records + 1
        | _ => 0
      else failuresSinceSuccess idx records := by
  unfold failuresSinceSuccess
  rw [List.filter_append]
  split
  · next hidx => cases r <;> simp [hidx]
  · next hidx => simp [hidx]

theorem recordAll_append (e : RpcEndpoints) (records : List Record) (r : Record) :
    e.recordAll (records ++ [r]) = (e.recordAll records).record r := by
  simp [RpcEndpoints.recordAll]

section
variable {e : RpcEndpoints} {idx : ℕ}

theorem lock_modify (e : RpcEndpoints) (i : ℕ) (f : EndpointHealth → EndpointHealth)
    (hidx : idx < e.len) :
    (e.modify i f).lock idx = if i = idx then f (e.lock idx) else e.lock idx := by
  have hlt : idx < e.health.length := by rwa [e.oneEach]
  simp only [RpcEndpoints.lock, RpcEndpoints.modify, List.getD_eq_getElem?_getD,
    List.getElem?_modify, List.getElem?_eq_getElem hlt, Option.getD_some]
  split <;> rfl

/-- What a record does to the health of its endpoint. -/
def Record.apply : Record → EndpointHealth → EndpointHealth
  | .latency _ elapsed, h => (h.pushSample elapsed).recordSuccess
  | .success _, h => h.recordSuccess
  | .failure _, h => h.recordFailure.1

theorem lock_record (e : RpcEndpoints) (r : Record) (hidx : idx < e.len) :
    (e.record r).lock idx = if r.idx = idx then r.apply (e.lock idx) else e.lock idx := by
  cases r with
  | latency i latency =>
    have hlen : idx < (e.modify i (EndpointHealth.pushSample latency)).len := hidx
    rw [RpcEndpoints.record, RpcEndpoints.recordLatency, RpcEndpoints.recordSuccess,
      lock_modify _ i _ hlen, lock_modify e i _ hidx]
    by_cases hi : i = idx <;> simp [Record.idx, Record.apply, hi]
  | success i => exact lock_modify e i _ hidx
  | failure i => exact lock_modify e i _ hidx

@[simp] theorem record_urls (e : RpcEndpoints) (r : Record) : (e.record r).urls = e.urls := by
  cases r <;> rfl

@[simp] theorem recordAll_urls (e : RpcEndpoints) (records : List Record) :
    (e.recordAll records).urls = e.urls := by
  induction records using List.reverseRecOn with
  | nil => rfl
  | append_singleton records r ih => rw [recordAll_append, record_urls, ih]

theorem recordAll_len (e : RpcEndpoints) (records : List Record) :
    (e.recordAll records).len = e.len := by
  rw [RpcEndpoints.len, recordAll_urls, RpcEndpoints.len]

theorem lock_new {urls : List String} (hnew : RpcEndpoints.new urls = some e) :
    e.lock idx = {} := by
  unfold RpcEndpoints.new at hnew
  dsimp only at hnew
  split at hnew
  · cases hnew
  · cases hnew
    simp only [RpcEndpoints.lock, List.getD_eq_getElem?_getD, List.getElem?_map]
    cases (firstBy id urls)[idx]? <;> rfl

/-- What every record of an endpoint keeps of its health holds after any records. -/
theorem recordAll_invariant {urls : List String} (hnew : RpcEndpoints.new urls = some e)
    (hidx : idx < e.len) (Inv : List Record → EndpointHealth → Prop) (h0 : Inv [] {})
    (hstep : ∀ records r h, Inv records h →
      Inv (records ++ [r]) (if r.idx = idx then r.apply h else h)) (records : List Record) :
    Inv records ((e.recordAll records).lock idx) := by
  induction records using List.reverseRecOn with
  | nil =>
    rw [show e.recordAll [] = e from rfl, lock_new hnew]
    exact h0
  | append_singleton records r ih =>
    have hlen : idx < (e.recordAll records).len := by rwa [recordAll_len]
    rw [recordAll_append, lock_record _ r hlen]
    exact hstep records r _ ih

theorem failed_recordAll {urls : List String} (hnew : RpcEndpoints.new urls = some e)
    (hidx : idx < e.len) (records : List Record) :
    ((e.recordAll records).lock idx).Failed (failuresSinceSuccess idx records) := by
  refine recordAll_invariant hnew hidx
    (fun records h => h.Failed (failuresSinceSuccess idx records)) failed_new ?_ records
  intro records r h hk
  rw [failuresSinceSuccess_append]
  split
  · cases r with
    | latency _ _ => exact failed_recordSuccess _
    | success _ => exact failed_recordSuccess _
    | failure _ => exact hk.recordFailure
  · exact hk

theorem windowed_recordAll {urls : List String} (hnew : RpcEndpoints.new urls = some e)
    (hidx : idx < e.len) (records : List Record) :
    ((e.recordAll records).lock idx).Windowed := by
  refine recordAll_invariant hnew hidx (fun _ h => h.Windowed) windowed_new ?_ records
  intro records r h hw
  split
  · cases r with
    | latency _ elapsed => exact hw.recordLatency elapsed
    | success _ => exact hw.recordSuccess
    | failure _ => exact hw.recordFailure
  · exact hw

theorem latenciesMs_append (idx : ℕ) (records : List Record) (r : Record) :
    latenciesMs idx (records ++ [r]) = latenciesMs idx records ++ (r.sample idx).toList := by
  rw [latenciesMs, List.filterMap_append, latenciesMs]
  cases hsample : r.sample idx <;> simp [hsample]

theorem sample_of_ne {r : Record} (h : r.idx ≠ idx) : r.sample idx = none := by
  cases r with
  | latency i elapsed => exact if_neg h
  | success _ => rfl
  | failure _ => rfl

/-- A record keeps old samples and adds its own, or empties the window. -/
theorem samples_apply (r : Record) (h : EndpointHealth) :
    ∃ kept, (kept <:+ h.samples ∨ kept = []) ∧
      (r.apply h).samples = kept ++ (r.sample r.idx).toList := by
  cases r with
  | latency i elapsed =>
    refine ⟨if h.samples.length = LATENCY_WINDOW then h.samples.drop 1 else h.samples, .inl ?_, ?_⟩
    · split
      · exact List.drop_suffix 1 _
      · exact List.suffix_rfl
    · simp [Record.apply, Record.sample, Record.idx, EndpointHealth.recordSuccess,
        EndpointHealth.pushSample]
  | success i => exact ⟨h.samples, .inl List.suffix_rfl, (List.append_nil _).symm⟩
  | failure i =>
    simp only [Record.apply, EndpointHealth.recordFailure]
    split
    · exact ⟨[], .inr rfl, rfl⟩
    · exact ⟨h.samples, .inl List.suffix_rfl, (List.append_nil _).symm⟩

/-- The samples are the last of the latencies recorded. -/
theorem samples_suffix {urls : List String} (hnew : RpcEndpoints.new urls = some e)
    (hidx : idx < e.len) (records : List Record) :
    ((e.recordAll records).lock idx).samples <:+ latenciesMs idx records := by
  refine recordAll_invariant hnew hidx (fun records h => h.samples <:+ latenciesMs idx records)
    List.suffix_rfl ?_ records
  intro records r h hsuffix
  rw [latenciesMs_append]
  split
  · next hr =>
    obtain ⟨kept, hkept, heq⟩ := samples_apply r h
    have hlast : kept <:+ latenciesMs idx records := by
      rcases hkept with hkept | rfl
      · exact hkept.trans hsuffix
      · exact List.nil_suffix
    obtain ⟨older, holder⟩ := hlast
    rw [heq, hr, ← holder, List.append_assoc]
    exact List.suffix_append _ _
  · next hr =>
    rw [sample_of_ne hr, Option.toList_none, List.append_nil]
    exact hsuffix

end

/-! ### The order of the candidates -/

/-- Sorting with a comparison leaves no element before a smaller one. -/
theorem pairwise_mergeSort_isLE {α : Type*} (cmp : α → α → Ordering) [Std.TransCmp cmp]
    (l : List α) :
    (l.mergeSort fun a b => (cmp a b).isLE).Pairwise fun a b => (cmp a b).isLE := by
  refine List.pairwise_mergeSort (fun a b c => Std.TransCmp.isLE_trans) ?_ l
  intro a b
  rw [Bool.or_eq_true]
  cases hab : cmp a b with
  | lt => exact .inl rfl
  | eq => exact .inl rfl
  | gt =>
    have hswap : cmp b a = (cmp a b).swap := Std.OrientedCmp.eq_swap
    exact .inr (by rw [hswap, hab]; rfl)

instance : Std.TransCmp Keyed.cmp :=
  inferInstanceAs (Std.TransCmp (compareLex (compareOn Keyed.unavailable)
    (compareLex (compareOn Keyed.erring)
      (compareLex (compareOn Keyed.latency) (compareOn Keyed.idx)))))

/-- Latency in milliseconds, infinite for an endpoint that has not been measured. -/
def RpcEndpoints.medianLatency (e : RpcEndpoints) (idx : ℕ) : WithTop ℚ :=
  (e.p50LatencyMs idx).elim ⊤ (↑·)

/-- Is the endpoint without an error since its last success? -/
def RpcEndpoints.errorFree (e : RpcEndpoints) (idx : ℕ) : Bool :=
  decide ((e.lock idx).consecutiveErrors = 0)

/-- Requests try `i` before `j`: available endpoints first, then the error-free, then by latency,
    then in configuration order. -/
def Precedes (e : RpcEndpoints) (i j : ℕ) : Prop :=
  e.isAvailable i = true ∧ e.isAvailable j = false ∨
  e.isAvailable i = e.isAvailable j ∧
    (e.errorFree i = true ∧ e.errorFree j = false ∨
    e.errorFree i = e.errorFree j ∧
      (e.medianLatency i < e.medianLatency j ∨ e.medianLatency i = e.medianLatency j ∧ i < j))

theorem compareOn_bool_lt {α : Type*} (f : α → Bool) (a b : α) :
    compareOn f a b = .lt ↔ f a = false ∧ f b = true := by
  rw [compareOn]
  cases f a <;> cases f b <;> decide

theorem keyed_unavailable (e : RpcEndpoints) (i : ℕ) :
    (e.keyed i).unavailable = !e.isAvailable i :=
  (Bool.not_not _).symm

theorem keyed_erring (e : RpcEndpoints) (i : ℕ) : (e.keyed i).erring = !e.errorFree i := by
  simp [RpcEndpoints.keyed, RpcEndpoints.errorFree, UInt32.pos_iff_ne_zero]

/-- Of two endpoints, the one that does not come later in the sorted list comes first. -/
theorem precedes_of_isLE {e : RpcEndpoints} {i j : ℕ} (hne : i ≠ j)
    (h : ((e.keyed i).cmp (e.keyed j)).isLE = true) : Precedes e i j := by
  simp only [Keyed.cmp, compareLex, Ordering.isLE_then_iff_or, compareOn_bool_lt, keyed_unavailable,
    keyed_erring, Bool.not_eq_false', Bool.not_eq_true'] at h
  rcases h with hfirst | ⟨havailable, h⟩
  · exact .inl hfirst
  refine .inr ⟨?_, ?_⟩
  · rw [compareOn, Std.LawfulEqOrd.compare_eq_iff_eq, keyed_unavailable, keyed_unavailable]
      at havailable
    exact Bool.not_inj havailable
  rcases h with hfirst | ⟨herrors, h⟩
  · exact .inl hfirst
  refine .inr ⟨?_, ?_⟩
  · rw [compareOn, Std.LawfulEqOrd.compare_eq_iff_eq, keyed_erring, keyed_erring] at herrors
    exact Bool.not_inj herrors
  rcases h with hfirst | ⟨hlatency, h⟩
  · exact .inl (compare_lt_iff_lt.mp hfirst)
  refine .inr ⟨compare_eq_iff_eq.mp hlatency, ?_⟩
  exact lt_of_le_of_ne (Nat.isLE_compare.mp h) hne

theorem candidates_perm (e : RpcEndpoints) : e.candidates.Perm (List.range e.len) := by
  have hsorted := (List.mergeSort_perm ((List.range e.len).map e.keyed) fun a b =>
    (a.cmp b).isLE).map Keyed.idx
  rwa [List.map_map, show Keyed.idx ∘ e.keyed = id from rfl, List.map_id] at hsorted

theorem candidates_nodup (e : RpcEndpoints) : e.candidates.Nodup :=
  (candidates_perm e).nodup_iff.mpr List.nodup_range

theorem candidates_pairwise (e : RpcEndpoints) : e.candidates.Pairwise (Precedes e) := by
  have hsorted := pairwise_mergeSort_isLE Keyed.cmp ((List.range e.len).map e.keyed)
  have hdistinct := List.pairwise_map.mp (candidates_nodup e)
  refine List.pairwise_map.mpr ((hsorted.and hdistinct).imp_of_mem ?_)
  intro a b ha hb ⟨hle, hne⟩
  obtain ⟨i, _, rfl⟩ := List.mem_map.mp (List.mem_mergeSort.mp ha)
  obtain ⟨j, _, rfl⟩ := List.mem_map.mp (List.mem_mergeSort.mp hb)
  exact precedes_of_isLE hne hle

/-- The endpoints after these records: who is unavailable, what is measured, and the order. -/
structure EndpointsRanked (e : RpcEndpoints) (records : List Record) : Prop where
  perm : e.candidates.Perm (List.range e.len)
  ordered : e.candidates.Pairwise (Precedes e)
  median : ∀ idx < e.len, ∀ m, e.p50LatencyMs idx = some m → IsMedian (e.lock idx).samples m
  window : ∀ idx < e.len, (e.lock idx).samples <:+ latenciesMs idx records ∧
    (e.lock idx).samples.length ≤ LATENCY_WINDOW
  unavailable_iff : ∀ idx < e.len,
    e.isAvailable idx = false ↔ 3 ≤ failuresSinceSuccess idx records

theorem endpointsRanked {urls : List String} {e : RpcEndpoints}
    (hnew : RpcEndpoints.new urls = some e) (records : List Record) :
    EndpointsRanked (e.recordAll records) records where
  perm := candidates_perm _
  ordered := candidates_pairwise _
  median := by
    intro idx hidx m hm
    rw [recordAll_len] at hidx
    exact p50Ms_isMedian (windowed_recordAll hnew hidx records) hm
  window := by
    intro idx hidx
    rw [recordAll_len] at hidx
    exact ⟨samples_suffix hnew hidx records, (windowed_recordAll hnew hidx records).length⟩
  unavailable_iff := by
    intro idx hidx
    rw [recordAll_len] at hidx
    rw [RpcEndpoints.isAvailable, Bool.not_eq_false']
    exact (failed_recordAll hnew hidx records).unavailable

end SorobanPulse.Rpc
