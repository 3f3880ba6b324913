import SorobanPulse.Lib.RateWindows
import Mathlib.Data.UInt
import Mathlib.Tactic.NormNum

/-! The rate limits of a notification channel, one for a minute and one for an hour.

        check ──▶ minute bucket ──▶ hour bucket ──▶ both had a token?
                  takes one         takes one

    Each bucket is asked, and drawn from, whatever the other one says. Where exactly one of them has
    a token, the call is refused and the token is gone. -/

namespace SorobanPulse.Notifications
open Lib

structure RateLimitConfig where
  maxPerMinute : Option UInt32 := none
  maxPerHour : Option UInt32 := none

def RateLimitConfig.isEnabled (config : RateLimitConfig) : Bool :=
  config.maxPerMinute.isSome || config.maxPerHour.isSome

/-- A direct limiter: its quota and the state of its bucket, in nanoseconds. -/
structure RateLimiter where
  quota : Gcra.Quota
  full : ℕ := 0

/-- `Quota::per_minute` and `Quota::per_hour`: `n` tokens, refilled in `period` nanoseconds. -/
def quotaPer (period : ℕ) (hperiod : 2 ^ 32 ≤ period) (n : UInt32) (hn : n ≠ 0) : Gcra.Quota where
  burst := n.toNat
  interval := period / n.toNat
  burst_pos := Nat.pos_of_ne_zero fun h => hn (UInt32.toNat_inj.mp h)
  interval_pos := Nat.div_pos ((Nat.le_of_lt n.toNat_lt).trans hperiod)
    (Nat.pos_of_ne_zero fun h => hn (UInt32.toNat_inj.mp h))

/-- `NonZeroU32::new(n).map(|n| RateLimiter::direct(..))` -/
def direct (period : ℕ) (hperiod : 2 ^ 32 ≤ period) (n : UInt32) : Option RateLimiter :=
  if hn : n = 0 then none else some { quota := quotaPer period hperiod n hn }

/-- Up to two limiters; a notification is admitted when both allow it. -/
structure ChannelRateLimiter where
  perMinute : Option RateLimiter
  perHour : Option RateLimiter

/-- Nothing when no limit is configured. -/
def ChannelRateLimiter.fromConfig (config : RateLimitConfig) : Option ChannelRateLimiter :=
  if !config.isEnabled then none
  else some {
    perMinute := config.maxPerMinute.bind (direct 60000000000 (by norm_num))
    perHour := config.maxPerHour.bind (direct 3600000000000 (by norm_num)) }

/-- `limiter.check().is_ok()`, and the limiter after it. -/
def RateLimiter.check (limiter : RateLimiter) (now : ℕ) : RateLimiter × Bool :=
  let (full, ok) := Gcra.check limiter.quota limiter.full now
  ({ limiter with full }, ok)

/-- `limiter.as_ref().map(|l| l.check().is_ok()).unwrap_or(true)` -/
def checkOption (limiter : Option RateLimiter) (now : ℕ) : Option RateLimiter × Bool :=
  match limiter with
  | some l => let (l, ok) := l.check now; (some l, ok)
  | none => (none, true)

/-- Consume a token from each limiter; `true` if both had one. -/
def ChannelRateLimiter.check (limiter : ChannelRateLimiter) (now : ℕ) : ChannelRateLimiter × Bool :=
  let (perMinute, minuteOk) := checkOption limiter.perMinute now
  let (perHour, hourOk) := checkOption limiter.perHour now
  (⟨perMinute, perHour⟩, minuteOk && hourOk)

/-- The limiter after calls at these times. -/
def ChannelRateLimiter.after (limiter : ChannelRateLimiter) (times : List ℕ) : ChannelRateLimiter :=
  times.foldl (fun l now => (l.check now).1) limiter

/-! ### What is asked of the pair -/

/-- The bucket, if there is one, holds a token. -/
def HasToken (limiter : Option RateLimiter) (now : ℕ) : Prop :=
  ∀ l ∈ limiter, 0 < Gcra.tokens l.quota l.full now

/-- The times of the admitted calls. -/
def admitted (limiter : ChannelRateLimiter) : List ℕ → List ℕ
  | [] => []
  | now :: times =>
    let (next, ok) := limiter.check now
    if ok then now :: admitted next times else admitted next times

/-- Every call is admitted exactly if both buckets hold a token, a refused call takes none from
    either, so that the buckets stand as if only the admitted calls had been made, and a limit of 0
    admits nothing. -/
structure BothMustAllow (config : RateLimitConfig) (limiter : ChannelRateLimiter) (times : List ℕ) :
    Prop where
  admits : ∀ before now rest, times = before ++ now :: rest →
    (((limiter.after before).check now).2 = true ↔
      HasToken (limiter.after before).perMinute now ∧ HasToken (limiter.after before).perHour now)
  keeps : ∀ before now rest, times = before ++ now :: rest →
    ((limiter.after before).check now).2 = false →
      ((limiter.after before).check now).1 = limiter.after before
  budget : limiter.after times = limiter.after (admitted limiter times)
  zero : config.maxPerMinute = some 0 ∨ config.maxPerHour = some 0 → admitted limiter times = []

/-- No call finds a token in exactly one of two buckets. -/
def NeverOneAlone (limiter : ChannelRateLimiter) (times : List ℕ) : Prop :=
  ∀ before now rest, times = before ++ now :: rest →
    ∀ m ∈ (limiter.after before).perMinute, ∀ h ∈ (limiter.after before).perHour,
      (0 < Gcra.tokens m.quota m.full now ↔ 0 < Gcra.tokens h.quota h.full now)

/-! ### One call -/

section
variable {limiter : Option RateLimiter} {m : RateLimiter} {now : ℕ}

theorem hasToken_some : HasToken (some m) now ↔ Gcra.holds m.quota m.full now := by
  rw [Gcra.holds_iff_tokens]
  constructor
  · intro h
    exact h m rfl
  · intro h l hl
    obtain rfl := Option.some.inj hl
    exact h

theorem hasToken_none : HasToken none now := by
  intro l hl
  cases hl

theorem checkOption_eq_true : (checkOption limiter now).2 = true ↔ HasToken limiter now := by
  cases limiter with
  | none => exact ⟨fun _ => hasToken_none, fun _ => rfl⟩
  | some m =>
    rw [hasToken_some, ← Gcra.check_eq_true]
    rfl

/-- A bucket without a token stays as it is. -/
theorem checkOption_of_not_hasToken (h : ¬HasToken limiter now) :
    (checkOption limiter now).1 = limiter := by
  cases limiter with
  | none => rfl
  | some m =>
    rw [hasToken_some] at h
    change some { m with full := (Gcra.check m.quota m.full now).1 } = some m
    rw [Gcra.check_of_not_holds _ h]

theorem checkOption_ne_self (h : HasToken (some m) now) :
    (checkOption (some m) now).1 ≠ some m := by
  intro heq
  have hfull := congrArg RateLimiter.full (Option.some.inj heq)
  exact Gcra.check_ne_self _ (hasToken_some.mp h) hfull

theorem check_eq_true {limiter : ChannelRateLimiter} : (limiter.check now).2 = true ↔
    HasToken limiter.perMinute now ∧ HasToken limiter.perHour now := by
  rw [← checkOption_eq_true, ← checkOption_eq_true, ← Bool.and_eq_true]
  rfl

/-- A refused call takes nothing exactly if neither of two buckets had a token alone. -/
theorem check_keeps_iff {limiter : ChannelRateLimiter} :
    ((limiter.check now).2 = false → (limiter.check now).1 = limiter) ↔
      ∀ m ∈ limiter.perMinute, ∀ h ∈ limiter.perHour,
        (0 < Gcra.tokens m.quota m.full now ↔ 0 < Gcra.tokens h.quota h.full now) := by
  obtain ⟨perMinute, perHour⟩ := limiter
  have hrefused : (ChannelRateLimiter.check ⟨perMinute, perHour⟩ now).2 = false ↔
      ¬(HasToken perMinute now ∧ HasToken perHour now) := by
    rw [← Bool.not_eq_true, check_eq_true]
  have hkept : (ChannelRateLimiter.check ⟨perMinute, perHour⟩ now).1 = ⟨perMinute, perHour⟩ ↔
      (checkOption perMinute now).1 = perMinute ∧ (checkOption perHour now).1 = perHour :=
    ChannelRateLimiter.mk.injEq _ _ _ _ ▸ Iff.rfl
  rw [hrefused, hkept]
  cases perMinute with  -- with one bucket only, a refusal means that this one was empty
  | none =>
    constructor
    · intro _ m hm
      cases hm
    · intro _ hnot
      exact ⟨rfl, checkOption_of_not_hasToken fun hhour => hnot ⟨hasToken_none, hhour⟩⟩
  | some m =>
    cases perHour with
    | none =>
      constructor
      · intro _ m _ h hh
        cases hh
      · intro _ hnot
        exact ⟨checkOption_of_not_hasToken fun hminute => hnot ⟨hminute, hasToken_none⟩, rfl⟩
    | some h =>
      simp only [Option.mem_some_iff, forall_eq', ← Gcra.holds_iff_tokens, ← hasToken_some]
      constructor
      · -- a token that one of them alone held would be gone
        intro hkeep
        constructor
        · intro hminute
          by_contra hhour
          exact checkOption_ne_self hminute (hkeep fun hboth => hhour hboth.2).1
        · intro hhour
          by_contra hminute
          exact checkOption_ne_self hhour (hkeep fun hboth => hminute hboth.1).2
      · intro hiff hnot
        -- neither has one
        have hminute : ¬HasToken (some m) now := fun hminute => hnot ⟨hminute, hiff.mp hminute⟩
        exact ⟨checkOption_of_not_hasToken hminute,
          checkOption_of_not_hasToken fun hhour => hminute (hiff.mpr hhour)⟩

end

/-! ### Sequences of calls -/

section
variable {config : RateLimitConfig} {limiter : ChannelRateLimiter} {times : List ℕ}

/-- If refused calls take nothing, only the admitted ones count. -/
theorem after_admitted (h : ∀ before now rest, times = before ++ now :: rest →
    ((limiter.after before).check now).2 = false →
      ((limiter.after before).check now).1 = limiter.after before) :
    limiter.after times = limiter.after (admitted limiter times) := by
  induction times generalizing limiter with
  | nil => rfl
  | cons now times ih =>
    have hrest : (limiter.check now).1.after times =
        (limiter.check now).1.after (admitted (limiter.check now).1 times) :=
      ih fun before n rest heq => h (now :: before) n rest (congrArg (now :: ·) heq)
    rw [admitted]
    dsimp only
    split
    · exact hrest
    · next hrefused =>
      have hkeep := h [] now times rfl (Bool.eq_false_iff.mpr hrefused)
      change (limiter.check now).1 = limiter at hkeep
      rw [hkeep] at hrest
      change (limiter.check now).1.after times = _
      rw [hkeep, hrest]

/-- A new bucket holds a token. -/
theorem hasToken_direct {period : ℕ} {hperiod : 2 ^ 32 ≤ period} {limit : Option UInt32} {now : ℕ} :
    HasToken (limit.bind (direct period hperiod)) now := by
  intro l hl
  obtain ⟨n, -, hl⟩ := Option.bind_eq_some_iff.mp hl
  rw [direct] at hl
  split at hl
  · cases hl
  · obtain rfl := Option.some.inj hl
    exact (Gcra.holds_iff_tokens _).mp (Gcra.holds_zero _ now)

theorem hasToken_fromConfig (h : ChannelRateLimiter.fromConfig config = some limiter) (now : ℕ) :
    HasToken limiter.perMinute now ∧ HasToken limiter.perHour now := by
  rw [ChannelRateLimiter.fromConfig] at h
  split at h
  · cases h
  · obtain rfl := Option.some.inj h
    exact ⟨hasToken_direct, hasToken_direct⟩

/-- The first call is admitted whatever the limits are. -/
theorem admitted_cons (h : ChannelRateLimiter.fromConfig config = some limiter) (now : ℕ)
    (times : List ℕ) : admitted limiter (now :: times) =
      now :: admitted (limiter.check now).1 times := by
  rw [admitted]
  exact if_pos (check_eq_true.mpr (hasToken_fromConfig h now))

end

/-- Both limits together hold exactly if none is 0, once there are calls, and no call finds a token
    in one bucket alone. -/
theorem bothMustAllow_iff (config : RateLimitConfig) (limiter : ChannelRateLimiter)
    (h : ChannelRateLimiter.fromConfig config = some limiter) (times : List ℕ) :
    BothMustAllow config limiter times ↔
      (config.maxPerMinute = some 0 ∨ config.maxPerHour = some 0 → times = []) ∧
        NeverOneAlone limiter times := by
  constructor
  · intro hboth
    refine ⟨fun hzero => ?_, fun before now rest heq =>
      check_keeps_iff.mp (hboth.keeps before now rest heq)⟩
    cases times with
    | nil => rfl
    | cons now times =>
      have hnone := hboth.zero hzero
      rw [admitted_cons h] at hnone
      cases hnone
  · rintro ⟨hzero, hnever⟩
    have hkeeps : ∀ before now rest, times = before ++ now :: rest →
        ((limiter.after before).check now).2 = false →
          ((limiter.after before).check now).1 = limiter.after before :=
      fun before now rest heq => check_keeps_iff.mpr (hnever before now rest heq)
    refine ⟨fun _ _ _ _ => check_eq_true, hkeeps, after_admitted hkeeps, fun hz => ?_⟩
    rw [hzero hz]
    rfl

/-! ### Five a minute, one an hour -/

def fiveAndOne : RateLimitConfig := { maxPerMinute := some 5, maxPerHour := some 1 }

def twoAndTwo : RateLimitConfig := { maxPerMinute := some 2, maxPerHour := some 2 }

def twoEach : ChannelRateLimiter where
  perMinute := direct 60000000000 (by norm_num) 2
  perHour := direct 3600000000000 (by norm_num) 2

theorem sameTokens_twoAndTwo : ∀ before ∈ [[], [0], [0, 0]],
    ((twoEach.after before).perMinute.map fun m => decide (0 < Gcra.tokens m.quota m.full 0)) =
      (twoEach.after before).perHour.map fun h => decide (0 < Gcra.tokens h.quota h.full 0) := by
  decide

/-- Two calls find tokens in both buckets, and the third one in neither. -/
theorem bothMustAllow_threeCalls : ChannelRateLimiter.fromConfig twoAndTwo = some twoEach ∧
    BothMustAllow twoAndTwo twoEach [0, 0, 0] := by
  refine ⟨rfl, (bothMustAllow_iff twoAndTwo twoEach rfl [0, 0, 0]).mpr ⟨?_, ?_⟩⟩
  · rintro (h | h) <;> cases h
  · intro before now rest heq m hm h hh
    have hsplit : now = 0 ∧ before ∈ [[], [0], [0, 0]] := by
      clear hm hh
      rcases before with _ | ⟨a, _ | ⟨b, _ | ⟨c, before⟩⟩⟩
      all_goals simp only [List.nil_append, List.cons_append, List.cons.injEq] at heq
      · exact ⟨heq.1.symm, List.mem_cons_self⟩
      · obtain ⟨rfl, rfl, -⟩ := heq
        simp
      · obtain ⟨rfl, rfl, rfl, -⟩ := heq
        simp
      · cases before <;> cases heq.2.2.2
    obtain ⟨rfl, hbefore⟩ := hsplit
    have hsame := sameTokens_twoAndTwo before hbefore
    rw [Option.mem_def.mp hm, Option.mem_def.mp hh, Option.map_some, Option.map_some, Option.some_inj,
      decide_eq_decide] at hsame
    exact hsame

/-- The second call is refused by the hour, and the minute has a token less. -/
theorem not_bothMustAllow_twice : ∃ limiter, ChannelRateLimiter.fromConfig fiveAndOne = some limiter ∧
    ¬BothMustAllow fiveAndOne limiter [0, 0] := by
  refine ⟨_, rfl, fun h => ?_⟩
  have hkeep := h.keeps [0] 0 [] rfl (by decide)
  have hminute := congrArg (fun l => l.perMinute.map (·.full)) hkeep
  revert hminute
  decide

end SorobanPulse.Notifications
