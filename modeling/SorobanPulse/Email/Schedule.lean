import SorobanPulse.Events.PaginationParams
import SorobanPulse.Lib.CronSyntax

/-! When an email digest is due.

        hourly    every full hour            the hour has advanced since the last send
        daily     one full hour of a day     today's instant lies between the last send and now
        cron      the seconds that match     this second matches and is later than the last send

    `is_due` is to say whether a scheduled instant has passed since the last send. The hourly test
    sees all of them, the daily one today's only, and the cron one this second's only.

    A cron expression is documented to have the syntax of six or seven fields, seconds first, with
    lists, ranges, steps and names. What is read of it is numbers and `*`, in six fields:

        0 0 * * * *        read as documented
        0 0 9 * * 2        Mondays, and read as Wednesdays
        0 */5 * * * *      not read, and never due -/

namespace SorobanPulse.Email
open Events Lib

/-- A `DateTime<Utc>` is an integer, in nanoseconds since the epoch. -/
def SECOND : ℤ := 1000000000
def HOUR : ℤ := 3600 * SECOND
def DAY : ℤ := 24 * HOUR

/-- What chrono's calendar says of a day, counted from the epoch. -/
structure Calendar where
  day : ℤ → ℕ
  month : ℤ → ℕ
  year : ℤ → ℕ
  numDaysFromMonday : ℤ → ℕ
  day_bounds : ∀ date, 1 ≤ day date ∧ day date ≤ 31
  month_bounds : ∀ date, 1 ≤ month date ∧ month date ≤ 12

/-! ### Clock and calendar -/

def timestamp (t : ℤ) : ℤ := t / SECOND

def hourOf (t : ℤ) : ℕ := (timestamp t / 3600 % 24).toNat

def minuteOf (t : ℤ) : ℕ := (timestamp t / 60 % 60).toNat

def secondOf (t : ℤ) : ℕ := (timestamp t % 60).toNat

/-- `date_naive`, as a number of days. -/
def dateNaive (t : ℤ) : ℤ := timestamp t / 86400

/-- `and_hms_opt(hour, 0, 0)`. -/
def andHour (date : ℤ) (hour : ℕ) : Option ℤ :=
  if hour < 24 then some (date * DAY + hour * HOUR) else none

/-! ### Schedules -/

inductive Schedule where
  | Immediate
  | HourlyDigest
  | DailyDigest (hour : ℕ)
  | CustomCron (expr : String)

/-- `split_whitespace`. -/
def splitWhitespace (s : String) : List (List Char) :=
  (s.toList.splitOnP isWhitespace).filter (· ≠ [])

/-- A `u32`, or `*` for any value. -/
def cronField (field : List Char) : Option (Option ℕ) :=
  match parseUnsigned (2 ^ 32) field with
  | some v => some (some v)
  | none => if field = ['*'] then some none else none

/-- Second, minute, hour, day, month and weekday; `none` where `parse_custom_cron` gives up. -/
def cronFields (expr : String) : Option (List (Option ℕ)) :=
  let fields := splitWhitespace expr
  if fields.length ≠ 6 then none else fields.mapM cronField

def matchesField (actual : ℕ) (expected : Option ℕ) : Bool :=
  expected.isNone || expected == some actual

section
variable (cal : Calendar)

def nowMatches (parsed : List (Option ℕ)) (now : ℤ) : Bool :=
  (List.zipWith matchesField [secondOf now, minuteOf now, hourOf now, cal.day (dateNaive now),
    cal.month (dateNaive now), cal.numDaysFromMonday (dateNaive now)] parsed).all id

def parseCustomCron (expr : String) (now lastSent : ℤ) : Bool :=
  match cronFields expr with
  | none => false
  | some parsed =>
    if !nowMatches cal parsed now then false else decide (timestamp now > timestamp lastSent)

def Schedule.isDue (now lastSent : ℤ) : Schedule → Bool
  | .Immediate => true
  | .HourlyDigest => decide (timestamp now / 3600 > timestamp lastSent / 3600)
  | .DailyDigest hour =>
    match andHour (dateNaive now) hour with
    | some scheduled => decide (now ≥ scheduled) && decide (lastSent < scheduled)
    | none => false
  | .CustomCron expr => parseCustomCron cal expr now lastSent

/-! ### Scheduled instants -/

/-- The day of the week, from Sunday on, which is 1. -/
def numberFromSunday (date : ℤ) : ℕ := (cal.numDaysFromMonday date + 1) % 7 + 1

/-- The second's values, unit by unit of the documented syntax. -/
def cronValues (t : ℤ) : List ℕ :=
  [secondOf t, minuteOf t, hourOf t, cal.day (dateNaive t), cal.month (dateNaive t),
    numberFromSunday cal (dateNaive t), cal.year (dateNaive t)]

/-- The instants that a schedule names; a cron expression names whole seconds, by the syntax it is
    documented to have. -/
def Schedule.Scheduled (s : ℤ) : Schedule → Prop
  | .Immediate => True
  | .HourlyDigest => s % HOUR = 0
  | .DailyDigest hour => hour < 24 ∧ s % DAY = hour * HOUR
  | .CustomCron expr =>
    s % SECOND = 0 ∧ Cron.names (splitWhitespace expr) (cronValues cal s) = true

/-- A scheduled instant lies after the last send and not after now. -/
def Schedule.Passed (schedule : Schedule) (now lastSent : ℤ) : Prop :=
  ∃ s, schedule.Scheduled cal s ∧ lastSent < s ∧ s ≤ now

/-- Is the expression read, and as one that names this second? -/
def ReadsNow (expr : String) (now : ℤ) : Prop :=
  ∃ parsed, cronFields expr = some parsed ∧ nowMatches cal parsed now = true

/-- Today's instant is still to come and yesterday's was not served; the expression is not read as
    naming this second, and names one since the last send. -/
def Schedule.Overlooks (now lastSent : ℤ) : Schedule → Prop
  | .Immediate => False
  | .HourlyDigest => False
  | .DailyDigest hour => hour < 24 ∧ now < dateNaive now * DAY + hour * HOUR ∧
    lastSent < (dateNaive now - 1) * DAY + hour * HOUR
  | .CustomCron expr => ¬ReadsNow cal expr now ∧
    (Schedule.CustomCron expr).Passed cal now lastSent

/-- An immediate schedule is asked about the past; the expression is read as naming this second,
    which is after the last send, and names none since then. -/
def Schedule.Imagines (now lastSent : ℤ) : Schedule → Prop
  | .Immediate => now ≤ lastSent
  | .HourlyDigest => False
  | .DailyDigest _ => False
  | .CustomCron expr => ReadsNow cal expr now ∧ lastSent < timestamp now * SECOND ∧
    ¬(Schedule.CustomCron expr).Passed cal now lastSent

/-- Six fields of numbers and `*`, and no day of the week. -/
def PlainFields (expr : String) : Prop :=
  ∃ fields, splitWhitespace expr = fields ++ [['*']] ∧ fields.length = 5 ∧
    ∀ field ∈ fields, Cron.IsPlain field

end

section
variable {cal : Calendar} {schedule : Schedule} {now lastSent s t : ℤ} {hour : ℕ}
  {expr : String} {parsed : List (Option ℕ)}

/-! ### Hours and days -/

theorem dateNaive_eq (t : ℤ) : dateNaive t = t / DAY := by
  unfold dateNaive timestamp DAY HOUR SECOND
  omega

theorem isDue_hourly : Schedule.HourlyDigest.isDue cal now lastSent = true ↔
    lastSent < now / HOUR * HOUR := by
  rw [Schedule.isDue, decide_eq_true_eq]
  unfold timestamp HOUR SECOND
  omega

theorem passed_hourly : Schedule.HourlyDigest.Passed cal now lastSent ↔
    lastSent < now / HOUR * HOUR := by
  constructor
  · rintro ⟨s, hs, hlast, hnow⟩
    unfold Schedule.Scheduled HOUR SECOND at *
    omega
  · intro hlast
    refine ⟨now / HOUR * HOUR, ?_, hlast, ?_⟩
    · exact Int.mul_emod_left _ _
    · exact Int.ediv_mul_le _ (by decide)

theorem isDue_daily (hhour : hour < 24) : (Schedule.DailyDigest hour).isDue cal now lastSent = true ↔
    dateNaive now * DAY + hour * HOUR ≤ now ∧ lastSent < dateNaive now * DAY + hour * HOUR := by
  rw [Schedule.isDue, andHour, if_pos hhour]
  simp only [Bool.and_eq_true, decide_eq_true_eq, ge_iff_le]

theorem isDue_daily_of_le (hhour : ¬hour < 24) :
    (Schedule.DailyDigest hour).isDue cal now lastSent = false := by
  rw [Schedule.isDue, andHour, if_neg hhour]

/-- The last daily instant up to now is today's or yesterday's. -/
theorem passed_daily (hhour : hour < 24) : (Schedule.DailyDigest hour).Passed cal now lastSent ↔
    dateNaive now * DAY + hour * HOUR ≤ now ∧ lastSent < dateNaive now * DAY + hour * HOUR ∨
      now < dateNaive now * DAY + hour * HOUR ∧
        lastSent < (dateNaive now - 1) * DAY + hour * HOUR := by
  rw [dateNaive_eq]
  constructor
  · rintro ⟨s, ⟨-, hs⟩, hlast, hnow⟩
    unfold DAY HOUR SECOND at *
    omega
  · rintro (⟨hnow, hlast⟩ | ⟨hnow, hlast⟩)
    · refine ⟨_, ⟨hhour, ?_⟩, hlast, hnow⟩
      unfold DAY HOUR SECOND
      omega
    · refine ⟨_, ⟨hhour, ?_⟩, hlast, ?_⟩ <;> unfold DAY HOUR SECOND at * <;> omega

/-! ### Cron expressions -/

/-- A match is a matter of whole seconds. -/
theorem nowMatches_congr (h : timestamp s = timestamp t) :
    nowMatches cal parsed s = nowMatches cal parsed t := by
  unfold nowMatches secondOf minuteOf hourOf dateNaive
  rw [h]

theorem timestamp_floor (t : ℤ) : timestamp (timestamp t * SECOND) = timestamp t := by
  unfold timestamp
  exact Int.mul_ediv_cancel _ (by decide)

/-- Due is the second that the expression is read as, once it is after the last send. -/
theorem isDue_cron : (Schedule.CustomCron expr).isDue cal now lastSent = true ↔
    ReadsNow cal expr now ∧ lastSent < timestamp now * SECOND := by
  have hlt : timestamp now > timestamp lastSent ↔ lastSent < timestamp now * SECOND := by
    unfold timestamp SECOND
    omega
  rw [Schedule.isDue, parseCustomCron, ReadsNow]
  cases cronFields expr with
  | none => simp
  | some parsed => cases hmatch : nowMatches cal parsed now <;> simp [hlt, hmatch]

/-- An instant since the last send is at most this second's start. -/
theorem lt_floor_of_passed (h : (Schedule.CustomCron expr).Passed cal now lastSent) :
    lastSent < timestamp now * SECOND := by
  obtain ⟨s, ⟨hs, -⟩, hlast, hnow⟩ := h
  unfold timestamp SECOND at *
  omega

/-! ### Plain expressions -/

theorem cronField_of_ordinal {field : List Char} {n : ℕ} (h : Cron.ordinal field = some n) :
    cronField field = some (some n) := by
  have hplus : '+' ∉ field := Cron.not_mem_of_ordinal h rfl
  rw [cronField]
  unfold parseUnsigned
  split
  · next v hparse =>
    split at hparse
    · exact absurd List.mem_cons_self hplus
    · exact congrArg (some ∘ some) (Option.some.inj (hparse.symm.trans h))
  · next hparse =>
    split at hparse
    · exact absurd List.mem_cons_self hplus
    · exact absurd (h.symm.trans hparse) (Option.some_ne_none _)

/-- A plain field is read as it is written: it names the unit's values that match. -/
theorem cronField_of_plain {u : Cron.TimeUnit} {field : List Char} (h : Cron.IsPlain field) :
    ∃ expected, cronField field = some expected ∧
      ∀ v, u.inclusiveMin ≤ v ∧ v ≤ u.inclusiveMax →
        (u.field field).any (·.contains v) = matchesField v expected := by
  rcases h with rfl | h
  · exact ⟨none, rfl, fun v hv => Cron.field_star_contains hv⟩
  · obtain ⟨n, hn⟩ := Option.isSome_iff_exists.mp h
    refine ⟨some n, cronField_of_ordinal hn, fun v hv => ?_⟩
    rw [Cron.field_ordinal_contains hn hv, matchesField, Option.isNone_some, Bool.false_or,
      Bool.eq_iff_iff]
    simp

theorem secondOf_le (t : ℤ) : secondOf t ≤ 59 := by
  unfold secondOf
  omega

theorem minuteOf_le (t : ℤ) : minuteOf t ≤ 59 := by
  unfold minuteOf
  omega

theorem hourOf_le (t : ℤ) : hourOf t ≤ 23 := by
  unfold hourOf
  omega

theorem numberFromSunday_bounds (date : ℤ) :
    1 ≤ numberFromSunday cal date ∧ numberFromSunday cal date ≤ 7 := by
  unfold numberFromSunday
  omega

@[simp] theorem matchesField_none (v : ℕ) : matchesField v none = true := rfl

/-- A plain expression is read as documented. -/
theorem readsNow_iff_of_plain (h : PlainFields expr) :
    ReadsNow cal expr t ↔ Cron.names (splitWhitespace expr) (cronValues cal t) = true := by
  obtain ⟨fields, hsplit, hlength, hplain⟩ := h
  obtain ⟨a, b, c, d, e, rfl⟩ : ∃ a b c d e, fields = [a, b, c, d, e] := by
    match fields, hlength with
    | [a, b, c, d, e], _ => exact ⟨a, b, c, d, e, rfl⟩
  simp only [List.forall_mem_cons] at hplain
  obtain ⟨ha, hb, hc, hd, he, -⟩ := hplain
  obtain ⟨sec, hsec, hasSec⟩ := cronField_of_plain (u := Cron.seconds) ha
  obtain ⟨min, hmin, hasMin⟩ := cronField_of_plain (u := Cron.minutes) hb
  obtain ⟨hour, hhour, hasHour⟩ := cronField_of_plain (u := Cron.hours) hc
  obtain ⟨dom, hdom, hasDom⟩ := cronField_of_plain (u := Cron.daysOfMonth) hd
  obtain ⟨month, hmonth, hasMonth⟩ := cronField_of_plain (u := Cron.months) he
  have hfields : cronFields expr = some [sec, min, hour, dom, month, none] := by
    rw [cronFields, hsplit]
    simp [hsec, hmin, hhour, hdom, hmonth, show cronField ['*'] = some none from rfl]
  rw [ReadsNow, hfields, hsplit, Cron.names, cronValues]
  simp only [Cron.units, List.cons_append, List.nil_append, List.zip_cons_cons, List.zip_nil_right,
    List.zip_nil_left, List.all_cons, List.all_nil]
  rw [hasSec _ ⟨Nat.zero_le _, secondOf_le t⟩, hasMin _ ⟨Nat.zero_le _, minuteOf_le t⟩,
    hasHour _ ⟨Nat.zero_le _, hourOf_le t⟩, hasDom _ (cal.day_bounds _),
    hasMonth _ (cal.month_bounds _), Cron.field_star_contains (numberFromSunday_bounds _)]
  simp [nowMatches]

/-! ### Due and passed -/

/-- A passed instant makes the schedule due, unless it is overlooked. -/
theorem isDue_of_passed_iff : (schedule.Passed cal now lastSent →
    schedule.isDue cal now lastSent = true) ↔ ¬schedule.Overlooks cal now lastSent := by
  cases schedule with
  | Immediate => exact ⟨fun _ h => h, fun _ _ => rfl⟩
  | HourlyDigest =>
    rw [isDue_hourly, passed_hourly]
    exact ⟨fun _ h => h, fun _ h => h⟩
  | DailyDigest hour =>
    by_cases hhour : hour < 24
    · have hnext : (dateNaive now - 1) * DAY + hour * HOUR < dateNaive now * DAY + hour * HOUR := by
        unfold DAY HOUR SECOND
        omega
      rw [isDue_daily hhour, passed_daily hhour, Schedule.Overlooks]
      omega
    · constructor
      · exact fun _ h => hhour h.1
      · rintro - ⟨s, hs, -⟩
        exact absurd hs.1 hhour
  | CustomCron expr =>
    rw [isDue_cron, Schedule.Overlooks]
    constructor
    · rintro hdue ⟨hread, hpassed⟩
      exact hread (hdue hpassed).1
    · intro hsight hpassed
      refine ⟨?_, lt_floor_of_passed hpassed⟩
      by_contra hread
      exact hsight ⟨hread, hpassed⟩

/-- A due schedule has passed, unless its instant is imagined. -/
theorem passed_of_isDue_iff : (schedule.isDue cal now lastSent = true →
    schedule.Passed cal now lastSent) ↔ ¬schedule.Imagines cal now lastSent := by
  cases schedule with
  | Immediate =>
    rw [Schedule.Imagines, not_le]
    constructor
    · intro h
      obtain ⟨s, -, hlast, hnow⟩ := h rfl
      exact hlast.trans_le hnow
    · exact fun h _ => ⟨now, trivial, h, le_rfl⟩
  | HourlyDigest =>
    rw [isDue_hourly, passed_hourly]
    exact iff_of_true id not_false
  | DailyDigest hour =>
    by_cases hhour : hour < 24
    · rw [isDue_daily hhour, passed_daily hhour]
      exact iff_of_true Or.inl not_false
    · rw [isDue_daily_of_le hhour]
      exact iff_of_true nofun not_false
  | CustomCron expr =>
    rw [isDue_cron, Schedule.Imagines]
    tauto

theorem isDue_iff_passed_iff : (schedule.isDue cal now lastSent = true ↔
    schedule.Passed cal now lastSent) ↔
      ¬schedule.Overlooks cal now lastSent ∧ ¬schedule.Imagines cal now lastSent := by
  refine iff_iff_implies_and_implies.trans (and_comm.trans ?_)
  exact and_congr isDue_of_passed_iff passed_of_isDue_iff

/-- Nothing is imagined of a plain expression: this second is an instant of it. -/
theorem not_imagines_of_plain (h : PlainFields expr) :
    ¬(Schedule.CustomCron expr).Imagines cal now lastSent := by
  rintro ⟨hread, hlast, hpassed⟩
  refine hpassed ⟨timestamp now * SECOND, ⟨Int.mul_emod_left _ _, ?_⟩, hlast, ?_⟩
  · rw [← readsNow_iff_of_plain h, ReadsNow]
    simp only [nowMatches_congr (timestamp_floor now)]
    exact hread
  · exact Int.ediv_mul_le _ (by decide)

end

end SorobanPulse.Email
