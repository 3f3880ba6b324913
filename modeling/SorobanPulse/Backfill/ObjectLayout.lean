import SorobanPulse.Backfill.SplitRange
import SorobanPulse.Lib.Decimal

/-! The layout of a datastore: its files, their directories and the order of their keys.

        0            per_file       2 · per_file            u32::MAX
        |  file 0    |  file 1      |     …     | last file |
        |  directory 0              |     …                 |

    `fileBounds` and `objectKey` compute over numbers; the code computes in `u32` and `u64`, where a
    subtraction, a product or a division can go wrong. None of them ever does: `objectKey?_eq`. -/

namespace SorobanPulse.Backfill
open Lib

/-! ### The code's arithmetic -/

/-- `a - b` and `a % b` in `u32`; nothing on underflow or division by zero. -/
def sub32? (a b : UInt32) : Option UInt32 := if b ≤ a then some (a - b) else none

def rem32? (a b : UInt32) : Option UInt32 := if b = 0 then none else some (a % b)

/-- `a + b`, `a - b`, `a * b` and `a / b` in `u64`. -/
def add64? (a b : UInt64) : Option UInt64 :=
  if a.toNat + b.toNat < 2 ^ 64 then some (a + b) else none

def sub64? (a b : UInt64) : Option UInt64 := if b ≤ a then some (a - b) else none

def mul64? (a b : UInt64) : Option UInt64 :=
  if a.toNat * b.toNat < 2 ^ 64 then some (a * b) else none

def div64? (a b : UInt64) : Option UInt64 := if b = 0 then none else some (a / b)

def fileBounds? (schema : DatastoreSchema) (seq : UInt32) : Option (UInt32 × UInt32) := do
  let perFile := max schema.ledgersPerBatch 1
  let start ← sub32? seq (← rem32? seq perFile)
  return (start, saturatingAdd start (← sub32? perFile 1))

def partitionDir? (schema : DatastoreSchema) (seq : UInt32) : Option String :=
  if 1 < schema.batchesPerPartition then do
    let size ← mul64? (max schema.ledgersPerBatch 1).toUInt64 schema.batchesPerPartition.toUInt64
    let start ← mul64? (← div64? seq.toUInt64 size) size
    let last := min (← sub64? (← add64? start size) 1).toNat U32_MAX
    let inverted ← sub64? 4294967295 start
    return hex8 inverted.toNat ++ "--" ++ toString start.toNat ++ "-" ++ toString last ++ "/"
  else some ""

def objectKey? (schema : DatastoreSchema) (seq : UInt32) : Option String := do
  let key ← partitionDir? schema seq
  let (start, last) ← fileBounds? schema seq
  let inverted ← sub32? 4294967295 start
  let key := key ++ (hex8 inverted.toNat ++ "--" ++ toString start.toNat ++
    (if last ≠ start then "-" ++ toString last.toNat else "") ++
    (if schema.compression = "zstd" then ".xdr.zst" else ".xdr"))
  return key

section
variable {schema : DatastoreSchema} {seq : UInt32}

theorem sub32?_spec {a b : UInt32} (h : b.toNat ≤ a.toNat) :
    ∃ c, sub32? a b = some c ∧ c.toNat = a.toNat - b.toNat := by
  have hle := UInt32.le_iff_toNat_le.mpr h
  exact ⟨a - b, if_pos hle, UInt32.toNat_sub_of_le _ _ hle⟩

theorem sub64?_spec {a b : UInt64} (h : b.toNat ≤ a.toNat) :
    ∃ c, sub64? a b = some c ∧ c.toNat = a.toNat - b.toNat := by
  have hle := UInt64.le_iff_toNat_le.mpr h
  exact ⟨a - b, if_pos hle, UInt64.toNat_sub_of_le _ _ hle⟩

theorem add64?_spec {a b : UInt64} (h : a.toNat + b.toNat < 2 ^ 64) :
    ∃ c, add64? a b = some c ∧ c.toNat = a.toNat + b.toNat :=
  ⟨a + b, if_pos h, by rw [UInt64.toNat_add, Nat.mod_eq_of_lt h]⟩

theorem mul64?_spec {a b : UInt64} (h : a.toNat * b.toNat < 2 ^ 64) :
    ∃ c, mul64? a b = some c ∧ c.toNat = a.toNat * b.toNat :=
  ⟨a * b, if_pos h, by rw [UInt64.toNat_mul, Nat.mod_eq_of_lt h]⟩

theorem rem32?_spec {a b : UInt32} (h : 0 < b.toNat) :
    ∃ c, rem32? a b = some c ∧ c.toNat = a.toNat % b.toNat := by
  have hne : b ≠ 0 := by
    rintro rfl
    exact Nat.lt_irrefl _ h
  exact ⟨a % b, if_neg hne, UInt32.toNat_mod _ _⟩

theorem div64?_spec {a b : UInt64} (h : 0 < b.toNat) :
    ∃ c, div64? a b = some c ∧ c.toNat = a.toNat / b.toNat := by
  have hne : b ≠ 0 := by
    rintro rfl
    exact Nat.lt_irrefl _ h
  exact ⟨a / b, if_neg hne, UInt64.toNat_div _ _⟩

theorem toNat_perFile (schema : DatastoreSchema) :
    (max schema.ledgersPerBatch 1).toNat = schema.perFile := by
  rw [toNat_max]
  rfl

theorem fileBounds?_eq (schema : DatastoreSchema) (seq : UInt32) :
    ∃ bounds, fileBounds? schema seq = some bounds ∧
      ledgers bounds = fileBounds schema seq.toNat := by
  have hpos := perFile_pos schema
  rw [← toNat_perFile] at hpos
  obtain ⟨r, hr, hrn⟩ := rem32?_spec (a := seq) hpos
  obtain ⟨start, hstart, hstartn⟩ := sub32?_spec (a := seq) (b := r)
    (hrn ▸ Nat.mod_le _ _)
  obtain ⟨width, hwidth, hwidthn⟩ :=
    sub32?_spec (a := max schema.ledgersPerBatch 1) (b := 1) hpos
  refine ⟨(start, saturatingAdd start width), by simp [fileBounds?, hr, hstart, hwidth], ?_⟩
  rw [ledgers, fileBounds, ← toNat_perFile, toNat_saturatingAdd, hstartn, hwidthn, hrn]
  rfl

theorem partitionDir?_eq (schema : DatastoreSchema) (seq : UInt32) :
    partitionDir? schema seq = some (partitionDir schema seq.toNat) := by
  have hone : (1 : UInt32) < schema.batchesPerPartition ↔ 1 < schema.batchesPerPartition.toNat :=
    UInt32.lt_iff_toNat_lt
  by_cases h : 1 < schema.batchesPerPartition.toNat
  · have hseq := toNat_le_U32_MAX seq
    have hbatches := toNat_le_U32_MAX schema.batchesPerPartition
    have hper := toNat_le_U32_MAX (max schema.ledgersPerBatch 1)
    have hpos := perFile_pos schema
    rw [toNat_perFile] at hper
    rw [U32_MAX] at hseq hbatches hper
    have hsizepos : 0 < schema.perFile * schema.batchesPerPartition.toNat :=
      Nat.mul_pos hpos (by omega)
    -- two numbers below 2^32 have a product below 2^64, so none of the operations overflows
    have hsizele : schema.perFile * schema.batchesPerPartition.toNat ≤ 4294967295 * 4294967295 :=
      Nat.mul_le_mul hper hbatches
    have hstartle := Nat.div_mul_le_self seq.toNat
      (schema.perFile * schema.batchesPerPartition.toNat)
    obtain ⟨size, hsize, hsizen⟩ := mul64?_spec (a := (max schema.ledgersPerBatch 1).toUInt64)
      (b := schema.batchesPerPartition.toUInt64)
      (by rw [UInt32.toNat_toUInt64, UInt32.toNat_toUInt64, toNat_perFile]; omega)
    rw [UInt32.toNat_toUInt64, UInt32.toNat_toUInt64, toNat_perFile] at hsizen
    obtain ⟨q, hq, hqn⟩ := div64?_spec (a := seq.toUInt64) (b := size) (by omega)
    rw [UInt32.toNat_toUInt64, hsizen] at hqn
    obtain ⟨start, hstart, hstartn⟩ := mul64?_spec (a := q) (b := size)
      (by rw [hqn, hsizen]; omega)
    rw [hqn, hsizen] at hstartn
    obtain ⟨sum, hsum, hsumn⟩ := add64?_spec (a := start) (b := size) (by omega)
    obtain ⟨top, htop, htopn⟩ := sub64?_spec (a := sum) (b := 1)
      (by rw [show (1 : UInt64).toNat = 1 from rfl]; omega)
    rw [show (1 : UInt64).toNat = 1 from rfl, hsumn, hstartn, hsizen] at htopn
    obtain ⟨inverted, hinverted, hinvertedn⟩ := sub64?_spec (a := 4294967295) (b := start)
      (by rw [show (4294967295 : UInt64).toNat = 4294967295 from rfl]; omega)
    rw [show (4294967295 : UInt64).toNat = U32_MAX from rfl, hstartn] at hinvertedn
    rw [partitionDir?, if_pos (hone.mpr h), partitionDir, if_pos h]
    simp [hsize, hq, hstart, hsum, htop, hinverted, hstartn, htopn, hinvertedn]
  · -- one batch for a partition: no directory
    rw [partitionDir?, if_neg (mt hone.mp h), partitionDir, if_neg h]

/-- No operation overflows, none divides by zero, and the key is that of the numbers. -/
theorem objectKey?_eq (schema : DatastoreSchema) (seq : UInt32) :
    objectKey? schema seq = some (objectKey schema seq.toNat) := by
  obtain ⟨⟨start, last⟩, hbounds, hledgers⟩ := fileBounds?_eq schema seq
  have hle := toNat_le_U32_MAX start
  obtain ⟨inverted, hinverted, hinvertedn⟩ := sub32?_spec (a := 4294967295) (b := start) hle
  rw [show (4294967295 : UInt32).toNat = U32_MAX from rfl] at hinvertedn
  have heq : last = start ↔ last.toNat = start.toNat := UInt32.toNat_inj.symm
  rw [objectKey?, partitionDir?_eq, hbounds, objectKey, fileName, ← hledgers]
  simp [hinverted, hinvertedn, ledgers, heq]

/-! ### The files -/

/-- Where the files begin, and `u32::MAX + 1` behind the last one. -/
def fileStart (schema : DatastoreSchema) (k : ℕ) : ℕ := min (k * schema.perFile) (U32_MAX + 1)

/-- The bounds of all files. -/
def files (schema : DatastoreSchema) : List (ℕ × ℕ) :=
  (List.range (U32_MAX / schema.perFile + 1)).map fun k =>
    (fileStart schema k, fileStart schema (k + 1) - 1)

theorem fileBounds_eq_fileStart {l : ℕ} (h : l ≤ U32_MAX) :
    fileBounds schema l = (fileStart schema (l / schema.perFile),
      fileStart schema (l / schema.perFile + 1) - 1) := by
  have hpos := perFile_pos schema
  have hle := fileBounds_fst_le schema l
  have hfst : (fileBounds schema l).1 = l / schema.perFile * schema.perFile :=
    fileBounds_fst.trans (Nat.mul_comm _ _)
  refine Prod.ext ?_ ?_
  · rw [fileStart, hfst]
    omega
  · change min ((fileBounds schema l).1 + (schema.perFile - 1)) U32_MAX =
      fileStart schema (l / schema.perFile + 1) - 1
    rw [fileStart, Nat.succ_mul, hfst]
    omega

theorem consecutive_files (schema : DatastoreSchema) :
    Consecutive 0 (files schema) (U32_MAX + 1) := by
  have hpos := perFile_pos schema
  have hfirst : fileStart schema 0 = 0 := by
    rw [fileStart, Nat.zero_mul, Nat.zero_min]
  have hlast : fileStart schema (U32_MAX / schema.perFile + 1) = U32_MAX + 1 := by
    have hdiv := Nat.lt_div_mul_add hpos (a := U32_MAX)
    rw [fileStart, Nat.succ_mul]
    omega
  have hgrows : ∀ k < U32_MAX / schema.perFile + 1, fileStart schema k < fileStart schema (k + 1) := by
    intro k hk
    have hle := (Nat.le_div_iff_mul_le hpos).mp (Nat.le_of_lt_succ hk)
    rw [fileStart, fileStart, Nat.succ_mul]
    omega
  have hfiles := consecutive_map_range hgrows
  rwa [hfirst, hlast] at hfiles

theorem mem_files_iff {c : ℕ × ℕ} :
    c ∈ files schema ↔ ∃ seq : UInt32, fileBounds schema seq.toNat = c := by
  have hpos := perFile_pos schema
  rw [files, List.mem_map]
  constructor
  · rintro ⟨k, hk, rfl⟩
    rw [List.mem_range, Nat.lt_succ_iff, Nat.le_div_iff_mul_le hpos] at hk
    have hseq : (UInt32.ofNat (k * schema.perFile)).toNat = k * schema.perFile := by
      rw [U32_MAX] at hk
      rw [UInt32.toNat_ofNat', Nat.mod_eq_of_lt (by omega)]
    refine ⟨UInt32.ofNat (k * schema.perFile), ?_⟩
    rw [hseq, fileBounds_eq_fileStart hk, Nat.mul_div_cancel _ hpos]
  · rintro ⟨seq, rfl⟩
    refine ⟨seq.toNat / schema.perFile, ?_, (fileBounds_eq_fileStart (toNat_le_U32_MAX seq)).symm⟩
    rw [List.mem_range, Nat.lt_succ_iff]
    exact Nat.div_le_div_right (toNat_le_U32_MAX seq)

theorem fileBounds_eq_iff {a b : ℕ} (ha : a ≤ U32_MAX) :
    fileBounds schema a = fileBounds schema b ↔ a / schema.perFile = b / schema.perFile := by
  refine ⟨fun h => ?_, fileBounds_congr⟩
  have hlo := h ▸ fileBounds_fst_le schema a
  exact div_eq_of_mem_fileBounds hlo (h ▸ le_fileBounds_snd ha)

/-! ### The order of the keys -/

theorem mem_toDigits_sixteen (n : ℕ) : ∀ c ∈ Nat.toDigits 16 n, ∃ d < 16, c = Nat.digitChar d := by
  induction n using Nat.strong_induction_on with
  | _ n ih =>
    intro c hc
    rcases Nat.lt_or_ge n 16 with h | h
    · rw [Nat.toDigits_of_lt_base h, List.mem_singleton] at hc
      exact ⟨n, h, hc⟩
    · rw [Nat.toDigits_of_base_le (by decide) h, List.mem_append, List.mem_singleton] at hc
      rcases hc with hc | rfl
      · exact ih _ (by omega) c hc
      · exact ⟨n % 16, Nat.mod_lt _ (by decide), rfl⟩

theorem ascii_hex8 (n : ℕ) : Ascii (hex8 n).toList := by
  have hupper : ∀ d < 16, (Nat.digitChar d).toUpper.toNat < 128 := by decide
  rw [hex8, String.toList_ofList]
  intro c hc
  obtain ⟨digit, hdigit, rfl⟩ := List.mem_map.mp hc
  rcases List.mem_append.mp hdigit with hpad | hdigit
  · rw [(List.mem_replicate.mp hpad).2]
    decide
  · obtain ⟨d, hd, rfl⟩ := mem_toDigits_sixteen n digit hdigit
    exact hupper d hd

theorem compare_hex8 {m n : ℕ} (hm : m ≤ U32_MAX) (hn : n ≤ U32_MAX) :
    compare ((hex8 m).toList.map Char.toNat) ((hex8 n).toList.map Char.toNat) = compare m n := by
  rw [hex8, hex8, String.toList_ofList, String.toList_ofList, List.map_map, List.map_map]
  exact compare_leftpad (by decide) (by decide) (by decide) (Nat.lt_succ_of_le hm)
    (Nat.lt_succ_of_le hn)

theorem ascii_partitionDir (schema : DatastoreSchema) (l : ℕ) :
    Ascii (partitionDir schema l).toList := by
  rw [partitionDir]
  split
  · have hdashes : Ascii "--".toList := by simp [Ascii]
    have hdash : Ascii "-".toList := by simp [Ascii]
    have hslash : Ascii "/".toList := by simp [Ascii]
    simp only [String.toList_append]
    exact Ascii.append (Ascii.append (Ascii.append (Ascii.append (Ascii.append (ascii_hex8 _) hdashes)
      (ascii_toString _)) hdash) (ascii_toString _)) hslash
  · intro c hc
    cases hc

theorem ascii_fileName (schema : DatastoreSchema) (l : ℕ) : Ascii (fileName schema l).toList := by
  have hdashes : Ascii "--".toList := by simp [Ascii]
  have hlast : Ascii (if (fileBounds schema l).2 ≠ (fileBounds schema l).1 then
      "-" ++ toString (fileBounds schema l).2 else "").toList := by
    split
    · rw [String.toList_append]
      exact Ascii.append (by simp [Ascii]) (ascii_toString _)
    · intro c hc
      cases hc
  have hextension :
      Ascii (if schema.compression = "zstd" then ".xdr.zst" else ".xdr").toList := by
    split
    · simp [Ascii]
    · simp [Ascii]
  rw [fileName]
  simp only [String.toList_append]
  exact Ascii.append (Ascii.append (Ascii.append (Ascii.append (ascii_hex8 _) hdashes)
    (ascii_toString _)) hlast) hextension

theorem compare_objectKey (schema : DatastoreSchema) (a b : ℕ) :
    compare (objectKey schema a).toUTF8.data (objectKey schema b).toUTF8.data =
      compare (((partitionDir schema a).toList ++ (fileName schema a).toList).map Char.toNat)
        (((partitionDir schema b).toList ++ (fileName schema b).toList).map Char.toNat) := by
  rw [Array.compare_eq_compare_toList, toList_toUTF8, toList_toUTF8, asBytes, asBytes, objectKey,
    objectKey, String.toList_append, String.toList_append]
  exact compare_utf8Bytes ((ascii_partitionDir _ _).append (ascii_fileName _ _))
    ((ascii_partitionDir _ _).append (ascii_fileName _ _))

/-- Texts that begin with the inverted numbers of two starts: the greater start comes first. -/
theorem compare_inverted_lt {a b : ℕ} (hb : b ≤ U32_MAX) (h : a < b) (xs ys : List Char) :
    compare (((hex8 (U32_MAX - b)).toList ++ xs).map Char.toNat)
      (((hex8 (U32_MAX - a)).toList ++ ys).map Char.toNat) = .lt := by
  have hlen := (length_hex8 (Nat.sub_le U32_MAX b)).trans (length_hex8 (Nat.sub_le U32_MAX a)).symm
  rw [List.map_append, List.map_append, compare_append (by simpa using hlen),
    compare_hex8 (Nat.sub_le _ _) (Nat.sub_le _ _), Nat.compare_eq_lt.mpr (by omega)]
  rfl

theorem compare_fileName_lt {a b : ℕ} (hb : b ≤ U32_MAX)
    (h : a / schema.perFile < b / schema.perFile) :
    compare ((fileName schema b).toList.map Char.toNat)
      ((fileName schema a).toList.map Char.toNat) = .lt := by
  have hstart : (fileBounds schema a).1 < (fileBounds schema b).1 := by
    rw [fileBounds_fst, fileBounds_fst]
    exact Nat.mul_lt_mul_of_pos_left h (perFile_pos schema)
  have hle := (fileBounds_fst_le schema b).trans hb
  rw [fileName, fileName]
  simp only [String.toList_append, List.append_assoc]
  exact compare_inverted_lt hle hstart _ _

/-- The newest objects sort first. -/
theorem compare_objectKey_lt {a b : ℕ} (hb : b ≤ U32_MAX)
    (h : a / schema.perFile < b / schema.perFile) :
    compare (objectKey schema b).toUTF8.data (objectKey schema a).toUTF8.data = .lt := by
  rw [compare_objectKey]
  by_cases hdir : partitionDir schema b = partitionDir schema a
  · rw [hdir, List.map_append, List.map_append, compare_append rfl, compare_fileName_lt hb h,
      Std.compare_self]
    rfl
  · -- the older directory starts at a smaller ledger
    rw [partitionDir, partitionDir] at hdir ⊢
    split at hdir
    · next hbatches =>
      rw [if_pos hbatches, if_pos hbatches]
      have hstart : a / (schema.perFile * schema.batchesPerPartition.toNat) *
            (schema.perFile * schema.batchesPerPartition.toNat) <
          b / (schema.perFile * schema.batchesPerPartition.toNat) *
            (schema.perFile * schema.batchesPerPartition.toNat) := by
        have hab : a ≤ b := Nat.le_of_lt (Nat.lt_of_div_lt_div h)
        refine Nat.lt_of_le_of_ne (Nat.mul_le_mul_right _ (Nat.div_le_div_right hab)) ?_
        intro heq
        exact hdir (by dsimp only; rw [heq])
      have hle := (Nat.div_mul_le_self b
        (schema.perFile * schema.batchesPerPartition.toNat)).trans hb
      simp only [String.toList_append, List.append_assoc]
      exact compare_inverted_lt hle hstart _ _
    · exact absurd rfl hdir

end

/-- The layout of a datastore: keys and bounds are computed without fault, keys tell files apart,
    files cover all ledgers without gap or overlap, none is in two directories, and the bytes of the
    keys put newer files first. -/
theorem objectLayout (schema : DatastoreSchema) :
    (∀ seq : UInt32,
      (fileBounds? schema seq).map ledgers = some (fileBounds schema seq.toNat) ∧
        objectKey? schema seq = some (objectKey schema seq.toNat)) ∧
    (∀ a b : UInt32, objectKey schema a.toNat = objectKey schema b.toNat ↔
      fileBounds schema a.toNat = fileBounds schema b.toNat) ∧
    (∀ seq : UInt32, (fileBounds schema seq.toNat).1 ≤ seq.toNat ∧
      seq.toNat ≤ (fileBounds schema seq.toNat).2) ∧
    (∃ files, Consecutive 0 files (U32_MAX + 1) ∧
      ∀ c, c ∈ files ↔ ∃ seq : UInt32, fileBounds schema seq.toNat = c) ∧
    (∀ a b : UInt32, (fileBounds schema a.toNat).1 ≤ b.toNat →
      b.toNat ≤ (fileBounds schema a.toNat).2 →
        partitionDir schema b.toNat = partitionDir schema a.toNat) ∧
    ∀ a b : UInt32, a < b → fileBounds schema a.toNat ≠ fileBounds schema b.toNat →
      compare (objectKey schema b.toNat).toUTF8.data (objectKey schema a.toNat).toUTF8.data = .lt := by
  refine ⟨fun seq => ⟨?_, objectKey?_eq schema seq⟩, fun a b => ?_,
    fun seq => ⟨fileBounds_fst_le schema _, le_fileBounds_snd (toNat_le_U32_MAX seq)⟩,
    ⟨files schema, consecutive_files schema, fun _ => mem_files_iff⟩,
    fun a b hlo hhi => partitionDir_congr (div_eq_of_mem_fileBounds hlo hhi),
    fun a b hab hne => ?_⟩
  · obtain ⟨bounds, hbounds, hledgers⟩ := fileBounds?_eq schema seq
    rw [hbounds, Option.map_some, hledgers]
  · rw [objectKey_eq_iff, fileBounds_eq_iff (toNat_le_U32_MAX a)]
  · have hle := Nat.le_of_lt (UInt32.lt_iff_toNat_lt.mp hab)
    rw [Ne, fileBounds_eq_iff (toNat_le_U32_MAX a)] at hne
    exact compare_objectKey_lt (toNat_le_U32_MAX b)
      (Nat.lt_of_le_of_ne (Nat.div_le_div_right hle) hne)

end SorobanPulse.Backfill
