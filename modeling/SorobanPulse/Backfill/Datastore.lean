import Mathlib

/-! Layout of a Galexie datastore: which file holds a ledger, and the file's object key.

    A file holds `ledgers_per_batch` consecutive ledgers, a partition directory `batches_per_partition`
    files. Directories and files are named by the bit-inverted start ledger and their bounds:

        FFFFFFFF--0-63999/FFFFFFFD--2-3.xdr.zst

    `objectKey_eq_iff`: two ledgers have the same key exactly when they are in the same file. -/

namespace SorobanPulse.Backfill

/-- Layout of a datastore, read from its `.config.json` manifest. -/
structure DatastoreSchema where
  ledgersPerBatch : UInt32
  batchesPerPartition : UInt32
  compression : String := "zstd"

/-- `u32::MAX`. -/
def U32_MAX : ℕ := 4294967295

/-- `u32::saturating_add`. -/
def saturatingAdd (a b : UInt32) : UInt32 := UInt32.ofNat (min (a.toNat + b.toNat) U32_MAX)

/-- `ledgers_per_batch.max(1)`. -/
def DatastoreSchema.perFile (schema : DatastoreSchema) : ℕ := max schema.ledgersPerBatch.toNat 1

/-- Inclusive ledger bounds of the file containing `seq`. -/
def fileBounds (schema : DatastoreSchema) (seq : ℕ) : ℕ × ℕ :=
  let start := seq - seq % schema.perFile
  (start, min (start + (schema.perFile - 1)) U32_MAX)

/-- `{:08X}`. -/
def hex8 (n : ℕ) : String :=
  String.ofList (((Nat.toDigits 16 n).leftpad 8 '0').map Char.toUpper)

/-- The partition directory of `seq`; `size` and the bounds are `u64`. -/
def partitionDir (schema : DatastoreSchema) (seq : ℕ) : String :=
  if 1 < schema.batchesPerPartition.toNat then
    let size := schema.perFile * schema.batchesPerPartition.toNat
    let start := seq / size * size
    let last := min (start + size - 1) U32_MAX
    hex8 (U32_MAX - start) ++ "--" ++ toString start ++ "-" ++ toString last ++ "/"
  else ""

/-- The name of the file containing `seq`. -/
def fileName (schema : DatastoreSchema) (seq : ℕ) : String :=
  let (start, last) := fileBounds schema seq
  hex8 (U32_MAX - start) ++ "--" ++ toString start ++
    (if last ≠ start then "-" ++ toString last else "") ++
    (if schema.compression = "zstd" then ".xdr.zst" else ".xdr")

/-- Object key, relative to the datastore root, of the file containing `seq`. -/
def objectKey (schema : DatastoreSchema) (seq : ℕ) : String :=
  partitionDir schema seq ++ fileName schema seq

example : objectKey { ledgersPerBatch := 2, batchesPerPartition := 32000 } 3 =
    "FFFFFFFF--0-63999/FFFFFFFD--2-3.xdr.zst" := by decide +kernel

theorem toNat_le_U32_MAX (a : UInt32) : a.toNat ≤ U32_MAX := Nat.le_of_lt_succ a.toNat_lt

theorem toNat_saturatingAdd (a b : UInt32) :
    (saturatingAdd a b).toNat = min (a.toNat + b.toNat) U32_MAX := by
  have hlt : min (a.toNat + b.toNat) U32_MAX < 2 ^ 32 := by
    rw [U32_MAX]
    omega
  rw [saturatingAdd, UInt32.toNat_ofNat', Nat.mod_eq_of_lt hlt]

section
variable {schema : DatastoreSchema} {seq l l' : ℕ}

theorem perFile_pos (schema : DatastoreSchema) : 0 < schema.perFile :=
  Nat.lt_of_lt_of_le Nat.one_pos (Nat.le_max_right _ _)

/-- A file starts at a multiple of its size. -/
theorem fileBounds_fst : (fileBounds schema seq).1 = schema.perFile * (seq / schema.perFile) := by
  have hdiv := Nat.div_add_mod seq schema.perFile
  rw [fileBounds]
  dsimp only
  omega

theorem fileBounds_fst_le (schema : DatastoreSchema) (seq : ℕ) : (fileBounds schema seq).1 ≤ seq :=
  Nat.sub_le _ _

theorem le_fileBounds_snd (h : seq ≤ U32_MAX) : seq ≤ (fileBounds schema seq).2 := by
  have hmod := Nat.mod_lt seq (perFile_pos schema)
  rw [fileBounds]
  dsimp only
  omega

/-- The ledgers inside a file's bounds are the ledgers of that file. -/
theorem div_eq_of_mem_fileBounds (hlo : (fileBounds schema seq).1 ≤ l)
    (hhi : l ≤ (fileBounds schema seq).2) : l / schema.perFile = seq / schema.perFile := by
  have hpos := perFile_pos schema
  rw [fileBounds_fst] at hlo
  have hlt : l < schema.perFile * (seq / schema.perFile) + schema.perFile := by
    have hle : (fileBounds schema seq).2 ≤ (fileBounds schema seq).1 + (schema.perFile - 1) :=
      Nat.min_le_left _ _
    rw [fileBounds_fst] at hle
    omega
  refine Nat.div_eq_of_lt_le ?_ ?_
  · rw [Nat.mul_comm]; exact hlo
  · rw [Nat.mul_comm, Nat.mul_succ]; exact hlt

theorem fileBounds_congr (h : l / schema.perFile = l' / schema.perFile) :
    fileBounds schema l = fileBounds schema l' := by
  have hfst : (fileBounds schema l).1 = (fileBounds schema l').1 := by
    rw [fileBounds_fst, fileBounds_fst, h]
  exact Prod.ext hfst (congrArg (fun start => min (start + (schema.perFile - 1)) U32_MAX) hfst)

theorem partitionDir_congr (h : l / schema.perFile = l' / schema.perFile) :
    partitionDir schema l = partitionDir schema l' := by
  have hdiv : ∀ b, l / (schema.perFile * b) = l' / (schema.perFile * b) := by
    intro b
    rw [← Nat.div_div_eq_div_mul, h, Nat.div_div_eq_div_mul]
  rw [partitionDir, partitionDir]
  dsimp only
  rw [hdiv]

theorem objectKey_congr (h : l / schema.perFile = l' / schema.perFile) :
    objectKey schema l = objectKey schema l' := by
  rw [objectKey, objectKey, partitionDir_congr h, fileName, fileName, fileBounds_congr h]

/-! ### The key determines the file -/

def NoDigitHead (x : List Char) : Prop := ∀ c cs, x = c :: cs → c.isDigit = false

theorem NoDigitHead.cons {c : Char} (h : c.isDigit = false) (cs : List Char) :
    NoDigitHead (c :: cs) := by
  intro d ds hd
  obtain ⟨rfl, -⟩ := List.cons.inj hd
  exact h

/-- A decimal number ends where the digits do. -/
theorem toString_append_inj {a b : ℕ} {x y : List Char} (hx : NoDigitHead x) (hy : NoDigitHead y)
    (h : (toString a).toList ++ x = (toString b).toList ++ y) : a = b ∧ x = y := by
  have hdigits : ∀ (n : ℕ) c, c ∈ (toString n).toList → c.isDigit = true := by
    intro n c hc
    rw [Nat.toString_eq_repr, Nat.toList_repr] at hc
    exact Nat.isDigit_of_mem_toDigits (by omega) (by omega) hc
  have htake : ∀ (n : ℕ) (z : List Char), NoDigitHead z →
      ((toString n).toList ++ z).takeWhile Char.isDigit = (toString n).toList := by
    intro n z hz
    rw [List.takeWhile_append_of_pos (hdigits n)]
    cases z with
    | nil => rw [List.takeWhile_nil, List.append_nil]
    | cons c cs =>
      rw [List.takeWhile_cons_of_neg (by rw [hz c cs rfl]; exact Bool.noConfusion), List.append_nil]
  have hab : (toString a).toList = (toString b).toList := by
    rw [← htake a x hx, ← htake b y hy, h]
  refine ⟨?_, List.append_cancel_left (hab ▸ h)⟩
  rw [Nat.toString_eq_repr, Nat.toString_eq_repr, Nat.toList_repr, Nat.toList_repr] at hab
  rw [← Nat.ofDigitChars_ten_toDigits (n := a), hab, Nat.ofDigitChars_ten_toDigits]

theorem length_hex8 {n : ℕ} (h : n ≤ U32_MAX) : (hex8 n).toList.length = 8 := by
  have hlen : (Nat.toDigits 16 n).length ≤ 8 :=
    (Nat.length_toDigits_le_iff (by omega) (by omega)).mpr (by rw [U32_MAX] at h; omega)
  rw [hex8, String.toList_ofList, List.length_map, List.length_leftpad, Nat.max_eq_left hlen]

/-- Eight hex digits, two dashes and a decimal number: equal texts have equal numbers. -/
theorem name_inj {a b m n : ℕ} {x y : List Char} (hx : NoDigitHead x) (hy : NoDigitHead y)
    (h : (hex8 (U32_MAX - a)).toList ++ ("--".toList ++ ((toString m).toList ++ x)) =
      (hex8 (U32_MAX - b)).toList ++ ("--".toList ++ ((toString n).toList ++ y))) :
    m = n ∧ x = y := by
  have hlen := (length_hex8 (Nat.sub_le U32_MAX a)).trans (length_hex8 (Nat.sub_le U32_MAX b)).symm
  obtain ⟨-, h⟩ := List.append_inj h hlen
  exact toString_append_inj hx hy (List.append_cancel_left h)

/-- Equal keys go on equally after the partition directory. -/
theorem partitionDir_append_inj {x y : List Char}
    (h : (partitionDir schema l).toList ++ x = (partitionDir schema l').toList ++ y) : x = y := by
  rw [partitionDir, partitionDir] at h
  split at h
  · simp only [String.toList_append, List.append_assoc] at h
    obtain ⟨-, h⟩ := name_inj (.cons (c := '-') rfl _) (.cons (c := '-') rfl _) h
    obtain ⟨-, h⟩ := toString_append_inj (.cons (c := '/') rfl _) (.cons (c := '/') rfl _)
      (List.cons.inj h).2
    exact (List.cons.inj h).2
  · exact h

theorem objectKey_eq_iff :
    objectKey schema l = objectKey schema l' ↔ l / schema.perFile = l' / schema.perFile := by
  refine ⟨fun h => ?_, objectKey_congr⟩
  have hlist : ∀ l, (objectKey schema l).toList =
      (partitionDir schema l).toList ++ (fileName schema l).toList := fun _ => String.toList_append
  have hfile := partitionDir_append_inj ((hlist l).symm.trans ((congrArg _ h).trans (hlist l')))
  rw [fileName, fileName] at hfile
  simp only [String.toList_append, List.append_assoc] at hfile
  -- after the start comes a dash or the extension
  have hrest : ∀ l, NoDigitHead
      ((if (fileBounds schema l).2 ≠ (fileBounds schema l).1 then
          "-" ++ toString (fileBounds schema l).2 else "").toList ++
        (if schema.compression = "zstd" then ".xdr.zst" else ".xdr").toList) := by
    intro l
    split
    · rw [String.toList_append]; exact .cons (c := '-') rfl _
    · split
      · exact .cons (c := '.') rfl _
      · exact .cons (c := '.') rfl _
  obtain ⟨hstart, -⟩ := name_inj (hrest l) (hrest l') hfile
  rw [fileBounds_fst, fileBounds_fst] at hstart
  exact Nat.eq_of_mul_eq_mul_left (perFile_pos schema) hstart

end

end SorobanPulse.Backfill
