import Mathlib

/-! UTF-8 as lists of bytes, and its lossy decoding.

    Lossy decoding turns any bytes into text: each maximal broken sequence becomes one U+FFFD.

        61  C3 A9  E2 82      FF
        a   é      U+FFFD     U+FFFD

    Text comes back as it was; bytes that are no text never do: `asBytes_fromUtf8Lossy_iff`. -/

namespace SorobanPulse.Lib

/-- The UTF-8 bytes of a text. -/
def utf8Bytes (cs : List Char) : List UInt8 := cs.flatMap String.utf8EncodeChar

def asBytes (s : String) : List UInt8 := utf8Bytes s.toList

def ValidUtf8 (bytes : List UInt8) : Prop := ∃ s, asBytes s = bytes

theorem toList_toUTF8 (s : String) : s.toUTF8.data.toList = asBytes s := by
  rw [String.toUTF8_eq_toByteArray, ← String.utf8Encode_toList, List.utf8Encode,
    List.toList_data_toByteArray, asBytes, utf8Bytes]

/-! ### Lossy decoding -/

/-- `10xxxxxx`. -/
def isCont (b : UInt8) : Bool := 0x80 ≤ b && b ≤ 0xBF

/-- The second bytes that may follow a first byte of a three- or four-byte sequence. -/
def secondOk (b₀ b₁ : UInt8) : Bool :=
  if b₀ = 0xE0 then 0xA0 ≤ b₁ && b₁ ≤ 0xBF
  else if b₀ = 0xED then 0x80 ≤ b₁ && b₁ ≤ 0x9F
  else if b₀ = 0xF0 then 0x90 ≤ b₁ && b₁ ≤ 0xBF
  else if b₀ = 0xF4 then 0x80 ≤ b₁ && b₁ ≤ 0x8F
  else isCont b₁

/-- How many bytes a broken sequence takes up. -/
def brokenLength : List UInt8 → ℕ
  | b₀ :: b₁ :: rest =>
    if 0xE0 ≤ b₀ && b₀ ≤ 0xEF then if secondOk b₀ b₁ then 2 else 1
    else if 0xF0 ≤ b₀ && b₀ ≤ 0xF4 then
      if !secondOk b₀ b₁ then 1 else if (rest.head?.map isCont).getD false then 3 else 2
    else 1
  | _ => 1

/-- The characters of the first `fuel` sequences. -/
def lossyChars : ℕ → List UInt8 → List Char
  | 0, _ | _, [] => []
  | fuel + 1, bytes =>
    match bytes.toByteArray.utf8DecodeChar? 0 with
    | some c => c :: lossyChars fuel (bytes.drop c.utf8Size)
    | none => '\uFFFD' :: lossyChars fuel (bytes.drop (brokenLength bytes))

/-- `String::from_utf8_lossy`. -/
def fromUtf8Lossy (bytes : List UInt8) : String := String.ofList (lossyChars bytes.length bytes)

example : fromUtf8Lossy [0x61, 0xC3, 0xA9, 0xE2, 0x82, 0xFF] = "aé\uFFFD\uFFFD" := by decide +kernel

theorem lossyChars_utf8Bytes (cs : List Char) :
    ∀ fuel, (utf8Bytes cs).length ≤ fuel → lossyChars fuel (utf8Bytes cs) = cs := by
  induction cs with
  | nil => intro fuel _; cases fuel <;> rfl
  | cons c cs ih =>
    intro fuel hfuel
    have happend : utf8Bytes (c :: cs) = String.utf8EncodeChar c ++ utf8Bytes cs := List.flatMap_cons
    have hsize : (String.utf8EncodeChar c).length = c.utf8Size := String.length_utf8EncodeChar c
    have hpos := c.utf8Size_pos
    rw [happend, List.length_append, hsize] at hfuel
    obtain ⟨fuel, rfl⟩ : ∃ n, fuel = n + 1 := ⟨fuel - 1, by omega⟩
    have hdecode : (utf8Bytes (c :: cs)).toByteArray.utf8DecodeChar? 0 = some c :=
      List.utf8DecodeChar?_utf8Encode_cons
    have hdrop : (utf8Bytes (c :: cs)).drop c.utf8Size = utf8Bytes cs := by
      rw [happend, ← hsize, List.drop_left]
    rw [lossyChars]
    · rw [hdecode]
      dsimp only
      rw [hdrop, ih fuel (by omega)]
    · intro hnil
      rw [happend] at hnil
      exact String.utf8EncodeChar_ne_nil (List.append_eq_nil_iff.mp hnil).1

theorem fromUtf8Lossy_asBytes (s : String) : fromUtf8Lossy (asBytes s) = s := by
  rw [fromUtf8Lossy, asBytes, lossyChars_utf8Bytes _ _ (Nat.le_refl _), String.ofList_toList]

theorem utf8Bytes_injective : Function.Injective utf8Bytes := by
  intro a b h
  have hread := congrArg (fun bytes => (fromUtf8Lossy bytes).toList) h
  have hback : ∀ cs, (fromUtf8Lossy (utf8Bytes cs)).toList = cs := by
    intro cs
    have := fromUtf8Lossy_asBytes (String.ofList cs)
    rw [asBytes, String.toList_ofList] at this
    rw [this, String.toList_ofList]
  simpa only [hback] using hread

/-- Exactly the valid bytes survive. -/
theorem asBytes_fromUtf8Lossy_iff {bytes : List UInt8} :
    asBytes (fromUtf8Lossy bytes) = bytes ↔ ValidUtf8 bytes := by
  constructor
  · exact fun h => ⟨_, h⟩
  · rintro ⟨s, rfl⟩
    rw [fromUtf8Lossy_asBytes]

end SorobanPulse.Lib
