import SorobanPulse.Lib.Fallible
import SorobanPulse.Lib.Digits
import SorobanPulse.Lib.Utf8

/-! `custom_section`: the payloads of the custom sections of a WASM module with one name.

        \0asm version   id size ├──── body ────┤   id size ├──── body ────┤  …
                                length name payload       (id 0)

    `?` returns `None`, a failed index or an overflow panics. -/

namespace SorobanPulse.Contracts
open Lib

/-- A slice of bytes: at most `isize::MAX` of them. -/
abbrev Slice := { bytes : List UInt8 // bytes.length < 2 ^ 63 }

/-- How a call ends without a value. -/
inductive Stop where
  /-- `None` -/
  | none
  | panic
  deriving DecidableEq

section
variable {α : Type}

/-- `?` on an option. -/
def orNone (o : Option α) : Except Stop α := o.elim (.error .none) .ok

def orPanic (o : Option α) : Except Stop α := o.elim (.error .panic) .ok

@[simp] theorem orNone_some (a : α) : orNone (some a) = .ok a := rfl

@[simp] theorem orPanic_some (a : α) : orPanic (some a) = .ok a := rfl

end

/-- `b.get(p..e)` -/
def slice? (b : List UInt8) (p e : ℕ) : Option (List UInt8) :=
  if p ≤ e ∧ e ≤ b.length then some ((b.take e).drop p) else none

/-! ### Parsing -/

/-- The loop of `leb`: the number, and the position behind it. -/
def lebLoop (b : List UInt8) (p r shift : ℕ) : Except Stop (ℕ × ℕ) := do
  let byte ← orNone b[p]?
  let p ← orPanic (fit 64 (p + 1))
  -- bits that are shifted out of the word are lost
  let bits ← orPanic (if shift < 64 then some ((byte &&& 0x7f).toNat <<< shift % 2 ^ 64) else none)
  let r := r ||| bits
  if byte &&& 0x80 = 0 then .ok (r, p)
  else if 35 < shift + 7 then .error .none
  else lebLoop b p r (shift + 7)
termination_by 36 - shift

def leb (b : List UInt8) (p : ℕ) : Except Stop (ℕ × ℕ) := lebLoop b p 0 0

/-! ### LEB128 -/

section
variable {b bytes rest : List UInt8} {byte : UInt8} {p r shift m : ℕ}

/-- One turn, where the number read so far has `shift` bits. -/
theorem lebLoop_byte (hbyte : b[p]? = some byte) (hp : p < 2 ^ 63) (hr : r < 2 ^ shift)
    (hshift : shift ≤ 35) :
    lebLoop b p r shift =
      if byte.toNat < 128 then .ok (r + 2 ^ shift * byte.toNat, p + 1)
      else if 35 < shift + 7 then .error .none
      else lebLoop b (p + 1) (r + 2 ^ shift * (byte.toNat - 128)) (shift + 7) := by
  have hlt := byte.toNat_lt
  have hlow : byte.toNat % 128 < 2 ^ 7 := Nat.mod_lt _ (by decide)
  have hbits : (byte.toNat % 128) <<< shift % 2 ^ 64 = (byte.toNat % 128) <<< shift := by
    refine Nat.mod_eq_of_lt ?_
    rw [Nat.shiftLeft_eq]
    calc byte.toNat % 128 * 2 ^ shift < 2 ^ 7 * 2 ^ shift :=
          Nat.mul_lt_mul_of_pos_right hlow (Nat.two_pow_pos shift)
      _ ≤ 2 ^ 7 * 2 ^ 35 := Nat.mul_le_mul_left _ (Nat.pow_le_pow_right (by decide) hshift)
      _ ≤ 2 ^ 64 := by decide
  have hword : shift < 64 := by omega
  rw [lebLoop, hbyte, orNone_some, fit_of_lt (by omega), orPanic_some]
  simp only [bind, Except.bind, if_pos hword, orPanic_some, toNat_and_low, hbits, or_shiftLeft hr,
    and_high_eq_zero_iff]
  split
  · next h => rw [Nat.mod_eq_of_lt h]
  · next h => rw [show byte.toNat % 128 = byte.toNat - 128 by omega]

theorem add_pow_mul_lt {x : ℕ} (hr : r < 2 ^ shift) (hx : x < 128) :
    r + 2 ^ shift * x < 2 ^ (shift + 7) := by
  calc r + 2 ^ shift * x < 2 ^ shift + 2 ^ shift * x := Nat.add_lt_add_right hr _
    _ = 2 ^ shift * (x + 1) := by ring
    _ ≤ 2 ^ shift * 2 ^ 7 := Nat.mul_le_mul_left _ hx
    _ = 2 ^ (shift + 7) := (pow_add 2 shift 7).symm

theorem lebLoop_value (r shift x m : ℕ) :
    r + 2 ^ shift * x + 2 ^ (shift + 7) * m = r + 2 ^ shift * (x + 128 * m) := by
  rw [pow_add]
  ring

/-- A number is read with all of its bytes, or none is. -/
theorem lebLoop_sound (hb : b.length < 2 ^ 63) (hr : r < 2 ^ shift) (hshift : shift ≤ 35) :
    lebLoop b p r shift = .error .none ∨
    ∃ m bytes rest, lebLoop b p r shift = .ok (r + 2 ^ shift * m, p + bytes.length) ∧
      Leb128 m bytes ∧ b.drop p = bytes ++ rest := by
  induction hn : 36 - shift using Nat.strongRecOn generalizing p r shift with
  | ind n ih =>
    cases hbyte : b[p]? with
    | none =>
      rw [lebLoop, hbyte]
      exact .inl rfl
    | some byte =>
      obtain ⟨hp, hget⟩ := List.getElem?_eq_some_iff.mp hbyte
      have hdrop : b.drop p = byte :: b.drop (p + 1) := by rw [List.drop_eq_getElem_cons hp, hget]
      have hlt := byte.toNat_lt
      rw [lebLoop_byte hbyte (by omega) hr hshift]
      split
      · next hlast => exact .inr ⟨_, [byte], _, rfl, .last hlast, hdrop⟩
      next hmore =>
      split
      · exact .inl rfl
      next hnext =>
      have hrest := ih (36 - (shift + 7)) (by omega) (p := p + 1)
        (add_pow_mul_lt hr (show byte.toNat - 128 < 128 by omega)) (by omega) rfl
      refine hrest.imp id ?_
      rintro ⟨m, bytes, rest, hloop, hleb, hbytes⟩
      refine ⟨_, byte :: bytes, rest, ?_, .more (by omega) hleb, by rw [hdrop, hbytes]; rfl⟩
      rw [hloop, lebLoop_value, List.length_cons,
        show p + 1 + bytes.length = p + (bytes.length + 1) by omega]

/-- A number of at most six bytes is read. -/
theorem lebLoop_complete (hb : b.length < 2 ^ 63) (hr : r < 2 ^ shift) (hleb : Leb128 m bytes)
    (hlength : shift + 7 * bytes.length ≤ 42) (hdrop : b.drop p = bytes ++ rest) :
    lebLoop b p r shift = .ok (r + 2 ^ shift * m, p + bytes.length) := by
  induction hleb generalizing p r shift with
  | @last byte hbyte =>
    have hget : b[p]? = some byte := by rw [← List.head?_drop, hdrop]; rfl
    have hp := (List.getElem?_eq_some_iff.mp hget).1
    rw [List.length_singleton] at hlength
    rw [lebLoop_byte hget (by omega) hr (by omega), if_pos hbyte]
    rfl
  | @more byte n bytes hbyte hrest ih =>
    have hget : b[p]? = some byte := by rw [← List.head?_drop, hdrop]; rfl
    have hp := (List.getElem?_eq_some_iff.mp hget).1
    have htail : b.drop (p + 1) = bytes ++ rest := by
      rw [← List.tail_drop, hdrop]
      rfl
    have hpos := hrest.length_pos
    have hlt := byte.toNat_lt
    rw [List.length_cons] at hlength
    rw [lebLoop_byte hget (by omega) hr (by omega), if_neg (by omega), if_neg (by omega),
      ih (add_pow_mul_lt hr (by omega)) (by omega) htail, lebLoop_value, List.length_cons,
      show p + 1 + bytes.length = p + (bytes.length + 1) by omega]

end

theorem leb_sound {b : List UInt8} (p : ℕ) (hb : b.length < 2 ^ 63) :
    leb b p = .error .none ∨
    ∃ n bytes rest, leb b p = .ok (n, p + bytes.length) ∧ Leb128 n bytes ∧
      b.drop p = bytes ++ rest := by
  have hsound := lebLoop_sound (p := p) hb (by decide : 0 < 2 ^ 0) (by decide)
  simpa [leb] using hsound

theorem leb_complete {b bytes rest : List UInt8} {p n : ℕ} (hb : b.length < 2 ^ 63)
    (hleb : Leb128 n bytes) (hlength : bytes.length ≤ 6) (hdrop : b.drop p = bytes ++ rest) :
    leb b p = .ok (n, p + bytes.length) := by
  have hcomplete := lebLoop_complete hb (by decide : 0 < 2 ^ 0) hleb (by omega) hdrop
  simpa [leb] using hcomplete

/-! ### Sections -/

/-- The payload of a section body, if it has the name. -/
def sectionPayload (body name : List UInt8) : Except Stop (Option (List UInt8)) := do
  let (nl, q) ← leb body 0
  let nameEnd ← orNone (fit 64 (q + nl))
  let sectionName ← orNone (slice? body q nameEnd)
  if sectionName = name then
    let payload ← orPanic (slice? body nameEnd body.length)
    return some payload
  else return none

/-- One turn of the loop: none at `break`, else the end of the section, and what is found in it. -/
def sectionStep (wasm name : List UInt8) (p : ℕ) :
    Except Stop (Option (ℕ × Option (List UInt8))) := do
  let id ← orPanic wasm[p]?
  let p ← orPanic (fit 64 (p + 1))
  let (size, p) ← leb wasm p
  let stop ← orNone (fit 64 (p + size))
  if wasm.length < stop then return none
  else if id = 0 then
    let body ← orPanic (slice? wasm p stop)
    let payload ← sectionPayload body name
    return some (stop, payload)
  else return some (stop, none)

section
variable {b body wasm name xs ys zs : List UInt8} {p : ℕ}

theorem slice?_append (xs ys zs : List UInt8) :
    slice? (xs ++ ys ++ zs) xs.length (xs.length + ys.length) = some ys := by
  rw [slice?, if_pos (by simp), ← List.length_append, List.take_left, List.drop_left]

theorem slice?_end : slice? (xs ++ ys) xs.length (xs ++ ys).length = some ys := by
  rw [slice?, if_pos (by simp), List.take_length, List.drop_left]

theorem slice?_of_drop (hp : p ≤ b.length) (h : b.drop p = ys ++ zs) :
    slice? b p (p + ys.length) = some ys := by
  have hb : b = b.take p ++ ys ++ zs := by rw [List.append_assoc, ← h, List.take_append_drop]
  have hslice := slice?_append (b.take p) ys zs
  rwa [← hb, List.length_take, Nat.min_eq_left hp] at hslice

/-- A slice that is there. -/
theorem exists_append_of_slice? {e : ℕ} (h : slice? b p e = some ys) :
    ∃ xs zs, b = xs ++ ys ++ zs ∧ xs.length = p ∧ e = p + ys.length := by
  rw [slice?] at h
  split at h
  · next hle =>
    obtain rfl := Option.some.inj h
    have htake : (b.take e).take p = b.take p := by rw [List.take_take, Nat.min_eq_left hle.1]
    refine ⟨b.take p, b.drop e, ?_, ?_, ?_⟩
    · rw [← htake, List.take_append_drop, List.take_append_drop]
    · rw [List.length_take]
      omega
    · rw [List.length_drop, List.length_take]
      omega
  · cases h

/-- A body with a length, a name and a payload. -/
theorem sectionPayload_named {lengthBytes sectionName payload : List UInt8}
    (hlength : Leb128 sectionName.length lengthBytes) (hshort : lengthBytes.length ≤ 6)
    (hbody : (lengthBytes ++ sectionName ++ payload).length < 2 ^ 63) :
    sectionPayload (lengthBytes ++ sectionName ++ payload) name =
      .ok (if sectionName = name then some payload else none) := by
  have hleb : leb (lengthBytes ++ sectionName ++ payload) 0 =
      .ok (sectionName.length, lengthBytes.length) := by
    have hcomplete := leb_complete (p := 0) hbody hlength hshort
      (show _ = lengthBytes ++ (sectionName ++ payload) by rw [List.drop_zero, List.append_assoc])
    rwa [Nat.zero_add] at hcomplete
  have hfits : lengthBytes.length + sectionName.length < 2 ^ 64 := by
    simp only [List.length_append] at hbody
    omega
  have hpayload : slice? (lengthBytes ++ sectionName ++ payload)
      (lengthBytes.length + sectionName.length)
      (lengthBytes ++ sectionName ++ payload).length = some payload := by
    rw [← List.length_append]
    exact slice?_end
  rw [sectionPayload, hleb]
  simp only [bind, Except.bind]
  rw [fit_of_lt hfits, orNone_some]
  dsimp only
  rw [slice?_append, orNone_some]
  dsimp only
  rw [hpayload, orPanic_some]
  split <;> rfl

/-- What is found in a body is a payload behind the name; and nothing panics. -/
theorem sectionPayload_sound (name : List UInt8) (hbody : body.length < 2 ^ 63) :
    sectionPayload body name = .error .none ∨ sectionPayload body name = .ok none ∨
    ∃ lengthBytes payload, sectionPayload body name = .ok (some payload) ∧
      Leb128 name.length lengthBytes ∧ body = lengthBytes ++ name ++ payload := by
  rw [sectionPayload]
  rcases leb_sound 0 hbody with hleb | ⟨nl, bytes, rest, hleb, hbytes, hdrop⟩
  · -- the length of the name cannot be read
    rw [hleb]
    exact .inl rfl
  rw [hleb, Nat.zero_add]
  rw [List.drop_zero] at hdrop
  simp only [bind, Except.bind]
  cases hfit : fit 64 (bytes.length + nl) with
  | none => exact .inl rfl
  | some nameEnd =>
    rw [orNone_some]
    dsimp only
    cases hslice : slice? body bytes.length nameEnd with
    | none => exact .inl rfl
    | some sectionName =>
      rw [orNone_some]
      dsimp only
      obtain ⟨xs, zs, hsplit, hxs, hend⟩ := exists_append_of_slice? hslice
      obtain ⟨-, hadd⟩ := fit_eq_some.mp hfit
      have hname : sectionName.length = nl := by omega
      have hfirst : xs = bytes := by  -- the slice starts behind the length bytes
        rw [hdrop, List.append_assoc] at hsplit
        exact (List.append_inj_left hsplit hxs.symm).symm
      by_cases heq : sectionName = name  -- is it the name that is looked for?
      · subst heq
        have hpayload : slice? body nameEnd body.length = some zs := by
          rw [hsplit, ← hadd, ← hname, ← hxs, ← List.length_append]
          exact slice?_end
        rw [if_pos rfl, hpayload, orPanic_some]
        refine .inr (.inr ⟨bytes, zs, rfl, ?_, ?_⟩)
        · rwa [hname]
        · rw [hsplit, hfirst]
      · rw [if_neg heq]
        exact .inr (.inl rfl)

end

/-! ### Modules

    A length takes up to five bytes; six are read. -/

structure CustomBody where
  lengthBytes : List UInt8
  name : List UInt8
  payload : List UInt8
  length : Leb128 name.length lengthBytes
  short : lengthBytes.length ≤ 6

inductive Content where
  | custom (body : CustomBody)
  | other (id : UInt8) (ne_zero : id ≠ 0) (bytes : List UInt8)

def Content.id : Content → UInt8
  | custom _ => 0
  | other id _ _ => id

def Content.bytes : Content → List UInt8
  | custom body => body.lengthBytes ++ body.name ++ body.payload
  | other _ _ bytes => bytes

structure Section where
  content : Content
  sizeBytes : List UInt8
  size : Leb128 content.bytes.length sizeBytes
  short : sizeBytes.length ≤ 6

def Section.text (s : Section) : List UInt8 := s.content.id :: s.sizeBytes ++ s.content.bytes

/-- The payload of a custom section with the name. -/
def Section.payload (name : List UInt8) (s : Section) : Option (List UInt8) :=
  match s.content with
  | .custom body => if body.name = name then some body.payload else none
  | .other _ _ _ => none

def MAGIC : List UInt8 := [0, 0x61, 0x73, 0x6d]

structure Module where
  version : List UInt8
  version_length : version.length = 4
  sections : List Section
  fits : (MAGIC ++ version ++ sections.flatMap Section.text).length < 2 ^ 63

def Module.slice (m : Module) : Slice :=
  ⟨MAGIC ++ m.version ++ m.sections.flatMap Section.text, m.fits⟩

/-! ### What any bytes declare -/

section
variable (wasm name : List UInt8)

/-- A section begins at the position: the first one behind the header, the others behind the declared
    size of the one before. -/
inductive SectionAt : ℕ → Prop
  | first : SectionAt 8
  | next {p size : ℕ} {id : UInt8} {sizeBytes rest : List UInt8} : SectionAt p →
      wasm.drop p = id :: sizeBytes ++ rest → Leb128 size sizeBytes → size ≤ rest.length →
      SectionAt (p + 1 + sizeBytes.length + size)

/-- The payload of a declared custom section with the name, from its position on. -/
def DeclaredAt (start : ℕ) (payload : List UInt8) : Prop :=
  ∃ p sizeBytes lengthBytes rest, SectionAt wasm p ∧
    wasm.drop p = 0 :: sizeBytes ++ (lengthBytes ++ name ++ payload ++ rest) ∧
    Leb128 (lengthBytes ++ name ++ payload).length sizeBytes ∧ Leb128 name.length lengthBytes ∧
    start = p + 1 + sizeBytes.length + lengthBytes.length + name.length

end

/-! ### One turn -/

section
variable {wasm name rest : List UInt8} {p : ℕ}

theorem drop_step {xs ys : List UInt8} {x : UInt8} (h : wasm.drop p = x :: xs ++ ys) :
    wasm.drop (p + 1) = xs ++ ys ∧ wasm.drop (p + 1 + xs.length) = ys := by
  have htail : wasm.drop (p + 1) = xs ++ ys := by
    rw [← List.tail_drop, h]
    rfl
  refine ⟨htail, ?_⟩
  rw [← List.drop_drop, htail, List.drop_left]

/-- The id and the size of a section. -/
theorem sectionStep_sized {id : UInt8} {size : ℕ} {sizeBytes : List UInt8}
    (hwasm : wasm.length < 2 ^ 63) (hdrop : wasm.drop p = id :: sizeBytes ++ rest)
    (hleb : leb wasm (p + 1) = .ok (size, p + 1 + sizeBytes.length)) :
    sectionStep wasm name p = (orNone (fit 64 (p + 1 + sizeBytes.length + size))).bind fun stop =>
      if wasm.length < stop then .ok none
      else if id = 0 then
        (orPanic (slice? wasm (p + 1 + sizeBytes.length) stop)).bind fun body =>
          (sectionPayload body name).bind fun payload => .ok (some (stop, payload))
      else .ok (some (stop, none)) := by
  have hid : wasm[p]? = some id := by rw [← List.head?_drop, hdrop]; rfl
  have hp := (List.getElem?_eq_some_iff.mp hid).1
  rw [sectionStep, hid, orPanic_some, fit_of_lt (by omega), orPanic_some]
  simp only [bind, Except.bind]
  rw [hleb]
  rfl

theorem length_of_drop {id : UInt8} {sizeBytes : List UInt8}
    (h : wasm.drop p = id :: sizeBytes ++ rest) :
    wasm.length = p + 1 + sizeBytes.length + rest.length := by
  have hlength := congrArg List.length h
  simp only [List.length_drop, List.length_append, List.length_cons] at hlength
  omega

/-- A section of a module. -/
theorem sectionStep_section {s : Section} (hwasm : wasm.length < 2 ^ 63)
    (hdrop : wasm.drop p = s.text ++ rest) :
    sectionStep wasm name p = .ok (some (p + s.text.length, s.payload name)) := by
  rw [Section.text, List.append_assoc] at hdrop
  obtain ⟨hsize, hbytes⟩ := drop_step hdrop
  have hlength := length_of_drop hdrop
  rw [List.length_append] at hlength
  have hleb := leb_complete hwasm s.size s.short hsize
  have hstop : p + s.text.length = p + 1 + s.sizeBytes.length + s.content.bytes.length := by
    simp only [Section.text, List.length_append, List.length_cons]
    omega
  rw [sectionStep_sized hwasm hdrop hleb, fit_of_lt (by omega), orNone_some, hstop]
  simp only [Except.bind]
  rw [if_neg (by omega), slice?_of_drop (by omega) hbytes, orPanic_some, Section.payload]
  cases hcontent : s.content with
  | custom body =>
    have hbody : (body.lengthBytes ++ body.name ++ body.payload).length < 2 ^ 63 := by
      have hlt : s.content.bytes.length < 2 ^ 63 := by omega
      rwa [hcontent] at hlt
    rw [if_pos (show (Content.custom body).id = 0 from rfl), Content.bytes]
    dsimp only
    rw [sectionPayload_named body.length body.short hbody]
  | other id ne_zero bytes =>
    rw [if_neg (show (Content.other id ne_zero bytes).id ≠ 0 from ne_zero)]

/-- What a turn finds is declared, and it ends behind the section, which is there; and nothing
    panics. -/
theorem sectionStep_sound (name : List UInt8) (hwasm : wasm.length < 2 ^ 63) (hp : p < wasm.length) :
    sectionStep wasm name p = .error .none ∨ sectionStep wasm name p = .ok none ∨
    ∃ stop payload, sectionStep wasm name p = .ok (some (stop, payload)) ∧ p < stop ∧
      (SectionAt wasm p → SectionAt wasm stop ∧
        ∀ bytes, payload = some bytes → ∃ start, DeclaredAt wasm name start bytes) := by
  have hcons := List.drop_eq_getElem_cons hp
  rcases leb_sound (p + 1) hwasm with hleb | ⟨size, sizeBytes, rest, hleb, hsize, hrest⟩
  · refine .inl ?_
    rw [sectionStep, List.getElem?_eq_getElem hp, orPanic_some, fit_of_lt (by omega), orPanic_some]
    simp only [bind, Except.bind]
    rw [hleb]
  have hdrop : wasm.drop p = wasm[p] :: sizeBytes ++ rest := by rw [hcons, hrest]; rfl
  have hlength := length_of_drop hdrop
  rw [sectionStep_sized hwasm hdrop hleb]
  cases hfit : fit 64 (p + 1 + sizeBytes.length + size) with
  | none => exact .inl rfl
  | some stop =>
    obtain ⟨-, rfl⟩ := fit_eq_some.mp hfit
    rw [orNone_some]
    simp only [Except.bind]
    split
    · exact .inr (.inl rfl)
    next hinside =>
    have hnext : SectionAt wasm p → SectionAt wasm (p + 1 + sizeBytes.length + size) :=
      fun hat => .next hat hdrop hsize (by omega)
    split
    · next hid =>
      -- the body is in front of the other sections
      have hbytes : wasm.drop (p + 1 + sizeBytes.length) = rest.take size ++ rest.drop size := by
        rw [List.take_append_drop]
        exact (drop_step hdrop).2
      have htake : (rest.take size).length = size := by
        rw [List.length_take, Nat.min_eq_left (by omega)]
      have hbody := slice?_of_drop (by omega) hbytes
      rw [htake] at hbody
      rw [hbody, orPanic_some]
      dsimp only
      have hshort : (rest.take size).length < 2 ^ 63 := by omega
      rcases sectionPayload_sound name hshort with
        hpayload | hpayload | ⟨lengthBytes, payload, hpayload, hname, hsplit⟩
      · rw [hpayload]
        exact .inl rfl
      · rw [hpayload]
        exact .inr (.inr ⟨_, _, rfl, by omega, fun hat => ⟨hnext hat, nofun⟩⟩)
      · rw [hpayload]
        refine .inr (.inr ⟨_, _, rfl, by omega, fun hat => ⟨hnext hat, ?_⟩⟩)
        rintro _ ⟨⟩
        refine ⟨_, p, sizeBytes, lengthBytes, rest.drop size, hat, ?_, ?_, hname, rfl⟩
        · rw [hdrop, hid, ← hsplit, List.take_append_drop]
        · rwa [← hsplit, htake]
    · exact .inr (.inr ⟨_, _, rfl, by omega, fun hat => ⟨hnext hat, nofun⟩⟩)

end

/-! ### The loop -/

theorem lt_of_sectionStep {wasm : Slice} {name : List UInt8} {p stop : ℕ}
    {payload : Option (List UInt8)} (hp : p < wasm.val.length)
    (h : sectionStep wasm.val name p = .ok (some (stop, payload))) : p < stop := by
  rcases sectionStep_sound name wasm.property hp with hstep | hstep | ⟨_, _, hstep, hlt, -⟩
  · rw [hstep] at h
    cases h
  · rw [hstep] at h
    cases h
  · rw [hstep] at h
    cases h
    exact hlt

/-- `while p < wasm.len()`: what was put out, and whether anything was found. -/
def sectionsLoop (wasm : Slice) (name : List UInt8) (p : ℕ) (out : List UInt8) (found : Bool) :
    Except Stop (List UInt8 × Bool) :=
  if hp : p < wasm.val.length then
    match hstep : sectionStep wasm.val name p with
    | .error stop => .error stop
    | .ok none => .ok (out, found)
    | .ok (some (stop, payload)) =>
      have := lt_of_sectionStep hp hstep
      sectionsLoop wasm name stop (out ++ payload.getD []) (found || payload.isSome)
  else .ok (out, found)
termination_by wasm.val.length - p

def customSection (wasm : Slice) (name : String) : Except Stop (List UInt8) := do
  let magic ← orNone (slice? wasm.val 0 4)
  if magic ≠ MAGIC then .error .none
  else
    let (out, found) ← sectionsLoop wasm (asBytes name) 8 [] false
    if found then .ok out else .error .none

section
variable {wasm : Slice} {name out rest : List UInt8} {p : ℕ} {found : Bool}

theorem sectionsLoop_step {stop : ℕ} {payload : Option (List UInt8)}
    (hp : p < wasm.val.length) (h : sectionStep wasm.val name p = .ok (some (stop, payload))) :
    sectionsLoop wasm name p out found =
      sectionsLoop wasm name stop (out ++ payload.getD []) (found || payload.isSome) := by
  rw [sectionsLoop, dif_pos hp]
  split
  · next hstep => rw [hstep] at h; cases h
  · next hstep => rw [hstep] at h; cases h
  · next hstep =>
    rw [hstep] at h
    cases h
    rfl

/-- The sections of a module, one after the other. -/
theorem sectionsLoop_sections {sections : List Section} (hp : p ≤ wasm.val.length)
    (h : wasm.val.drop p = sections.flatMap Section.text) :
    sectionsLoop wasm name p out found =
      .ok (out ++ (sections.filterMap (Section.payload name)).flatten,
        found || (sections.filterMap (Section.payload name)).any fun _ => true) := by
  induction sections generalizing p out found with
  | nil =>
    have hend : wasm.val.length ≤ p := List.drop_eq_nil_iff.mp h
    rw [sectionsLoop, dif_neg (by omega)]
    simp
  | cons s sections ih =>
    rw [List.flatMap_cons] at h
    have hlength := congrArg List.length h
    simp only [List.length_drop, List.length_append] at hlength
    have hpos : 0 < s.text.length := Nat.succ_pos _
    have hrest : wasm.val.drop (p + s.text.length) = sections.flatMap Section.text := by
      rw [← List.drop_drop, h, List.drop_left]
    rw [sectionsLoop_step (by omega) (sectionStep_section wasm.property h),
      ih (by omega) hrest]
    cases hpayload : s.payload name with
    | none => simp [hpayload]
    | some payload => simp [hpayload, List.append_assoc]

/-- What the loop puts out is declared, piece by piece; and nothing panics. -/
theorem sectionsLoop_sound (name out : List UInt8) (found : Bool) (hat : SectionAt wasm.val p) :
    sectionsLoop wasm name p out found = .error .none ∨
    ∃ (payloads : List (List UInt8)) (found' : Bool),
      sectionsLoop wasm name p out found = .ok (out ++ payloads.flatten, found') ∧
      ∀ payload ∈ payloads, ∃ start, DeclaredAt wasm.val name start payload := by
  induction hn : wasm.val.length - p using Nat.strongRecOn generalizing p out found with
  | ind n ih =>
    by_cases hp : p < wasm.val.length
    · rcases sectionStep_sound name wasm.property hp with
        hstep | hstep | ⟨stop, payload, hstep, hlt, hdeclared⟩
      · -- a section cannot be read
        refine .inl ?_
        rw [sectionsLoop, dif_pos hp]
        split
        · next heq => rw [hstep] at heq; cases heq; rfl
        · next heq => rw [hstep] at heq; cases heq
        · next heq => rw [hstep] at heq; cases heq
      · -- the module ends before another section
        refine .inr ⟨[], found, ?_, nofun⟩
        rw [sectionsLoop, dif_pos hp]
        split
        · next heq => rw [hstep] at heq; cases heq
        · next heq => simp
        · next heq => rw [hstep] at heq; cases heq
      · -- by induction, as the next section starts behind this one
        obtain ⟨hnext, hpayload⟩ := hdeclared hat
        rw [sectionsLoop_step hp hstep]
        refine (ih _ (by omega) _ _ hnext rfl).imp id ?_
        rintro ⟨payloads, found', hloop, hpayloads⟩
        refine ⟨payload.toList ++ payloads, found', ?_, ?_⟩
        · rw [hloop]
          cases payload <;> simp
        · intro bytes hbytes
          rcases List.mem_append.mp hbytes with hfirst | hlater
          · exact hpayload bytes (Option.mem_toList.mp hfirst)
          · exact hpayloads bytes hlater
    · refine .inr ⟨[], found, ?_, nofun⟩
      rw [sectionsLoop, dif_neg hp]
      simp

end

/-- The payloads of a module's custom sections with the name. -/
def Module.payloads (m : Module) (name : String) : List (List UInt8) :=
  m.sections.filterMap (Section.payload (asBytes name))

theorem customSection_module (m : Module) (name : String) :
    customSection m.slice name =
      if m.payloads name = [] then .error .none else .ok (m.payloads name).flatten := by
  have hmagic : slice? m.slice.val 0 4 = some MAGIC := by
    have hslice := slice?_append [] MAGIC (m.version ++ m.sections.flatMap Section.text)
    rwa [List.nil_append, ← List.append_assoc] at hslice
  have hheader : (MAGIC ++ m.version).length = 8 := by
    rw [List.length_append, m.version_length]
    rfl
  have hdrop : m.slice.val.drop 8 = m.sections.flatMap Section.text := by
    rw [← hheader]
    exact List.drop_left
  have hlength : 8 ≤ m.slice.val.length := by
    rw [Module.slice, List.length_append, hheader]
    exact Nat.le_add_right _ _
  rw [customSection, hmagic, orNone_some]
  simp only [bind, Except.bind]
  rw [if_neg (by simp), sectionsLoop_sections hlength hdrop]
  dsimp only
  rw [List.nil_append, Bool.false_or]
  cases hpayloads : m.payloads name with
  | nil =>
    rw [Module.payloads] at hpayloads
    rw [hpayloads]
    rfl
  | cons payload payloads =>
    rw [Module.payloads] at hpayloads
    rw [hpayloads]
    rfl

/-- No call panics or runs forever; of a module, the payloads of the custom sections with the name are
    returned in order, if there is one; and what is returned of any bytes is declared so. -/
theorem customSection_exact :
    (∀ wasm name, customSection wasm name ≠ .error .panic) ∧
    (∀ (m : Module) name, customSection m.slice name =
      if m.payloads name = [] then .error .none else .ok (m.payloads name).flatten) ∧
    ∀ wasm name out, customSection wasm name = .ok out → ∃ payloads : List (List UInt8),
      out = payloads.flatten ∧
      ∀ payload ∈ payloads, ∃ start, DeclaredAt wasm.val (asBytes name) start payload := by
  -- a failed read gives none, and the loop either fails or collects declared payloads
  have hsound : ∀ wasm name, customSection wasm name = .error .none ∨
      ∃ payloads : List (List UInt8), customSection wasm name = .ok payloads.flatten ∧
        ∀ payload ∈ payloads, ∃ start, DeclaredAt wasm.val (asBytes name) start payload := by
    intro wasm name
    rw [customSection]
    cases slice? wasm.val 0 4 with
    | none => exact .inl rfl
    | some magic =>
      rw [orNone_some]
      simp only [bind, Except.bind]
      split
      · exact .inl rfl
      · rcases sectionsLoop_sound (asBytes name) [] false
          (SectionAt.first : SectionAt wasm.val 8) with hloop | ⟨payloads, found, hloop, hdeclared⟩
        · rw [hloop]
          exact .inl rfl
        · rw [hloop]
          dsimp only
          split
          · exact .inr ⟨payloads, by rw [List.nil_append], hdeclared⟩
          · exact .inl rfl
  refine ⟨fun wasm name hpanic => ?_, customSection_module, fun wasm name out hout => ?_⟩
  · rcases hsound wasm name with hnone | ⟨payloads, hok, -⟩
    · rw [hnone] at hpanic
      cases hpanic
    · rw [hok] at hpanic
      cases hpanic
  · rcases hsound wasm name with hnone | ⟨payloads, hok, hdeclared⟩
    · rw [hnone] at hout
      cases hout
    · rw [hok] at hout
      cases hout
      exact ⟨payloads, rfl, hdeclared⟩

end SorobanPulse.Contracts
