import SorobanPulse.Reencrypt.IntegrationSecrets

/-! Sealing, opening and masking of a channel's config.

        config ──seal──▶ sealed ──seal──▶ the same          a draw of the generator for each secret
           ▲               │
           └─────open──────┘
        config ──mask──▶ "****" or "****" and the last four

    All three go through the config in one way and touch the strings under a sensitive key only, so
    each law is one of the strings, carried through the traversal. -/

namespace SorobanPulse.Reencrypt
open Ingest Lib

/-! ### A closure with a state -/

section
variable {σ : Type} (f : String → σ → Option (String × σ))

mutual
/-- `mapMember` with a closure that changes its state from call to call. -/
def mapMemberSt (sensitive : Bool) : Value → σ → Option (Value × σ)
  | .string s, st =>
    if sensitive then (f s st).map fun r => (.string r.1, r.2) else some (.string s, st)
  | .object map, st => (mapMembersSt map st).map fun r => (.object r.1, r.2)
  | .array items, st => (mapItemsSt items st).map fun r => (.array r.1, r.2)
  | v, st => some (v, st)

def mapItemsSt : List Value → σ → Option (List Value × σ)
  | [], st => some ([], st)
  | v :: rest, st =>
    (mapMemberSt false v st).bind fun r => (mapItemsSt rest r.2).map fun q => (r.1 :: q.1, q.2)

def mapMembersSt : List (String × Value) → σ → Option (List (String × Value) × σ)
  | [], st => some ([], st)
  | (key, v) :: rest, st =>
    (mapMemberSt (isSensitiveKey key) v st).bind fun r =>
      (mapMembersSt rest r.2).map fun q => ((key, r.1) :: q.1, q.2)
end

end

section
variable (crates : SecretCrates) (keys : Keys) {σ : Type} (draw : σ → String × σ)

/-- `seal`, with the nonce that the generator draws. -/
def sealDrawn (plaintext : String) (st : σ) : Option (String × σ) :=
  (encryptSecret crates keys.current keys.version (draw st).1 plaintext).map
    fun stored => (stored, (draw st).2)

/-- The closure of `seal_config`. -/
def sealPlain (s : String) (st : σ) : Option (String × σ) :=
  if isEncrypted s then some (s, st) else sealDrawn crates keys draw s st

/-- `seal_config`, from a state of the generator to the next. -/
def sealConfigDrawn (config : Value) (st : σ) : Option (Value × σ) :=
  mapMemberSt (sealPlain crates keys draw) false config st

def maskSecret (plaintext : String) : String :=
  let chars := plaintext.toList
  if chars.length ≤ 8 then "****" else "****" ++ String.ofList (chars.drop (chars.length - 4))

/-- `mask_stored` -/
def maskStored (stored : String) : String :=
  match openSecret crates keys stored with
  | some plaintext => maskSecret plaintext
  | none => "****"

/-- `mask_config` -/
def maskConfig (config : Value) : Value :=
  (mapSensitive (fun s => some (maskStored crates keys s)) config).getD .null

end

/-! ### Secrets, and configs that are the same but for them -/

mutual
/-- The strings under a sensitive key. -/
def secretsAt (sensitive : Bool) : Value → List String
  | .string s => if sensitive then [s] else []
  | .object map => secretsOfMembers map
  | .array items => secretsOfItems items
  | _ => []

def secretsOfItems : List Value → List String
  | [] => []
  | v :: rest => secretsAt false v ++ secretsOfItems rest

def secretsOfMembers : List (String × Value) → List String
  | [] => []
  | (key, v) :: rest => secretsAt (isSensitiveKey key) v ++ secretsOfMembers rest
end

def secretsOf (config : Value) : List String := secretsAt false config

section
variable (R : String → String → Prop)

mutual
/-- The same value, but for the secrets, which are related by `R`. -/
def SameAt (sensitive : Bool) : Value → Value → Prop
  | .string s, w => ∃ s', w = .string s' ∧ if sensitive then R s s' else s' = s
  | .object map, w => ∃ map', w = .object map' ∧ SameMembers map map'
  | .array items, w => ∃ items', w = .array items' ∧ SameItems items items'
  | v, w => w = v

def SameItems : List Value → List Value → Prop
  | [], items' => items' = []
  | v :: rest, items' => ∃ v' rest', items' = v' :: rest' ∧ SameAt false v v' ∧ SameItems rest rest'

def SameMembers : List (String × Value) → List (String × Value) → Prop
  | [], map' => map' = []
  | (key, v) :: rest, map' => ∃ v' rest', map' = (key, v') :: rest' ∧
    SameAt (isSensitiveKey key) v v' ∧ SameMembers rest rest'
end

/-- Configs that are the same but for their secrets. -/
def SameUpTo (config config' : Value) : Prop := SameAt R false config config'

end

section
variable {σ : Type} {f g : String → σ → Option (String × σ)} {R : String → String → Prop}

/-! ### The traversal -/

mutual
/-- Without a state it is the plain one. -/
theorem mapMemberSt_stateless (h : String → Option String) :
    ∀ (sensitive : Bool) (v : Value) (st : σ),
    mapMemberSt (fun s st => (h s).map (·, st)) sensitive v st = (mapMember h sensitive v).map (·, st)
  | sensitive, .string s, st => by
    rw [mapMemberSt, mapMember]
    cases sensitive <;> cases h s <;> rfl
  | sensitive, .object map, st => by
    rw [mapMemberSt, mapMember, mapMembersSt_stateless h map st]
    cases mapMembers h map <;> rfl
  | sensitive, .array items, st => by
    rw [mapMemberSt, mapMember, mapItemsSt_stateless h items st]
    cases mapItems h items <;> rfl
  | sensitive, .null, st => rfl
  | sensitive, .bool b, st => rfl
  | sensitive, .number n, st => rfl

theorem mapItemsSt_stateless (h : String → Option String) : ∀ (items : List Value) (st : σ),
    mapItemsSt (fun s st => (h s).map (·, st)) items st = (mapItems h items).map (·, st)
  | [], st => rfl
  | v :: rest, st => by
    rw [mapItemsSt, mapItems, mapMemberSt_stateless h false v st]
    cases mapMember h false v with
    | none => rfl
    | some w =>
      rw [Option.map_some, Option.bind_some, Option.bind_some, mapItemsSt_stateless h rest st]
      cases mapItems h rest <;> rfl

theorem mapMembersSt_stateless (h : String → Option String) :
    ∀ (map : List (String × Value)) (st : σ),
      mapMembersSt (fun s st => (h s).map (·, st)) map st = (mapMembers h map).map (·, st)
  | [], st => rfl
  | (key, v) :: rest, st => by
    rw [mapMembersSt, mapMembers, mapMemberSt_stateless h (isSensitiveKey key) v st]
    cases mapMember h (isSensitiveKey key) v with
    | none => rfl
    | some w =>
      rw [Option.map_some, Option.bind_some, Option.bind_some, mapMembersSt_stateless h rest st]
      cases mapMembers h rest <;> rfl
end

mutual
/-- It changes the secrets only, each as the closure says. -/
theorem sameAt_of_map : ∀ {sensitive : Bool} {v w : Value} {st st' : σ},
    (∀ s ∈ secretsAt sensitive v, ∀ st s' st', f s st = some (s', st') → R s s') →
      mapMemberSt f sensitive v st = some (w, st') → SameAt R sensitive v w
  | sensitive, .string s, w, st, st', h, hw => by
    rw [mapMemberSt] at hw
    rw [SameAt]
    cases sensitive with  -- a string is a secret only under a sensitive name
    | false =>
      cases hw
      exact ⟨s, rfl, rfl⟩
    | true =>
      obtain ⟨⟨s', st₁⟩, hs, hw⟩ := Option.map_eq_some_iff.mp hw
      cases hw
      exact ⟨s', rfl, h s List.mem_cons_self st s' _ hs⟩
  | sensitive, .object map, w, st, st', h, hw => by
    rw [mapMemberSt] at hw
    obtain ⟨⟨map', st₁⟩, hmap, hw⟩ := Option.map_eq_some_iff.mp hw
    cases hw
    exact ⟨map', rfl, sameMembers_of_map h hmap⟩
  | sensitive, .array items, w, st, st', h, hw => by
    rw [mapMemberSt] at hw
    obtain ⟨⟨items', st₁⟩, hitems, hw⟩ := Option.map_eq_some_iff.mp hw
    cases hw
    exact ⟨items', rfl, sameItems_of_map h hitems⟩
  | sensitive, .null, w, st, st', h, hw => by
    cases hw
    rfl
  | sensitive, .bool b, w, st, st', h, hw => by
    cases hw
    rfl
  | sensitive, .number n, w, st, st', h, hw => by
    cases hw
    rfl

theorem sameItems_of_map : ∀ {items items' : List Value} {st st' : σ},
    (∀ s ∈ secretsOfItems items, ∀ st s' st', f s st = some (s', st') → R s s') →
      mapItemsSt f items st = some (items', st') → SameItems R items items'
  | [], items', st, st', h, hitems => by
    cases hitems
    rfl
  | v :: rest, items', st, st', h, hitems => by
    rw [mapItemsSt] at hitems
    obtain ⟨⟨v', st₁⟩, hv, hitems⟩ := Option.bind_eq_some_iff.mp hitems
    obtain ⟨⟨rest', st₂⟩, hrest, hitems⟩ := Option.map_eq_some_iff.mp hitems
    cases hitems
    exact ⟨v', rest', rfl, sameAt_of_map (fun s hs => h s (List.mem_append_left _ hs)) hv,
      sameItems_of_map (fun s hs => h s (List.mem_append_right _ hs)) hrest⟩

theorem sameMembers_of_map : ∀ {map map' : List (String × Value)} {st st' : σ},
    (∀ s ∈ secretsOfMembers map, ∀ st s' st', f s st = some (s', st') → R s s') →
      mapMembersSt f map st = some (map', st') → SameMembers R map map'
  | [], map', st, st', h, hmap => by
    cases hmap
    rfl
  | (key, v) :: rest, map', st, st', h, hmap => by
    rw [mapMembersSt] at hmap
    obtain ⟨⟨v', st₁⟩, hv, hmap⟩ := Option.bind_eq_some_iff.mp hmap
    obtain ⟨⟨rest', st₂⟩, hrest, hmap⟩ := Option.map_eq_some_iff.mp hmap
    cases hmap
    exact ⟨v', rest', rfl, sameAt_of_map (fun s hs => h s (List.mem_append_left _ hs)) hv,
      sameMembers_of_map (fun s hs => h s (List.mem_append_right _ hs)) hrest⟩
end

mutual
/-- It fails only where the closure does. -/
theorem isSome_mapMemberSt : ∀ {sensitive : Bool} {v : Value} (st : σ),
    (∀ s ∈ secretsAt sensitive v, ∀ st, (f s st).isSome) → (mapMemberSt f sensitive v st).isSome
  | sensitive, .string s, st, h => by
    rw [mapMemberSt]
    cases sensitive with
    | false => rfl
    | true =>
      rw [if_pos rfl, Option.isSome_map]
      exact h s List.mem_cons_self st
  | sensitive, .object map, st, h => by
    rw [mapMemberSt, Option.isSome_map]
    exact isSome_mapMembersSt st h
  | sensitive, .array items, st, h => by
    rw [mapMemberSt, Option.isSome_map]
    exact isSome_mapItemsSt st h
  | sensitive, .null, st, h => rfl
  | sensitive, .bool b, st, h => rfl
  | sensitive, .number n, st, h => rfl

theorem isSome_mapItemsSt : ∀ {items : List Value} (st : σ),
    (∀ s ∈ secretsOfItems items, ∀ st, (f s st).isSome) → (mapItemsSt f items st).isSome
  | [], st, h => rfl
  | v :: rest, st, h => by
    obtain ⟨r, hr⟩ := Option.isSome_iff_exists.mp
      (isSome_mapMemberSt st fun s hs => h s (List.mem_append_left _ hs))
    rw [mapItemsSt, hr, Option.bind_some, Option.isSome_map]
    exact isSome_mapItemsSt r.2 fun s hs => h s (List.mem_append_right _ hs)

theorem isSome_mapMembersSt : ∀ {map : List (String × Value)} (st : σ),
    (∀ s ∈ secretsOfMembers map, ∀ st, (f s st).isSome) → (mapMembersSt f map st).isSome
  | [], st, h => rfl
  | (key, v) :: rest, st, h => by
    obtain ⟨r, hr⟩ := Option.isSome_iff_exists.mp
      (isSome_mapMemberSt st fun s hs => h s (List.mem_append_left _ hs))
    rw [mapMembersSt, hr, Option.bind_some, Option.isSome_map]
    exact isSome_mapMembersSt r.2 fun s hs => h s (List.mem_append_right _ hs)
end

mutual
/-- Configs that are the same but for their secrets come out alike when their secrets do. -/
theorem mapMemberSt_same : ∀ {sensitive : Bool} {v w : Value} (st : σ), SameAt R sensitive v w →
    (∀ s ∈ secretsAt sensitive v, ∀ s' ∈ secretsAt sensitive w, R s s' → ∀ st, f s st = g s' st) →
    mapMemberSt f sensitive v st = mapMemberSt g sensitive w st
  | sensitive, .string s, w, st, hsame, h => by
    obtain ⟨s', rfl, hs⟩ := hsame
    rw [mapMemberSt, mapMemberSt]
    cases sensitive with
    | false =>
      cases hs
      rfl
    | true =>
      rw [if_pos rfl, if_pos rfl, h s List.mem_cons_self s' List.mem_cons_self hs]
  | sensitive, .object map, w, st, hsame, h => by
    obtain ⟨map', rfl, hmap⟩ := hsame
    rw [mapMemberSt, mapMemberSt, mapMembersSt_same st hmap h]
  | sensitive, .array items, w, st, hsame, h => by
    obtain ⟨items', rfl, hitems⟩ := hsame
    rw [mapMemberSt, mapMemberSt, mapItemsSt_same st hitems h]
  | sensitive, .null, w, st, hsame, h => by
    cases hsame
    rfl
  | sensitive, .bool b, w, st, hsame, h => by
    cases hsame
    rfl
  | sensitive, .number n, w, st, hsame, h => by
    cases hsame
    rfl

theorem mapItemsSt_same : ∀ {items items' : List Value} (st : σ), SameItems R items items' →
    (∀ s ∈ secretsOfItems items, ∀ s' ∈ secretsOfItems items', R s s' → ∀ st, f s st = g s' st) →
    mapItemsSt f items st = mapItemsSt g items' st
  | [], items', st, hsame, h => by
    cases hsame
    rfl
  | v :: rest, items', st, hsame, h => by
    obtain ⟨v', rest', rfl, hv, hrest⟩ := hsame
    have hhead := mapMemberSt_same st hv fun s hs s' hs' =>
      h s (List.mem_append_left _ hs) s' (List.mem_append_left _ hs')
    rw [mapItemsSt, mapItemsSt, hhead]
    refine Option.bind_congr fun r _ => ?_
    rw [mapItemsSt_same r.2 hrest fun s hs s' hs' =>
      h s (List.mem_append_right _ hs) s' (List.mem_append_right _ hs')]

theorem mapMembersSt_same : ∀ {map map' : List (String × Value)} (st : σ),
    SameMembers R map map' →
    (∀ s ∈ secretsOfMembers map, ∀ s' ∈ secretsOfMembers map', R s s' → ∀ st, f s st = g s' st) →
    mapMembersSt f map st = mapMembersSt g map' st
  | [], map', st, hsame, h => by
    cases hsame
    rfl
  | (key, v) :: rest, map', st, hsame, h => by
    obtain ⟨v', rest', rfl, hv, hrest⟩ := hsame
    have hhead := mapMemberSt_same st hv fun s hs s' hs' =>
      h s (List.mem_append_left _ hs) s' (List.mem_append_left _ hs')
    rw [mapMembersSt, mapMembersSt, hhead]
    refine Option.bind_congr fun r _ => ?_
    rw [mapMembersSt_same r.2 hrest fun s hs s' hs' =>
      h s (List.mem_append_right _ hs) s' (List.mem_append_right _ hs')]
end

mutual
theorem mapMember_some : ∀ (sensitive : Bool) (v : Value), mapMember some sensitive v = some v
  | sensitive, .string s => by
    rw [mapMember]
    cases sensitive <;> rfl
  | sensitive, .object map => by rw [mapMember, mapMembers_some map, Option.map_some]
  | sensitive, .array items => by rw [mapMember, mapItems_some items, Option.map_some]
  | sensitive, .null => rfl
  | sensitive, .bool b => rfl
  | sensitive, .number n => rfl

theorem mapItems_some : ∀ items : List Value, mapItems some items = some items
  | [] => rfl
  | v :: rest => by
    rw [mapItems, mapMember_some false v, Option.bind_some, mapItems_some rest, Option.map_some]

theorem mapMembers_some : ∀ map : List (String × Value), mapMembers some map = some map
  | [] => rfl
  | (key, v) :: rest => by
    rw [mapMembers, mapMember_some (isSensitiveKey key) v, Option.bind_some, mapMembers_some rest,
      Option.map_some]
end

mutual
/-- What all related strings have, the secrets of the other config have. -/
theorem SameAt.secrets {P : String → Prop} (h : ∀ s s', R s s' → P s') :
    ∀ {sensitive : Bool} {v w : Value}, SameAt R sensitive v w → ∀ s ∈ secretsAt sensitive w, P s
  | sensitive, .string s, w, hsame => by
    obtain ⟨s', rfl, hs⟩ := hsame
    cases sensitive with
    | false => exact fun _ hmem => absurd hmem List.not_mem_nil
    | true =>
      intro t ht
      rw [List.mem_singleton.mp ht]
      exact h s s' hs
  | sensitive, .object map, w, hsame => by
    obtain ⟨map', rfl, hmap⟩ := hsame
    exact SameMembers.secrets h hmap
  | sensitive, .array items, w, hsame => by
    obtain ⟨items', rfl, hitems⟩ := hsame
    exact SameItems.secrets h hitems
  | sensitive, .null, w, hsame => by
    cases hsame
    exact fun _ hmem => absurd hmem List.not_mem_nil
  | sensitive, .bool b, w, hsame => by
    cases hsame
    exact fun _ hmem => absurd hmem List.not_mem_nil
  | sensitive, .number n, w, hsame => by
    cases hsame
    exact fun _ hmem => absurd hmem List.not_mem_nil

theorem SameItems.secrets {P : String → Prop} (h : ∀ s s', R s s' → P s') :
    ∀ {items items' : List Value}, SameItems R items items' → ∀ s ∈ secretsOfItems items', P s
  | [], items', hsame => by
    cases hsame
    exact fun _ hmem => absurd hmem List.not_mem_nil
  | v :: rest, items', hsame => by
    obtain ⟨v', rest', rfl, hv, hrest⟩ := hsame
    intro s hs
    rcases List.mem_append.mp hs with hs | hs
    · exact SameAt.secrets h hv s hs
    · exact SameItems.secrets h hrest s hs

theorem SameMembers.secrets {P : String → Prop} (h : ∀ s s', R s s' → P s') :
    ∀ {map map' : List (String × Value)}, SameMembers R map map' →
      ∀ s ∈ secretsOfMembers map', P s
  | [], map', hsame => by
    cases hsame
    exact fun _ hmem => absurd hmem List.not_mem_nil
  | (key, v) :: rest, map', hsame => by
    obtain ⟨v', rest', rfl, hv, hrest⟩ := hsame
    intro s hs
    rcases List.mem_append.mp hs with hs | hs
    · exact SameAt.secrets h hv s hs
    · exact SameMembers.secrets h hrest s hs
end

end

/-! ### Without a state -/

section
variable {f g : String → Option String} {R : String → String → Prop} {v w : Value}

theorem mapSensitive_stateless (f : String → Option String) (v : Value) :
    mapMemberSt (fun s st => (f s).map (·, st)) false v () = (mapSensitive f v).map (·, ()) :=
  mapMemberSt_stateless f false v ()

theorem mapSensitive_same (hsame : SameUpTo R v w)
    (h : ∀ s ∈ secretsOf v, ∀ s' ∈ secretsOf w, R s s' → f s = g s') :
    mapSensitive f v = mapSensitive g w := by
  have hmap := mapMemberSt_same (f := fun s (st : Unit) => (f s).map (·, st))
    (g := fun s st => (g s).map (·, st)) () hsame
    fun s hs s' hs' hR st => by rw [h s hs s' hs' hR]
  rw [mapSensitive_stateless, mapSensitive_stateless] at hmap
  exact Option.map_injective (fun a b hab => (Prod.mk.inj hab).1) hmap

theorem sameUpTo_of_mapSensitive (h : ∀ s ∈ secretsOf v, ∀ s', f s = some s' → R s s')
    (hw : mapSensitive f v = some w) : SameUpTo R v w := by
  have hmap : mapMemberSt (fun s st => (f s).map (·, st)) false v () = some (w, ()) := by
    rw [mapSensitive_stateless, hw, Option.map_some]
  refine sameAt_of_map (fun s hmem st s' st' hs => ?_) hmap
  obtain ⟨t, ht, heq⟩ := Option.map_eq_some_iff.mp hs
  cases heq
  exact h s hmem _ ht

theorem isSome_mapSensitive (h : ∀ s ∈ secretsOf v, (f s).isSome) : (mapSensitive f v).isSome := by
  have hmap : (mapMemberSt (fun s (st : Unit) => (f s).map (·, st)) false v ()).isSome := by
    refine isSome_mapMemberSt () fun s hs st => ?_
    rw [Option.isSome_map]
    exact h s hs
  rw [mapSensitive_stateless, Option.isSome_map] at hmap
  exact hmap

theorem mapSensitive_some (v : Value) : mapSensitive some v = some v := mapMember_some false v

/-- A closure that leaves all secrets of a config leaves the config. -/
theorem mapMemberSt_of_secrets {σ : Type} {f : String → σ → Option (String × σ)} {config : Value}
    (h : ∀ s ∈ secretsOf config, ∀ st, f s st = some (s, st)) (st : σ) :
    mapMemberSt f false config st = some (config, st) := by
  have hself : SameUpTo (fun s s' => s' = s) config config :=
    sameUpTo_of_mapSensitive (f := some) (fun s _ s' hs => (Option.some.inj hs).symm)
      (mapSensitive_some config)
  have hmap := mapMemberSt_same (f := f) (g := fun s st => (some s).map (·, st)) st hself
    fun s hs s' _ hss' st => by rw [h s hs st, hss', Option.map_some]
  rw [hmap, mapMemberSt_stateless, mapMember_some, Option.map_some]

end

/-! ### The laws -/

/-- The texts are encrypted under every nonce drawn, and the envelopes written. -/
structure Total (crates : SecretCrates) (keys : Keys) {σ : Type} (draw : σ → String × σ)
    (texts : List String) : Prop where
  encrypts : ∀ text ∈ texts, ∀ st,
    (crates.cipher.encrypt keys.current (draw st).1 (asBytes text)).isSome
  writes : ∀ data st, (crates.encodeEnvelope (envelope data (draw st).1 keys.version)).isSome

/-- Equally above the length of 8 characters or not, and with the same last 4 where above. -/
def SameEnding (s s' : String) : Prop :=
  (8 < s.toList.length ↔ 8 < s'.toList.length) ∧
    (8 < s.toList.length →
      s.toList.drop (s.toList.length - 4) = s'.toList.drop (s'.toList.length - 4))

section
variable {crates : SecretCrates} {keys : Keys} {σ : Type} {draw : σ → String × σ}
  {config config' sealed : Value} {s s' : String}

theorem isSome_sealDrawn {texts : List String} (htotal : Total crates keys draw texts)
    (hs : s ∈ texts) (st : σ) : (sealDrawn crates keys draw s st).isSome := by
  obtain ⟨data, hdata⟩ := Option.isSome_iff_exists.mp (htotal.encrypts s hs st)
  obtain ⟨text, htext⟩ := Option.isSome_iff_exists.mp (htotal.writes data st)
  rw [sealDrawn, Option.isSome_map, encryptSecret, hdata]
  dsimp only [Option.bind_eq_bind, Option.bind_some]
  rw [htext]
  rfl

theorem isSome_sealPlain {texts : List String} (htotal : Total crates keys draw texts)
    (hs : s ∈ texts) (st : σ) : (sealPlain crates keys draw s st).isSome := by
  rw [sealPlain]
  split
  · rfl
  · exact isSome_sealDrawn htotal hs st

/-- What is sealed carries the prefix, and opens. -/
theorem sealDrawn_spec (hlawful : crates.Lawful) {st st' : σ}
    (h : sealDrawn crates keys draw s st = some (s', st')) :
    isEncrypted s' = true ∧ openSecret crates keys s' = some s := by
  obtain ⟨stored, hstored, heq⟩ := Option.map_eq_some_iff.mp h
  cases heq
  have hseal : sealSecret crates keys (fun _ => (draw st).1) s = some s' := hstored
  refine ⟨?_, openSecret_sealSecret hlawful hseal⟩
  obtain ⟨data, _, hstored⟩ := Option.bind_eq_some_iff.mp hstored
  obtain ⟨text, _, hstored⟩ := Option.bind_eq_some_iff.mp hstored
  cases hstored
  exact isEncrypted_append text

theorem openSecret_plain (h : isEncrypted s = false) : openSecret crates keys s = some s := by
  rw [openSecret, h, Bool.not_false, if_pos rfl]

theorem sealPlain_sealed (h : isEncrypted s = true) (st : σ) :
    sealPlain crates keys draw s st = some (s, st) := by
  rw [sealPlain, if_pos h]

theorem sealPlain_spec (hlawful : crates.Lawful) {st st' : σ}
    (h : sealPlain crates keys draw s st = some (s', st')) :
    isEncrypted s' = true ∧ openSecret crates keys s' = openSecret crates keys s := by
  rw [sealPlain] at h
  split at h
  · next hsealed =>
    cases h
    exact ⟨hsealed, rfl⟩
  · next hplain =>
    obtain ⟨hsealed, hopen⟩ := sealDrawn_spec hlawful h
    rw [openSecret_plain (Bool.eq_false_iff.mpr hplain)]
    exact ⟨hsealed, hopen⟩

/-- A mask tells the length above 8 and the last 4 characters. -/
theorem maskSecret_congr (h : SameEnding s s') : maskSecret s = maskSecret s' := by
  rw [maskSecret, maskSecret]
  by_cases hlong : 8 < s.toList.length
  · rw [if_neg (by omega), if_neg (by have := h.1.mp hlong; omega), h.2 hlong]
  · rw [if_pos (by omega), if_pos (by have := mt h.1.mpr hlong; omega)]

theorem maskStored_congr (h : openSecret crates keys s' = openSecret crates keys s) :
    maskStored crates keys s' = maskStored crates keys s := by
  rw [maskStored, h, maskStored]

theorem maskStored_plain (h : isEncrypted s = false) : maskStored crates keys s = maskSecret s := by
  rw [maskStored, openSecret_plain h]

/-- Configs whose secrets mask alike mask alike. -/
theorem maskConfig_congr {R : String → String → Prop} (hsame : SameUpTo R config config')
    (h : ∀ s ∈ secretsOf config, ∀ s' ∈ secretsOf config', R s s' →
      maskStored crates keys s = maskStored crates keys s') :
    maskConfig crates keys config = maskConfig crates keys config' := by
  rw [maskConfig, maskConfig, mapSensitive_same hsame fun s hs s' hs' hR => by rw [h s hs s' hs' hR]]

theorem sameUpTo_maskConfig (hplain : ∀ s ∈ secretsOf config, isEncrypted s = false) :
    SameUpTo (fun s s' => s' = maskSecret s) config (maskConfig crates keys config) := by
  obtain ⟨masked, hmasked⟩ := Option.isSome_iff_exists.mp
    (isSome_mapSensitive (f := fun s => some (maskStored crates keys s)) (v := config)
      fun _ _ => rfl)
  rw [maskConfig, hmasked, Option.getD_some]
  refine sameUpTo_of_mapSensitive (fun s hs s' heq => ?_) hmasked
  rw [← Option.some.inj heq, maskStored_plain (hplain s hs)]

/-- A config with plain secrets is sealed. The sealed config opens as it, is left by a second
    sealing, and differs from it in the secrets only, which are all sealed; the masked config differs
    in the secrets only, masks the sealed ones alike, and tells of each its ending only. -/
theorem config_laws (hlawful : crates.Lawful) (htotal : Total crates keys draw (secretsOf config))
    (hplain : ∀ s ∈ secretsOf config, isEncrypted s = false) (st : σ) :
    ∃ sealed st', sealConfigDrawn crates keys draw config st = some (sealed, st') ∧
      openConfig crates keys sealed = some config ∧
      (∀ st, sealConfigDrawn crates keys draw sealed st = some (sealed, st)) ∧
      SameUpTo (fun s s' => isEncrypted s' = true ∧ openSecret crates keys s' = some s)
        config sealed ∧
      (∀ s ∈ secretsOf sealed, isEncrypted s = true) ∧
      SameUpTo (fun s s' => s' = maskSecret s) config (maskConfig crates keys config) ∧
      maskConfig crates keys sealed = maskConfig crates keys config ∧
      ∀ config', (∀ s ∈ secretsOf config', isEncrypted s = false) →
        SameUpTo SameEnding config config' →
          maskConfig crates keys config' = maskConfig crates keys config := by
  obtain ⟨⟨sealed, st'⟩, hseal⟩ := Option.isSome_iff_exists.mp
    (isSome_mapMemberSt st fun _ hs st => isSome_sealPlain htotal hs st)
  have hsame : SameUpTo (fun s s' => isEncrypted s' = true ∧ openSecret crates keys s' = some s)
      config sealed := by
    refine sameAt_of_map (fun s hs st s' st' hs' => ?_) hseal
    rw [← openSecret_plain (hplain s hs)]
    exact sealPlain_spec hlawful hs'
  have hsealed : ∀ s ∈ secretsOf sealed, isEncrypted s = true :=
    SameAt.secrets (fun _ _ h => h.1) hsame
  refine ⟨sealed, st', hseal, ?_, ?_, hsame, hsealed, sameUpTo_maskConfig hplain, ?_, ?_⟩
  · rw [openConfig, ← mapSensitive_same (f := some) hsame fun _ _ _ _ h => h.2.symm]
    exact mapSensitive_some config
  · exact mapMemberSt_of_secrets fun s hs => sealPlain_sealed (hsealed s hs)
  · refine (maskConfig_congr hsame fun s hs s' _ h => (maskStored_congr ?_).symm).symm
    rw [h.2, openSecret_plain (hplain s hs)]
  · intro config' hplain' hending
    refine (maskConfig_congr hending fun s hs s' hs' h => ?_).symm
    rw [maskStored_plain (hplain s hs), maskStored_plain (hplain' s' hs'), maskSecret_congr h]

def deepConfig : Value := .array [.object [("Token", .string "0123456789")]]

/-- One secret deep in a config. -/
theorem config_laws_clear :
    ∃ sealed st', sealConfigDrawn clearCrates ⟨0, none, 1⟩ (fun st : Unit => ("n", st)) deepConfig () =
        some (sealed, st') ∧
      openConfig clearCrates ⟨0, none, 1⟩ sealed = some deepConfig := by
  have htotal : Total clearCrates ⟨0, none, 1⟩ (fun st : Unit => ("n", st)) (secretsOf deepConfig) := by
    refine ⟨fun text _ st => ?_, fun data st => ?_⟩
    · dsimp only [clearCrates]
      rw [stringFromUtf8_asBytes, Option.isSome_some]
    · simp [clearCrates, envelope, member, List.lookup, Value.asStr, Value.asI64, I64_MIN, I64_MAX]
  have hplain : ∀ s ∈ secretsOf deepConfig, isEncrypted s = false := by decide +kernel
  obtain ⟨sealed, st', hseal, hopen, -⟩ := config_laws lawful_clearCrates htotal hplain ()
  exact ⟨sealed, st', hseal, hopen⟩

end

end SorobanPulse.Reencrypt
