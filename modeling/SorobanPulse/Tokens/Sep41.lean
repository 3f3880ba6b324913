import SorobanPulse.Tokens.TokenEvents

/-! Typed SEP-41 decoding, and where it agrees with the positional decoder.

    Accounts are the topics that look like addresses, so that the optional admin before and the
    asset after them are both tolerated:

        transfer   from, to, (asset)
        mint       (admin), to, (asset)
        burn       from, (asset)
        clawback   (admin), from, (asset)

    The positional decoder knows no optional admin: `decode_agrees_iff` says on which topics the two
    read the same accounts. -/

namespace SorobanPulse.Tokens.Sep41
open Tokens

inductive Sep41EventType where
  | transfer
  | mint
  | burn
  | clawback
  deriving DecidableEq, Repr

def Sep41EventType.asStr : Sep41EventType → String
  | .transfer => "transfer"
  | .mint => "mint"
  | .burn => "burn"
  | .clawback => "clawback"

def Sep41EventType.parse (s : String) : Option Sep41EventType :=
  if s = "transfer" then some .transfer
  else if s = "mint" then some .mint
  else if s = "burn" then some .burn
  else if s = "clawback" then some .clawback
  else none

structure Sep41Event where
  eventType : Sep41EventType
  /-- Debited account. -/
  fromAddr : Option String
  /-- Credited account. -/
  toAddr : Option String
  amount : String
  deriving DecidableEq, Repr

/-- A plausible G, C or M strkey. -/
def isAddress (s : String) : Bool :=
  let okChars := s.toList.all fun c => c.isUpper || ('2' ≤ c && c ≤ '7')
  match s.toList.head? with
  | some 'G' | some 'C' => s.utf8ByteSize = 56 && okChars
  | some 'M' => s.utf8ByteSize = 69 && okChars
  | _ => false

/-- The topics after the first that look like addresses. -/
def addrs (topics : List Value) : List String :=
  (topics.tail.filterMap topicStr).filter isAddress

/-- Debited and credited account; the optional admin precedes the account of a mint or clawback. -/
def accounts (eventType : Sep41EventType) (addrs : List String) :
    Option (Option String × Option String) :=
  match eventType, addrs with
  | .transfer, a :: b :: _ => some (some a, some b)
  | .transfer, _ => none
  | .mint, addrs => addrs.getLast?.map fun a => (none, some a)
  | .burn, addrs => addrs.head?.map fun a => (some a, none)
  | .clawback, addrs => addrs.getLast?.map fun a => (some a, none)

/-- `sep41::decode`. -/
def decode (topics : List Value) (value : Value) : Option Sep41Event := do
  let eventType ← Sep41EventType.parse (← topicStr (← topics.head?))
  let amount ← amountStr value
  if amount.toList.head? = some '-' then none
  else
    let (fromAddr, toAddr) ← accounts eventType (addrs topics)
    some { eventType, fromAddr, toAddr, amount }

/-- The positional decoder reads the same kind, amount and accounts. -/
structure Agrees (e : Sep41Event) (t : TokenEvent) : Prop where
  kind : t.kind = e.eventType.asStr
  amount : t.amount = some e.amount
  fromAddr : e.eventType ≠ .mint → t.fromAddr = e.fromAddr
  toAddr : e.eventType = .transfer ∨ e.eventType = .mint → t.toAddr = e.toAddr

/-! ### The topics on which they agree -/

/-- Topic `i` looks like an address. -/
def AddressAt (topics : List Value) (i : ℕ) : Prop :=
  ∃ a, addr topics i = some a ∧ isAddress a = true

/-- `a` is the last topic after the first that looks like an address. -/
def LastAddress (topics : List Value) (a : String) : Prop :=
  ∃ before v after, topics.tail = before ++ v :: after ∧ topicStr v = some a ∧
    isAddress a = true ∧ ∀ w ∈ after, ∀ b, topicStr w = some b → isAddress b = false

/-- The accounts of an event of this kind stand where the positional decoder looks for them. -/
def InPlace (topics : List Value) : Sep41EventType → Prop
  | .transfer => AddressAt topics 1 ∧ AddressAt topics 2
  | .burn => AddressAt topics 1
  | .mint | .clawback =>
    3 ≤ topics.length ∧ ∃ a, (addr topics 2).or (addr topics 1) = some a ∧ LastAddress topics a

/-- `InPlace` for the kind that topic 0 names. -/
def Positional (topics : List Value) : Prop :=
  ∀ kind : Sep41EventType, addr topics 0 = some kind.asStr → InPlace topics kind

section
variable {topics : List Value} {value : Value} {e : Sep41Event} {kind : Sep41EventType} {a : String}

theorem parse_eq_some {s : String} : Sep41EventType.parse s = some kind ↔ s = kind.asStr := by
  constructor
  · intro h
    unfold Sep41EventType.parse at h
    split_ifs at h <;> obtain rfl := Option.some.inj h <;> assumption
  · rintro rfl
    cases kind <;> decide

/-- What a successful decoding says. -/
theorem decode_eq_some (h : decode topics value = some e) :
    addr topics 0 = some e.eventType.asStr ∧ amountStr value = some e.amount ∧
      accounts e.eventType (addrs topics) = some (e.fromAddr, e.toAddr) := by
  simp only [decode, Option.bind_eq_bind, Option.bind_eq_some_iff] at h
  obtain ⟨first, hfirst, name, hname, kind, hkind, amount, hamount, h⟩ := h
  split at h
  · exact absurd h (Option.some_ne_none _).symm
  · obtain ⟨⟨fromAddr, toAddr⟩, hacc, h⟩ := Option.bind_eq_some_iff.mp h
    obtain rfl := Option.some.inj h
    refine ⟨?_, hamount, hacc⟩
    rw [addr, ← List.head?_eq_getElem?, hfirst, Option.bind_some, hname, parse_eq_some.mp hkind]

/-- What the positional decoder makes of one of the four kinds. -/
def positions (topics : List Value) : Sep41EventType → Option (Option String × Option String)
  | .transfer => if 3 ≤ topics.length then some (addr topics 1, addr topics 2) else none
  | .mint =>
    if 3 ≤ topics.length then some (addr topics 1, (addr topics 2).or (addr topics 1)) else none
  | .burn => if 2 ≤ topics.length then some (addr topics 1, none) else none
  | .clawback =>
    if 3 ≤ topics.length then some ((addr topics 2).or (addr topics 1), none) else none

theorem tokenDecode_eq {amount : String} (hname : addr topics 0 = some kind.asStr)
    (hamount : amountStr value = some amount) :
    Tokens.decode topics value = (positions topics kind).map fun (fromAddr, toAddr) =>
      { kind := kind.asStr, fromAddr, toAddr, amount := some amount } := by
  rw [Tokens.decode, hname, hamount]
  cases kind with
  | transfer => by_cases hn : 3 ≤ topics.length <;> simp [Sep41EventType.asStr, positions, hn]
  | mint => by_cases hn : 3 ≤ topics.length <;> simp [Sep41EventType.asStr, positions, hn]
  | burn => by_cases hn : 2 ≤ topics.length <;> simp [Sep41EventType.asStr, positions, hn]
  | clawback => by_cases hn : 3 ≤ topics.length <;> simp [Sep41EventType.asStr, positions, hn]

/-! ### Addresses among the topics -/

/-- The address that a topic is, if it is one. -/
def addressOf (v : Value) : Option String := (topicStr v).filter isAddress

theorem addrs_eq_filterMap (topics : List Value) : addrs topics = topics.tail.filterMap addressOf := by
  rw [addrs, List.filter_filterMap]
  rfl

theorem isAddress_of_mem_addrs (h : a ∈ addrs topics) : isAddress a = true :=
  (List.mem_filter.mp h).2

theorem addressOf_eq_some {v : Value} :
    addressOf v = some a ↔ topicStr v = some a ∧ isAddress a = true := by
  rw [addressOf, Option.filter_eq_some_iff]

theorem addressOf_eq_none {v : Value} :
    addressOf v = none ↔ ∀ b, topicStr v = some b → isAddress b = false := by
  rw [addressOf, Option.filter_eq_none_iff]
  refine forall_congr' fun b => ?_
  rw [Bool.not_eq_true]

theorem lastAddress_iff : LastAddress topics a ↔ (addrs topics).getLast? = some a := by
  rw [addrs_eq_filterMap, List.getLast?_filterMap, List.findSome?_eq_some_iff]
  constructor
  · rintro ⟨before, v, after, htail, hv, ha, hafter⟩
    refine ⟨after.reverse, v, before.reverse, by simp [htail], addressOf_eq_some.mpr ⟨hv, ha⟩, ?_⟩
    intro w hw
    exact addressOf_eq_none.mpr (hafter w (List.mem_reverse.mp hw))
  · rintro ⟨after, v, before, htail, hv, hafter⟩
    obtain ⟨hv, ha⟩ := addressOf_eq_some.mp hv
    refine ⟨before.reverse, v, after.reverse, ?_, hv, ha, ?_⟩
    · rw [← List.reverse_reverse topics.tail, htail]
      simp
    · intro w hw
      exact addressOf_eq_none.mp (hafter w (List.mem_reverse.mp hw))

theorem addr_succ (topics : List Value) (i : ℕ) :
    addr topics (i + 1) = topics.tail[i]?.bind topicStr := by
  rw [addr, List.getElem?_tail]

theorem lt_length_of_addr {i : ℕ} (h : addr topics i = some a) : i < topics.length := by
  obtain ⟨v, hv, -⟩ := Option.bind_eq_some_iff.mp h
  exact (List.getElem?_eq_some_iff.mp hv).1

theorem addressAt_iff {i : ℕ} :
    AddressAt topics (i + 1) ↔ ∃ v a, topics.tail[i]? = some v ∧ addressOf v = some a := by
  constructor
  · rintro ⟨a, haddr, ha⟩
    rw [addr_succ] at haddr
    obtain ⟨v, hv, hstr⟩ := Option.bind_eq_some_iff.mp haddr
    exact ⟨v, a, hv, addressOf_eq_some.mpr ⟨hstr, ha⟩⟩
  · rintro ⟨v, a, hv, haddr⟩
    obtain ⟨hstr, ha⟩ := addressOf_eq_some.mp haddr
    exact ⟨a, by rw [addr_succ, hv, Option.bind_some, hstr], ha⟩

/-- The first address topic is topic 1 exactly when topic 1 is an address. -/
theorem addressAt_one_iff (h : (addrs topics).head? = some a) :
    AddressAt topics 1 ↔ addr topics 1 = some a := by
  constructor
  · intro hat
    obtain ⟨v, b, hv, haddr⟩ := addressAt_iff.mp hat
    obtain ⟨rest, htail⟩ := List.head?_eq_some_iff.mp (List.head?_eq_getElem?.trans hv)
    rw [addrs_eq_filterMap, htail, List.filterMap_cons_some haddr, List.head?_cons] at h
    rw [addr_succ, hv, Option.bind_some, (addressOf_eq_some.mp haddr).1, h]
  · intro haddr
    exact ⟨a, haddr, isAddress_of_mem_addrs (List.mem_of_head? h)⟩

/-- The first two address topics are topics 1 and 2 exactly when these are addresses. -/
theorem addressAt_two_iff {b : String} {rest : List String} (h : addrs topics = a :: b :: rest) :
    AddressAt topics 1 ∧ AddressAt topics 2 ↔ addr topics 1 = some a ∧ addr topics 2 = some b := by
  rw [addressAt_one_iff (a := a) (by rw [h]; rfl), and_congr_right_iff]
  intro hone
  constructor
  · intro hat
    obtain ⟨w, c, hw, haddr⟩ := addressAt_iff.mp hat
    rw [addr_succ] at hone
    obtain ⟨v, hv, hstr⟩ := Option.bind_eq_some_iff.mp hone
    obtain ⟨ts, htail⟩ := List.head?_eq_some_iff.mp (List.head?_eq_getElem?.trans hv)
    rw [htail, List.getElem?_cons_succ] at hw
    obtain ⟨us, rfl⟩ := List.head?_eq_some_iff.mp (List.head?_eq_getElem?.trans hw)
    have hmem : a ∈ addrs topics := h ▸ List.mem_cons_self
    have ha := isAddress_of_mem_addrs hmem
    rw [addrs_eq_filterMap, htail, List.filterMap_cons_some (addressOf_eq_some.mpr ⟨hstr, ha⟩),
      List.filterMap_cons_some haddr] at h
    obtain ⟨-, h⟩ := List.cons.inj h
    rw [addr_succ, htail, ← (List.cons.inj h).1]
    exact (addressOf_eq_some.mp haddr).1
  · intro htwo
    have hmem : b ∈ addrs topics := h ▸ List.mem_cons_of_mem _ List.mem_cons_self
    exact ⟨b, htwo, isAddress_of_mem_addrs hmem⟩

/-! ### Agreement -/

theorem asStr_injective : Function.Injective Sep41EventType.asStr := by
  intro k k' h
  exact Option.some.inj ((parse_eq_some.mpr rfl).symm.trans (parse_eq_some.mpr h))

theorem positional_iff (h : addr topics 0 = some kind.asStr) :
    Positional topics ↔ InPlace topics kind := by
  refine ⟨fun hpos => hpos kind h, ?_⟩
  intro hin kind' h'
  obtain rfl := asStr_injective (Option.some.inj (h.symm.trans h'))
  exact hin

/-- The accounts that the positional decoder reads are those of the event. -/
def SameAccounts (e : Sep41Event) (accounts : Option String × Option String) : Prop :=
  (e.eventType ≠ .mint → accounts.1 = e.fromAddr) ∧
    (e.eventType = .transfer ∨ e.eventType = .mint → accounts.2 = e.toAddr)

theorem agrees_iff_positions (h : decode topics value = some e) :
    (∃ t, Tokens.decode topics value = some t ∧ Agrees e t) ↔
      ∃ accounts, positions topics e.eventType = some accounts ∧ SameAccounts e accounts := by
  obtain ⟨hname, hamount, -⟩ := decode_eq_some h
  rw [tokenDecode_eq hname hamount]
  constructor
  · rintro ⟨t, ht, hagree⟩
    obtain ⟨accounts, hpos, rfl⟩ := Option.map_eq_some_iff.mp ht
    exact ⟨accounts, hpos, hagree.fromAddr, hagree.toAddr⟩
  · rintro ⟨accounts, hpos, hfrom, hto⟩
    exact ⟨_, by rw [hpos]; rfl, rfl, rfl, hfrom, hto⟩

/-- A mint or clawback: the position read must hold the last address. -/
theorem inPlace_last_iff (h : (addrs topics).getLast? = some a) :
    (3 ≤ topics.length ∧
        ∃ b, (addr topics 2).or (addr topics 1) = some b ∧ LastAddress topics b) ↔
      3 ≤ topics.length ∧ (addr topics 2).or (addr topics 1) = some a := by
  refine and_congr_right fun _ => ⟨?_, fun hor => ⟨a, hor, lastAddress_iff.mpr h⟩⟩
  rintro ⟨b, hor, hlast⟩
  rw [hor, ← lastAddress_iff.mp hlast, h]

/-- Where the typed decoder finds its accounts, they are in place exactly when the positional one
    finds the same. -/
theorem inPlace_iff_positions
    (h : accounts e.eventType (addrs topics) = some (e.fromAddr, e.toAddr)) :
    InPlace topics e.eventType ↔
      ∃ accounts, positions topics e.eventType = some accounts ∧ SameAccounts e accounts := by
  obtain ⟨kind, fromAddr, toAddr, amount⟩ := e
  dsimp only at h ⊢
  cases kind with
  | transfer =>  -- the typed decoder has found two addresses behind the symbol
    obtain ⟨a, b, rest, haddrs, hacc⟩ : ∃ a b rest, addrs topics = a :: b :: rest ∧
        (some a, some b) = (fromAddr, toAddr) := by
      unfold accounts at h
      split at h <;> simp_all
    obtain ⟨rfl, rfl⟩ := Prod.mk.inj hacc
    rw [InPlace, addressAt_two_iff haddrs]
    constructor
    · rintro ⟨hone, htwo⟩
      exact ⟨_, if_pos (lt_length_of_addr htwo), fun _ => hone, fun _ => htwo⟩
    · rintro ⟨acc, hpos, hfrom, hto⟩
      obtain ⟨-, ⟨⟩⟩ := Option.ite_none_right_eq_some.mp hpos
      exact ⟨hfrom Sep41EventType.noConfusion, hto (.inl rfl)⟩
  | mint =>  -- the typed decoder takes the last address, the positional one topic 2 or else topic 1
    obtain ⟨a, hlast, hacc⟩ := Option.map_eq_some_iff.mp h
    obtain ⟨rfl, rfl⟩ := Prod.mk.inj hacc
    rw [InPlace, inPlace_last_iff hlast]
    constructor
    · rintro ⟨hn, hor⟩
      exact ⟨_, if_pos hn, fun hne => absurd rfl hne, fun _ => hor⟩
    · rintro ⟨acc, hpos, -, hto⟩
      obtain ⟨hn, ⟨⟩⟩ := Option.ite_none_right_eq_some.mp hpos
      exact ⟨hn, hto (.inr rfl)⟩
  | burn =>  -- one address, and it is the first one
    obtain ⟨a, hfirst, hacc⟩ := Option.map_eq_some_iff.mp h
    obtain ⟨rfl, rfl⟩ := Prod.mk.inj hacc
    rw [InPlace, addressAt_one_iff hfirst]
    constructor
    · intro hone
      exact ⟨_, if_pos (lt_length_of_addr hone), fun _ => hone, fun h => by rcases h with h | h <;> cases h⟩
    · rintro ⟨acc, hpos, hfrom, -⟩
      obtain ⟨-, ⟨⟩⟩ := Option.ite_none_right_eq_some.mp hpos
      exact hfrom Sep41EventType.noConfusion
  | clawback =>
    obtain ⟨a, hlast, hacc⟩ := Option.map_eq_some_iff.mp h
    obtain ⟨rfl, rfl⟩ := Prod.mk.inj hacc
    rw [InPlace, inPlace_last_iff hlast]
    constructor
    · rintro ⟨hn, hor⟩
      exact ⟨_, if_pos hn, fun _ => hor, fun h => by rcases h with h | h <;> cases h⟩
    · rintro ⟨acc, hpos, hfrom, -⟩
      obtain ⟨hn, ⟨⟩⟩ := Option.ite_none_right_eq_some.mp hpos
      exact ⟨hn, hfrom Sep41EventType.noConfusion⟩

end

/-- The positional decoder agrees with a decoded event exactly when the accounts are in place. -/
theorem decode_agrees_iff {topics : List Value} {value : Value} {e : Sep41Event}
    (h : decode topics value = some e) :
    (∃ t, Tokens.decode topics value = some t ∧ Agrees e t) ↔ Positional topics := by
  obtain ⟨hname, -, hacc⟩ := decode_eq_some h
  rw [agrees_iff_positions h, positional_iff hname, inPlace_iff_positions hacc]

/-- `G` and 55 times the same letter. -/
def account (c : Char) : String := String.ofList ('G' :: List.replicate 55 c)

/-- A mint without the admin topic. -/
def mintTopics : List Value := [.string "mint", .string (account 'B')]

theorem not_agrees_mintTopics :
    ¬ ∀ (topics : List Value) (value : Value) (e : Sep41Event), decode topics value = some e →
      ∃ t, Tokens.decode topics value = some t ∧ Agrees e t := by
  intro h
  have hsep : decode mintTopics (.string "5") = some ⟨.mint, none, some (account 'B'), "5"⟩ := by
    decide +kernel
  have hnone : Tokens.decode mintTopics (.string "5") = none := by decide +kernel
  obtain ⟨t, ht, -⟩ := h _ _ _ hsep
  exact absurd (hnone.symm.trans ht) (Option.some_ne_none t).symm

/-- With the admin topic the accounts are in place. -/
def adminMintTopics : List Value :=
  [.string "mint", .string (account 'A'), .string (account 'B')]

theorem agrees_adminMintTopics :
    ∃ t, Tokens.decode adminMintTopics (.string "5") = some t ∧
      Agrees ⟨.mint, none, some (account 'B'), "5"⟩ t := by
  have hname : addr adminMintTopics 0 = some Sep41EventType.mint.asStr := rfl
  refine (decode_agrees_iff (by decide +kernel)).mpr ((positional_iff hname).mpr ?_)
  refine ⟨Nat.le_refl 3, account 'B', rfl, [.string (account 'A')], .string (account 'B'), [], rfl,
    rfl, by decide +kernel, ?_⟩
  exact fun w hw => absurd hw List.not_mem_nil

end SorobanPulse.Tokens.Sep41
