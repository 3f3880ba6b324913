import SorobanPulse.Contracts.AbiDecode
import SorobanPulse.Contracts.SpecToAbi

/-! Decoding the events that a contract's own spec describes.

        single value   v                 v itself, unless v is a vec or a map
        vec            [v₀, v₁, …]       by position, unless a name is another one's position
        map            {n₀: v₀, …}       by name

    The event is found by its first topic, so it needs a fixed one. Everything else that a topic
    names, a function above all, is taken for an event too. -/

namespace SorobanPulse.Contracts
open Xdr

/-! ### The event that a spec describes -/

/-- Params with their values. -/
abbrev Args := List (EventParam × ScVal)

def Args.data (args : Args) : Args := args.filter (·.1.isData)

/-- The fixed topics, and the values of the topic params. -/
def SpecEvent.topics (e : SpecEvent) (args : Args) : List ScVal :=
  e.prefixTopics.map .symbol ++ (args.filter fun a => !a.1.isData).map Prod.snd

/-- The data of an event: the single data param's value (void without one), a vec of them all, or a
    map by their names. -/
def DataFormat.Carries (args : Args) (data : ScVal) : DataFormat → Prop
  | .SingleValue => (args.data = [] ∧ data = .void) ∨ ∃ a, args.data = [a] ∧ data = a.2
  | .Vec => data = .vec (some (args.data.map Prod.snd))
  | .Map => ∃ entries, entries.Perm (args.data.map fun a => (ScVal.symbol a.1.name, a.2)) ∧
    data = .map (some entries)

section
variable (crate : XdrCrate)

/-- Event data as the indexer stores it. -/
def storedEvent (topics : List ScVal) (data : ScVal) : Value :=
  .object [("topic", .array (topics.map fun t => .string (crate.toXdrBase64 t))),
    ("value", .string (crate.toXdrBase64 data))]

/-- What the crate writes of these values, it reads back. -/
def ReadsBack (values : List ScVal) : Prop :=
  ∀ v ∈ values, crate.fromXdrBase64 (crate.toXdrBase64 v) = some v

/-- The serde form of a map: `{"map": [{"key": …, "val": …}, …]}`. -/
def MapForm : Prop :=
  ∀ members : List (ScVal × ScVal), crate.toValue (.map (some members)) =
    .object [("map", .array (members.map fun m =>
      .object [("key", crate.toValue m.1), ("val", crate.toValue m.2)]))]

/-- The answer names the event and has the value of each data param that is not named `event`. -/
structure DecodedRight (e : SpecEvent) (args : Args) (decoded : Value) : Prop where
  event : member decoded "event" = some (.string (crate.text e.firstTopic))
  params : ∀ a ∈ args.data, crate.text a.1.name ≠ "event" →
    member decoded (crate.text a.1.name) = some (scvalToJson crate a.2)

/-- The text under which the decoder looks an event up. -/
def topicName : ScVal → String
  | .symbol s => crate.text s
  | .string s => crate.text s
  | t => crate.toXdrBase64 t

/-- The topic is a string or symbol of this text. -/
def Names (name : String) : ScVal → Prop
  | .symbol s => crate.text s = name
  | .string s => crate.text s = name
  | _ => False

/-- The first topic is the name of no event of the spec. -/
def NamesNoEvent (entries : List ScSpecEntry) (topics : List ScVal) : Prop :=
  ∀ t e, topics.head? = some t → .EventV0 e ∈ entries → ¬Names crate (crate.text e.firstTopic) t

/-- The entry that the decoder finds under a name. -/
def firstNamed (entries : List ScSpecEntry) (name : String) : Option ScSpecEntry :=
  (abiOrder entries).find? fun entry => entry.abiName crate.text == name

/-- The value that the decoder reads for a name at a position. -/
def readMember (data : ScVal) (i : ℕ) (name : String) : Value :=
  (((scvalMembers crate data).lookup name).or
    ((scvalMembers crate data).lookup (toString i))).getD .null

/-! ### When that goes right -/

/-- Params of one name have one value. -/
def NoClash (args : Args) : Prop :=
  ∀ a ∈ args.data, ∀ b ∈ args.data, crate.text b.1.name = crate.text a.1.name →
    crate.text a.1.name ≠ "event" → scvalToJson crate b.2 = scvalToJson crate a.2

/-- A param named like a position has the value at that position. -/
def NoPosition (args : Args) : Prop :=
  ∀ a ∈ args.data, ∀ (i : ℕ) (b : EventParam × ScVal), args.data[i]? = some b →
    crate.text a.1.name = toString i →
    scvalToJson crate b.2 = scvalToJson crate a.2

/-- Neither a vec nor a map. -/
def Scalar : ScVal → Prop
  | .vec (some _) => False
  | .map (some _) => False
  | _ => True

/-- The values arrive under the names of their params. -/
def DataFormat.Keeps (args : Args) : DataFormat → Prop
  | .SingleValue => ∀ a ∈ args.data, crate.text a.1.name ≠ "event" → Scalar a.2
  | .Vec => NoClash crate args ∧ NoPosition crate args
  | .Map => NoClash crate args

/-- The last of these fields that has a name reads this value under it. -/
def LastReads (data : ScVal) (fields : List SpecField) (name : String) (v : Value) : Prop :=
  ∃ before f after, fields = before ++ f :: after ∧ crate.text f.name = name ∧
    (∀ g ∈ after, crate.text g.name ≠ name) ∧ readMember crate data before.length name = v

/-- The first topic has the name under which the event is listed; a fixed topic always does. -/
def Named (e : SpecEvent) (args : Args) : Prop :=
  e.prefixTopics ≠ [] ∨
    ∃ t, (e.topics args).head? = some t ∧ topicName crate t = crate.text e.firstTopic

/-- No data param is named `event`, or the last of these happens to read the event's name; and the
    format keeps the values. -/
structure Kept (e : SpecEvent) (args : Args) (data : ScVal) : Prop where
  event : (∀ a ∈ args.data, crate.text a.1.name ≠ "event") ∨
    LastReads crate data e.inputs "event" (.string (crate.text e.firstTopic))
  params : e.dataFormat.Keeps crate args

/-- An event without a fixed topic whose first topic names another entry, the inputs of which happen
    to read the event's name and values. -/
def ReadsAlike (entries : List ScSpecEntry) (e : SpecEvent) (args : Args) (data : ScVal) : Prop :=
  ∃ t entry fields, (e.topics args).head? = some t ∧ topicName crate t ≠ crate.text e.firstTopic ∧
    firstNamed crate entries (topicName crate t) = some entry ∧ entry.inputs = some fields ∧
    LastReads crate data fields "event" (.string (crate.text e.firstTopic)) ∧
    ∀ a ∈ args.data, crate.text a.1.name ≠ "event" →
      LastReads crate data fields (crate.text a.1.name) (scvalToJson crate a.2)

end

section
variable {crate : XdrCrate} {entries : List ScSpecEntry} {e : SpecEvent} {args : Args}
  {topics : List ScVal} {data : ScVal} {name : String}

/-! ### What the decoder does -/

theorem find_toAbi (name : String) (l : List ScSpecEntry) :
    (l.map (·.toAbi crate.text)).find? (hasName name) =
      (l.find? fun entry => entry.abiName crate.text == name).map (·.toAbi crate.text) := by
  rw [List.find?_map]
  congr 1
  refine congrArg (List.find? · l) (funext fun entry => ?_)
  rw [Function.comp_apply, hasName, member_name_toAbi]
  rfl

theorem eventNameFromTopic_stored {t : ScVal} {ts : List Value}
    (ht : crate.fromXdrBase64 (crate.toXdrBase64 t) = some t) :
    eventNameFromTopic crate (.array (.string (crate.toXdrBase64 t) :: ts)) =
      some (topicName crate t) := by
  rw [eventNameFromTopic, XdrCodec.parseStored, ht]
  cases t <;> rfl

theorem decodeValues_stored (h : crate.fromXdrBase64 (crate.toXdrBase64 data) = some data) :
    decodeValues crate (.string (crate.toXdrBase64 data)) = scvalMembers crate data := by
  rw [decodeValues, XdrCodec.parseStored, h]

/-- The members of the answer: the event's name, then the inputs. -/
def decodedMembers (crate : XdrCrate) (name : String) (data : ScVal) (fields : List SpecField) :
    List (String × Value) :=
  collectMap
    (fields.mapIdx fun i f => (crate.text f.name, readMember crate data i (crate.text f.name)))
    [("event", .string name)]

theorem mapIdx_map {α β γ : Type} (l : List α) (g : α → β) (f : ℕ → β → γ) :
    (l.map g).mapIdx f = l.mapIdx fun i a => f i (g a) := by
  refine List.ext_getElem? fun i => ?_
  rw [List.getElem?_mapIdx, List.getElem?_mapIdx, List.getElem?_map, Option.map_map]
  rfl

/-- The first topic selects an entry, and the entry decides. -/
theorem decode_stored (hback : ReadsBack crate (topics ++ [data])) :
    decodeEventData crate (specToAbi crate.text entries) (storedEvent crate topics data) =
      topics.head?.bind fun t => (firstNamed crate entries (topicName crate t)).bind fun entry =>
        entry.inputs.map fun fields =>
          .object (decodedMembers crate (topicName crate t) data fields) := by
  have hdata := hback data (List.mem_append_right _ List.mem_cons_self)
  cases topics with
  | nil => rfl
  | cons t ts =>
    have ht := hback t (List.mem_append_left _ List.mem_cons_self)
    have htopic : member (storedEvent crate (t :: ts) data) "topic" =
      some (.array (.string (crate.toXdrBase64 t) ::
        ts.map fun t => .string (crate.toXdrBase64 t))) := rfl
    have hvalue : member (storedEvent crate (t :: ts) data) "value" =
      some (.string (crate.toXdrBase64 data)) := rfl
    have hentries : asArray (specToAbi crate.text entries) =
      some ((abiOrder entries).map (·.toAbi crate.text)) := rfl
    rw [decodeEventData, htopic, Option.bind_eq_bind, Option.bind_some,
      eventNameFromTopic_stored ht, Option.bind_eq_bind, Option.bind_some, hentries,
      Option.bind_eq_bind, Option.bind_some, find_toAbi, List.head?_cons, Option.bind_some,
      firstNamed]
    cases (abiOrder entries).find? fun entry => entry.abiName crate.text == topicName crate t with
    | none => rfl
    | some entry =>
      simp only [Option.map_some, Option.bind_some, member_inputs_toAbi, hvalue,
        decodeValues_stored hdata]
      cases entry.inputs with
      | none => rfl
      | some fields =>
        simp only [Option.map_some, Option.bind_some, asArray, decodedMembers]
        rw [mapIdx_map]
        rfl

/-! ### Which entry it finds -/

/-- Specs whose events have different first topics. -/
def DistinctTopics (entries : List ScSpecEntry) : Prop :=
  ∀ e e', .EventV0 e ∈ entries → .EventV0 e' ∈ entries → e.firstTopic = e'.firstTopic → e = e'

/-- An event's own entry is the first of its name. -/
theorem firstNamed_event (htext : Function.Injective crate.text)
    (hdistinct : DistinctTopics entries) (he : .EventV0 e ∈ entries) :
    firstNamed crate entries (crate.text e.firstTopic) = some (.EventV0 e) := by
  rw [firstNamed, abiOrder, List.find?_append]
  have hevents : (entries.filter (·.isEvent)).find? (fun entry =>
      entry.abiName crate.text == crate.text e.firstTopic) = some (.EventV0 e) := by
    cases hfind : (entries.filter (·.isEvent)).find? (fun entry =>
        entry.abiName crate.text == crate.text e.firstTopic) with
    | none =>
      have hnone := List.find?_eq_none.mp hfind (.EventV0 e) (List.mem_filter.mpr ⟨he, rfl⟩)
      exact absurd (beq_self_eq_true _) hnone
    | some entry =>
      have hname := List.find?_some hfind
      obtain ⟨hmem, hevent⟩ := List.mem_filter.mp (List.mem_of_find?_eq_some hfind)
      cases entry with
      | EventV0 e' =>
        have htopic : e'.firstTopic = e.firstTopic := htext (beq_iff_eq.mp hname)
        rw [hdistinct e' e hmem he htopic]
      | FunctionV0 _ | UdtStructV0 _ | UdtUnionV0 _ | UdtEnumV0 _ | UdtErrorEnumV0 _ => cases hevent
  rw [hevents]
  rfl

/-! ### What it reads -/

/-- The last element of a kind. -/
theorem exists_last {α : Type} {p : α → Prop} {l : List α} (h : ∃ a ∈ l, p a) :
    ∃ before b after, l = before ++ b :: after ∧ p b ∧ ∀ c ∈ after, ¬p c := by
  induction l with
  | nil =>
    obtain ⟨a, ha, -⟩ := h
    cases ha
  | cons x l ih =>
    by_cases hlater : ∃ c ∈ l, p c
    · obtain ⟨before, b, after, rfl, hb, hafter⟩ := ih hlater
      exact ⟨x :: before, b, after, rfl, hb, hafter⟩
    · push Not at hlater
      obtain ⟨a, ha, hpa⟩ := h
      rcases List.mem_cons.mp ha with rfl | ha
      · exact ⟨[], a, l, rfl, hpa, hlater⟩
      · exact absurd hpa (hlater a ha)

theorem toString_injective : Function.Injective (toString : ℕ → String) :=
  fun _ _ h => Nat.repr_injective h

theorem toString_ne_event (i : ℕ) : toString i ≠ "event" := by
  intro h
  have hmem : 'e' ∈ (toString i).toList := by rw [h]; decide
  have hdigit : 'e' ∈ Nat.toDigits 10 i := by
    have hlist : (toString i).toList = Nat.toDigits 10 i := String.toList_ofList
    rwa [hlist] at hmem
  have := Nat.isDigit_of_mem_toDigits (by decide) (by decide) hdigit
  revert this
  decide

/-- What the answer says under a name: what the last input of that name reads. -/
theorem member_decoded {fields : List SpecField} {eventName : String} {v : Value}
    (h : LastReads crate data fields name v) :
    member (.object (decodedMembers crate eventName data fields)) name = some v := by
  obtain ⟨before, f, after, rfl, rfl, hafter, rfl⟩ := h
  rw [member, decodedMembers, List.mapIdx_append, List.mapIdx_cons]
  simp only [Nat.zero_add]
  refine lookup_collectMap_last ?_
  intro e he
  obtain ⟨i, hi, rfl⟩ := List.mem_mapIdx.mp he
  exact hafter _ (List.getElem_mem _)

/-- Under another name it says nothing, but for the event's. -/
theorem member_decoded_of_not_mem {fields : List SpecField} {eventName : String}
    (h : ∀ f ∈ fields, crate.text f.name ≠ name) :
    member (.object (decodedMembers crate eventName data fields)) name =
      [("event", Value.string eventName)].lookup name := by
  rw [member, decodedMembers, lookup_collectMap_of_not_mem]
  intro e he
  obtain ⟨i, hi, rfl⟩ := List.mem_mapIdx.mp he
  exact h _ (List.getElem_mem _)

theorem member_decoded_iff {fields : List SpecField} {eventName : String} {v : Value} :
    member (.object (decodedMembers crate eventName data fields)) name = some v ↔
      LastReads crate data fields name v ∨
        (∀ f ∈ fields, crate.text f.name ≠ name) ∧ name = "event" ∧ v = .string eventName := by
  constructor
  · intro h
    by_cases hnamed : ∃ f ∈ fields, crate.text f.name = name
    · obtain ⟨before, f, after, hfields, hf, hafter⟩ := exists_last hnamed
      have hlast : LastReads crate data fields name (readMember crate data before.length name) :=
        ⟨before, f, after, hfields, hf, hafter, rfl⟩
      rw [member_decoded hlast] at h
      cases h
      exact .inl hlast
    · push Not at hnamed
      rw [member_decoded_of_not_mem hnamed] at h
      refine .inr ⟨hnamed, ?_⟩
      by_cases hevent : name = "event"
      · rw [hevent] at h
        exact ⟨hevent, (Option.some.inj h).symm⟩
      · rw [List.lookup_cons, beq_false_of_ne hevent] at h
        cases h
  · rintro (h | ⟨hnamed, rfl, rfl⟩)
    · exact member_decoded h
    · rw [member_decoded_of_not_mem hnamed]
      rfl

/-! ### Vecs -/

theorem lookup_vec_position {items : List ScVal} {i : ℕ} {v : ScVal} (h : items[i]? = some v) :
    (scvalMembers crate (.vec (some items))).lookup (toString i) = some (scvalToJson crate v) := by
  obtain ⟨hi, hv⟩ := List.getElem?_eq_some_iff.mp h
  have hsplit : items = items.take i ++ v :: items.drop (i + 1) := by
    rw [← hv, List.getElem_cons_drop, List.take_append_drop]
  rw [scvalMembers, hsplit, List.mapIdx_append, List.mapIdx_cons, List.length_take,
    Nat.min_eq_left hi.le]
  simp only [Nat.zero_add]
  refine lookup_collectMap_last ?_
  intro e he
  obtain ⟨j, hj, rfl⟩ := List.mem_mapIdx.mp he
  intro heq
  have := toString_injective heq
  omega

theorem lookup_vec_other {items : List ScVal}
    (h : ∀ (i : ℕ) (v : ScVal), items[i]? = some v → name ≠ toString i) :
    (scvalMembers crate (.vec (some items))).lookup name = none := by
  rw [scvalMembers, lookup_collectMap_of_not_mem]
  · rfl
  · intro e he
    obtain ⟨j, hj, rfl⟩ := List.mem_mapIdx.mp he
    exact (h j _ (List.getElem?_eq_getElem hj)).symm

/-- A name that is a position reads the value there. -/
theorem readMember_position {items : List ScVal} {i j : ℕ} {v : ScVal} (h : items[i]? = some v)
    (hname : name = toString i) :
    readMember crate (.vec (some items)) j name = scvalToJson crate v := by
  rw [readMember, hname, lookup_vec_position h]
  rfl

/-- Any other name reads its own position. -/
theorem readMember_vec {items : List ScVal} {j : ℕ} {v : ScVal} (h : items[j]? = some v)
    (hname : ∀ (i : ℕ) (w : ScVal), items[i]? = some w → name ≠ toString i) :
    readMember crate (.vec (some items)) j name = scvalToJson crate v := by
  rw [readMember, lookup_vec_other hname, lookup_vec_position h]
  rfl

/-! ### Maps and scalars -/

/-- A key of a map reads the last value under it. -/
theorem readMember_map {members : List (ScVal × ScVal)} {j : ℕ}
    (h : ∃ m ∈ members, keyText crate m.1 = name) :
    ∃ m ∈ members, keyText crate m.1 = name ∧
      readMember crate (.map (some members)) j name = scvalToJson crate m.2 := by
  obtain ⟨before, m, after, rfl, hm, hafter⟩ := exists_last h
  refine ⟨m, List.mem_append_right _ List.mem_cons_self, hm, ?_⟩
  have hlookup : (scvalMembers crate (.map (some (before ++ m :: after)))).lookup name =
      some (scvalToJson crate m.2) := by
    rw [scvalMembers, List.map_append, List.map_cons, hm]
    refine lookup_collectMap_last ?_
    intro e he
    obtain ⟨m', hm', rfl⟩ := List.mem_map.mp he
    exact hafter m' hm'
  rw [readMember, hlookup]
  rfl

theorem readMember_scalar (h : Scalar data) :
    readMember crate data 0 name = scvalToJson crate data := by
  have hmembers : scvalMembers crate data = [("0", scvalToJson crate data)] := by
    unfold scvalMembers
    split
    · exact h.elim
    · exact h.elim
    · rfl
  have hzero : toString 0 = "0" := rfl
  rw [readMember, hmembers, hzero]
  by_cases hname : name = "0"
  · simp [hname, List.lookup]
  · simp [List.lookup, beq_false_of_ne hname]

/-! ### Single values that are vecs or maps -/

variable (crate) in
theorem readMember_cases (data : ScVal) (j : ℕ) (name : String) :
    readMember crate data j name = .null ∨
      ∃ k, (scvalMembers crate data).lookup k = some (readMember crate data j name) := by
  unfold readMember
  cases hname : (scvalMembers crate data).lookup name with
  | some v => exact .inr ⟨name, hname⟩
  | none =>
    cases hpos : (scvalMembers crate data).lookup (toString j) with
    | some v => exact .inr ⟨toString j, hpos⟩
    | none => exact .inl rfl

theorem scvalsToJson_eq_map (items : List ScVal) :
    scvalsToJson crate items = items.map (scvalToJson crate) := by
  induction items with
  | nil => rw [scvalsToJson]; rfl
  | cons v items ih => rw [scvalsToJson, ih]; rfl

/-- No item of a vec has the JSON of the vec. -/
theorem readMember_ne_vec (items : List ScVal) (j : ℕ) (name : String) :
    readMember crate (.vec (some items)) j name ≠ scvalToJson crate (.vec (some items)) := by
  rw [scvalToJson, scvalsToJson_eq_map]
  rcases readMember_cases crate (.vec (some items)) j name with hnull | ⟨k, hk⟩
  · rw [hnull]
    exact Value.noConfusion
  · rw [scvalMembers] at hk
    rcases mem_of_lookup_collectMap hk with hmem | hnil
    · obtain ⟨i, hi, heq⟩ := List.mem_mapIdx.mp hmem
      rw [← (Prod.mk.inj heq).2]
      intro hself
      have hitem : scvalToJson crate items[i] ∈ items.map (scvalToJson crate) :=
        List.mem_map_of_mem (List.getElem_mem hi)
      have hlt := List.sizeOf_lt_of_mem hitem
      have hsize := congrArg sizeOf hself
      rw [Value.array.sizeOf_spec] at hsize
      omega
    · cases hnil

/-- The JSON of a value is the crate's, or no object. -/
theorem scvalToJson_object {v : ScVal} {members : List (String × Value)}
    (h : scvalToJson crate v = .object members) : crate.toValue v = .object members := by
  unfold scvalToJson at h
  split at h <;> first | exact h | cases h

/-- No value of a map has the JSON of the map. -/
theorem readMember_ne_map (hform : MapForm crate) (members : List (ScVal × ScVal)) (j : ℕ)
    (name : String) :
    readMember crate (.map (some members)) j name ≠ scvalToJson crate (.map (some members)) := by
  have hjson : scvalToJson crate (.map (some members)) = crate.toValue (.map (some members)) := by
    unfold scvalToJson
    rfl
  rw [hjson, hform]
  rcases readMember_cases crate (.map (some members)) j name with hnull | ⟨k, hk⟩
  · rw [hnull]
    exact Value.noConfusion
  · rw [scvalMembers] at hk
    rcases mem_of_lookup_collectMap hk with hmem | hnil
    · obtain ⟨m, hm, heq⟩ := List.mem_map.mp hmem
      rw [← (Prod.mk.inj heq).2]
      intro hself
      have hvalue := congrArg sizeOf (scvalToJson_object hself)
      have hlt := List.sizeOf_lt_of_mem (List.mem_map_of_mem (f := fun m : ScVal × ScVal =>
        Value.object [("key", crate.toValue m.1), ("val", crate.toValue m.2)]) hm)
      simp only [Value.object.sizeOf_spec, Value.array.sizeOf_spec, List.cons.sizeOf_spec,
        List.nil.sizeOf_spec, Prod.mk.sizeOf_spec] at hvalue hlt
      omega
    · cases hnil

/-! ### The values of the params -/

theorem inputs_eq (hargs : args.map Prod.fst = e.params) :
    e.inputs = args.data.map fun a => a.1.toSpecField := by
  rw [SpecEvent.inputs, ← hargs, List.filter_map, List.map_map]
  rfl

variable (crate data) in
/-- A data param reads what the last one of its name reads. -/
theorem member_param (hargs : args.map Prod.fst = e.params) {a : EventParam × ScVal}
    (ha : a ∈ args.data) (eventName : String) : ∃ before b after,
      args.data = before ++ b :: after ∧ crate.text b.1.name = crate.text a.1.name ∧
      member (.object (decodedMembers crate eventName data e.inputs)) (crate.text a.1.name) =
        some (readMember crate data before.length (crate.text a.1.name)) := by
  obtain ⟨before, b, after, hdata, hb, hafter⟩ := exists_last
    (p := fun b : EventParam × ScVal => crate.text b.1.name = crate.text a.1.name) ⟨a, ha, rfl⟩
  refine ⟨before, b, after, hdata, hb, member_decoded ?_⟩
  refine ⟨before.map fun a => a.1.toSpecField, b.1.toSpecField, after.map fun a => a.1.toSpecField,
    ?_, hb, ?_, by rw [List.length_map]⟩
  · rw [inputs_eq hargs, hdata, List.map_append, List.map_cons]
  · intro g hg
    obtain ⟨c, hc, rfl⟩ := List.mem_map.mp hg
    exact hafter c hc

/-- The answer has the value of each data param that is not named `event`. -/
def ParamsRight (crate : XdrCrate) (args : Args) (decoded : Value) : Prop :=
  ∀ a ∈ args.data, crate.text a.1.name ≠ "event" →
    member decoded (crate.text a.1.name) = some (scvalToJson crate a.2)

theorem noClash_of_right {decoded : Value} (h : ParamsRight crate args decoded) :
    NoClash crate args := by
  intro a ha b hb hname hne
  have hmember := h b hb (by rwa [hname])
  rw [hname, h a ha hne] at hmember
  exact (Option.some.inj hmember).symm

section
variable (hargs : args.map Prod.fst = e.params) (eventName : String)
include hargs

theorem params_vec (hdata : data = .vec (some (args.data.map Prod.snd))) :
    ParamsRight crate args (.object (decodedMembers crate eventName data e.inputs)) ↔
      NoClash crate args ∧ NoPosition crate args := by
  subst hdata
  constructor
  · intro h
    refine ⟨noClash_of_right h, ?_⟩
    -- the parameter's own member is that of its name, which a decimal name reads by position
    intro a ha i b hb hname
    obtain ⟨before, c, after, -, -, hmember⟩ := member_param crate
      (.vec (some (args.data.map Prod.snd))) hargs ha eventName
    have hitem : (args.data.map Prod.snd)[i]? = some b.2 := by rw [List.getElem?_map, hb]; rfl
    have hne : crate.text a.1.name ≠ "event" := by
      rw [hname]
      exact toString_ne_event i
    rw [h a ha hne, readMember_position hitem hname] at hmember
    exact (Option.some.inj hmember).symm
  · rintro ⟨hclash, hposition⟩ a ha hne
    obtain ⟨before, b, after, hsplit, hb, hmember⟩ := member_param crate
      (.vec (some (args.data.map Prod.snd))) hargs ha eventName
    rw [hmember]
    congr 1
    -- is the name an index into the data?
    by_cases hpos : ∃ (i : ℕ) (c : EventParam × ScVal), args.data[i]? = some c ∧
        crate.text a.1.name = toString i
    · obtain ⟨i, c, hc, hname⟩ := hpos
      have hitem : (args.data.map Prod.snd)[i]? = some c.2 := by rw [List.getElem?_map, hc]; rfl
      rw [readMember_position hitem hname]
      exact hposition a ha i c hc hname
    · push Not at hpos
      -- otherwise the member is read by the parameter's place in the list
      have hitem : (args.data.map Prod.snd)[before.length]? = some b.2 := by
        rw [hsplit, List.map_append, List.map_cons, List.getElem?_append_right (by simp)]
        simp
      rw [readMember_vec hitem]
      · have hmem : b ∈ args.data := by
          rw [hsplit]
          exact List.mem_append_right _ List.mem_cons_self
        exact hclash a ha b hmem hb hne
      · intro i w hw
        rw [List.getElem?_map] at hw
        obtain ⟨c, hc, -⟩ := Option.map_eq_some_iff.mp hw
        exact hpos i c hc

theorem params_map {members : List (ScVal × ScVal)}
    (hmembers : members.Perm (args.data.map fun a => (ScVal.symbol a.1.name, a.2)))
    (hdata : data = .map (some members)) :
    ParamsRight crate args (.object (decodedMembers crate eventName data e.inputs)) ↔
      NoClash crate args := by
  subst hdata
  refine ⟨noClash_of_right, ?_⟩
  intro hclash a ha hne
  obtain ⟨before, -, -, -, -, hmember⟩ := member_param crate
    (.map (some members)) hargs ha eventName
  rw [hmember]
  congr 1
  have hkey : ∃ m ∈ members, keyText crate m.1 = crate.text a.1.name :=
    ⟨_, hmembers.mem_iff.mpr (List.mem_map_of_mem ha), by simp [keyText, scvalToJson]⟩
  obtain ⟨m, hm, hname, hread⟩ := readMember_map (j := before.length) hkey
  rw [hread]
  obtain ⟨b, hb, rfl⟩ := List.mem_map.mp (hmembers.mem_iff.mp hm)
  have hsame : crate.text b.1.name = crate.text a.1.name := by
    simpa [keyText, scvalToJson] using hname
  exact hclash a ha b hb hsame hne

theorem params_single (hform : MapForm crate) {a : EventParam × ScVal} (hdata : args.data = [a]) :
    ParamsRight crate args (.object (decodedMembers crate eventName a.2 e.inputs)) ↔
      (crate.text a.1.name ≠ "event" → Scalar a.2) := by
  have ha : a ∈ args.data := by rw [hdata]; exact List.mem_cons_self
  obtain ⟨before, b, after, hsplit, -, hmember⟩ := member_param crate a.2 hargs
    ha eventName
  have hzero : before.length = 0 := by
    have hlength := congrArg List.length hsplit
    simp only [hdata, List.length_append, List.length_cons, List.length_nil] at hlength
    omega
  rw [hzero] at hmember
  constructor
  · intro h hne
    have hread := h a ha hne
    rw [hmember] at hread
    have hvalue := Option.some.inj hread
    unfold Scalar
    split
    · next items heq =>
      rw [heq] at hvalue
      exact readMember_ne_vec items 0 _ hvalue
    · next members heq =>
      rw [heq] at hvalue
      exact readMember_ne_map hform members 0 _ hvalue
    · trivial
  · intro hscalar b hb hne
    rw [hdata, List.mem_singleton] at hb
    subst hb
    rw [hmember, readMember_scalar (hscalar hne)]

/-- The values arrive exactly if the format keeps them. -/
theorem params_iff (hform : MapForm crate) (hcarries : e.dataFormat.Carries args data) :
    ParamsRight crate args (.object (decodedMembers crate eventName data e.inputs)) ↔
      e.dataFormat.Keeps crate args := by
  cases hformat : e.dataFormat with
  | SingleValue =>
    rw [hformat] at hcarries
    rcases hcarries with ⟨hnone, -⟩ | ⟨a, hdata, rfl⟩
    · unfold ParamsRight DataFormat.Keeps
      rw [hnone]
      simp
    · rw [params_single hargs eventName hform hdata, DataFormat.Keeps, hdata]
      simp
  | Vec =>
    rw [hformat] at hcarries
    exact params_vec hargs eventName hcarries
  | Map =>
    rw [hformat] at hcarries
    obtain ⟨members, hmembers, hdata⟩ := hcarries
    exact params_map hargs eventName hmembers hdata

/-- Decoded with its own entry, an event comes out right exactly if its name and values are kept. -/
theorem own_iff (hform : MapForm crate) (hcarries : e.dataFormat.Carries args data) :
    DecodedRight crate e args
        (.object (decodedMembers crate (crate.text e.firstTopic) data e.inputs)) ↔
      Kept crate e args data := by
  have hparams := params_iff hargs (crate.text e.firstTopic) hform hcarries
  have hinputs : (∀ f ∈ e.inputs, crate.text f.name ≠ "event") ↔
      ∀ a ∈ args.data, crate.text a.1.name ≠ "event" := by
    rw [inputs_eq hargs]
    exact List.forall_mem_map
  constructor
  · rintro ⟨hevent, hright⟩
    refine ⟨?_, hparams.mp hright⟩
    rcases member_decoded_iff.mp hevent with hlast | ⟨hnone, -, -⟩
    · exact .inr hlast
    · exact .inl (hinputs.mp hnone)
  · rintro ⟨hevent, hkeeps⟩
    refine ⟨member_decoded_iff.mpr ?_, hparams.mpr hkeeps⟩
    rcases hevent with hnone | hlast
    · exact .inr ⟨hinputs.mpr hnone, rfl, rfl⟩
    · exact .inl hlast

end

/-- Decoded with another entry, under another name, it comes out right only by coincidence. -/
theorem foreign_iff {fields : List SpecField} {eventName : String}
    (hne : eventName ≠ crate.text e.firstTopic) :
    DecodedRight crate e args (.object (decodedMembers crate eventName data fields)) ↔
      LastReads crate data fields "event" (.string (crate.text e.firstTopic)) ∧
        ∀ a ∈ args.data, crate.text a.1.name ≠ "event" →
          LastReads crate data fields (crate.text a.1.name) (scvalToJson crate a.2) := by
  constructor
  · rintro ⟨hevent, hright⟩
    constructor
    · rcases member_decoded_iff.mp hevent with hlast | ⟨-, -, heq⟩
      · exact hlast
      · exact absurd (Value.string.inj heq).symm hne
    · intro a ha hname
      rcases member_decoded_iff.mp (hright a ha hname) with hlast | ⟨-, hevent, -⟩
      · exact hlast
      · exact absurd hevent hname
  · rintro ⟨hevent, hright⟩
    exact ⟨member_decoded hevent, fun a ha hname => member_decoded (hright a ha hname)⟩

/-! ### Decoding an event of the spec -/

theorem topicName_of_prefix (h : e.prefixTopics ≠ []) : ∃ t, (e.topics args).head? = some t ∧
    topicName crate t = crate.text e.firstTopic := by
  cases hbegins : e.prefixTopics with
  | nil => exact absurd hbegins h
  | cons p rest => exact ⟨.symbol p, by rw [SpecEvent.topics, hbegins]; rfl,
      by rw [topicName, SpecEvent.firstTopic, hbegins]; rfl⟩

theorem named_iff : Named crate e args ↔ ∃ t, (e.topics args).head? = some t ∧
    topicName crate t = crate.text e.firstTopic := by
  constructor
  · rintro (hbegins | h)
    · exact topicName_of_prefix hbegins
    · exact h
  · exact .inr

theorem decodes_own_iff (htext : Function.Injective crate.text) (hform : MapForm crate)
    (hdistinct : DistinctTopics entries) (he : .EventV0 e ∈ entries)
    (hargs : args.map Prod.fst = e.params) (hcarries : e.dataFormat.Carries args data)
    (hback : ReadsBack crate (e.topics args ++ [data])) :
    (∃ decoded, decodeEventData crate (specToAbi crate.text entries)
        (storedEvent crate (e.topics args) data) = some decoded ∧
        DecodedRight crate e args decoded) ↔
      (Named crate e args ∧ Kept crate e args data) ∨ ReadsAlike crate entries e args data := by
  rw [decode_stored hback]
  constructor
  · rintro ⟨decoded, hdecode, hright⟩
    obtain ⟨t, ht, hdecode⟩ := Option.bind_eq_some_iff.mp hdecode
    obtain ⟨entry, hentry, hdecode⟩ := Option.bind_eq_some_iff.mp hdecode
    obtain ⟨fields, hfields, rfl⟩ := Option.map_eq_some_iff.mp hdecode
    by_cases hname : topicName crate t = crate.text e.firstTopic
    · rw [hname, firstNamed_event htext hdistinct he] at hentry
      cases hentry
      cases hfields
      rw [hname] at hright
      exact .inl ⟨named_iff.mpr ⟨t, ht, hname⟩, (own_iff hargs hform hcarries).mp hright⟩
    · obtain ⟨hevent, hparams⟩ := (foreign_iff hname).mp hright
      exact .inr ⟨t, entry, fields, ht, hname, hentry, hfields, hevent, hparams⟩
  · rintro (⟨hnamed, hkept⟩ | ⟨t, entry, fields, ht, hname, hentry, hfields, hevent, hparams⟩)
    · obtain ⟨t, ht, hname⟩ := named_iff.mp hnamed
      refine ⟨_, ?_, (own_iff hargs hform hcarries).mpr hkept⟩
      rw [ht, Option.bind_some, hname, firstNamed_event htext hdistinct he]
      rfl
    · refine ⟨_, ?_, (foreign_iff hname).mpr ⟨hevent, hparams⟩⟩
      rw [ht, Option.bind_some, hentry, Option.bind_some, hfields]
      rfl

/-- An event of no spec decodes to nothing exactly if the entry of its first topic's name, if there
    is one, is neither a function nor an event. -/
theorem decodes_none_iff {topics : List ScVal} {data : ScVal}
    (hback : ReadsBack crate (topics ++ [data])) :
    decodeEventData crate (specToAbi crate.text entries) (storedEvent crate topics data) = none ↔
      ∀ t entry, topics.head? = some t →
        firstNamed crate entries (topicName crate t) = some entry → entry.inputs = none := by
  rw [decode_stored hback]
  simp only [Option.bind_eq_none_iff, Option.map_eq_none_iff]
  exact ⟨fun h t entry ht => h t ht entry, fun h t ht entry => h t entry ht⟩

/-- A spec decodes its own events exactly if they are named by their first topic and their data
    keeps their names and values, and nothing else exactly if no other entry with inputs has its
    name. -/
theorem spec_decodes_iff (crate : XdrCrate) (htext : Function.Injective crate.text)
    (hform : MapForm crate) (entries : List ScSpecEntry) (hdistinct : DistinctTopics entries) :
    (∀ e args data, .EventV0 e ∈ entries → args.map Prod.fst = e.params →
      e.dataFormat.Carries args data → ReadsBack crate (e.topics args ++ [data]) →
      ((∃ decoded, decodeEventData crate (specToAbi crate.text entries)
          (storedEvent crate (e.topics args) data) = some decoded ∧
          DecodedRight crate e args decoded) ↔
        (Named crate e args ∧ Kept crate e args data) ∨ ReadsAlike crate entries e args data)) ∧
    ∀ topics data, ReadsBack crate (topics ++ [data]) →
      ((NamesNoEvent crate entries topics → decodeEventData crate (specToAbi crate.text entries)
          (storedEvent crate topics data) = none) ↔
        (NamesNoEvent crate entries topics → ∀ t entry, topics.head? = some t →
          firstNamed crate entries (topicName crate t) = some entry → entry.inputs = none)) :=
  ⟨fun _ _ _ he hargs hcarries hback =>
    decodes_own_iff htext hform hdistinct he hargs hcarries hback,
    fun _ _ hback => imp_congr_right fun _ => decodes_none_iff hback⟩

/-! ### A swap along a route -/

mutual
/-- The serde form of maps; other values do not occur below. -/
def mapValue : ScVal → Value
  | .map (some members) => .object [("map", .array (mapValues members))]
  | _ => .null

def mapValues : List (ScVal × ScVal) → List Value
  | [] => []
  | (k, v) :: members => .object [("key", mapValue k), ("val", mapValue v)] :: mapValues members
end

/-- Bytes below 128 as ASCII. -/
def asciiText (bytes : List UInt8) : String := String.ofList (bytes.map fun b => Char.ofNat b.toNat)

/-- A crate that knows two values: the symbol `swap` and the vec `[1, 2]`. -/
def swapCrate : XdrCrate where
  fromXdrBase64 s :=
    if s = "AAAADwAAAARzd2Fw" then some (.symbol [115, 119, 97, 112])
    else if s = "AAAAEAAAAAEAAAACAAAAAwAAAAEAAAADAAAAAg==" then some (.vec (some [.u32 1, .u32 2]))
    else none
  fromValue _ := none
  toXdrBase64
    | .symbol _ => "AAAADwAAAARzd2Fw"
    | _ => "AAAAEAAAAAEAAAACAAAAAwAAAAEAAAADAAAAAg=="
  toValue := mapValue
  text := asciiText
  jsonText _ := ""

/-- `swap(route: Vec<u32>)`, its data the route itself. -/
def swapEvent : SpecEvent where
  name := [83, 119, 97, 112]
  prefixTopics := [[115, 119, 97, 112]]
  params := [⟨⟨[114, 111, 117, 116, 101], .vec .u32⟩, .Data⟩]
  dataFormat := .SingleValue

def swapArgs : Args :=
  [(⟨⟨[114, 111, 117, 116, 101], .vec .u32⟩, .Data⟩, .vec (some [.u32 1, .u32 2]))]

/-- The function `swap(amount: u32)`. -/
def swapFunction : SpecFunction where
  name := [115, 119, 97, 112]
  inputs := [⟨[97], .u32⟩]
  outputs := []

theorem swap_readsBack : ReadsBack swapCrate (swapEvent.topics swapArgs ++
    [.vec (some [.u32 1, .u32 2])]) := by
  intro v hv
  have hcases : v = .symbol [115, 119, 97, 112] ∨ v = .vec (some [.u32 1, .u32 2]) := by
    simpa [SpecEvent.topics, swapEvent, swapArgs, EventParam.isData] using hv
  rcases hcases with rfl | rfl <;> rfl

theorem asciiText_injective : Function.Injective asciiText := by
  intro a b h
  have hchars := congrArg String.toList h
  rw [asciiText, asciiText, String.toList_ofList, String.toList_ofList] at hchars
  refine List.map_injective_iff.mpr ?_ hchars
  intro x y hxy
  have hval : ∀ b : UInt8, (Char.ofNat b.toNat).toNat = b.toNat := by
    intro b
    have hvalid : b.toNat.isValidChar := .inl (b.toNat_lt.trans (by decide))
    rw [Char.ofNat, dif_pos hvalid]
    rfl
  have hnat := congrArg Char.toNat hxy
  simp only [hval] at hnat
  exact UInt8.toNat.inj hnat

theorem swap_mapForm : MapForm swapCrate := by
  intro members
  have hvalues : ∀ members, mapValues members = members.map fun m =>
      Value.object [("key", mapValue m.1), ("val", mapValue m.2)] := by
    intro members
    induction members with
    | nil => rw [mapValues]; rfl
    | cons m members ih =>
      obtain ⟨k, v⟩ := m
      rw [mapValues, ih]
      rfl
  change mapValue (.map (some members)) = _
  rw [mapValue, hvalues]
  rfl

theorem swap_distinct (entries : List ScSpecEntry) (hentries : ∀ entry ∈ entries,
    entry = .FunctionV0 swapFunction ∨ entry = .EventV0 swapEvent) : DistinctTopics entries := by
  intro e e' he he' _
  rcases hentries _ he with h | h <;> cases h
  rcases hentries _ he' with h | h <;> cases h
  rfl

theorem swap_carries :
    swapEvent.dataFormat.Carries swapArgs (.vec (some [.u32 1, .u32 2])) := .inr ⟨_, rfl, rfl⟩

/-- The route is a vec, so it is read by position. -/
theorem swap_not_decodable (entries : List ScSpecEntry) :
    ¬((Named swapCrate swapEvent swapArgs ∧
        Kept swapCrate swapEvent swapArgs (.vec (some [.u32 1, .u32 2]))) ∨
      ReadsAlike swapCrate entries swapEvent swapArgs (.vec (some [.u32 1, .u32 2]))) := by
  rintro (⟨-, hkept⟩ | ⟨t, -, -, ht, hname, -⟩)
  · exact hkept.params _ List.mem_cons_self (by decide)
  · cases ht
    exact hname rfl

theorem spec_decodes_swap : ¬∃ decoded,
    decodeEventData swapCrate
      (specToAbi swapCrate.text [.FunctionV0 swapFunction, .EventV0 swapEvent])
      (storedEvent swapCrate (swapEvent.topics swapArgs) (.vec (some [.u32 1, .u32 2]))) =
        some decoded ∧ DecodedRight swapCrate swapEvent swapArgs decoded := by
  have hiff := (spec_decodes_iff swapCrate asciiText_injective swap_mapForm
    [.FunctionV0 swapFunction, .EventV0 swapEvent]
    (swap_distinct _ fun entry hentry => by simpa using hentry)).1 swapEvent swapArgs
      (.vec (some [.u32 1, .u32 2])) (List.mem_cons_of_mem _ List.mem_cons_self) rfl
      swap_carries swap_readsBack
  exact fun h => swap_not_decodable _ (hiff.mp h)

/-- A route comes out as its first item, and an event that only a function is named like comes out
    at all. -/
theorem not_decoded_swap :
    (¬∃ decoded, decodeEventData swapCrate (specToAbi swapCrate.text [.EventV0 swapEvent])
        (storedEvent swapCrate (swapEvent.topics swapArgs) (.vec (some [.u32 1, .u32 2]))) =
          some decoded ∧ DecodedRight swapCrate swapEvent swapArgs decoded) ∧
      ¬(NamesNoEvent swapCrate [.FunctionV0 swapFunction] (swapEvent.topics swapArgs) →
        decodeEventData swapCrate (specToAbi swapCrate.text [.FunctionV0 swapFunction])
          (storedEvent swapCrate (swapEvent.topics swapArgs) (.vec (some [.u32 1, .u32 2]))) =
            none) := by
  constructor
  · intro h
    refine swap_not_decodable _ ((decodes_own_iff asciiText_injective swap_mapForm
      (swap_distinct _ fun entry hentry => .inr (by simpa using hentry)) List.mem_cons_self rfl
      swap_carries swap_readsBack).mp h)
  · intro h
    have hnone := h fun _ _ _ he => by cases he with | tail _ he => cases he
    have hinputs := (decodes_none_iff swap_readsBack).mp hnone (.symbol [115, 119, 97, 112])
      (.FunctionV0 swapFunction) rfl rfl
    cases hinputs

end

end SorobanPulse.Contracts
