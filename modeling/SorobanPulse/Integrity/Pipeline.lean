import SorobanPulse.Integrity.Writers
import SorobanPulse.Lib.Fallible

/-! What a transformation pipeline does to the layout of a payload.

    Which steps fail is told by the request. Those that do not are tracked by the kinds of the
    members, without a look at their values:

        mask_field f       f, if it is there, becomes a string
        drop_field f       f goes
        rename_field f n   what f has, if it is there, goes to n
        set_field f v      f gets the kind of v -/

namespace SorobanPulse.Integrity
open Batch Lib

/-- A step with the operand it needs. -/
def Accepted (step : TransformStep) : Prop :=
  step.op = "mask_field" ∨ step.op = "drop_field" ∨
    (step.op = "rename_field" ∧ (step.value.bind Value.asStr).isSome = true) ∨
    (step.op = "set_field" ∧ step.value.isSome = true)

instance : DecidablePred Accepted := fun _ => inferInstanceAs (Decidable (_ ∨ _))

/-- Where the member under `field` goes to, with the kind `kind`. -/
def Layout.set (layout : Layout) (field : String) (kind : Option Kind) : Layout :=
  Function.update layout field kind

def trackStep (layout : Layout) (step : TransformStep) : Layout :=
  if step.op = "mask_field" then
    if (layout step.field).isSome then layout.set step.field (some .string) else layout
  else if step.op = "drop_field" then layout.set step.field none
  else if step.op = "rename_field" then
    match step.value.bind Value.asStr, layout step.field with
    | some newName, some kind => (layout.set step.field none).set newName (some kind)
    | _, _ => layout
  else layout.set step.field (step.value.map kindOf)

/-- The layout a pipeline leads to. -/
def trackPipeline (pipeline : List TransformStep) (layout : Layout) : Layout :=
  pipeline.foldl trackStep layout

/-- The payload is an object of this layout. -/
def HasLayout (data : Value) (layout : Layout) : Prop :=
  ∃ map, data = .object map ∧ layoutOf map = layout

section
variable {map : List (String × Value)} {field : String} {v : Value}

theorem layoutOf_insertMember : layoutOf (insertMember field v map) =
    (layoutOf map).set field (some (kindOf v)) := by
  funext key
  rw [Layout.set, Function.update_apply]
  split
  · next h =>
    rw [h, layoutOf, lookup_insertMember]
    rfl
  · next h =>
    rw [layoutOf, lookup_insertMember_of_ne h]
    rfl

theorem lookup_removeMember (key : String) : (removeMember field map).lookup key =
    if key = field then none else map.lookup key := by
  rw [removeMember]
  induction map with
  | nil => simp
  | cons e map ih =>
    rw [List.filter_cons]
    split
    · next hkeep =>
      have hne : e.1 ≠ field := by simpa using hkeep
      rw [List.lookup_cons, List.lookup_cons, ih]
      by_cases hkey : key = e.1
      · subst hkey
        simp [hne]
      · simp [beq_eq_false_iff_ne.mpr hkey]
    · next hdrop =>
      have heq : e.1 = field := by simpa using hdrop
      rw [ih]
      split
      · rfl
      · next hkey => rw [List.lookup_cons, heq, beq_eq_false_iff_ne.mpr hkey]

theorem layoutOf_removeMember :
    layoutOf (removeMember field map) = (layoutOf map).set field none := by
  funext key
  rw [layoutOf, lookup_removeMember, Layout.set, Function.update_apply]
  split <;> rfl

/-- Steps fail by themselves, and are tracked otherwise. -/
theorem tracks_applyTransformStep :
    Tracks applyTransformStep Accepted trackStep HasLayout where
  accepted := by
    rintro _ _ step haccepted ⟨map, rfl, rfl⟩
    unfold applyTransformStep trackStep mapObject
    rcases haccepted with hop | hop | ⟨hop, hvalue⟩ | ⟨hop, hvalue⟩
    · -- mask
      simp only [hop, if_true]
      refine ⟨_, rfl, _, rfl, ?_⟩
      have hthere : (layoutOf map step.field).isSome = (map.lookup step.field).isSome := by
        simp [layoutOf]
      rw [hthere]
      split
      · exact layoutOf_insertMember
      · rfl
    · -- drop
      simp only [hop, if_true]
      exact ⟨_, by simp, _, rfl, layoutOf_removeMember⟩
    · -- rename
      obtain ⟨newName, hname⟩ := Option.isSome_iff_exists.mp hvalue
      simp only [hop, hname]
      cases hlookup : map.lookup step.field with
      | none => exact ⟨.object map, by simp, map, rfl, by simp [layoutOf, hlookup]⟩
      | some v =>
        refine ⟨.object (insertMember newName v (removeMember step.field map)), by simp, _, rfl, ?_⟩
        simp [layoutOf_insertMember, layoutOf_removeMember, layoutOf, hlookup]
    · -- set
      obtain ⟨v, hv⟩ := Option.isSome_iff_exists.mp hvalue
      simp only [hop, hv]
      exact ⟨_, by simp, _, rfl, layoutOf_insertMember⟩
  -- a step that is not accepted is an error, whatever the data
  refused := by
    intro data step hrefused
    simp only [Accepted, not_or, not_and, Bool.not_eq_true, Option.isSome_eq_false_iff,
      Option.isNone_iff_eq_none] at hrefused
    obtain ⟨hmask, hdrop, hrename, hset⟩ := hrefused
    unfold applyTransformStep
    rw [if_neg hmask, if_neg hdrop]
    split
    · next hop => simp [hrename hop]
    · split
      · next hop => simp [hset hop]
      · exact ⟨_, rfl⟩

end

/-- A pipeline of accepted steps leads where the layout says. -/
theorem applyPipeline_ok {pipeline : List TransformStep} (h : ∀ step ∈ pipeline, Accepted step)
    (map : List (String × Value)) : ∃ map',
      applyPipeline pipeline (.object map) = .ok (.object map') ∧
        layoutOf map' = trackPipeline pipeline (layoutOf map) := by
  obtain ⟨_, hfold, map', rfl, hlayout⟩ := tracks_applyTransformStep.foldlM_ok h ⟨map, rfl, rfl⟩
  exact ⟨map', hfold, hlayout⟩

/-- Any other fails on every payload. -/
theorem applyPipeline_error {pipeline : List TransformStep}
    (h : ¬ ∀ step ∈ pipeline, Accepted step) (data : Value) :
    ∃ msg, applyPipeline pipeline data = .error msg :=
  tracks_applyTransformStep.foldlM_error h data

end SorobanPulse.Integrity
