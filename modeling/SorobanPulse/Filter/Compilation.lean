import SorobanPulse.Filter.FilterDsl
import SorobanPulse.Lib.SqlCondition

/-! Filter compilation preserves meaning.

    `DslExpr.eval` evaluates an expression directly, in three-valued logic, over a row of the events
    table; the SQL text is read by `Lib.Sql`. The proof goes through the tree once for each pass:
    the validator's `Ok` gives `Valid` and a bounded `height`; the optimiser keeps both and the
    meaning; the transpiler prints, for such a tree, a text that is read as a condition of the same
    meaning over the parameters it appended. -/

namespace SorobanPulse.Filter
open Lib

/-! ### Direct evaluation -/

section
variable {V : Type} (ops : Sql.Operators V) (ofJson : Value → V) (row : String → V)

/-- The value of a field: the column, `event_type` as text. -/
def fieldValue (field : String) : V :=
  if field = "event_type" then ops.cast "text" (row "event_type") else row field

mutual
/-- The documented meaning of an expression. -/
def DslExpr.eval : DslExpr → Truth
  | .and filters => .all (evalList filters)
  | .or filters => .any (evalList filters)
  | .not filter => .not filter.eval
  | .eq field value => ops.compare .eq (fieldValue ops row field) (ofJson value)
  | .gt field value => ops.compare .gt (fieldValue ops row field) (ofJson value)
  | .lt field value => ops.compare .lt (fieldValue ops row field) (ofJson value)
  | .contains field value =>
    ops.ilike (fieldValue ops row field) (ofJson (.string ("%" ++ value ++ "%")))
  | .in_ field values => ops.isIn (fieldValue ops row field) (values.map ofJson)
  | .between field min max =>
    ops.between (fieldValue ops row field) (ofJson min) (ofJson max)
  | .exists_ field => some (!ops.isNull (fieldValue ops row field))

def evalList : List DslExpr → List Truth
  | [] => []
  | f :: rest => f.eval :: evalList rest
end

theorem evalList_append (fs gs : List DslExpr) :
    evalList ops ofJson row (fs ++ gs) = evalList ops ofJson row fs ++ evalList ops ofJson row gs := by
  induction fs with
  | nil => rfl
  | cons f fs ih => rw [List.cons_append, evalList, ih, evalList, List.cons_append]

/-! ### The optimiser keeps the meaning -/

theorem all_eval_flatMap_spliceAnd (fs : List DslExpr) :
    Truth.all (evalList ops ofJson row (fs.flatMap spliceAnd)) =
      .all (evalList ops ofJson row fs) := by
  induction fs with
  | nil => rfl
  | cons f rest ih =>
    rw [List.flatMap_cons, evalList_append, Truth.all_append, ih, evalList, Truth.all_cons]
    congr 1
    cases f <;> simp [spliceAnd, evalList, DslExpr.eval]

theorem any_eval_flatMap_spliceOr (fs : List DslExpr) :
    Truth.any (evalList ops ofJson row (fs.flatMap spliceOr)) =
      .any (evalList ops ofJson row fs) := by
  induction fs with
  | nil => rfl
  | cons f rest ih =>
    rw [List.flatMap_cons, evalList_append, Truth.any_append, ih, evalList, Truth.any_cons]
    congr 1
    cases f <;> simp [spliceOr, evalList, DslExpr.eval]

theorem evalList_optimizeChildren {filters : List DslExpr}
    (h : ∀ f ∈ filters, (optimizeDsl f).eval ops ofJson row = f.eval ops ofJson row) :
    evalList ops ofJson row (optimizeChildren filters) = evalList ops ofJson row filters := by
  induction filters with
  | nil => rfl
  | cons f rest ih =>
    rw [optimizeChildren, evalList, evalList, h f List.mem_cons_self,
      ih fun g hg => h g (List.mem_cons_of_mem _ hg)]

theorem eval_optimizeDsl (e : DslExpr) :
    (optimizeDsl e).eval ops ofJson row = e.eval ops ofJson row := by
  induction e using DslExpr.induct with
  | and filters ih =>
    rw [optimizeDsl, DslExpr.eval, ← evalList_optimizeChildren ops ofJson row ih,
      ← all_eval_flatMap_spliceAnd]
    split
    · next f hf => rw [hf, evalList, evalList, Truth.all_cons, Truth.all_nil, Truth.and_true]
    · rw [DslExpr.eval]
  | or filters ih =>
    rw [optimizeDsl, DslExpr.eval, ← evalList_optimizeChildren ops ofJson row ih,
      ← any_eval_flatMap_spliceOr]
    split
    · next f hf => rw [hf, evalList, evalList, Truth.any_cons, Truth.any_nil, Truth.or_false]
    · rw [DslExpr.eval]
  | not filter ih =>
    rw [optimizeDsl, DslExpr.eval, ← ih]
    split
    · next inner hinner => rw [hinner, DslExpr.eval, Truth.not_not]
    · rw [DslExpr.eval]
  | _ => rfl

end

/-! ### What the validator accepts -/

mutual
/-- The nodes on the longest path below the root. -/
def DslExpr.height : DslExpr → ℕ
  | .and filters | .or filters => heightList filters
  | .not filter => filter.height + 1
  | _ => 0

/-- The height of a node with these children. -/
def heightList : List DslExpr → ℕ
  | [] => 0
  | f :: rest => max (f.height + 1) (heightList rest)
end

mutual
/-- Every field is allowed, and no `and`, `or` or `in` is empty. -/
def DslExpr.Valid : DslExpr → Prop
  | .and filters | .or filters => filters ≠ [] ∧ ValidList filters
  | .not filter => filter.Valid
  | .eq field _ | .gt field _ | .lt field _ | .contains field _ | .between field _ _
  | .exists_ field => field ∈ ALLOWED_FIELDS
  | .in_ field values => field ∈ ALLOWED_FIELDS ∧ values ≠ []

def ValidList : List DslExpr → Prop
  | [] => True
  | f :: rest => f.Valid ∧ ValidList rest
end

theorem validList_iff {filters : List DslExpr} : ValidList filters ↔ ∀ f ∈ filters, f.Valid := by
  induction filters with
  | nil => exact ⟨fun _ _ h => absurd h List.not_mem_nil, fun _ => trivial⟩
  | cons f rest ih => rw [ValidList, ih, List.forall_mem_cons]

theorem heightList_le {filters : List DslExpr} {n : ℕ} :
    heightList filters ≤ n ↔ ∀ f ∈ filters, f.height + 1 ≤ n := by
  induction filters with
  | nil => exact ⟨fun _ _ h => absurd h List.not_mem_nil, fun _ => Nat.zero_le n⟩
  | cons f rest ih => rw [heightList, Nat.max_le, ih, List.forall_mem_cons]

section
variable {F : Type} {num : F64 F} {errors : List String} {depth maxDepth : ℕ}

theorem notAllowed_eq_nil {field : String} : notAllowed field = [] ↔ field ∈ ALLOWED_FIELDS := by
  rw [notAllowed]
  split <;> simp_all

theorem notAllowedListing_eq_nil {field : String} :
    notAllowedListing field = [] ↔ field ∈ ALLOWED_FIELDS := by
  rw [notAllowedListing]
  split <;> simp_all

/-- No violation below the children: none was there before, and every child is accepted. -/
theorem validateChildren_eq_nil {filters : List DslExpr} {P : DslExpr → Prop}
    (h : ∀ f ∈ filters, ∀ errors, validateRecursive num f errors depth maxDepth = [] →
      errors = [] ∧ P f)
    (hnil : validateChildren num filters errors depth maxDepth = []) :
    errors = [] ∧ ∀ f ∈ filters, P f := by
  induction filters generalizing errors with
  | nil => exact ⟨hnil, fun _ h => absurd h List.not_mem_nil⟩
  | cons f rest ih =>
    rw [validateChildren] at hnil
    obtain ⟨hrec, hrest⟩ := ih (fun g hg => h g (List.mem_cons_of_mem _ hg)) hnil
    obtain ⟨herrors, hf⟩ := h f List.mem_cons_self _ hrec
    exact ⟨herrors, List.forall_mem_cons.mpr ⟨hf, hrest⟩⟩

/-- An `and` / `or` node without a violation. -/
theorem validateNode_eq_nil {filters : List DslExpr}
    (ih : ∀ f ∈ filters, ∀ errors, validateRecursive num f errors (depth + 1) maxDepth = [] →
      errors = [] ∧ f.Valid ∧ depth + 1 + f.height ≤ maxDepth)
    (hnil : validateChildren num filters
      (if filters.isEmpty then errors ++ ["And/Or expressions must have at least one child"]
        else errors) (depth + 1) maxDepth = []) :
    errors = [] ∧ (filters ≠ [] ∧ ValidList filters) ∧ ∀ f ∈ filters, depth + 1 + f.height ≤ maxDepth := by
  obtain ⟨herrors, hall⟩ := validateChildren_eq_nil ih hnil
  split at herrors
  · simp at herrors
  · next hne =>
    refine ⟨herrors, ⟨by simpa using hne, validList_iff.mpr fun f hf => (hall f hf).1⟩, ?_⟩
    exact fun f hf => (hall f hf).2

theorem validateRecursive_eq_nil (e : DslExpr) :
    ∀ errors depth, validateRecursive num e errors depth maxDepth = [] →
      errors = [] ∧ e.Valid ∧ depth + e.height ≤ maxDepth := by
  induction e using DslExpr.induct with
  | and filters ih | or filters ih =>
    intro errors depth h
    rw [validateRecursive] at h
    split at h
    · -- too deep, which is an error
      simp at h
    · next hdepth =>
      obtain ⟨herrors, hvalid, hheight⟩ := validateNode_eq_nil (fun f hf errors => ih f hf errors _) h
      refine ⟨herrors, hvalid, ?_⟩
      -- each child fits below this node, and so does the highest of them
      have hle : heightList filters ≤ maxDepth - depth :=
        heightList_le.mpr fun f hf => by have := hheight f hf; omega
      rw [DslExpr.height]; omega
  | not filter ih =>
    intro errors depth h
    rw [validateRecursive] at h
    split at h
    · simp at h
    · obtain ⟨herrors, hvalid, hheight⟩ := ih _ _ h
      exact ⟨herrors, hvalid, by rw [DslExpr.height]; omega⟩
  | in_ field values =>
    intro errors depth h
    rw [validateRecursive] at h
    split at h
    · simp at h
    · next hdepth =>
      dsimp only at h
      split at h
      · simp at h
      · next hne =>  -- no new error came from the field, and none was there before
        obtain ⟨herrors, hfield⟩ := List.append_eq_nil_iff.mp h
        exact ⟨herrors, ⟨notAllowed_eq_nil.mp hfield, by simpa using hne⟩, Nat.not_lt.mp hdepth⟩
  | between field min max =>
    intro errors depth h
    rw [validateRecursive] at h
    split at h
    · simp at h
    · next hdepth =>
      obtain ⟨h, -⟩ := List.append_eq_nil_iff.mp h
      obtain ⟨herrors, hfield⟩ := List.append_eq_nil_iff.mp h
      exact ⟨herrors, notAllowed_eq_nil.mp hfield, Nat.not_lt.mp hdepth⟩
  | contains field value =>
    intro errors depth h
    rw [validateRecursive] at h
    split at h
    · simp at h
    · next hdepth =>
      obtain ⟨herrors, hfield⟩ := List.append_eq_nil_iff.mp h
      exact ⟨herrors, notAllowed_eq_nil.mp hfield, Nat.not_lt.mp hdepth⟩
  | eq field value | gt field value | lt field value | exists_ field =>
    intro errors depth h
    rw [validateRecursive] at h
    split at h
    · simp at h
    · next hdepth =>
      obtain ⟨herrors, hfield⟩ := List.append_eq_nil_iff.mp h
      exact ⟨herrors, notAllowedListing_eq_nil.mp hfield, Nat.not_lt.mp hdepth⟩

/-- What `validate_dsl` accepts is valid and nests at most ten levels deep. -/
theorem validateDsl_ok {e : DslExpr} (h : validateDsl num e = .ok ()) : e.Valid ∧ e.height ≤ 10 := by
  rw [validateDsl] at h
  split at h
  · next hempty =>
    obtain ⟨-, hvalid, hheight⟩ :=
      validateRecursive_eq_nil e [] 0 (List.isEmpty_iff.mp hempty)
    exact ⟨hvalid, by omega⟩
  · cases h

end

/-! ### The optimiser keeps what the validator accepts -/

/-- Splicing a valid child leaves something, valid and no higher than the child was. -/
structure Splices (splice : DslExpr → List DslExpr) : Prop where
  ne_nil : ∀ f : DslExpr, f.Valid → splice f ≠ []
  valid : ∀ f : DslExpr, f.Valid → ValidList (splice f)
  height : ∀ f : DslExpr, heightList (splice f) ≤ f.height + 1

theorem splices_spliceAnd : Splices spliceAnd where
  ne_nil f h := by
    cases f with
    | and inner => exact h.1
    | _ => exact List.cons_ne_nil _ _
  valid f h := by
    cases f with
    | and inner => exact h.2
    | _ => exact ⟨h, trivial⟩
  height f := by
    cases f with
    | and inner => exact Nat.le_succ _
    | _ => exact Nat.le_refl _

theorem splices_spliceOr : Splices spliceOr where
  ne_nil f h := by
    cases f with
    | or inner => exact h.1
    | _ => exact List.cons_ne_nil _ _
  valid f h := by
    cases f with
    | or inner => exact h.2
    | _ => exact ⟨h, trivial⟩
  height f := by
    cases f with
    | or inner => exact Nat.le_succ _
    | _ => exact Nat.le_refl _

theorem Splices.validList {splice : DslExpr → List DslExpr} (hs : Splices splice)
    {fs : List DslExpr} (h : ValidList fs) : ValidList (fs.flatMap splice) := by
  refine validList_iff.mpr fun g hg => ?_
  obtain ⟨f, hf, hg⟩ := List.mem_flatMap.mp hg
  exact validList_iff.mp (hs.valid f (validList_iff.mp h f hf)) g hg

theorem Splices.flatMap_ne_nil {splice : DslExpr → List DslExpr} (hs : Splices splice)
    {fs : List DslExpr} (hne : fs ≠ []) (h : ValidList fs) : fs.flatMap splice ≠ [] := by
  obtain ⟨f, rest, rfl⟩ := List.exists_cons_of_ne_nil hne
  rw [List.flatMap_cons]
  exact fun hnil => hs.ne_nil f h.1 (List.append_eq_nil_iff.mp hnil).1

theorem Splices.heightList_le {splice : DslExpr → List DslExpr} (hs : Splices splice)
    (fs : List DslExpr) : heightList (fs.flatMap splice) ≤ heightList fs := by
  refine Filter.heightList_le.mpr fun g hg => ?_
  obtain ⟨f, hf, hg⟩ := List.mem_flatMap.mp hg
  exact Nat.le_trans (Filter.heightList_le.mp (hs.height f) g hg)
    (Filter.heightList_le.mp (Nat.le_refl _) f hf)

theorem validList_optimizeChildren {filters : List DslExpr}
    (h : ∀ f ∈ filters, f.Valid → (optimizeDsl f).Valid) (hvalid : ValidList filters) :
    ValidList (optimizeChildren filters) := by
  rw [optimizeChildren_eq_map]
  refine validList_iff.mpr fun g hg => ?_
  obtain ⟨f, hf, rfl⟩ := List.mem_map.mp hg
  exact h f hf (validList_iff.mp hvalid f hf)

theorem heightList_optimizeChildren {filters : List DslExpr}
    (h : ∀ f ∈ filters, (optimizeDsl f).height ≤ f.height) :
    heightList (optimizeChildren filters) ≤ heightList filters := by
  rw [optimizeChildren_eq_map]
  refine heightList_le.mpr fun g hg => ?_
  obtain ⟨f, hf, rfl⟩ := List.mem_map.mp hg
  exact Nat.le_trans (Nat.succ_le_succ (h f hf)) (heightList_le.mp (Nat.le_refl _) f hf)

/-- The children of an optimised node are valid again, and there are some. -/
theorem Splices.valid_children {splice : DslExpr → List DslExpr} (hs : Splices splice)
    {filters : List DslExpr} (h : ∀ f ∈ filters, f.Valid → (optimizeDsl f).Valid)
    (hvalid : filters ≠ [] ∧ ValidList filters) :
    (optimizeChildren filters).flatMap splice ≠ [] ∧
      ValidList ((optimizeChildren filters).flatMap splice) := by
  have hopt := validList_optimizeChildren h hvalid.2
  have hne : optimizeChildren filters ≠ [] := by
    rw [optimizeChildren_eq_map]
    exact fun hnil => hvalid.1 (List.map_eq_nil_iff.mp hnil)
  exact ⟨hs.flatMap_ne_nil hne hopt, hs.validList hopt⟩

theorem Splices.height_children {splice : DslExpr → List DslExpr} (hs : Splices splice)
    {filters : List DslExpr} (h : ∀ f ∈ filters, (optimizeDsl f).height ≤ f.height) :
    heightList ((optimizeChildren filters).flatMap splice) ≤ heightList filters :=
  Nat.le_trans (hs.heightList_le _) (heightList_optimizeChildren h)

theorem valid_optimizeDsl (e : DslExpr) : e.Valid → (optimizeDsl e).Valid := by
  induction e using DslExpr.induct with
  | and filters ih =>
    intro hvalid
    have hchildren := splices_spliceAnd.valid_children ih hvalid
    rw [optimizeDsl]
    split
    · next f hf => exact (hf ▸ hchildren.2 : ValidList [f]).1
    · exact hchildren
  | or filters ih =>
    intro hvalid
    have hchildren := splices_spliceOr.valid_children ih hvalid
    rw [optimizeDsl]
    split
    · next f hf => exact (hf ▸ hchildren.2 : ValidList [f]).1
    · exact hchildren
  | not filter ih =>
    intro hvalid
    have hfilter := ih hvalid
    rw [optimizeDsl]
    split
    · next inner hinner => rw [hinner] at hfilter; exact hfilter
    · exact hfilter
  | _ => exact id

theorem height_optimizeDsl (e : DslExpr) : (optimizeDsl e).height ≤ e.height := by
  induction e using DslExpr.induct with
  | and filters ih =>
    have hflat := splices_spliceAnd.height_children ih
    rw [optimizeDsl]
    split
    · next f hf =>
      rw [hf] at hflat
      exact Nat.le_of_succ_le (heightList_le.mp hflat f (List.mem_singleton.mpr rfl))
    · exact hflat
  | or filters ih =>
    have hflat := splices_spliceOr.height_children ih
    rw [optimizeDsl]
    split
    · next f hf =>
      rw [hf] at hflat
      exact Nat.le_of_succ_le (heightList_le.mp hflat f (List.mem_singleton.mpr rfl))
    · exact hflat
  | not filter ih =>
    rw [optimizeDsl, DslExpr.height]
    split
    · next inner hinner =>
      rw [hinner, DslExpr.height] at ih
      omega
    · rw [DslExpr.height]
      exact Nat.succ_le_succ ih
  | _ => exact Nat.le_refl _

/-! ### What the transpiler prints -/

/-- Over parameters that start with `params`, the condition means what the expression means. -/
def Means (c : Sql.Condition) (e : DslExpr) (params : List Value) : Prop :=
  ∀ (V : Type) (ops : Sql.Operators V) (ofJson : Value → V) (row : String → V) (tail : List Value),
    c.eval ops row ((params ++ tail).map ofJson) = some (e.eval ops ofJson row)

theorem Means.append {c : Sql.Condition} {e : DslExpr} {params : List Value} (h : Means c e params)
    (extra : List Value) : Means c e (params ++ extra) := by
  intro V ops ofJson row tail
  rw [List.append_assoc]
  exact h V ops ofJson row (extra ++ tail)

/-- An allowed field prints an operand with the field's value. -/
theorem columnSql_ok {field : String} (h : field ∈ ALLOWED_FIELDS) :
    ∃ col a, columnSql field = .ok col ∧ Sql.ReadsOperand col a ∧
      ∀ (V : Type) (ops : Sql.Operators V) (row : String → V) (params : List V),
        a.eval ops row params = some (fieldValue ops row field) := by
  simp only [ALLOWED_FIELDS, List.mem_cons, List.not_mem_nil, or_false] at h
  rcases h with rfl | rfl | rfl | rfl | rfl | rfl | rfl | rfl
  case inr.inl =>
    exact ⟨_, .cast (.column "event_type") "text", rfl, .cast (by decide), fun _ _ _ _ => rfl⟩
  all_goals exact ⟨_, .column _, rfl, .column (by decide), fun _ _ _ _ => rfl⟩

/-- The placeholder just pushed stands for the value pushed with it. -/
theorem eval_pushed {V : Type} (ops : Sql.Operators V) (row : String → V) (ofJson : Value → V)
    (params : List Value) (value : Value) (tail : List Value) :
    (Sql.Operand.param (pushParam params value).1).eval ops row
      (((pushParam params value).2 ++ tail).map ofJson) = some (ofJson value) := by
  simp [pushParam, Sql.Operand.eval]

/-- The placeholders of a list stand for its values, in order. -/
theorem pushAll_spec (values : List Value) :
    ∀ params, ∃ placeholders bs, pushAll values params = (placeholders, params ++ values) ∧
      List.Forall₂ Sql.ReadsOperand placeholders bs ∧
      ∀ (V : Type) (ops : Sql.Operators V) (row : String → V) (ofJson : Value → V) (tail : List Value),
        bs.mapM (Sql.Operand.eval ops row ((params ++ values ++ tail).map ofJson)) =
          some (values.map ofJson) := by
  induction values with
  | nil => exact fun params => ⟨[], [], by rw [List.append_nil]; rfl, .nil, fun _ _ _ _ _ => rfl⟩
  | cons v values ih =>
    intro params
    obtain ⟨placeholders, bs, hpush, hreads, heval⟩ := ih (params ++ [v])
    have hassoc : params ++ [v] ++ values = params ++ v :: values := List.append_cons .. |>.symm
    refine ⟨placeholder (pushParam params v).1 :: placeholders, .param (pushParam params v).1 :: bs,
      ?_, .cons (.placeholder _) hreads, fun V ops row ofJson tail => ?_⟩
    · rw [← hassoc, pushAll, pushParam]
      dsimp only
      rw [hpush]
    · have hhead := eval_pushed ops row ofJson params v (values ++ tail)
      have htail := heval V ops row ofJson tail
      rw [hassoc] at htail
      rw [show (pushParam params v).2 ++ (values ++ tail) = params ++ v :: values ++ tail by
        simp [pushParam]] at hhead
      rw [List.mapM_cons, hhead, htail]; rfl

/-- `e`, transpiled after `params`, prints text that is read as a condition of its meaning. -/
def Prints (e : DslExpr) (params : List Value) : Except DslError (String × List Value) → Prop
  | .ok (sql, params') => ∃ extra c, params' = params ++ extra ∧ Sql.Reads sql c ∧ Means c e params'
  | .error _ => False

theorem prints_comparison {e : DslExpr} {field op : String} {value : Value} {params : List Value}
    (hfield : field ∈ ALLOWED_FIELDS) (mk : Sql.Operand → Sql.Operand → Sql.Condition)
    (hreads : ∀ {x y a b}, Sql.ReadsOperand x a → Sql.ReadsOperand y b →
      Sql.Reads (x ++ op ++ y) (mk a b))
    (hmeans : ∀ (V : Type) (ops : Sql.Operators V) (ofJson : Value → V) (row : String → V) params a b,
      a.eval ops row params = some (fieldValue ops row field) →
      b.eval ops row params = some (ofJson value) →
      (mk a b).eval ops row params = some (e.eval ops ofJson row)) :
    Prints e params (comparisonSql field op value params) := by
  obtain ⟨col, a, hcol, hread, heval⟩ := columnSql_ok hfield
  rw [comparisonSql, hcol]
  refine ⟨[value], mk a (.param (pushParam params value).1), rfl,
    hreads hread (.placeholder _), fun V ops ofJson row tail => ?_⟩
  exact hmeans V ops ofJson row _ a _ (heval V ops row _) (eval_pushed ops row ofJson params value tail)

/-- The children of a node print in order, each after the parameters of those before it. -/
theorem transpileParts_spec {filters : List DslExpr} {depth maxDepth : ℕ}
    (ih : ∀ f ∈ filters, ∀ params, Prints f params (transpileRecursive f params depth maxDepth)) :
    ∀ params, ∃ sqls extra cs,
      transpileParts filters params depth maxDepth = .ok (sqls, params ++ extra) ∧
      List.Forall₂ Sql.Reads sqls cs ∧
      List.Forall₂ (fun c f => Means c f (params ++ extra)) cs filters := by
  induction filters with
  | nil => exact fun params => ⟨[], [], [], by rw [List.append_nil]; rfl, .nil, .nil⟩
  | cons f rest ihr =>
    intro params
    have hf := ih f List.mem_cons_self params
    rw [transpileParts]
    rcases hrec : transpileRecursive f params depth maxDepth with e | ⟨sql, params'⟩
    · rw [hrec] at hf; exact hf.elim
    · rw [hrec] at hf
      obtain ⟨extra, c, rfl, hreads, hmeans⟩ := hf
      obtain ⟨sqls, extra', cs, hparts, hreads', hmeans'⟩ :=
        ihr (fun g hg => ih g (List.mem_cons_of_mem _ hg)) (params ++ extra)
      refine ⟨sql :: sqls, extra ++ extra', c :: cs, ?_, .cons hreads hreads', ?_⟩
      · rw [Except.bind]
        dsimp only
        rw [hparts, List.append_assoc]; rfl
      · rw [← List.append_assoc]
        exact .cons (hmeans.append extra') hmeans'

/-- The children of a non-empty node: a first part and the others, each with its condition. -/
theorem transpileParts_cons {filters : List DslExpr} {depth maxDepth : ℕ} (hne : filters ≠ [])
    (ih : ∀ f ∈ filters, ∀ params, Prints f params (transpileRecursive f params depth maxDepth))
    (params : List Value) : ∃ x ys c ds extra,
      transpileParts filters params depth maxDepth = .ok (x :: ys, params ++ extra) ∧
      Sql.Reads x c ∧ List.Forall₂ Sql.Reads ys ds ∧
      List.Forall₂ (fun c f => Means c f (params ++ extra)) (c :: ds) filters := by
  obtain ⟨sqls, extra, cs, hparts, hreads, hmeans⟩ := transpileParts_spec ih params
  cases hmeans with
  | nil => exact absurd rfl hne
  | cons hc hds =>
    cases hreads with
    | cons hx hys => exact ⟨_, _, _, _, extra, hparts, hx, hys, .cons hc hds⟩

theorem forall₂_eval {V : Type} (ops : Sql.Operators V) (ofJson : Value → V) (row : String → V)
    {cs : List Sql.Condition} {filters : List DslExpr} {params : List Value}
    (h : List.Forall₂ (fun c f => Means c f params) cs filters) (tail : List Value) :
    List.Forall₂ (fun c t => c.eval ops row ((params ++ tail).map ofJson) = some t) cs
      (evalList ops ofJson row filters) := by
  induction h with
  | nil => exact .nil
  | cons hc _ ih => exact .cons (hc V ops ofJson row tail) ih

/-- The children of a node within the depth limit print, one level further down. -/
theorem prints_children {filters : List DslExpr} {depth maxDepth : ℕ}
    (ih : ∀ f ∈ filters, f.Valid → ∀ params depth, depth + f.height ≤ maxDepth →
      Prints f params (transpileRecursive f params depth maxDepth))
    (hvalid : ValidList filters) (hdepth : depth + heightList filters ≤ maxDepth) :
    ∀ f ∈ filters, ∀ params,
      Prints f params (transpileRecursive f params (depth + 1) maxDepth) := by
  intro f hf params
  have hheight := heightList_le.mp (Nat.le_refl _) f hf
  exact ih f hf (validList_iff.mp hvalid f hf) params (depth + 1) (by omega)

theorem prints_in {field : String} {values : List Value} {depth maxDepth : ℕ}
    (hfield : field ∈ ALLOWED_FIELDS) (hne : values ≠ []) (params : List Value)
    (hdepth : depth ≤ maxDepth) :
    Prints (.in_ field values) params
      (transpileRecursive (.in_ field values) params depth maxDepth) := by
  obtain ⟨col, a, hcol, hread, heval⟩ := columnSql_ok hfield
  obtain ⟨placeholders, bs, hpush, hreads, hbs⟩ := pushAll_spec values params
  rw [transpileRecursive, if_neg (Nat.not_lt.mpr hdepth), hcol, Except.map]
  dsimp only
  rw [hpush]
  cases hreads with
  | nil =>
    obtain ⟨v, rest, rfl⟩ := List.exists_cons_of_ne_nil hne
    cases hpush
  | @cons x b ys bs hx hys =>
    refine ⟨values, .isIn a (b :: bs), rfl, .isIn hread hx hys, fun V ops ofJson row tail => ?_⟩
    rw [Sql.Condition.eval, heval, hbs V ops row ofJson tail]; rfl

theorem prints_between {field : String} {min max : Value} {depth maxDepth : ℕ}
    (hfield : field ∈ ALLOWED_FIELDS) (params : List Value) (hdepth : depth ≤ maxDepth) :
    Prints (.between field min max) params
      (transpileRecursive (.between field min max) params depth maxDepth) := by
  obtain ⟨col, a, hcol, hread, heval⟩ := columnSql_ok hfield
  rw [transpileRecursive, if_neg (Nat.not_lt.mpr hdepth), hcol]
  refine ⟨[min, max], .between a (.param (pushParam params min).1)
    (.param (pushParam (pushParam params min).2 max).1), ?_,
    .between hread (.placeholder _) (.placeholder _), fun V ops ofJson row tail => ?_⟩
  · exact List.append_assoc params [min] [max]
  · have hlo : (Sql.Operand.param (pushParam params min).1).eval ops row
        ((params ++ [min] ++ [max] ++ tail).map ofJson) = some (ofJson min) := by
      rw [List.append_assoc _ [max]]
      exact eval_pushed ops row ofJson params min ([max] ++ tail)
    have hhi : (Sql.Operand.param (pushParam (params ++ [min]) max).1).eval ops row
        ((params ++ [min] ++ [max] ++ tail).map ofJson) = some (ofJson max) :=
      eval_pushed ops row ofJson (params ++ [min]) max tail
    rw [Sql.Condition.eval, heval, hlo, Option.bind_some, Option.bind_some]
    exact congrArg (Option.map _) hhi

theorem transpileRecursive_spec {maxDepth : ℕ} (e : DslExpr) : e.Valid → ∀ params depth,
    depth + e.height ≤ maxDepth → Prints e params (transpileRecursive e params depth maxDepth) := by
  induction e using DslExpr.induct with
  | and filters ih =>
    rintro ⟨hne, hvalid⟩ params depth hdepth
    rw [DslExpr.height] at hdepth
    -- the children sit one level deeper, which the height allows
    have hchild := prints_children ih hvalid hdepth
    obtain ⟨x, ys, c, ds, extra, hparts, hx, hys, hmeans⟩ := transpileParts_cons hne hchild params
    rw [transpileRecursive, if_neg (by omega), if_neg (by simpa using hne), hparts]
    -- joined by AND without parentheses of their own, but inside the group's
    refine ⟨extra, ds.foldl .and c, rfl, hx.and hys, fun V ops ofJson row tail => ?_⟩
    cases hmeans with
    | cons hc hds =>
      rw [DslExpr.eval, evalList]
      exact Sql.eval_foldl_and (hc V ops ofJson row tail) (forall₂_eval ops ofJson row hds tail)
  | or filters ih =>
    rintro ⟨hne, hvalid⟩ params depth hdepth
    rw [DslExpr.height] at hdepth
    have hchild := prints_children ih hvalid hdepth
    obtain ⟨x, ys, c, ds, extra, hparts, hx, hys, hmeans⟩ := transpileParts_cons hne hchild params
    rw [transpileRecursive, if_neg (by omega), if_neg (by simpa using hne), hparts]
    refine ⟨extra, ds.foldl .or c, rfl, hx.or hys, fun V ops ofJson row tail => ?_⟩
    cases hmeans with
    | cons hc hds =>
      rw [DslExpr.eval, evalList]
      exact Sql.eval_foldl_or (hc V ops ofJson row tail) (forall₂_eval ops ofJson row hds tail)
  | not filter ih =>
    intro hvalid params depth hdepth
    rw [DslExpr.height] at hdepth
    have hinner := ih hvalid params (depth + 1) (by omega)
    rw [transpileRecursive, if_neg (by omega)]
    rcases hrec : transpileRecursive filter params (depth + 1) maxDepth with e | ⟨sql, params'⟩
    · rw [hrec] at hinner; exact hinner.elim
    · rw [hrec] at hinner
      obtain ⟨extra, c, hextra, hreads, hmeans⟩ := hinner
      refine ⟨extra, .not c, hextra, hreads.not, fun V ops ofJson row tail => ?_⟩
      rw [Sql.Condition.eval, hmeans V ops ofJson row tail, DslExpr.eval]; rfl
  | eq field value =>
    intro hvalid params depth hdepth
    rw [transpileRecursive, if_neg (by omega)]
    refine prints_comparison hvalid (.compare .eq) (fun hx hy => ?_) ?_
    · -- the operator stands between blanks, so the reader cannot take it for part of an operand
      exact .compare (s := '=') ⟨' ', _, rfl, rfl⟩ ⟨" =".toList, ' ', rfl, rfl⟩ (by decide) rfl hx hy
    · intro V ops ofJson row params a b ha hb
      rw [Sql.Condition.eval, ha, hb]; rfl
  | gt field value =>
    intro hvalid params depth hdepth
    rw [transpileRecursive, if_neg (by omega)]
    refine prints_comparison hvalid (.compare .gt) (fun hx hy => ?_) ?_
    · exact .compare (s := '>') ⟨' ', _, rfl, rfl⟩ ⟨" >".toList, ' ', rfl, rfl⟩ (by decide) rfl hx hy
    · intro V ops ofJson row params a b ha hb
      rw [Sql.Condition.eval, ha, hb]; rfl
  | lt field value =>
    intro hvalid params depth hdepth
    rw [transpileRecursive, if_neg (by omega)]
    refine prints_comparison hvalid (.compare .lt) (fun hx hy => ?_) ?_
    · exact .compare (s := '<') ⟨' ', _, rfl, rfl⟩ ⟨" <".toList, ' ', rfl, rfl⟩ (by decide) rfl hx hy
    · intro V ops ofJson row params a b ha hb
      rw [Sql.Condition.eval, ha, hb]; rfl
  | contains field value =>
    intro hvalid params depth hdepth
    rw [transpileRecursive, if_neg (by omega)]
    refine prints_comparison hvalid .ilike (fun hx hy => .ilike hx hy) ?_
    intro V ops ofJson row params a b ha hb
    rw [Sql.Condition.eval, ha, hb]; rfl
  | in_ field values =>  -- an empty list was refused by the validation
    rintro ⟨hfield, hne⟩ params depth hdepth
    exact prints_in hfield hne params (Nat.le_of_add_right_le hdepth)
  | between field min max =>
    intro hvalid params depth hdepth
    exact prints_between hvalid params (Nat.le_of_add_right_le hdepth)
  | exists_ field =>
    intro hvalid params depth hdepth
    obtain ⟨col, a, hcol, hread, heval⟩ := columnSql_ok hvalid
    rw [transpileRecursive, if_neg (by omega), hcol]
    refine ⟨[], .isNotNull a, (List.append_nil _).symm, Sql.Reads.isNotNull hread,
      fun V ops ofJson row tail => ?_⟩
    rw [Sql.Condition.eval, heval]; rfl

/-! ### Compilation -/

/-- The fragment, read as SQL with its parameters bound, has the meaning of the expression in every
    row. -/
def Compiles (e : DslExpr) (sql : String) (params : List Value) : Prop :=
  ∃ c, Sql.parse sql = some c ∧
    ∀ (V : Type) (ops : Sql.Operators V) (ofJson : Value → V) (row : String → V),
      c.eval ops row (params.map ofJson) = some (e.eval ops ofJson row)

/-- Every expression the validator accepts is optimised and transpiled to a fragment that means the
    same. -/
theorem dslToSql_optimizeDsl {F : Type} (num : F64 F) (e : DslExpr)
    (h : validateDsl num e = .ok ()) :
    ∃ sql params, dslToSql (optimizeDsl e) = .ok (sql, params) ∧ Compiles e sql params := by
  obtain ⟨hvalid, hheight⟩ := validateDsl_ok h
  have hprints : Prints (optimizeDsl e) [] (dslToSql (optimizeDsl e)) :=
    transpileRecursive_spec (optimizeDsl e) (valid_optimizeDsl e hvalid) [] 0
      (by have := height_optimizeDsl e; omega)
  rcases hsql : dslToSql (optimizeDsl e) with err | ⟨sql, params⟩
  · rw [hsql] at hprints; exact hprints.elim
  · rw [hsql] at hprints
    obtain ⟨extra, c, -, hreads, hmeans⟩ := hprints
    refine ⟨sql, params, rfl, c, hreads.parse, fun V ops ofJson row => ?_⟩
    rw [← eval_optimizeDsl ops ofJson row e, ← List.append_nil params]
    exact hmeans V ops ofJson row []

/-- Integers as doubles; exact below 2^53. -/
def smallIntegers : F64 ℤ where
  asF64
    | .number (.int n) => some n
    | _ => none
  gt lo hi := decide (hi < lo)
  display n := toString n

/-- `NOT (ledger BETWEEN 5 AND 9 AND (NOT NOT event_type exists))`. -/
def nestedFilter : DslExpr :=
  .not (.and [.between "ledger" (.number (.int 5)) (.number (.int 9)),
    .and [.not (.not (.exists_ "event_type"))]])

theorem dslToSql_nestedFilter :
    ∃ sql params, dslToSql (optimizeDsl nestedFilter) = .ok (sql, params) ∧
      Compiles nestedFilter sql params :=
  dslToSql_optimizeDsl smallIntegers nestedFilter rfl

end SorobanPulse.Filter
