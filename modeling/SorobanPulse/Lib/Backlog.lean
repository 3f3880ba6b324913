import SorobanPulse.Lib.Keyset

/-! A backlog worked off in batches, in which some items keep their place.

        backlog, by key   s s m s m …        batch of 2: s s, then again s s

    A call fetches the first items by a key, ties in any order, and takes away those of them that
    move. The calls go on until one takes nothing. An item that moves is sure to go exactly when there
    is less than a batch of items that stay, at its key or before: `gone_iff`. -/

namespace SorobanPulse.Lib.Backlog
open Keyset

section
variable {α κ ι : Type*} [LinearOrder κ] [DecidableEq ι]
variable (key : α → κ) (name : α → ι) (moves : α → Bool) (batch : ℕ)

/-- The first items by `key`; those of one key come in any order. -/
def Fetches (q rows : List α) : Prop :=
  ∃ order : List α, order.Perm q ∧ order.Pairwise (fun a b => key a ≤ key b) ∧ rows = order.take batch

/-- What is left of a backlog after these items. -/
def left (q rows : List α) : List α :=
  q.filter fun e => !rows.any fun row => moves row && decide (name e = name row)

/-- Calls until one takes nothing. -/
inductive Run : List α → List α → Prop
  | stop {q rows : List α} : Fetches key batch q rows → (∀ row ∈ rows, moves row = false) → Run q q
  | next {q q' rows : List α} : Fetches key batch q rows → (∃ row ∈ rows, moves row = true) →
      Run (left name moves q rows) q' → Run q q'

/-- The items that stay and may be fetched before `e`. -/
def ahead (q : List α) (e : α) : ℕ := q.countP fun u => !moves u && decide (key u ≤ key e)

end

section
variable {α κ ι : Type*} [LinearOrder κ] [DecidableEq ι]
variable {key : α → κ} {name : α → ι} {moves : α → Bool} {batch : ℕ} {q q' rows : List α} {e f : α}

/-! ### One call -/

omit [DecidableEq ι] in
theorem Fetches.subset (h : Fetches key batch q rows) (he : e ∈ rows) : e ∈ q := by
  obtain ⟨order, hperm, -, rfl⟩ := h
  exact hperm.mem_iff.mp (List.mem_of_mem_take he)

omit [LinearOrder κ] in
theorem mem_left_iff : e ∈ left name moves q rows ↔
    e ∈ q ∧ ∀ row ∈ rows, moves row = true → name e ≠ name row := by
  rw [left, List.mem_filter]
  simp

omit [LinearOrder κ] in
theorem left_sublist : (left name moves q rows).Sublist q := List.filter_sublist

omit [LinearOrder κ] in
theorem left_of_stay (h : ∀ row ∈ rows, moves row = false) : left name moves q rows = q := by
  refine List.filter_eq_self.mpr fun e _ => ?_
  rw [Bool.not_eq_true', List.any_eq_false]
  intro row hrow
  simp [h row hrow]

omit [LinearOrder κ] in
theorem nodup_left (h : (q.map name).Nodup) : ((left name moves q rows).map name).Nodup :=
  h.sublist (left_sublist.map name)

theorem ahead_left_le : ahead key moves (left name moves q rows) e ≤ ahead key moves q e :=
  left_sublist.countP_le

/-- A call that takes something leaves fewer items that move. -/
theorem countP_left_lt (hfetch : Fetches key batch q rows) (hf : f ∈ rows) (hmoves : moves f = true) :
    (left name moves q rows).countP moves < q.countP moves := by
  have hgone : 0 < (q.filter fun e =>
      !!rows.any fun row => moves row && decide (name e = name row)).countP moves := by
    refine List.countP_pos_iff.mpr ⟨f, List.mem_filter.mpr ⟨hfetch.subset hf, ?_⟩, hmoves⟩
    simp only [Bool.not_not, List.any_eq_true, Bool.and_eq_true, decide_eq_true_eq]
    exact ⟨f, hf, hmoves, rfl⟩
  rw [left, List.countP_eq_countP_filter_add q _ fun e =>
    !rows.any fun row => moves row && decide (name e = name row)]
  omega

/-! ### No more than a batch ahead -/

/-- An item that moves is fetched, if there is less than a batch to stay ahead of it and none of the
    batch moves. -/
theorem mem_of_ahead (hfetch : Fetches key batch q rows) (hstay : ∀ row ∈ rows, moves row = false)
    (he : e ∈ q) (hahead : ahead key moves q e < batch) : e ∈ rows := by
  obtain ⟨order, hperm, hsorted, rfl⟩ := hfetch
  rw [← List.take_append_drop batch order] at hperm hsorted
  rcases List.mem_append.mp (hperm.mem_iff.mpr he) with htake | hdrop
  · exact htake
  have hall : ∀ u ∈ order.take batch, (!moves u && decide (key u ≤ key e)) = true := by
    intro u hu
    have hle := (List.pairwise_append.mp hsorted).2.2 u hu e hdrop
    simp [hstay u hu, hle]
  have hlength : batch ≤ (order.take batch).length := by
    have hpos := List.length_pos_of_mem hdrop
    rw [List.length_drop] at hpos
    rw [List.length_take]
    omega
  rw [ahead, ← hperm.countP_eq, List.countP_append, List.countP_eq_length.mpr hall] at hahead
  omega

theorem Run.gone (h : Run key name moves batch q q') (hmoves : moves e = true)
    (hahead : ahead key moves q e < batch) : e ∉ q' := by
  induction h with
  | stop hfetch hstay =>
    intro he
    have hfalse := hstay e (mem_of_ahead hfetch hstay he hahead)
    rw [hmoves] at hfalse
    cases hfalse
  | next _ _ _ ih => exact ih (ahead_left_le.trans_lt hahead)

/-! ### A batch or more ahead -/

/-- By the key and, of one key, those that stay first. -/
def placeKey (key : α → κ) (moves : α → Bool) (e : α) : κ ×ₗ Bool := toLex (key e, moves e)

theorem placeKey_le {a b : α} : placeKey key moves a ≤ placeKey key moves b ↔
    key a < key b ∨ key a = key b ∧ moves a ≤ moves b :=
  Prod.Lex.toLex_le_toLex

theorem fetches_place (q : List α) : Fetches key batch q (page (placeKey key moves) batch q) := by
  refine ⟨_, perm_sortOn _ _, ?_, rfl⟩
  refine (pairwise_sortOn (placeKey key moves) q).imp fun hab => ?_
  rcases placeKey_le.mp hab with hlt | ⟨heq, -⟩
  · exact hlt.le
  · exact heq.le

/-- A full batch of items that stay comes before `e`. -/
theorem not_mem_place (hahead : batch ≤ ahead key moves q e) (hmoves : moves e = true) :
    e ∉ page (placeKey key moves) batch q := by
  intro he
  obtain ⟨pre, post, hsplit⟩ := List.append_of_mem he
  have hperm := perm_sortOn (placeKey key moves) q
  have hsorted := pairwise_sortOn (placeKey key moves) q
  rw [← List.take_append_drop batch (sortOn _ _)] at hperm hsorted
  rw [page] at hsplit
  rw [hsplit, List.append_assoc, List.cons_append] at hperm hsorted
  -- at `e` and behind it nothing stays with a key as small
  have hbehind : ∀ u ∈ e :: (post ++ (sortOn (placeKey key moves) q).drop batch),
      ¬(!moves u && decide (key u ≤ key e)) = true := by
    intro u hu
    rcases List.mem_cons.mp hu with rfl | hu
    · simp [hmoves]
    · have hle := (List.pairwise_cons.mp (List.pairwise_append.mp hsorted).2.1).1 u hu
      rcases placeKey_le.mp hle with hlt | ⟨-, hle⟩
      · simp [hlt]
      · rw [hmoves] at hle
        simp [Bool.eq_true_of_true_le hle]
  have hlength : pre.length < batch := by
    have h := congrArg List.length hsplit
    rw [List.length_take, List.length_append, List.length_cons] at h
    omega
  rw [ahead, ← hperm.countP_eq, List.countP_append, List.countP_eq_zero.mpr hbehind] at hahead
  have := List.countP_le_length (p := fun u => !moves u && decide (key u ≤ key e)) (l := pre)
  omega

/-- What stays is still there after a call. -/
theorem ahead_left (hnd : (q.map name).Nodup) (hfetch : Fetches key batch q rows) :
    ahead key moves (left name moves q rows) e = ahead key moves q e := by
  rw [ahead, left, List.countP_filter]
  refine List.countP_congr fun u hu => ?_
  cases hmoves : moves u with
  | true => simp
  | false =>
    have hkept : ∀ row ∈ rows, moves row = true → name u ≠ name row := by
      intro row hrow hrowMoves hname
      rw [List.inj_on_of_nodup_map hnd hu (hfetch.subset hrow) hname, hrowMoves] at hmoves
      cases hmoves
    simpa using fun _ => hkept

/-- Calls that break ties against `e` end with it left. -/
theorem exists_run_mem : ∀ {q : List α}, (q.map name).Nodup → e ∈ q → moves e = true →
    batch ≤ ahead key moves q e → ∃ q', Run key name moves batch q q' ∧ e ∈ q' := by
  intro q
  induction hn : q.countP moves using Nat.strong_induction_on generalizing q with
  | h n ih =>
    intro hnd he hmoves hahead
    have hfetch : Fetches key batch q (page (placeKey key moves) batch q) := fetches_place q
    by_cases hstay : ∀ row ∈ page (placeKey key moves) batch q, moves row = false
    · exact ⟨q, .stop hfetch hstay, he⟩
    · push Not at hstay
      obtain ⟨f, hf, hfmoves⟩ := hstay
      have hfmoves := Bool.eq_true_of_not_eq_false hfmoves
      have hnot := not_mem_place hahead hmoves
      have he' : e ∈ left name moves q (page (placeKey key moves) batch q) := by
        refine mem_left_iff.mpr ⟨he, fun row hrow _ hname => hnot ?_⟩
        rwa [List.inj_on_of_nodup_map hnd he (hfetch.subset hrow) hname]
      have hlt : (left name moves q (page (placeKey key moves) batch q)).countP moves <
          q.countP moves := countP_left_lt hfetch hf hfmoves
      obtain ⟨q', hrun, hmem⟩ := ih _ (hn ▸ hlt) rfl (nodup_left hnd) he' hmoves
        (by rwa [ahead_left hnd hfetch])
      exact ⟨q', .next hfetch ⟨f, hf, hfmoves⟩ hrun, hmem⟩

/-- An item that moves is gone after all runs exactly when less than a batch to stay is ahead. -/
theorem gone_iff (hnd : (q.map name).Nodup) (he : e ∈ q) (hmoves : moves e = true) :
    (∀ q', Run key name moves batch q q' → e ∉ q') ↔ ahead key moves q e < batch := by
  constructor
  · intro h
    by_contra! hahead
    obtain ⟨q', hrun, hmem⟩ := exists_run_mem hnd he hmoves hahead
    exact h q' hrun hmem
  · exact fun hahead q' hrun => hrun.gone hmoves hahead

end

/-! ### A table with a backlog -/

section
variable {S α κ ι : Type*} [LinearOrder κ] [DecidableEq ι]
variable (key : α → κ) (name : α → ι) (moves : α → Bool) (batch : ℕ)
variable (pending : S → List α) (call : S → List α → S × ℕ)

/-- A call that works on the items fetched and returns how many changes it made. -/
structure Works : Prop where
  left : ∀ {s rows}, Fetches key batch (pending s) rows →
    pending (call s rows).1 = left name moves (pending s) rows
  zero : ∀ {s rows}, Fetches key batch (pending s) rows →
    ((call s rows).2 = 0 ↔ ∀ row ∈ rows, moves row = false)

/-- Calls until one returns 0. -/
inductive Calls : S → S → Prop
  | last {s : S} {rows : List α} : Fetches key batch (pending s) rows → (call s rows).2 = 0 →
      Calls s (call s rows).1
  | again {s s' : S} {rows : List α} : Fetches key batch (pending s) rows → (call s rows).2 ≠ 0 →
      Calls (call s rows).1 s' → Calls s s'

/-- A call on `s` that does not return 0 leads to `s'`. -/
def Again (s' s : S) : Prop :=
  ∃ rows, Fetches key batch (pending s) rows ∧ (call s rows).2 ≠ 0 ∧ s' = (call s rows).1

end

section
variable {S α κ ι : Type*} [LinearOrder κ] [DecidableEq ι]
variable {key : α → κ} {name : α → ι} {moves : α → Bool} {batch : ℕ}
variable {pending : S → List α} {call : S → List α → S × ℕ} {s s' : S} {q' : List α}

theorem Calls.run (hworks : Works key name moves batch pending call)
    (h : Calls key batch pending call s s') : Run key name moves batch (pending s) (pending s') := by
  induction h with
  | last hfetch hzero =>
    have hstay := (hworks.zero hfetch).mp hzero
    rw [hworks.left hfetch, left_of_stay hstay]
    exact .stop hfetch hstay
  | again hfetch hne _ ih =>
    have hmoved := mt (hworks.zero hfetch).mpr hne
    push Not at hmoved
    rw [hworks.left hfetch] at ih
    exact .next hfetch (hmoved.imp fun _ h => ⟨h.1, Bool.eq_true_of_not_eq_false h.2⟩) ih

theorem exists_calls (hworks : Works key name moves batch pending call) {q : List α}
    (h : Run key name moves batch q q') :
    ∀ {s : S}, pending s = q → ∃ s', Calls key batch pending call s s' ∧ pending s' = q' := by
  induction h with
  | @stop q rows hfetch hstay =>
    rintro s rfl
    exact ⟨_, .last hfetch ((hworks.zero hfetch).mpr hstay),
      (hworks.left hfetch).trans (left_of_stay hstay)⟩
  | @next q q' rows hfetch hmoved _ ih =>
    rintro s rfl
    obtain ⟨s', hcalls, heq⟩ := ih (hworks.left hfetch)
    refine ⟨s', .again hfetch (fun hzero => ?_) hcalls, heq⟩
    obtain ⟨row, hrow, hmoves⟩ := hmoved
    rw [(hworks.zero hfetch).mp hzero row hrow] at hmoves
    cases hmoves

/-- The calls come to an end. -/
theorem acc_again (hworks : Works key name moves batch pending call) (s : S) :
    Acc (Again key batch pending call) s := by
  induction hn : (pending s).countP moves using Nat.strong_induction_on generalizing s with
  | h n ih =>
    refine .intro s ?_
    rintro s' ⟨rows, hfetch, hne, rfl⟩
    have hmoved := mt (hworks.zero hfetch).mpr hne
    push Not at hmoved
    obtain ⟨f, hf, hfmoves⟩ := hmoved
    refine ih _ ?_ _ rfl
    rw [← hn, hworks.left hfetch]
    exact countP_left_lt hfetch hf (Bool.eq_true_of_not_eq_false hfmoves)

theorem exists_calls_from (hworks : Works key name moves batch pending call) (s : S) :
    ∃ s', Calls key batch pending call s s' := by
  induction acc_again hworks s with
  | intro s _ ih =>
    have hfetch : Fetches key batch (pending s) (page (placeKey key moves) batch (pending s)) :=
      fetches_place _
    by_cases hzero : (call s (page (placeKey key moves) batch (pending s))).2 = 0
    · exact ⟨_, .last hfetch hzero⟩
    · obtain ⟨s', hcalls⟩ := ih _ ⟨_, hfetch, hzero, rfl⟩
      exact ⟨s', .again hfetch hzero hcalls⟩

/-- An item that moves leaves the backlog, however ties are broken, exactly when less than a batch to
    stay is ahead of it. -/
theorem calls_gone_iff (hworks : Works key name moves batch pending call)
    (hnd : ((pending s).map name).Nodup) {e : α} (he : e ∈ pending s) (hmoves : moves e = true) :
    (∀ s', Calls key batch pending call s s' → e ∉ pending s') ↔
      ahead key moves (pending s) e < batch := by
  rw [← gone_iff hnd he hmoves]
  constructor
  · intro h q' hrun
    obtain ⟨s', hcalls, rfl⟩ := exists_calls hworks hrun rfl
    exact h s' hcalls
  · exact fun h s' hcalls => h _ (hcalls.run hworks)

end

end SorobanPulse.Lib.Backlog
