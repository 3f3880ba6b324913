import SorobanPulse.Lib.Keyset

/-! Keyset pages that know whether they are the last: one row more than a page is read.

        behind the cursor, by key ──▶ first L + 1 ──┬─ the first L: the page
                                                    └─ one more: its last row's key is the cursor

    Following the cursors returns every row once, in order, and no page is empty unless nothing is
    there. -/

namespace SorobanPulse.Lib.Keyset

variable {α κ γ : Type*} [LinearOrder κ] {key : α → κ} {L : ℕ} {rows rest : List α}

/-- The rows behind a cursor, or all. -/
def behind (key : α → κ) : Option κ → List α → List α
  | none, rows => rows
  | some k, rows => rows.filter fun a => k < key a

/-- Of the rows read, the page and the cursor to the next one. -/
def probed (key : α → κ) (L : ℕ) (read : List α) : List α × Option κ :=
  (read.take L, if L < read.length then (read.take L).getLast?.map key else none)

/-- Pages and cursors, from the page of a cursor until there is no next one. -/
inductive Follow (reply : Option γ → List α → Option γ → Prop) : Option γ → List (List α) → Prop
  | last {cursor : Option γ} {page : List α} : reply cursor page none → Follow reply cursor [page]
  | next {cursor : Option γ} {page : List α} {c : γ} {pages : List (List α)} :
      reply cursor page (some c) → Follow reply (some c) pages → Follow reply cursor (page :: pages)

theorem take_page (g : α → κ) (rest : List α) : (page g (L + 1) rest).take L = page g L rest := by
  rw [page, page, List.take_take, Nat.min_eq_left (Nat.le_succ L)]

/-- What was read fits on the page: it is all there is. -/
theorem probed_last (h : rest.length ≤ L) :
    probed key L (page key (L + 1) rest) = (sortOn key rest, none) := by
  have hread : page key (L + 1) rest = sortOn key rest :=
    List.take_of_length_le (by rw [length_sortOn]; omega)
  have hlength := length_sortOn key rest
  rw [probed, hread, if_neg (by omega), List.take_of_length_le (by omega)]

/-- There is more: the page is full, and the cursor is its last row's. -/
theorem probed_next (h : L < rest.length) :
    probed key L (page key (L + 1) rest) =
      (page key L rest, (page key L rest).getLast?.map key) := by
  have hread : L < (page key (L + 1) rest).length := by
    rw [length_page]
    omega
  rw [probed, if_pos hread, take_page]

/-- The cursor of a row that is still to come is behind the one before it. -/
theorem behind_behind {cursor : Option κ} {a : α} (ha : a ∈ behind key cursor rows) :
    (behind key cursor rows).filter (fun b => key a < key b) = behind key (some (key a)) rows := by
  cases cursor with
  | none => rfl
  | some k =>
    have hlt : k < key a := of_decide_eq_true (List.mem_filter.mp ha).2
    rw [behind, behind, List.filter_filter]
    refine List.filter_congr fun b _ => ?_
    rw [Bool.eq_iff_iff, Bool.and_eq_true, decide_eq_true_eq, decide_eq_true_eq]
    exact ⟨And.left, fun hb => ⟨hb, hlt.trans hb⟩⟩

/-- What is asked of the pages of `rows`. -/
structure Paged (key : α → κ) (L : ℕ) (rows : List α) (pages : List (List α)) : Prop where
  flatten : pages.flatten = sortOn key rows
  short : ∀ page ∈ pages, page.length ≤ L
  nonempty : ∀ page ∈ pages, page = [] → rows = []

theorem paged_last (h : rest.length ≤ L) : Paged key L rest [sortOn key rest] where
  flatten := List.append_nil _
  short := by
    intro page hpage
    rw [List.mem_singleton.mp hpage, length_sortOn]
    exact h
  nonempty := by
    intro page hpage hempty
    have hlength := length_sortOn key rest
    rw [← List.mem_singleton.mp hpage, hempty] at hlength
    exact List.length_eq_zero_iff.mp hlength.symm

theorem paged_next (hL : 0 < L) (hnd : rest.Nodup) (hkey : Distinct key rest) {a : α}
    (hlast : (page key L rest).getLast? = some a) {pages : List (List α)} (h : L < rest.length)
    (hpages : Paged key L (rest.filter fun b => key a < key b) pages) :
    Paged key L rest (page key L rest :: pages) where
  flatten := by
    rw [List.flatten_cons, hpages.flatten, sortOn_behind_page hnd hkey hlast, page,
      List.take_append_drop]
  short := by
    intro p hp
    obtain rfl | hp := List.mem_cons.mp hp
    · rw [length_page]
      exact Nat.min_le_left _ _
    · exact hpages.short p hp
  nonempty := by
    intro p hp hempty
    have hrest : (sortOn key (rest.filter fun b => key a < key b)).length ≠ 0 := by
      rw [sortOn_behind_page hnd hkey hlast, List.length_drop, length_sortOn]
      omega
    obtain rfl | hp := List.mem_cons.mp hp
    · have hlength : (page key L rest).length = min L rest.length := length_page
      rw [hempty, List.length_nil] at hlength
      omega
    · rw [hpages.nonempty p hp hempty] at hrest
      exact absurd rfl hrest

section
variable {text : κ → γ} {reply : Option γ → List α → Option γ → Prop}

/-- Following the cursors ends, and the pages are those of the rows in order. -/
theorem exists_follow (hL : 0 < L) (hnd : rows.Nodup) (hkey : Distinct key rows)
    (hreply : ∀ cursor : Option κ, (∀ k ∈ cursor, ∃ a ∈ rows, key a = k) →
      reply (cursor.map text) (probed key L (page key (L + 1) (behind key cursor rows))).1
        ((probed key L (page key (L + 1) (behind key cursor rows))).2.map text)) :
    ∃ pages, Follow reply none pages ∧ Paged key L rows pages := by
  suffices h : ∀ n (cursor : Option κ), (∀ k ∈ cursor, ∃ a ∈ rows, key a = k) →
      (behind key cursor rows).length = n →
      ∃ pages, Follow reply (cursor.map text) pages ∧ Paged key L (behind key cursor rows) pages from
    h _ none nofun rfl
  intro n  -- by the number of rows behind the cursor, which the next page makes smaller
  induction n using Nat.strong_induction_on with
  | _ n ih =>
    intro cursor hcursor hn
    have hmem : ∀ a ∈ behind key cursor rows, a ∈ rows := by
      intro a ha
      cases cursor with
      | none => exact ha
      | some k => exact List.mem_of_mem_filter ha
    have hserved := hreply cursor hcursor
    by_cases h : (behind key cursor rows).length ≤ L
    · -- no row more than fits the page, so there is no next cursor
      rw [probed_last h] at hserved
      exact ⟨_, .last hserved, paged_last h⟩
    · have h : L < (behind key cursor rows).length := Nat.lt_of_not_le h
      have hne : page key L (behind key cursor rows) ≠ [] :=
        List.ne_nil_of_length_pos (by rw [length_page]; omega)
      obtain ⟨a, hlast⟩ : ∃ a, (page key L (behind key cursor rows)).getLast? = some a :=
        ⟨_, List.getLast?_eq_some_getLast hne⟩
      have ha : a ∈ behind key cursor rows := mem_of_mem_page (List.mem_of_getLast? hlast)
      -- the probe has found one more, and the cursor is the page's last key
      rw [probed_next h, hlast] at hserved
      have hsame := behind_behind ha
      have hfewer : (behind key (some (key a)) rows).length < n := by
        rw [← hsame, ← hn]
        exact length_filter_lt ha
      have hnd' : (behind key cursor rows).Nodup := by
        cases cursor with
        | none => exact hnd
        | some k => exact hnd.filter _
      obtain ⟨pages, hfollow, hpaged⟩ := ih _ hfewer (some (key a))
        (fun k hk => ⟨a, hmem a ha, Option.some.inj hk⟩) rfl
      rw [← hsame] at hpaged
      exact ⟨_, .next hserved hfollow, paged_next hL hnd' (hkey.mono hmem) hlast h hpaged⟩

end

end SorobanPulse.Lib.Keyset
