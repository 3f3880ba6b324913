import Mathlib.Data.List.Basic
import Mathlib.Data.Nat.Basic
import Mathlib.Tactic.Ring
import SorobanPulse.Lib.Keyset

/-! A list cut into chunks of one length, the last of them maybe shorter. -/

namespace SorobanPulse.Lib

variable {α : Type*} {n : ℕ} {l : List α}

/-- `slice::chunks` -/
def chunks (n : ℕ) (l : List α) : List (List α) :=
  (List.range ((l.length + n - 1) / n)).map fun i => (l.drop (i * n)).take n

/-- The first chunks are the first items. -/
theorem flatten_map_range (n : ℕ) (l : List α) (m : ℕ) :
    ((List.range m).map fun i => (l.drop (i * n)).take n).flatten = l.take (m * n) := by
  induction m with
  | zero => simp
  | succ m ih =>
    rw [List.range_succ, List.map_append, List.flatten_append, ih, Nat.add_one_mul, List.take_add]
    simp

/-- Nothing is lost and nothing twice. -/
theorem flatten_chunks (hn : 0 < n) (l : List α) : (chunks n l).flatten = l := by
  rw [chunks, flatten_map_range, List.take_of_length_le]
  have hdiv := Nat.div_add_mod (l.length + n - 1) n
  have hmod := Nat.mod_lt (l.length + n - 1) hn
  rw [Nat.mul_comm]
  omega

theorem ne_nil_of_mem_chunks (hn : 0 < n) {chunk : List α} (h : chunk ∈ chunks n l) : chunk ≠ [] := by
  obtain ⟨i, hi, rfl⟩ := List.mem_map.mp h
  have hlt : i * n < l.length := by
    have hle : (i + 1) * n ≤ l.length + n - 1 :=
      (Nat.le_div_iff_mul_le hn).mp (List.mem_range.mp hi)
    rw [Nat.add_one_mul] at hle
    omega
  refine List.ne_nil_of_length_pos ?_
  rw [List.length_take, List.length_drop]
  omega

end SorobanPulse.Lib

/-! Pages by `OFFSET`, of a query whose `ORDER BY` leaves ties open.

    Each query may give the rows of one key in another order. A page that begins among ties can then
    repeat a row of the page before it, and leave out another:

        one query       a  x │ y  b           page 1 is a x
        the next one    a  y │ x  b           page 2 is x b

    The pages hold each row once, whatever the orders, exactly when no tie crosses the end of a page:
    `pages_perm_iff`. -/

namespace SorobanPulse.Lib.OffsetPages
open Keyset

variable {α κ : Type*} [LinearOrder κ] {key : α → κ} {L m n : ℕ} {l S T : List α}

/-- The rows `l` in an order of the key. -/
structure Ordered (key : α → κ) (l S : List α) : Prop where
  perm : S.Perm l
  sorted : S.Pairwise fun a b => key a ≤ key b

/-- Page `p`, from 0. -/
def page (L p : ℕ) (S : List α) : List α := (S.drop (p * L)).take L

/-- What the queries give on `n` pages. -/
def pages (L n : ℕ) (order : ℕ → List α) : List α :=
  (List.range n).flatMap fun p => page L p (order p)

theorem pages_succ (L n : ℕ) (order : ℕ → List α) :
    pages L (n + 1) order = pages L n order ++ page L n (order n) := by
  rw [pages, List.range_succ, List.flatMap_append, List.flatMap_singleton]
  rfl

/-- No tie crosses the end of a page. -/
def Untied (key : α → κ) (L : ℕ) (l : List α) : Prop :=
  ∀ p, ∀ a ∈ (sortOn key l).take (p * L), ∀ b ∈ (sortOn key l).drop (p * L), key a ≠ key b

theorem ordered_sortOn (key : α → κ) (l : List α) : Ordered key l (sortOn key l) :=
  ⟨perm_sortOn key l, pairwise_sortOn key l⟩

/-- All orders have the same keys at the same places. -/
theorem Ordered.map_key (hS : Ordered key l S) (hT : Ordered key l T) : S.map key = T.map key := by
  refine ((hS.perm.trans hT.perm.symm).map key).eq_of_pairwise (fun _ _ _ _ => le_antisymm) ?_ ?_
  · exact List.pairwise_map.mpr hS.sorted
  · exact List.pairwise_map.mpr hT.sorted

theorem Ordered.of_map_key (hS : Ordered key l S) (hperm : T.Perm S) (hkey : T.map key = S.map key) :
    Ordered key l T := by
  refine ⟨hperm.trans hS.perm, ?_⟩
  have hsorted : (S.map key).Pairwise (· ≤ ·) := List.pairwise_map.mpr hS.sorted
  rw [← hkey] at hsorted
  exact List.pairwise_map.mp hsorted

/-- The first rows are those with a key below `k`. -/
theorem take_eq_filter {k : κ} (htake : ∀ x ∈ (S.map key).take m, x < k)
    (hdrop : ∀ x ∈ (S.map key).drop m, k ≤ x) : S.take m = S.filter fun a => key a < k := by
  rw [← List.map_take] at htake
  rw [← List.map_drop] at hdrop
  conv_rhs => rw [← List.take_append_drop m S, List.filter_append]
  have hkeep : (S.take m).filter (fun a => key a < k) = S.take m :=
    List.filter_eq_self.mpr fun a ha => decide_eq_true (htake _ (List.mem_map_of_mem ha))
  have hout : (S.drop m).filter (fun a => key a < k) = [] :=
    List.filter_eq_nil_iff.mpr fun a ha hlt =>
      absurd (of_decide_eq_true hlt) (not_lt.mpr (hdrop _ (List.mem_map_of_mem ha)))
  rw [hkeep, hout, List.append_nil]

/-- Where no tie is cut, the rows in front of the cut are the same in all orders. -/
theorem Ordered.take_perm (hS : Ordered key l S) (hT : Ordered key l T)
    (hcut : ∀ a ∈ S.take m, ∀ b ∈ S.drop m, key a ≠ key b) : (S.take m).Perm (T.take m) := by
  have hperm : S.Perm T := hS.perm.trans hT.perm.symm
  cases hrest : S.drop m with
  | nil =>
    have hm : S.length ≤ m := List.drop_eq_nil_iff.mp hrest
    rw [List.take_of_length_le hm, List.take_of_length_le (hperm.length_eq ▸ hm)]
    exact hperm
  | cons y B =>
    have hsorted := hS.sorted
    rw [← List.take_append_drop m S, List.pairwise_append, hrest, List.pairwise_cons] at hsorted
    obtain ⟨-, ⟨hy, -⟩, hle⟩ := hsorted
    rw [hrest] at hcut
    have htake : ∀ x ∈ (S.map key).take m, x < key y := by
      rw [← List.map_take]
      intro x hx
      rcases List.mem_map.mp hx with ⟨a, ha, rfl⟩
      exact lt_of_le_of_ne (hle a ha y List.mem_cons_self) (hcut a ha y List.mem_cons_self)
    have hdrop : ∀ x ∈ (S.map key).drop m, key y ≤ x := by
      rw [← List.map_drop, hrest]
      intro x hx
      rcases List.mem_map.mp hx with ⟨b, hb, rfl⟩
      rcases List.mem_cons.mp hb with rfl | hb
      · exact le_rfl
      · exact hy b hb
    rw [take_eq_filter htake hdrop]
    rw [hS.map_key hT] at htake hdrop
    rw [take_eq_filter htake hdrop]
    exact hperm.filter _

/-- Without ties across their ends, `n` pages hold the first rows. -/
theorem pages_perm_take (h : Untied key L l) {order : ℕ → List α}
    (horder : ∀ p, Ordered key l (order p)) (n : ℕ) :
    (pages L n order).Perm ((sortOn key l).take (n * L)) := by
  have hsame (p : ℕ) (m : ℕ) : ((sortOn key l).take (m * L)).Perm ((order p).take (m * L)) :=
    (ordered_sortOn key l).take_perm (horder p) (h m)
  induction n with
  | zero => simp [pages]
  | succ n ih =>
    calc pages L (n + 1) order = pages L n order ++ page L n (order n) := pages_succ L n order
      List.Perm _ ((order n).take (n * L) ++ page L n (order n)) :=
          (ih.trans (hsame n n)).append_right _
      _ = (order n).take ((n + 1) * L) := by rw [page, Nat.add_one_mul, List.take_add]
      List.Perm _ ((sortOn key l).take ((n + 1) * L)) := (hsame n (n + 1)).symm

/-- The pages up to one of them are the first ones. -/
theorem pages_sublist {order : ℕ → List α} {p : ℕ} (hp : p < n) :
    (pages L p order ++ page L p (order p)).Sublist (pages L n order) := by
  have hrange : (List.range (p + 1)).Sublist (List.range n) := List.range_sublist.mpr hp
  rw [← pages_succ]
  exact hrange.flatMap _

theorem pages_eq_take {order : ℕ → List α} {p : ℕ} (h : ∀ q < p, order q = S) :
    pages L p order = S.take (p * L) := by
  rw [← flatten_map_range, pages, List.flatMap_def]
  congr 1
  apply List.map_congr_left
  intro q hq
  rw [h q (List.mem_range.mp hq), page]

/-- A tie that is cut: the last row of one page and the first of the next. -/
theorem exists_of_tie {a b : α} (hS : Ordered key l S) (ha : a ∈ S.take m) (hb : b ∈ S.drop m)
    (hab : key a = key b) :
    ∃ A x y B, S.take m = A ++ [x] ∧ S.drop m = y :: B ∧ key x = key y := by
  have hsorted := hS.sorted
  rw [← List.take_append_drop m S, List.pairwise_append] at hsorted
  obtain ⟨hfirst, hrest, hle⟩ := hsorted
  rcases List.eq_nil_or_concat' (S.take m) with hnil | ⟨A, x, htake⟩
  · rw [hnil] at ha
    cases ha
  cases hdrop : S.drop m with
  | nil =>
    rw [hdrop] at hb
    cases hb
  | cons y B =>
    refine ⟨A, x, y, B, htake, rfl, ?_⟩
    rw [htake] at ha hfirst hle
    rw [hdrop] at hb hrest hle
    have hax : key a ≤ key x := by
      rcases List.mem_append.mp ha with ha | ha
      · exact (List.pairwise_append.mp hfirst).2.2 a ha x List.mem_cons_self
      · rw [List.mem_singleton.mp ha]
    have hyb : key y ≤ key b := by
      rcases List.mem_cons.mp hb with rfl | hb
      · exact le_rfl
      · exact (List.pairwise_cons.mp hrest).1 b hb
    have hxy : key x ≤ key y :=
      hle x (List.mem_append_right _ List.mem_cons_self) y List.mem_cons_self
    exact le_antisymm hxy (hyb.trans (hab ▸ hax))

/-- Across a tie that is cut, some orders give a row twice. -/
theorem untied_of_nodup (hn : l.length ≤ n * L)
    (h : ∀ order, (∀ p, Ordered key l (order p)) → (pages L n order).Nodup) : Untied key L l := by
  intro p a ha b hb hab
  have hS := ordered_sortOn key l
  obtain ⟨A, x, y, B, htake, hdrop, hxy⟩ := exists_of_tie hS ha hb hab
  have hsplit : sortOn key l = A ++ x :: y :: B := by
    rw [← List.take_append_drop (p * L) (sortOn key l), htake, hdrop, List.append_assoc]
    rfl
  have hlt : p * L < (sortOn key l).length := by
    by_contra hge
    rw [List.drop_of_length_le (Nat.le_of_not_lt hge)] at hb
    cases hb
  have hlen : A.length + 1 = p * L := by
    have := congrArg List.length htake
    rw [List.length_take, Nat.min_eq_left hlt.le, List.length_append] at this
    exact this.symm
  -- the other order: the tied rows change places
  have hT : Ordered key l (A ++ y :: x :: B) := by
    refine hS.of_map_key ?_ ?_
    · rw [hsplit]
      exact (List.Perm.swap x y B).append_left A
    · rw [hsplit, List.map_append, List.map_append, List.map_cons, List.map_cons, List.map_cons,
        List.map_cons, hxy]
  have hpn : p < n := by
    rw [(perm_sortOn key l).length_eq] at hlt
    exact Nat.lt_of_mul_lt_mul_right (Nat.lt_of_lt_of_le hlt hn)
  let order (q : ℕ) : List α := if q < p then sortOn key l else A ++ y :: x :: B
  have horder (q : ℕ) : Ordered key l (order q) := by
    unfold order
    split
    · exact hS
    · exact hT
  have hbefore : pages L p order = A ++ [x] := by
    rw [← htake, pages_eq_take fun q hq => if_pos hq]
  have hafter : x ∈ page L p (order p) := by
    have hswap : order p = (A ++ [y]) ++ x :: B := by
      rw [List.append_assoc]
      exact if_neg (Nat.lt_irrefl p)
    have hpos : 0 < L := Nat.pos_of_ne_zero fun h0 => by
      rw [h0, Nat.mul_zero] at hlen
      cases hlen
    rw [page, hswap, List.drop_left' (by rw [List.length_append, List.length_singleton, hlen]),
      List.take_cons hpos]
    exact List.mem_cons_self
  have hboth := (h order horder).sublist (pages_sublist hpn)
  rw [hbefore, List.nodup_append] at hboth
  exact hboth.2.2 x (List.mem_append_right _ List.mem_cons_self) x hafter rfl

/-- The pages hold each row once, whatever the orders, when no tie is cut and only then. -/
theorem pages_perm_iff (hnd : l.Nodup) (hn : l.length ≤ n * L) :
    (∀ order, (∀ p, Ordered key l (order p)) → (pages L n order).Perm l) ↔ Untied key L l := by
  constructor
  · intro h
    exact untied_of_nodup hn fun order horder => (h order horder).nodup_iff.mpr hnd
  · intro h order horder
    have htake := pages_perm_take h horder n
    rw [List.take_of_length_le (by rwa [length_sortOn])] at htake
    exact htake.trans (perm_sortOn key l)

end SorobanPulse.Lib.OffsetPages
