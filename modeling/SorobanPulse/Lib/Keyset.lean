import Mathlib

/-! Keyset pagination: pages of a table, each cut off behind the last row of the one before.

    A page is the first `L` of the rows still to come in the order of a key `g`; what is still to
    come after it are the rows whose key `f` lies behind that of its last row.

        rest ── first L by g ──▶ page, last row c ── f c < f · ──▶ rest' ──▶ …   (until a short page)

    With `f = g` nothing is lost or repeated. With two keys that is so exactly when the blocks of
    `L` rows in the order of `f` are the pages: `Walk.perm_iff`. -/

namespace SorobanPulse.Lib.Keyset

section
variable {α κ : Type*} [LinearOrder κ] {f : α → κ} {l m : List α}

/-- The rows in the order of a key. -/
def sortOn (f : α → κ) (l : List α) : List α := l.insertionSort fun a b => f a ≤ f b

/-- No two rows of the list share a key. -/
def Distinct (f : α → κ) (l : List α) : Prop := Set.InjOn f {a | a ∈ l}

theorem perm_sortOn (f : α → κ) (l : List α) : (sortOn f l).Perm l := List.perm_insertionSort _ l

@[simp] theorem mem_sortOn {a : α} : a ∈ sortOn f l ↔ a ∈ l := List.mem_insertionSort _

@[simp] theorem length_sortOn (f : α → κ) (l : List α) : (sortOn f l).length = l.length :=
  (perm_sortOn f l).length_eq

theorem pairwise_sortOn (f : α → κ) (l : List α) : (sortOn f l).Pairwise fun a b => f a ≤ f b := by
  have : Std.Total fun a b : α => f a ≤ f b := ⟨fun a b => le_total (f a) (f b)⟩
  have : IsTrans α fun a b => f a ≤ f b := ⟨fun _ _ _ => le_trans⟩
  exact List.pairwise_insertionSort _ l

omit [LinearOrder κ] in
theorem Distinct.mono (h : Distinct f m) (hl : ∀ a ∈ l, a ∈ m) : Distinct f l := Set.InjOn.mono hl h

/-- The sorted form of rows with distinct keys is unique. -/
theorem Distinct.eq_of_perm (hd : Distinct f l) (h : l.Perm m)
    (hl : l.Pairwise fun a b => f a ≤ f b) (hm : m.Pairwise fun a b => f a ≤ f b) : l = m := by
  apply h.eq_of_pairwise _ hl hm
  intro a b ha hb hab hba
  exact hd ha (h.mem_iff.mpr hb) (le_antisymm hab hba)

theorem Distinct.sortOn_eq (hd : Distinct f l) (h : l.Perm m) : sortOn f l = sortOn f m := by
  have hperm : (sortOn f l).Perm (sortOn f m) := (perm_sortOn f l).trans (h.trans (perm_sortOn f m).symm)
  apply Distinct.eq_of_perm _ hperm (pairwise_sortOn f l) (pairwise_sortOn f m)
  exact hd.mono fun a ha => mem_sortOn.mp ha

/-- Rows all of which come before all others are sorted apart. -/
theorem Distinct.sortOn_append (hd : Distinct f (l ++ m)) (h : ∀ a ∈ l, ∀ b ∈ m, f a < f b) :
    sortOn f (l ++ m) = sortOn f l ++ sortOn f m := by
  have hperm : (sortOn f (l ++ m)).Perm (sortOn f l ++ sortOn f m) :=
    (perm_sortOn f _).trans ((perm_sortOn f l).append (perm_sortOn f m)).symm
  apply Distinct.eq_of_perm _ hperm (pairwise_sortOn f _)
  · rw [List.pairwise_append]
    refine ⟨pairwise_sortOn f l, pairwise_sortOn f m, ?_⟩
    intro a ha b hb
    exact (h a (mem_sortOn.mp ha) b (mem_sortOn.mp hb)).le
  · exact hd.mono fun a ha => mem_sortOn.mp ha

end

section
variable {α κ μ : Type*} [LinearOrder κ] [LinearOrder μ]
variable {f : α → κ} {g : α → μ} {L : ℕ} {rest out : List α}

def page (g : α → μ) (L : ℕ) (rest : List α) : List α := (sortOn g rest).take L

/-- The rows returned page by page, from those still to come. -/
inductive Walk (f : α → κ) (g : α → μ) (L : ℕ) : List α → List α → Prop
  | last {rest : List α} : (page g L rest).length < L → Walk f g L rest (page g L rest)
  | next {rest out : List α} {c : α} : (page g L rest).length = L →
      (page g L rest).getLast? = some c → Walk f g L (rest.filter fun a => f c < f a) out →
      Walk f g L rest (page g L rest ++ out)

theorem mem_of_mem_page {a : α} (h : a ∈ page g L rest) : a ∈ rest :=
  mem_sortOn.mp (List.mem_of_mem_take h)

theorem length_page : (page g L rest).length = min L rest.length := by
  rw [page, List.length_take, length_sortOn]

/-- Cutting behind a row leaves fewer rows. -/
theorem length_filter_lt {c : α} (hc : c ∈ rest) :
    (rest.filter fun a => f c < f a).length < rest.length := by
  apply List.length_filter_lt_length_iff_exists.mpr
  exact ⟨c, hc, by simp⟩

theorem exists_walk (f : α → κ) (g : α → μ) (hL : 0 < L) : ∀ rest, ∃ out, Walk f g L rest out := by
  intro rest
  induction hn : rest.length using Nat.strong_induction_on generalizing rest with
  | h n ih =>
    by_cases hlen : (page g L rest).length < L
    · exact ⟨_, .last hlen⟩
    · have hfull : (page g L rest).length = L := by rw [length_page] at hlen ⊢; omega
      have hne : page g L rest ≠ [] := List.ne_nil_of_length_pos (by omega)
      have hlast := List.getLast?_eq_some_getLast hne
      have hmem : (page g L rest).getLast hne ∈ rest := mem_of_mem_page (List.getLast_mem hne)
      have hlt := length_filter_lt (f := f) hmem
      rcases ih _ (hn ▸ hlt) _ rfl with ⟨out, hout⟩
      exact ⟨_, .next hfull hlast hout⟩

theorem Walk.subset (h : Walk f g L rest out) : ∀ a ∈ out, a ∈ rest := by
  induction h with
  | last _ => exact fun a ha => mem_of_mem_page ha
  | next _ _ _ ih =>
    intro a ha
    rcases List.mem_append.mp ha with ha | ha
    · exact mem_of_mem_page ha
    · exact List.mem_of_mem_filter (ih a ha)

/-- The first row by `g` is on the first page. -/
theorem Walk.mem_of_least (h : Walk f g L rest out) (hL : 0 < L) (hg : Distinct g rest) {a : α}
    (ha : a ∈ rest) (hmin : ∀ b ∈ rest, g a ≤ g b) : a ∈ out := by
  have hpage : a ∈ page g L rest := by
    have hsorted := pairwise_sortOn g rest
    rw [page]
    cases hs : sortOn g rest with
    | nil => exact absurd (mem_sortOn.mpr ha) (hs ▸ List.not_mem_nil)
    | cons b bs =>
      have hb : b ∈ rest := mem_sortOn.mp (hs ▸ List.mem_cons_self)
      have hba : g b ≤ g a := by
        rcases List.mem_cons.mp (hs ▸ mem_sortOn.mpr ha : a ∈ b :: bs) with rfl | hmem
        · exact le_rfl
        · exact (List.pairwise_cons.mp (hs ▸ hsorted)).1 a hmem
      rw [hg ha hb (le_antisymm (hmin b hb) hba)]
      obtain ⟨n, rfl⟩ := Nat.exists_eq_add_of_lt hL
      rw [Nat.zero_add, List.take_succ_cons]
      exact List.mem_cons_self
  cases h with
  | last _ => exact hpage
  | next _ _ _ => exact List.mem_append_left _ hpage

/-! ### When the two keys agree on where pages end -/

/-- In the rows `S`, sorted by `f`: the row that ends a full block of `L` comes, by `g`, behind all of
    its block and before all that follows. -/
def Aligned (g : α → μ) (L : ℕ) (S : List α) : Prop :=
  ∀ k c, S[(k + 1) * L - 1]? = some c →
    (∀ a ∈ (S.drop (k * L)).take L, g a ≤ g c) ∧ ∀ b ∈ S.drop ((k + 1) * L), g c < g b

omit [LinearOrder κ] in
theorem aligned_of_length_lt {S : List α} (hL : 0 < L) (h : S.length < L) : Aligned g L S := by
  intro k c hc
  have hlt := (List.getElem?_eq_some_iff.mp hc).1
  have hk : L ≤ (k + 1) * L := Nat.le_mul_of_pos_left L k.succ_pos
  omega

omit [LinearOrder κ] in
/-- The first block, and the rest. -/
theorem aligned_append_iff (hL : 0 < L) {B D : List α} {c : α} (hB : B.length = L)
    (hc : B.getLast? = some c) :
    Aligned g L (B ++ D) ↔ ((∀ a ∈ B, g a ≤ g c) ∧ ∀ b ∈ D, g c < g b) ∧ Aligned g L D := by
  have hfirst : (B ++ D)[(0 + 1) * L - 1]? = some c := by
    rw [Nat.zero_add, Nat.one_mul, List.getElem?_append_left (by omega), ← hB,
      ← List.getLast?_eq_getElem?, hc]
  -- from the second block on, everything is shifted by one block
  have hdrop (n : ℕ) : (B ++ D).drop (L + n) = D.drop n := by
    rw [← List.drop_drop, ← hB, List.drop_left]
  have hget (k : ℕ) : (B ++ D)[(k + 1 + 1) * L - 1]? = D[(k + 1) * L - 1]? := by
    have hk : L ≤ (k + 1) * L := Nat.le_mul_of_pos_left L k.succ_pos
    rw [List.getElem?_append_right (by rw [Nat.add_mul, hB]; omega)]
    congr 1
    rw [Nat.add_mul (k + 1), hB]
    omega
  have hblock : ((B ++ D).drop (0 * L)).take L = B := by
    rw [Nat.zero_mul, List.drop_zero, ← hB, List.take_left]
  have hrest : (B ++ D).drop ((0 + 1) * L) = D := by
    rw [Nat.zero_add, Nat.one_mul, ← hB, List.drop_left]
  constructor
  · intro h
    have h0 := h 0 c hfirst
    rw [hblock, hrest] at h0  -- the first block
    refine ⟨h0, ?_⟩
    intro k d hd  -- block k of the rest is block k + 1
    have hk := h (k + 1) d (by rw [hget, hd])
    rw [Nat.add_mul (k + 1), Nat.one_mul, Nat.add_comm _ L, hdrop, Nat.add_mul k, Nat.one_mul,
      Nat.add_comm (k * L) L, hdrop] at hk
    rw [Nat.add_mul, Nat.one_mul, Nat.add_comm]
    exact hk
  · rintro ⟨h0, h⟩ k d hd
    cases k with  -- block 0 is the first one, block k + 1 is block k of the rest
    | zero =>
      rw [hfirst] at hd
      rw [hblock, hrest, ← Option.some.inj hd]
      exact h0
    | succ k =>
      rw [hget] at hd
      have hk := h k d hd
      rw [Nat.add_mul (k + 1), Nat.one_mul, Nat.add_comm _ L, hdrop, Nat.add_mul k, Nat.one_mul,
        Nat.add_comm (k * L) L, hdrop]
      rw [Nat.add_mul, Nat.one_mul, Nat.add_comm] at hk
      exact hk

/-- A page, its last row, and what is left. -/
structure Cut (f : α → κ) (rest P Q : List α) (c : α) : Prop where
  perm : (P ++ Q).Perm rest
  last : c ∈ P
  le : ∀ a ∈ P, f a ≤ f c
  lt : ∀ b ∈ Q, f c < f b

/-- What lies behind the cut is what is cut off. -/
theorem Cut.filter_perm {P Q : List α} {c : α} (h : Cut f rest P Q c) :
    (rest.filter fun a => f c < f a).Perm Q := by
  have hP : P.filter (fun a => f c < f a) = [] := by
    rw [List.filter_eq_nil_iff]
    intro a ha
    simpa using h.le a ha
  have hQ : Q.filter (fun a => f c < f a) = Q := by
    rw [List.filter_eq_self]
    intro b hb
    simpa using h.lt b hb
  have hfilter := h.perm.symm.filter fun a => decide (f c < f a)
  rw [List.filter_append, hP, hQ] at hfilter
  exact hfilter

theorem Cut.sortOn_eq {P Q : List α} {c : α} (h : Cut f rest P Q c) (hf : Distinct f rest) :
    sortOn f rest = sortOn f P ++ sortOn f Q := by
  rw [hf.sortOn_eq h.perm.symm]
  apply Distinct.sortOn_append (hf.mono fun a ha => h.perm.mem_iff.mp ha)
  intro a ha b hb
  exact (h.le a ha).trans_lt (h.lt b hb)

/-- The row at the cut ends the sorted page. -/
theorem Cut.getLast?_eq {P Q : List α} {c : α} (h : Cut f rest P Q c) (hf : Distinct f rest) :
    (sortOn f P).getLast? = some c := by
  have hmem (a : α) (ha : a ∈ P) : a ∈ rest := h.perm.mem_iff.mp (List.mem_append_left _ ha)
  have hne : sortOn f P ≠ [] := List.ne_nil_of_mem (mem_sortOn.mpr h.last)
  have hlast : (sortOn f P).getLast hne ∈ P := (mem_sortOn (f := f)).mp (List.getLast_mem hne)
  have hle : f c ≤ f ((sortOn f P).getLast hne) := by
    have hpair := pairwise_sortOn f P
    rw [← List.dropLast_append_getLast hne, List.pairwise_append] at hpair
    have hc := (mem_sortOn (f := f)).mpr h.last
    rw [← List.dropLast_append_getLast hne] at hc
    rcases List.mem_append.mp hc with hc | hc
    · exact hpair.2.2 c hc _ (List.mem_singleton_self _)
    · rw [List.mem_singleton.mp hc]
  rw [List.getLast?_eq_some_getLast hne,
    hf (hmem _ hlast) (hmem c h.last) (le_antisymm (h.le _ hlast) hle)]

theorem le_of_getLast?_page {c : α} (hc : (page f L rest).getLast? = some c) :
    ∀ a ∈ page f L rest, f a ≤ f c := by
  rcases List.getLast?_eq_some_iff.mp hc with ⟨init, hinit⟩
  intro a ha
  have hpair : (page f L rest).Pairwise fun a b => f a ≤ f b := (pairwise_sortOn f rest).take
  rw [hinit, List.pairwise_append] at hpair
  rw [hinit] at ha
  rcases List.mem_append.mp ha with ha | ha
  · exact hpair.2.2 a ha c (List.mem_singleton_self c)
  · rw [List.mem_singleton.mp ha]

/-- The first `L` rows by `f` and the others are cut at the last of them. -/
theorem cut_page (hnd : rest.Nodup) (hf : Distinct f rest) {c : α}
    (hc : (page f L rest).getLast? = some c) :
    Cut f rest (page f L rest) ((sortOn f rest).drop L) c := by
  have hpair := pairwise_sortOn f rest
  have hnodup := (perm_sortOn f rest).nodup_iff.mpr hnd
  rw [← List.take_append_drop L (sortOn f rest), ← page] at hpair hnodup
  rw [List.pairwise_append] at hpair
  rw [List.nodup_append] at hnodup
  have hmem : c ∈ page f L rest := List.mem_of_getLast? hc
  refine ⟨?_, hmem, le_of_getLast?_page hc, ?_⟩
  · rw [page, List.take_append_drop]
    exact perm_sortOn f rest
  · intro b hb
    have hb' : b ∈ rest := mem_sortOn.mp (List.mem_of_mem_drop hb)
    apply lt_of_le_of_ne (hpair.2.2 c hmem b hb)
    intro heq
    exact hnodup.2.2 c hmem b hb (hf (mem_of_mem_page hmem) hb' heq)

/-- What lies behind the first `L` rows by `f`, in order. -/
theorem sortOn_behind_page (hnd : rest.Nodup) (hf : Distinct f rest) {c : α}
    (hc : (page f L rest).getLast? = some c) :
    sortOn f (rest.filter fun a => f c < f a) = (sortOn f rest).drop L := by
  have hrest := (cut_page hnd hf hc).filter_perm
  have hsorted : ((sortOn f rest).drop L).Pairwise fun a b => f a ≤ f b := (pairwise_sortOn f rest).drop
  apply Distinct.eq_of_perm _ ((perm_sortOn f _).trans hrest) (pairwise_sortOn f _) hsorted
  exact hf.mono fun a ha => List.mem_of_mem_filter (mem_sortOn.mp ha)

/-- A row of the page that lies behind the cut would come first on the next page. -/
theorem Walk.behind_cut {P Q : List α} {c : α} (h : Cut g rest P Q c) (hL : 0 < L)
    (hg : Distinct g rest) (hw : Walk f g L (rest.filter fun a => f c < f a) out)
    (hout : out.Perm Q) : ∀ a ∈ P, f a ≤ f c := by
  intro a ha
  by_contra hlt
  have ha' : a ∈ rest := h.perm.mem_iff.mp (List.mem_append_left _ ha)
  have hmem : a ∈ rest.filter fun a => f c < f a := by
    rw [List.mem_filter]
    exact ⟨ha', by simpa using hlt⟩
  have hsub (b : α) (hb : b ∈ rest.filter fun a => f c < f a) : b ∈ rest := List.mem_of_mem_filter hb
  rcases Set.exists_min_image {b | b ∈ rest.filter fun a => f c < f a} g (List.finite_toSet _)
    ⟨a, hmem⟩ with ⟨m, hm, hmin⟩
  have hmQ : m ∈ Q := hout.mem_iff.mp (hw.mem_of_least hL (hg.mono hsub) hm hmin)
  have hcm : g c < g m := h.lt m hmQ
  exact absurd ((hmin a hmem).trans (h.le a ha)) (not_le.mpr hcm)

/-- What both keys sort by first, the walk is sorted by. -/
theorem Walk.pairwise {ν : Type*} [LinearOrder ν] {k : α → ν} (h : Walk f g L rest out)
    (hf : ∀ a b, f a ≤ f b → k a ≤ k b) (hg : ∀ a b, g a ≤ g b → k a ≤ k b) :
    out.Pairwise fun a b => k a ≤ k b := by
  have hpage (rest : List α) : (page g L rest).Pairwise fun a b => k a ≤ k b :=
    (pairwise_sortOn g rest).take.imp fun {a b} => hg a b
  induction h with
  | last _ => exact hpage _
  | @next rest out c _ hc hw ih =>
    rw [List.pairwise_append]
    refine ⟨hpage _, ih, ?_⟩
    intro a ha b hb
    have hcb : f c < f b := by simpa using List.of_mem_filter (hw.subset b hb)
    exact (hg a c (le_of_getLast?_page hc a ha)).trans (hf c b hcb.le)

/-- Every row is returned exactly once when, and only when, the two keys agree on where pages end. -/
theorem Walk.perm_iff (h : Walk f g L rest out) (hL : 0 < L) (hnd : rest.Nodup)
    (hf : Distinct f rest) (hg : Distinct g rest) :
    out.Perm rest ↔ Aligned g L (sortOn f rest) := by
  induction h with
  | @last rest hlen =>
    rw [length_page] at hlen
    have hall : page g L rest = sortOn g rest := List.take_of_length_le (by rw [length_sortOn]; omega)
    rw [hall]
    refine ⟨fun _ => aligned_of_length_lt hL ?_, fun _ => perm_sortOn g rest⟩
    rw [length_sortOn]
    omega
  | @next rest out c hlen hc hw ih =>
    have hsub (b : α) (hb : b ∈ rest.filter fun a => f c < f a) : b ∈ rest :=
      List.mem_of_mem_filter hb
    have ih := ih (hnd.filter _) (hf.mono hsub) (hg.mono hsub)
    have hcut := cut_page hnd hg hc
    constructor
    · intro hperm
      have hout : out.Perm ((sortOn g rest).drop L) := by
        rw [← List.perm_append_left_iff (page g L rest)]
        exact hperm.trans hcut.perm.symm
      have hcutf : Cut f rest (page g L rest) ((sortOn g rest).drop L) c := by
        refine ⟨hcut.perm, hcut.last, hw.behind_cut hcut hL hg hout, ?_⟩
        intro b hb
        simpa using List.of_mem_filter (hw.subset b (hout.mem_iff.mpr hb))
      have hrest := hcutf.filter_perm
      rw [hcutf.sortOn_eq hf, aligned_append_iff hL (by rw [length_sortOn, hlen])
        (hcutf.getLast?_eq hf)]
      refine ⟨⟨?_, ?_⟩, ?_⟩
      · intro a ha
        exact hcut.le a (mem_sortOn.mp ha)
      · intro b hb
        exact hcut.lt b (mem_sortOn.mp hb)
      · rw [← (hf.mono hsub).sortOn_eq hrest]
        exact ih.mp (hout.trans hrest.symm)
    · intro hal
      have hlenf : (page f L rest).length = L := by
        rw [length_page] at hlen ⊢
        exact hlen
      have hne : page f L rest ≠ [] := List.ne_nil_of_length_pos (by omega)
      have hcutf := cut_page hnd hf (List.getLast?_eq_some_getLast hne)
      rw [← List.take_append_drop L (sortOn f rest), ← page,
        aligned_append_iff hL hlenf (List.getLast?_eq_some_getLast hne)] at hal
      rcases hal with ⟨⟨hle, hlt⟩, hal⟩
      -- the same cut, read in the order of `g`
      have hcutg : Cut g rest (page f L rest) ((sortOn f rest).drop L) _ :=
        ⟨hcutf.perm, hcutf.last, hle, hlt⟩
      have hpage : page g L rest = sortOn g (page f L rest) := by
        rw [page, hcutg.sortOn_eq hg, List.take_left' (by rw [length_sortOn, hlenf])]
      have hceq : (page f L rest).getLast hne = c := by
        have hlast := hcutg.getLast?_eq hg
        rw [← hpage, hc] at hlast
        exact (Option.some.inj hlast).symm
      rw [hceq] at hcutf
      have hrest := hcutf.filter_perm
      have hdrop : sortOn f (rest.filter fun a => f c < f a) = (sortOn f rest).drop L :=
        sortOn_behind_page hnd hf (hceq ▸ List.getLast?_eq_some_getLast hne)
      have hout := ih.mpr (hdrop ▸ hal)
      rw [hpage]
      exact ((perm_sortOn g _).append (hout.trans hrest)).trans hcutf.perm

/-! ### A first page by the key that cuts -/

theorem perm_iff_behind_page (hL : 0 < L) (hnd : rest.Nodup) (hf : Distinct f rest)
    (hg : Distinct g rest) {c : α} (hc : (page f L rest).getLast? = some c)
    (h : Walk f g L (rest.filter fun a => f c < f a) out) :
    (page f L rest ++ out).Perm rest ↔ Aligned g L ((sortOn f rest).drop L) := by
  have hcut := cut_page hnd hf hc
  have hsub (b : α) (hb : b ∈ rest.filter fun a => f c < f a) : b ∈ rest := List.mem_of_mem_filter hb
  rw [← sortOn_behind_page hnd hf hc,
    ← h.perm_iff hL (hnd.filter _) (hf.mono hsub) (hg.mono hsub)]
  have hout : (page f L rest ++ rest.filter fun a => f c < f a).Perm rest :=
    (hcut.filter_perm.append_left _).trans hcut.perm
  rw [← hout.congr_right]
  exact List.perm_append_left_iff _

theorem pairwise_behind_page {ν : Type*} [LinearOrder ν] {k : α → ν}
    (hf : ∀ a b, f a ≤ f b → k a ≤ k b) (hg : ∀ a b, g a ≤ g b → k a ≤ k b) {c : α}
    (hc : (page f L rest).getLast? = some c)
    (h : Walk f g L (rest.filter fun a => f c < f a) out) :
    (page f L rest ++ out).Pairwise fun a b => k a ≤ k b := by
  rw [List.pairwise_append]
  refine ⟨(pairwise_sortOn f rest).take.imp fun {a b} => hf a b, h.pairwise hf hg, ?_⟩
  intro a ha b hb
  have hcb : f c < f b := by simpa using List.of_mem_filter (h.subset b hb)
  exact hf a b ((le_of_getLast?_page hc a ha).trans hcb.le)

end

end SorobanPulse.Lib.Keyset
