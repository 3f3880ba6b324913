import Mathlib

/-! Keeping the first element of each key.

        a₁ b₁ a₂ c₁ b₂   ──firstBy──▶   a₁ b₁ c₁ -/

namespace SorobanPulse.Lib

variable {α κ : Type*} [DecidableEq κ]

def keepFirst (f : α → κ) (kept : List α) (a : α) : List α :=
  if f a ∈ kept.map f then kept else kept ++ [a]

def firstBy (f : α → κ) (l : List α) : List α := l.foldl (keepFirst f) []

variable {f : α → κ} {l : List α} {a : α}

theorem firstBy_append (f : α → κ) (l : List α) (a : α) :
    firstBy f (l ++ [a]) = keepFirst f (firstBy f l) a := by
  rw [firstBy, List.foldl_append]
  rfl

theorem mem_of_mem_firstBy (h : a ∈ firstBy f l) : a ∈ l := by
  induction l using List.reverseRecOn with
  | nil => exact h
  | append_singleton l b ih =>
    rw [firstBy_append, keepFirst] at h
    split at h
    · exact List.mem_append_left _ (ih h)
    · rcases List.mem_append.mp h with h | h
      · exact List.mem_append_left _ (ih h)
      · exact List.mem_append_right _ h

/-- Every key is kept. -/
theorem exists_firstBy (h : a ∈ l) : ∃ b ∈ firstBy f l, f b = f a := by
  induction l using List.reverseRecOn with
  | nil => cases h
  | append_singleton l c ih =>
    rw [firstBy_append, keepFirst]
    rcases List.mem_append.mp h with h | h
    · obtain ⟨b, hb, hkey⟩ := ih h
      refine ⟨b, ?_, hkey⟩
      split
      · exact hb
      · exact List.mem_append_left _ hb
    · rw [List.mem_singleton.mp h]
      split
      · next hkept =>
        obtain ⟨b, hb, hkey⟩ := List.mem_map.mp hkept
        exact ⟨b, hb, hkey⟩
      · exact ⟨c, List.mem_append_right _ (List.mem_singleton.mpr rfl), rfl⟩

theorem nodup_firstBy (f : α → κ) (l : List α) : ((firstBy f l).map f).Nodup := by
  induction l using List.reverseRecOn with
  | nil => exact List.nodup_nil
  | append_singleton l a ih =>
    rw [firstBy_append, keepFirst]
    split
    · exact ih
    · next hnew =>
      rw [List.map_append, List.nodup_append]
      refine ⟨ih, List.nodup_singleton _, ?_⟩
      intro k hk m hm
      rw [List.mem_singleton.mp hm]
      rintro rfl
      exact hnew hk

end SorobanPulse.Lib

/-! Things grouped by a key, in maps that are filled as the things come.

        things   a1  b1  a2  a3        key ↦ what its things add up to
        keys     a   b                  a  ↦ add (add (add init a1) a2) a3

    The groups partition the things: their sizes add up to how many there are. -/

namespace SorobanPulse.Lib

variable {α β : Type*} {K : Type*} [DecidableEq K]

/-- `map.entry(k).or_insert(default)`, changed in place. -/
def orInsert (m : AList fun _ : K => β) (k : K) (default : β) (f : β → β) : AList fun _ : K => β :=
  m.insert k (f ((m.lookup k).getD default))

theorem lookup_orInsert (m : AList fun _ : K => β) (k k' : K) (default : β) (f : β → β) :
    (orInsert m k default f).lookup k' =
      if k = k' then some (f ((m.lookup k').getD default)) else m.lookup k' := by
  rw [orInsert]
  split
  · next h =>
    subst h
    exact AList.lookup_insert m
  · next h => exact AList.lookup_insert_ne (Ne.symm h)

section
variable (key : α → K) (init : β) (add : β → α → β)

/-- The things one after another, each added to what is there for its key. -/
def collect (l : List α) : AList fun _ : K => β :=
  l.foldl (fun m a => orInsert m (key a) init fun b => add b a) ∅

theorem collect_concat (l : List α) (a : α) : collect key init add (l ++ [a]) =
    orInsert (collect key init add l) (key a) init fun b => add b a := by
  rw [collect, List.foldl_append, ← collect, List.foldl_cons, List.foldl_nil]

/-- What is kept for a key: its own things, and nothing where there are none. -/
theorem lookup_collect (l : List α) (k : K) : (collect key init add l).lookup k =
    if ∃ a ∈ l, key a = k then some ((l.filter (key · = k)).foldl add init) else none := by
  induction l using List.reverseRecOn with
  | nil => rfl
  | append_singleton l a ih =>
    rw [collect_concat, lookup_orInsert, ih, List.filter_append]
    by_cases hkey : key a = k
    · have hexists : ∃ b ∈ l ++ [a], key b = k := ⟨a, by simp, hkey⟩
      have hsingle : [a].filter (key · = k) = [a] := by simp [hkey]
      rw [if_pos hkey, if_pos hexists, hsingle, List.foldl_append, List.foldl_cons, List.foldl_nil]
      split
      · rw [Option.getD_some]
      · next hnone =>
        have hnil : l.filter (key · = k) = [] := by
          rw [List.filter_eq_nil_iff]
          intro b hb hk
          exact hnone ⟨b, hb, of_decide_eq_true hk⟩
        rw [hnil, Option.getD_none, List.foldl_nil]
    · have hsingle : [a].filter (key · = k) = [] := by simp [hkey]
      rw [if_neg hkey, hsingle, List.append_nil]
      have hiff : (∃ b ∈ l ++ [a], key b = k) ↔ ∃ b ∈ l, key b = k := by
        simp [or_and_right, exists_or, hkey]
      rw [if_congr hiff rfl rfl]

theorem mem_keys_collect {l : List α} {k : K} :
    k ∈ (collect key init add l).keys ↔ ∃ a ∈ l, key a = k := by
  rw [← AList.mem_keys, ← AList.lookup_isSome, lookup_collect]
  split
  · next h => exact iff_of_true rfl h
  · next h => exact iff_of_false (by simp) h

end

/-- The groups' sizes add up. -/
theorem sum_length_groups {key : α → K} {l : List α} {keys : List K} (hnodup : keys.Nodup)
    (hmem : ∀ k, k ∈ keys ↔ ∃ a ∈ l, key a = k) :
    (keys.map fun k => (l.filter (key · = k)).length).sum = l.length := by
  have hperm : keys.Perm (l.map key).dedup := by
    rw [List.perm_ext_iff_of_nodup hnodup (List.nodup_dedup _)]
    intro k
    rw [hmem, List.mem_dedup, List.mem_map]
  have hcount (k : K) : (l.filter (key · = k)).length = (l.map key).count k := by
    rw [List.count, List.countP_map, List.countP_eq_length_filter]
    congr 1
  calc (keys.map fun k => (l.filter (key · = k)).length).sum
      = (keys.map fun k => (l.map key).count k).sum := by simp only [hcount]
    _ = ((l.map key).dedup.map fun k => (l.map key).count k).sum := (hperm.map _).sum_eq
    _ = l.length := by rw [List.sum_map_count_dedup_eq_length, List.length_map]

end SorobanPulse.Lib
