import Mathlib.Data.List.Nodup
import Mathlib.Data.List.Sort
import Mathlib.Order.Lattice

namespace Artel

open List

/-- `slice::binary_search_by`: `base` moves up to a probe that satisfies `p`. -/
def bisect (p : ℕ → Bool) : ℕ → ℕ → ℕ → ℕ
  | 0, _, base => base
  | fuel + 1, size, base =>
    if 1 < size then
      bisect p fuel (size - size / 2) (if p (base + size / 2) then base + size / 2 else base)
    else base

/-- `slice::partition_point`, which means nothing on a slice that is not partitioned. -/
def partitionPoint {α : Type} (p : α → Bool) (l : List α) : ℕ :=
  let holds := fun i => l[i]?.any p
  let base := bisect holds l.length l.length 0
  if holds base then base + 1 else base

theorem bisect_bounds (p : ℕ → Bool) (k fuel size base : ℕ) (hp : ∀ i, p i = true ↔ i < k)
    (hfuel : size ≤ fuel) (hbase : base ≤ k) (hk : k ≤ base + size) :
    bisect p fuel size base ≤ k ∧ k ≤ bisect p fuel size base + 1 := by
  induction fuel generalizing size base with
  | zero =>
    rw [bisect]
    omega
  | succ fuel ih =>
    -- the boundary stays between `base` and `base + size` whichever half is kept
    unfold bisect
    split
    · by_cases hmid : p (base + size / 2) = true
      · have hlt := (hp _).mp hmid
        rw [if_pos hmid]
        exact ih _ _ (by omega) (by omega) (by omega)
      · have hge : ¬ base + size / 2 < k := fun h => hmid ((hp _).mpr h)
        rw [if_neg hmid]
        exact ih _ _ (by omega) (by omega) (by omega)
    · omega

/-- On a partitioned list the search finds the boundary. -/
theorem partitionPoint_eq {α : Type} (p : α → Bool) (a b : List α) (ha : ∀ x ∈ a, p x = true)
    (hb : ∀ x ∈ b, p x = false) : partitionPoint p (a ++ b) = a.length := by
  have hp : ∀ i, ((a ++ b)[i]?.any p) = true ↔ i < a.length := by
    intro i
    by_cases hi : i < a.length
    · simp [getElem?_append_left hi, hi, ha _ (getElem_mem hi)]
    · rw [getElem?_append_right (Nat.le_of_not_lt hi)]
      cases hx : b[i - a.length]? with
      | none => simp [hi]
      | some x => simp [hi, hb x (mem_of_getElem? hx)]
  obtain ⟨hle, hge⟩ := bisect_bounds (fun i => (a ++ b)[i]?.any p) a.length (a ++ b).length
    (a ++ b).length 0 hp (Nat.le_refl _) (Nat.zero_le _) (by simp)
  -- the search ends at the boundary or one below it, and the last probe tells which
  unfold partitionPoint
  dsimp only
  split
  · rename_i h
    have hlt := (hp _).mp h
    omega
  · rename_i h
    have hnot : ¬ _ < a.length := fun hlt => h ((hp _).mpr hlt)
    omega

section Keyed

variable {α κ : Type} [LinearOrder κ] (key : α → κ)

/-- Strictly increasing in the key: sorted and without duplicates. -/
def Ascending (l : List α) : Prop := l.Pairwise fun x y => key x < key y

theorem Ascending.split {l : List α} (h : Ascending key l) (k : κ) :
    ∃ a b, l = a ++ b ∧ (∀ x ∈ a, key x < k) ∧ ∀ x ∈ b, k ≤ key x := by
  induction l with
  | nil => exact ⟨[], [], rfl, by simp, by simp⟩
  | cons x l ih =>
    obtain ⟨hx, hl⟩ := pairwise_cons.mp h
    by_cases hk : key x < k
    · obtain ⟨a, b, rfl, ha, hb⟩ := ih hl
      refine ⟨x :: a, b, rfl, ?_, hb⟩
      intro y hy
      obtain rfl | hy := mem_cons.mp hy
      · exact hk
      · exact ha y hy
    · refine ⟨[], x :: l, rfl, by simp, ?_⟩
      intro y hy
      obtain rfl | hy := mem_cons.mp hy
      · exact not_lt.mp hk
      · exact (not_lt.mp hk).trans (hx y hy).le

theorem Ascending.insert {a b : List α} {x : α} (h : Ascending key (a ++ b))
    (ha : ∀ y ∈ a, key y < key x) (hb : ∀ y ∈ b, key x < key y) :
    Ascending key (a ++ x :: b) := by
  obtain ⟨h1, h2, h3⟩ := pairwise_append.mp h
  refine pairwise_append.mpr ⟨h1, pairwise_cons.mpr ⟨hb, h2⟩, ?_⟩
  intro y hy z hz
  obtain rfl | hz := mem_cons.mp hz
  · exact ha y hy
  · exact h3 y hy z hz

theorem Ascending.append_singleton {l : List α} {x : α} :
    Ascending key (l ++ [x]) ↔ Ascending key l ∧ ∀ y ∈ l, key y < key x := by
  simp [Ascending, pairwise_append]

/-- An ascending list is determined by its elements. -/
theorem Ascending.eq_of_perm {l l' : List α} (h : Ascending key l) (h' : Ascending key l')
    (hp : l.Perm l') : l = l' :=
  List.Perm.eq_of_pairwise (fun _ _ _ _ hxy hyx => absurd hyx hxy.asymm) h h' hp

theorem Ascending.sublist {l l' : List α} (h : Ascending key l) (hsub : l'.Sublist l) :
    Ascending key l' :=
  List.Pairwise.sublist hsub h

theorem Ascending.nodup_map {l : List α} (h : Ascending key l) : (l.map key).Nodup :=
  pairwise_map.mpr (h.imp fun hlt => hlt.ne)

theorem Ascending.eq_of_key_eq {l : List α} (h : Ascending key l) {x y : α} (hx : x ∈ l)
    (hy : y ∈ l) (heq : key x = key y) : x = y :=
  inj_on_of_nodup_map (h.nodup_map key) hx hy heq

end Keyed

section Sorted

variable {α : Type} {r : α → α → Prop} [DecidableRel r] [IsTrans α r]

theorem orderedInsert_around (a x : α) (u v : List α) (h : (u ++ x :: v).Pairwise r) :
    ∃ u' v', (u ++ v).orderedInsert r a = u' ++ v' ∧
      (u ++ x :: v).orderedInsert r a = u' ++ x :: v' := by
  induction u with
  | nil =>
    by_cases hx : r a x
    · refine ⟨[a], v, ?_, by simp [hx]⟩
      cases v with
      | nil => rfl
      | cons b v =>
        have hxb : r x b := (pairwise_cons.mp h).1 b mem_cons_self
        simp [trans_of r hx hxb]
    · exact ⟨[], v.orderedInsert r a, rfl, by simp [hx]⟩
  | cons b u ih =>
    by_cases hb : r a b
    · exact ⟨a :: b :: u, v, by simp [hb], by simp [hb]⟩
    · obtain ⟨u', v', hwithout, hwith⟩ := ih (pairwise_cons.mp h).2
      exact ⟨b :: u', v', by simp [hb, hwithout], by simp [hb, hwith]⟩

theorem insertionSort_append_singleton [Std.Total r] (l : List α) (x : α) :
    ∃ u v, l.insertionSort r = u ++ v ∧ (l ++ [x]).insertionSort r = u ++ x :: v := by
  induction l with
  | nil => exact ⟨[], [], rfl, rfl⟩
  | cons a l ih =>
    obtain ⟨u, v, hl, hx⟩ := ih
    have hsorted := pairwise_insertionSort r (l ++ [x])
    rw [hx] at hsorted
    obtain ⟨u', v', hwithout, hwith⟩ := orderedInsert_around a x u v hsorted
    exact ⟨u', v', by rw [insertionSort_cons, hl, hwithout],
      by rw [cons_append, insertionSort_cons, hx, hwith]⟩

end Sorted

end Artel
