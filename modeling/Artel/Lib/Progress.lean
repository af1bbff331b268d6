import Mathlib.Algebra.BigOperators.Group.Finset.Piecewise
import Artel.Lib.History

namespace Artel

open Function

variable {ο σ χ ℓ α β γ ν : Type}

/-- A proof outline that also says, by `B`, when the call has to wait. -/
def Proceeds (I : σ → (ℕ → ν) → Prop) (C : ℓ → χ → σ → Prop) (B : ν → σ → Prop) (i : ℕ)
    (Q : α → ν → Prop) : Fiber σ χ ℓ α → ν → Prop
  | .ret a, v => Q a v
  | .act l ready next rest, v => ∀ s V e, I s V → V i = v →
      (ready e s = true ∨ B v s) ∧ (ready e s = true → C l e s →
        ∃ v', I (next e s) (update V i v') ∧ Proceeds I C B i Q (rest e s) v')

namespace Proceeds

variable {I : σ → (ℕ → ν) → Prop} {C : ℓ → χ → σ → Prop} {B : ν → σ → Prop} {i : ℕ}
  {Q : α → ν → Prop} {R : β → ν → Prop} {v : ν}

theorem bind {t : Fiber σ χ ℓ α} {k : α → Fiber σ χ ℓ β} (ht : Proceeds I C B i Q t v)
    (hk : ∀ a v, Q a v → Proceeds I C B i R (k a) v) : Proceeds I C B i R (t.bind k) v := by
  induction t generalizing v with
  | ret a => exact hk a v ht
  | act l ready next rest ih =>
    intro s V e hI hv
    obtain ⟨hready, hnext⟩ := ht s V e hI hv
    refine ⟨hready, fun hr hC => ?_⟩
    obtain ⟨v', hI', hrest⟩ := hnext hr hC
    exact ⟨v', hI', ih e s hrest⟩

theorem mono {P : α → ν → Prop} {t : Fiber σ χ ℓ α} (ht : Proceeds I C B i Q t v)
    (hQ : ∀ a v, Q a v → P a v) : Proceeds I C B i P t v := by
  induction t generalizing v with
  | ret a => exact hQ a v ht
  | act l ready next rest ih =>
    intro s V e hI hv
    obtain ⟨hready, hnext⟩ := ht s V e hI hv
    refine ⟨hready, fun hr hC => ?_⟩
    obtain ⟨v', hI', hrest⟩ := hnext hr hC
    exact ⟨v', hI', ih e s hrest⟩

end Proceeds

namespace Proceeds

variable {I : σ × γ → (ℕ → ν) → Prop} {C : ℓ → χ → σ × γ → Prop} {B : ν → σ × γ → Prop} {i : ℕ}
  {Q : α → ν → Prop} {R : β → ν → Prop} {v : ν} {note : ℓ → χ → σ → σ → γ → γ}

theorem bindObserve {t : Fiber σ χ ℓ α} {k : α → Fiber σ χ ℓ β}
    (ht : Proceeds I C B i Q (t.observe note) v)
    (hk : ∀ a w, Q a w → Proceeds I C B i R ((k a).observe note) w) :
    Proceeds I C B i R ((t.bind k).observe note) v := by
  rw [Fiber.observe_bind]
  exact ht.bind hk

theorem waitForObserve {l : ℓ} {ready : χ → σ → Bool} {f : χ → σ → α × σ}
    (hready : ∀ s g V e, I (s, g) V → V i = v → ready e s = true ∨ B v (s, g))
    (h : ∀ s g V e, I (s, g) V → V i = v → ready e s = true → C l e (s, g) →
      ∃ v', I ((f e s).2, note l e s (f e s).2 g) (update V i v') ∧ Q (f e s).1 v') :
    Proceeds I C B i Q ((Fiber.waitFor l ready f).observe note) v :=
  fun s V e hI hv => ⟨hready s.1 s.2 V e hI hv, h s.1 s.2 V e hI hv⟩

theorem onceObserve {l : ℓ} {f : χ → σ → α × σ}
    (h : ∀ s g V e, I (s, g) V → V i = v → C l e (s, g) →
      ∃ v', I ((f e s).2, note l e s (f e s).2 g) (update V i v') ∧ Q (f e s).1 v') :
    Proceeds I C B i Q ((Fiber.once l f).observe note) v :=
  waitForObserve (fun _ _ _ _ _ _ => .inl rfl) fun s g V e hI hv _ hC => h s g V e hI hv hC

end Proceeds

namespace Pool

/-- The call at an index can take its next action. -/
def enabled (p : Pool ο σ χ ℓ α) (i : ℕ) (e : χ) : Bool :=
  match p.calls[i]? with
  | some (_, .act _ ready _ _) => ready e p.world
  | _ => false

section Waiting

variable {body : ℕ → ο → Fiber σ χ ℓ α} {I : σ → (ℕ → ν) → Prop} {A : ο → Prop}
  {C : ℓ → χ → σ → Prop} {B : ν → σ → Prop} {Q : ο → α → ν → Prop} {idle : ν}

/-- The account that outlines with waiting give of a pool. -/
abbrev Moving (I : σ → (ℕ → ν) → Prop) (C : ℓ → χ → σ → Prop) (B : ν → σ → Prop)
    (Q : ο → α → ν → Prop) (idle : ν) : Pool ο σ χ ℓ α → Prop :=
  Accounted I (fun i o t v => Proceeds I C B i (Q o) t v) idle

theorem moving_run (hbody : ∀ i o, A o → Proceeds I C B i (Q o) (body i o) idle)
    {p : Pool ο σ χ ℓ α} (hp : Moving I C B Q idle p) {ms : List (Move ο χ)}
    (hms : Along (move body) (Meets A C) p ms) : Moving I C B Q idle (p.run body ms) := by
  apply hms.invariant (I := Moving I C B Q idle) ?_ hp
  intro p m hp hm
  cases m with
  | call o => exact accounted_call (R := fun i o t v => Proceeds I C B i (Q o) t v) hbody hp o hm
  | step i e =>
    refine accounted_step (R := fun i o t v => Proceeds I C B i (Q o) t v) (C := fun _ => C) ?_ hp i e
      fun _ _ _ _ _ hi hready => hm.of_act hi hready
    intro i o l ready next rest v h s V e hI hv hready hC
    exact (h s V e hI hv).2 hready hC

end Waiting

end Pool

namespace Fiber

/-- The call returns after at most so many actions. -/
def Within : Fiber σ χ ℓ α → ℕ → Prop
  | .ret _, _ => True
  | .act _ _ _ rest, n => 0 < n ∧ ∀ e s, (rest e s).Within (n - 1)

theorem Within.mono {t : Fiber σ χ ℓ α} {n k : ℕ} (h : t.Within n) (hnk : n ≤ k) : t.Within k := by
  induction t generalizing n k with
  | ret a => trivial
  | act l ready next rest ih =>
    exact ⟨by have := h.1; omega, fun e s => ih e s (h.2 e s) (by omega)⟩

theorem within_bind {t : Fiber σ χ ℓ α} {k : α → Fiber σ χ ℓ β} {n m : ℕ} (ht : t.Within n)
    (hk : ∀ a, (k a).Within m) : (t.bind k).Within (n + m) := by
  induction t generalizing n with
  | ret a => exact (hk a).mono (by omega)
  | act l ready next rest ih =>
    refine ⟨by have := ht.1; omega, fun e s => ?_⟩
    exact (ih e s (ht.2 e s)).mono (by have := ht.1; omega)

theorem within_act {l : ℓ} {ready : χ → σ → Bool} {f : χ → σ → α × σ} {k : α → Fiber σ χ ℓ β} {n : ℕ}
    (hk : ∀ a, (k a).Within n) : ((waitFor l ready f).bind k).Within (n + 1) :=
  ⟨Nat.succ_pos n, fun _ _ => hk _⟩

end Fiber

namespace Pool

variable (body : ℕ → ο → Fiber σ χ ℓ α)

/-- How many actions a run takes; a move of a call that has to wait is none. -/
def taken : Pool ο σ χ ℓ α → List (Move ο χ) → ℕ
  | _, [] => 0
  | p, .call o :: ms => taken (p.move body (.call o)) ms
  | p, .step i e :: ms =>
    (if p.enabled i e then 1 else 0) + taken (p.move body (.step i e)) ms

variable {body} {A : ο → Prop} {k : ℕ}

/-- The calls in flight have so many actions left. -/
def Budget (p : Pool ο σ χ ℓ α) (b : ℕ → ℕ) : Prop :=
  ∀ i o (t : Fiber σ χ ℓ α), p.calls[i]? = some (o, t) → t.Within (b i)

variable {p : Pool ο σ χ ℓ α}

theorem Budget.call (hbody : ∀ i o, A o → (body i o).Within k) {b : ℕ → ℕ}
    (hb : p.Budget b) {o : ο} (ho : A o) :
    (p.move body (.call o)).Budget (update b p.calls.length k) := by
  intro i o' t ht
  simp only [move, List.getElem?_append] at ht
  split at ht
  · rename_i hlt
    rw [update_of_ne (by omega)]
    exact hb i o' t ht
  rename_i hlt
  obtain ⟨hzero, heq⟩ : i - p.calls.length = 0 ∧ (o, body p.calls.length o) = (o', t) := by
    rcases hn : i - p.calls.length with _ | n
    · exact ⟨rfl, by simpa [hn] using ht⟩
    · simp [hn] at ht
  cases heq
  have hi : i = p.calls.length := by omega
  rw [hi, update_self]
  exact hbody _ _ ho

variable (body) in
theorem Budget.step {b : ℕ → ℕ} (hb : p.Budget b) {i : ℕ} {e : χ}
    (he : p.enabled i e = true) :
    i < p.calls.length ∧ 0 < b i ∧
      (p.move body (.step i e)).calls.length = p.calls.length ∧
      (p.move body (.step i e)).Budget (update b i (b i - 1)) := by
  unfold enabled at he
  split at he
  · rename_i o l ready next rest hi
    have hlt : i < p.calls.length := (List.getElem?_eq_some_iff.mp hi).1
    have hwithin : (Fiber.act l ready next rest).Within (b i) := hb i o _ hi
    refine ⟨hlt, hwithin.1, ?_, ?_⟩
    · simp only [move, hi, he, if_true, List.length_set]
    · intro j o' t ht
      simp only [move, hi, he, if_true] at ht
      by_cases hij : i = j
      · subst hij
        rw [List.getElem?_set_self hlt] at ht
        cases ht
        rw [update_self]
        exact hwithin.2 e p.world
      · rw [List.getElem?_set_ne hij] at ht
        rw [update_of_ne (Ne.symm hij)]
        exact hb j o' t ht
  · cases he

theorem move_of_not_enabled {i : ℕ} {e : χ} (he : p.enabled i e = false) :
    p.move body (.step i e) = p := by
  unfold enabled at he
  unfold move
  split at he
  · rename_i hi
    simp [hi, he]
  rename_i hnone
  dsimp only
  split
  · rename_i hi
    exact (hnone _ _ _ _ _ hi).elim
  · rfl

theorem taken_le_budget (hbody : ∀ i o, A o → (body i o).Within k) (ms : List (Move ο χ))
    (hms : ∀ o, .call o ∈ ms → A o) (p : Pool ο σ χ ℓ α) (b : ℕ → ℕ) (hb : p.Budget b) :
    p.taken body ms + k * p.calls.length ≤
      ∑ i ∈ Finset.range p.calls.length, b i + k * (p.run body ms).calls.length := by
  induction ms generalizing p b with
  | nil => simp [taken, run]
  | cons m ms ih =>
    have hrest : ∀ o, .call o ∈ ms → A o := fun o ho => hms o (List.mem_cons_of_mem _ ho)
    cases m with
    | call o =>
      have hnext := ih hrest _ _ (hb.call hbody (hms o List.mem_cons_self))
      have hlen : (p.move body (.call o)).calls.length = p.calls.length + 1 := by simp [move]
      have hsum : ∑ i ∈ Finset.range p.calls.length, update b p.calls.length k i =
          ∑ i ∈ Finset.range p.calls.length, b i := by
        apply Finset.sum_congr rfl
        intro i hi
        rw [update_of_ne (Finset.mem_range.mp hi).ne]
      rw [hlen, Finset.sum_range_succ, hsum, update_self, Nat.mul_add, Nat.mul_one] at hnext
      have hrun : p.run body (.call o :: ms) = (p.move body (.call o)).run body ms := rfl
      rw [hrun, taken]
      omega
    | step i e =>
      have hrun : p.run body (.step i e :: ms) = (p.move body (.step i e)).run body ms := rfl
      rw [hrun, taken]
      cases he : p.enabled i e with
      | true =>
        obtain ⟨hlt, hpos, hlen, hb'⟩ := hb.step body he
        have hnext := ih hrest _ _ hb'
        have hmem : i ∈ Finset.range p.calls.length := Finset.mem_range.mpr hlt
        have hsum := Finset.sum_update_of_mem hmem b (b i - 1)
        have hold := Finset.sum_eq_add_sum_sdiff_singleton_of_mem hmem b
        rw [hlen, hsum] at hnext
        simp only [if_true]
        omega
      | false =>
        rw [move_of_not_enabled he]
        have hnext := ih hrest p b hb
        simpa using hnext

/-- Calls of at most `k` actions take at most `k` actions each, all together. -/
theorem taken_le (hbody : ∀ i o, A o → (body i o).Within k) {ms : List (Move ο χ)}
    (hms : ∀ o, .call o ∈ ms → A o) (s : σ) :
    taken body ⟨s, []⟩ ms ≤ k * ((⟨s, []⟩ : Pool ο σ χ ℓ α).run body ms).calls.length := by
  have h := taken_le_budget hbody ms hms ⟨s, []⟩ (fun _ => 0) (by simp [Budget])
  simpa using h

end Pool

end Artel
