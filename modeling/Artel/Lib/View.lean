import Mathlib.Logic.Function.Basic
import Artel.Lib.Fiber

namespace Artel

open Function

variable {ο σ χ ℓ α β ν : Type}

/-- A proof outline: each action of call `i` keeps `I` and may move the call's own view. -/
def Follows (I : σ → (ℕ → ν) → Prop) (C : ℓ → χ → σ → Prop) (i : ℕ) (Q : α → ν → Prop) :
    Fiber σ χ ℓ α → ν → Prop
  | .ret a, v => Q a v
  | .act l ready next rest, v => ∀ s V e, I s V → V i = v → ready e s = true → C l e s →
      ∃ v', I (next e s) (update V i v') ∧ Follows I C i Q (rest e s) v'

namespace Follows

variable {I : σ → (ℕ → ν) → Prop} {C : ℓ → χ → σ → Prop} {i : ℕ} {Q : α → ν → Prop}
  {R : β → ν → Prop} {v : ν}

variable {k : α → Fiber σ χ ℓ β}

theorem bind {t : Fiber σ χ ℓ α} (ht : Follows I C i Q t v)
    (hk : ∀ a v, Q a v → Follows I C i R (k a) v) : Follows I C i R (t.bind k) v := by
  induction t generalizing v with
  | ret a => exact hk a v ht
  | act l ready next rest ih =>
    intro s V e hI hv hready hC
    obtain ⟨v', hI', hrest⟩ := ht s V e hI hv hready hC
    exact ⟨v', hI', ih e s hrest⟩

theorem mono {P : α → ν → Prop} {t : Fiber σ χ ℓ α} (ht : Follows I C i Q t v)
    (hQ : ∀ a v, Q a v → P a v) : Follows I C i P t v := by
  induction t generalizing v with
  | ret a => exact hQ a v ht
  | act l ready next rest ih =>
    intro s V e hI hv hready hC
    obtain ⟨v', hI', hrest⟩ := ht s V e hI hv hready hC
    exact ⟨v', hI', ih e s hrest⟩

theorem waitFor {l : ℓ} {ready : χ → σ → Bool} {f : χ → σ → α × σ}
    (h : ∀ s V e, I s V → V i = v → ready e s = true → C l e s →
      ∃ v', I (f e s).2 (update V i v') ∧ Follows I C i R (k (f e s).1) v') :
    Follows I C i R ((Fiber.waitFor l ready f).bind k) v :=
  h

theorem once {l : ℓ} {f : χ → σ → α × σ}
    (h : ∀ s V e, I s V → V i = v → C l e s →
      ∃ v', I (f e s).2 (update V i v') ∧ Follows I C i R (k (f e s).1) v') :
    Follows I C i R ((Fiber.once l f).bind k) v :=
  fun s V e hI hv _ hC => h s V e hI hv hC

theorem keep {s : σ} {V : ℕ → ν} {t : Fiber σ χ ℓ β} (hv : V i = v) (hI : I s V)
    (ht : Follows I C i R t v) :
    ∃ v', I s (update V i v') ∧ Follows I C i R t v' := by
  refine ⟨v, ?_, ht⟩
  rwa [← hv, update_eq_self]

end Follows

theorem exists_update {V : ℕ → ν} (P : ν → Prop) (h : ∃ j, P (V j)) {i : ℕ} (hi : ¬ P (V i))
    (w : ν) : ∃ j, P (update V i w j) := by
  obtain ⟨j, hj⟩ := h
  refine ⟨j, ?_⟩
  rw [update_of_ne]
  · exact hj
  · rintro rfl
    exact hi hj

/-- A part of a call that moves neither the invariant nor its own view. -/
abbrev Quiet (I : σ → (ℕ → ν) → Prop) (C : ℓ → χ → σ → Prop) (i : ℕ) (v : ν)
    (t : Fiber σ χ ℓ α) : Prop :=
  Follows I C i (fun _ w => w = v) t v

namespace Quiet

variable {I : σ → (ℕ → ν) → Prop} {C : ℓ → χ → σ → Prop} {i : ℕ} {R : β → ν → Prop} {v : ν}

theorem andThen {t : Fiber σ χ ℓ α} {k : α → Fiber σ χ ℓ β} (ht : Quiet I C i v t)
    (hk : ∀ a, Follows I C i R (k a) v) : Follows I C i R (t.bind k) v := by
  apply ht.bind
  intro a w hw
  rw [hw]
  exact hk a

theorem option {t : Fiber σ χ ℓ (Option α)} {k : Option α → Fiber σ χ ℓ β} (ht : Quiet I C i v t)
    (hnone : Follows I C i R (k none) v) (hsome : ∀ a, Follows I C i R (k (some a)) v) :
    Follows I C i R (t.bind k) v := by
  apply ht.andThen
  rintro (_ | a)
  · exact hnone
  · exact hsome a

theorem except {ε : Type} {t : Fiber σ χ ℓ (Except ε α)} {k : Except ε α → Fiber σ χ ℓ β}
    (ht : Quiet I C i v t) (herror : ∀ e, Follows I C i R (k (.error e)) v)
    (hok : ∀ a, Follows I C i R (k (.ok a)) v) : Follows I C i R (t.bind k) v := by
  apply ht.andThen
  rintro (e | a)
  · exact herror e
  · exact hok a

theorem waitFor {l : ℓ} {ready : χ → σ → Bool} {f : χ → σ → α × σ}
    (hf : ∀ e s V, I s V → V i = v → C l e s → I (f e s).2 V) :
    Quiet I C i v (Fiber.waitFor l ready f) := by
  intro s V e hI hv _ hC
  exact Follows.keep hv (hf e s V hI hv hC) rfl

theorem once {l : ℓ} {f : χ → σ → α × σ}
    (hf : ∀ e s V, I s V → V i = v → C l e s → I (f e s).2 V) :
    Quiet I C i v (Fiber.once l f) :=
  waitFor hf

end Quiet

namespace Pool

/-- Some views account for the state and for every call; an unused index is `idle`. -/
def Tracked (I : σ → (ℕ → ν) → Prop) (C : ℓ → χ → σ → Prop) (Q : ο → α → ν → Prop) (idle : ν)
    (p : Pool ο σ χ ℓ α) : Prop :=
  ∃ V, I p.world V ∧ (∀ i, p.calls.length ≤ i → V i = idle) ∧
    ∀ i o t, p.calls[i]? = some (o, t) → Follows I C i (Q o) t (V i)

variable {body : ℕ → ο → Fiber σ χ ℓ α} {I : σ → (ℕ → ν) → Prop} {A : ο → Prop}
  {C : ℓ → χ → σ → Prop} {Q : ο → α → ν → Prop} {idle : ν}

/-- The same with any account `R` of a call by its view in place of a proof outline. -/
def Accounted (I : σ → (ℕ → ν) → Prop) (R : ℕ → ο → Fiber σ χ ℓ α → ν → Prop) (idle : ν)
    (p : Pool ο σ χ ℓ α) : Prop :=
  ∃ V, I p.world V ∧ (∀ i, p.calls.length ≤ i → V i = idle) ∧
    ∀ i o t, p.calls[i]? = some (o, t) → R i o t (V i)

section Accounted

variable {R : ℕ → ο → Fiber σ χ ℓ α → ν → Prop}

theorem accounted_nil {s : σ} (h : I s fun _ => idle) :
    Accounted I R idle (⟨s, []⟩ : Pool ο σ χ ℓ α) := by
  refine ⟨fun _ => idle, h, fun _ _ => rfl, ?_⟩
  intro i o t ht
  simp at ht

variable {p : Pool ο σ χ ℓ α}

theorem accounted_call (hbody : ∀ i o, A o → R i o (body i o) idle)
    (hp : Accounted I R idle p) (o : ο) (ho : A o) :
    Accounted I R idle (p.move body (.call o)) := by
  obtain ⟨V, hI, hidle, hcalls⟩ := hp
  refine ⟨V, hI, ?_, ?_⟩
  · intro i hi
    apply hidle
    simp only [move, List.length_append, List.length_singleton] at hi
    omega
  · intro i o' t ht
    obtain hold | ⟨rfl, hcall, rfl⟩ | ⟨l, ready, next, rest, e, hstep, -⟩ := calls_move ht
    · exact hcalls i o' t hold
    · cases hcall
      rw [hidle _ (Nat.le_refl _)]
      exact hbody _ o ho
    · cases hstep

/-- An account that every action keeps is kept by the pool. -/
theorem accounted_step {C : ο → ℓ → χ → σ → Prop}
    (hR : ∀ i o l ready next rest v, R i o (.act l ready next rest) v →
      ∀ s V e, I s V → V i = v → ready e s = true → C o l e s →
        ∃ v', I (next e s) (update V i v') ∧ R i o (rest e s) v')
    (hp : Accounted I R idle p) (i : ℕ) (e : χ)
    (hm : ∀ o l ready next rest, p.calls[i]? = some (o, .act l ready next rest) →
      ready e p.world = true → C o l e p.world) :
    Accounted I R idle (p.move body (.step i e)) := by
  obtain ⟨V, hI, hidle, hcalls⟩ := hp
  unfold move
  dsimp only
  split
  · rename_i o l ready next rest hi
    split
    · rename_i hready
      have hlt : i < p.calls.length := (List.getElem?_eq_some_iff.mp hi).1
      -- only the view of the call that moved changes, so the other outlines stand
      obtain ⟨v', hI', hrest⟩ := hR i o _ _ _ _ _ (hcalls i o _ hi) p.world V e hI rfl hready
        (hm o l ready next rest hi hready)
      refine ⟨update V i v', hI', ?_, ?_⟩
      · intro j hj
        rw [List.length_set] at hj
        rw [update_of_ne (by omega)]
        exact hidle j hj
      · intro j o' t ht
        by_cases hij : i = j
        · subst hij
          rw [List.getElem?_set_self hlt] at ht
          cases ht
          rwa [update_self]
        · rw [List.getElem?_set_ne hij] at ht
          rw [update_of_ne (Ne.symm hij)]
          exact hcalls j o' t ht
    · exact ⟨V, hI, hidle, hcalls⟩
  · exact ⟨V, hI, hidle, hcalls⟩

theorem Accounted.of_quiescent (hp : Accounted I R idle p) (hq : p.Quiescent) :
    ∃ V, I p.world V ∧ ∀ i, V i = idle ∨ ∃ o a, R i o (.ret a) (V i) := by
  obtain ⟨V, hI, hidle, hcalls⟩ := hp
  refine ⟨V, hI, fun i => ?_⟩
  cases hi : p.calls[i]? with
  | none =>
    left
    exact hidle i (List.getElem?_eq_none_iff.mp hi)
  | some c =>
    obtain ⟨o, t⟩ := c
    right
    obtain ⟨a, ha⟩ := Option.isSome_iff_exists.mp (hq _ (List.mem_of_getElem? hi))
    have ht := Fiber.returned_eq_some ha
    subst ht
    exact ⟨o, a, hcalls i o _ hi⟩

end Accounted

theorem tracked_nil {s : σ} (h : I s fun _ => idle) :
    Tracked I C Q idle (⟨s, []⟩ : Pool ο σ χ ℓ α) :=
  accounted_nil h

variable {p : Pool ο σ χ ℓ α}

theorem tracked_call (hbody : ∀ i o, A o → Follows I C i (Q o) (body i o) idle)
    (hp : Tracked I C Q idle p) (o : ο) (ho : A o) :
    Tracked I C Q idle (p.move body (.call o)) :=
  accounted_call (R := fun i o t v => Follows I C i (Q o) t v) hbody hp o ho

theorem tracked_step (hp : Tracked I C Q idle p) (i : ℕ) (e : χ)
    (hm : p.Meets A C (.step i e)) : Tracked I C Q idle (p.move body (.step i e)) :=
  accounted_step (R := fun i o t v => Follows I C i (Q o) t v) (C := fun _ => C)
    (fun _ _ _ _ _ _ _ h => h) hp i e fun _ _ _ _ _ hi hready => hm.of_act hi hready

theorem tracked_move (hbody : ∀ i o, A o → Follows I C i (Q o) (body i o) idle)
    (hp : Tracked I C Q idle p) (m : Move ο χ) (hm : p.Meets A C m) :
    Tracked I C Q idle (p.move body m) := by
  cases m with
  | call o => exact tracked_call hbody hp o hm
  | step i e => exact tracked_step hp i e hm

/-- If every body has a proof outline from `idle`, a guarded run stays accounted for. -/
theorem tracked_run (hbody : ∀ i o, A o → Follows I C i (Q o) (body i o) idle)
    (hp : Tracked I C Q idle p) {ms : List (Move ο χ)}
    (hms : Along (move body) (Meets A C) p ms) : Tracked I C Q idle (p.run body ms) :=
  hms.invariant (I := Tracked I C Q idle) (fun _ m hp hm => tracked_move hbody hp m hm) hp

theorem Tracked.of_result (hp : Tracked I C Q idle p) :
    ∃ V, I p.world V ∧
      ∀ i a, p.result i = some a → ∃ o, p.callAt i = some o ∧ Q o a (V i) := by
  obtain ⟨V, hI, -, hcalls⟩ := hp
  refine ⟨V, hI, fun i a h => ?_⟩
  obtain ⟨o, ho⟩ := result_eq_some h
  exact ⟨o, by rw [callAt, ho]; rfl, hcalls i o _ ho⟩

theorem Tracked.of_quiescent (hp : Tracked I C Q idle p)
    (hq : p.Quiescent) :
    ∃ V, I p.world V ∧ (∀ i o a, p.callAt i = some o → p.result i = some a → Q o a (V i)) ∧
      ∀ i, V i = idle ∨ ∃ o a, Q o a (V i) := by
  obtain ⟨V, hI, hidle, hcalls⟩ := hp
  refine ⟨V, hI, fun i o a ho ha => ?_, fun i => ?_⟩
  · obtain ⟨o', hi⟩ := result_eq_some ha
    rw [callAt, hi] at ho
    rw [← Option.some.inj ho]
    exact hcalls i o' _ hi
  · cases hi : p.calls[i]? with
    | none =>
      left
      exact hidle i (List.getElem?_eq_none_iff.mp hi)
    | some c =>
      obtain ⟨o, t⟩ := c
      right
      obtain ⟨a, ha⟩ := Option.isSome_iff_exists.mp (hq _ (List.mem_of_getElem? hi))
      have ht := Fiber.returned_eq_some ha
      subst ht
      exact ⟨o, a, hcalls i o _ hi⟩

end Pool

end Artel
