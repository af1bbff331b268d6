import Artel.Lib.Run

namespace Artel

/-- Atomic actions on `σ`, each waiting until `ready`, with a choice `χ`. -/
inductive Fiber (σ χ ℓ α : Type) : Type
  | ret (a : α)
  | act (label : ℓ) (ready : χ → σ → Bool) (next : χ → σ → σ) (rest : χ → σ → Fiber σ χ ℓ α)

namespace Fiber

variable {σ χ ℓ α β : Type}

def bind (t : Fiber σ χ ℓ α) (k : α → Fiber σ χ ℓ β) : Fiber σ χ ℓ β :=
  match t with
  | ret a => k a
  | act l ready next rest => act l ready next fun e s => (rest e s).bind k

instance : Monad (Fiber σ χ ℓ) where
  pure := ret
  bind := bind

/-- One action that waits until it is ready. -/
def waitFor (l : ℓ) (ready : χ → σ → Bool) (f : χ → σ → α × σ) : Fiber σ χ ℓ α :=
  act l ready (fun e s => (f e s).2) fun e s => ret (f e s).1

/-- One action that never waits. -/
def once (l : ℓ) (f : χ → σ → α × σ) : Fiber σ χ ℓ α := waitFor l (fun _ _ => true) f

def returned : Fiber σ χ ℓ α → Option α
  | ret a => some a
  | act _ _ _ _ => none

@[simp] theorem pure_eq (a : α) : (pure a : Fiber σ χ ℓ α) = ret a := rfl

@[simp] theorem bind_eq (t : Fiber σ χ ℓ α) (k : α → Fiber σ χ ℓ β) : t >>= k = t.bind k := rfl

@[simp] theorem ret_bind (a : α) (k : α → Fiber σ χ ℓ β) : (ret a).bind k = k a := rfl

theorem returned_eq_some {t : Fiber σ χ ℓ α} {a : α} (h : t.returned = some a) : t = ret a := by
  cases t with
  | ret b =>
    cases h
    rfl
  | act _ _ _ _ => cases h

end Fiber

/-- A shared state and the calls made on it so far, in flight or returned. -/
structure Pool (ο σ χ ℓ α : Type) where
  world : σ
  calls : List (ο × Fiber σ χ ℓ α)

/-- A new call arrives, or the call at an index takes its next action. -/
inductive Move (ο χ : Type)
  | call (o : ο)
  | step (i : ℕ) (e : χ)

namespace Pool

variable {ο σ χ ℓ α : Type}

/-- An action that is not ready leaves everything as it is. -/
def move (body : ℕ → ο → Fiber σ χ ℓ α) (p : Pool ο σ χ ℓ α) : Move ο χ → Pool ο σ χ ℓ α
  | .call o => { p with calls := p.calls ++ [(o, body p.calls.length o)] }
  | .step i e =>
    match p.calls[i]? with
    | some (o, .act _ ready next rest) =>
      if ready e p.world then ⟨next e p.world, p.calls.set i (o, rest e p.world)⟩ else p
    | _ => p

def run (body : ℕ → ο → Fiber σ χ ℓ α) (p : Pool ο σ χ ℓ α) (ms : List (Move ο χ)) :
    Pool ο σ χ ℓ α :=
  ms.foldl (move body) p

def result (p : Pool ο σ χ ℓ α) (i : ℕ) : Option α := p.calls[i]?.bind fun c => c.2.returned

def callAt (p : Pool ο σ χ ℓ α) (i : ℕ) : Option ο := p.calls[i]?.map Prod.fst

variable {p : Pool ο σ χ ℓ α}

theorem result_eq_some {i : ℕ} {a : α} (h : p.result i = some a) :
    ∃ o, p.calls[i]? = some (o, .ret a) := by
  obtain ⟨⟨o, t⟩, hc, ht⟩ := Option.bind_eq_some_iff.mp h
  have hret := Fiber.returned_eq_some ht
  subst hret
  exact ⟨o, hc⟩

theorem calls_move {body : ℕ → ο → Fiber σ χ ℓ α} {m : Move ο χ} {i : ℕ} {o : ο}
    {t : Fiber σ χ ℓ α} (h : (p.move body m).calls[i]? = some (o, t)) :
    p.calls[i]? = some (o, t) ∨ (i = p.calls.length ∧ m = .call o ∧ t = body i o) ∨
      ∃ l ready next rest e, m = .step i e ∧ p.calls[i]? = some (o, .act l ready next rest) ∧
        ready e p.world = true ∧ t = rest e p.world := by
  cases m with
  | call o' =>
    simp only [move, List.getElem?_append] at h
    split at h
    · exact .inl h
    rename_i hlt
    rcases hn : i - p.calls.length with _ | n
    · rw [hn, List.getElem?_cons_zero, Option.some.injEq, Prod.mk.injEq] at h
      obtain ⟨rfl, rfl⟩ := h
      have hi : i = p.calls.length := by omega
      exact .inr (.inl ⟨hi, rfl, by rw [hi]⟩)
    · simp [hn] at h
  | step j e =>
    simp only [move] at h
    split at h
    · rename_i o' l ready next rest hj
      split at h
      · rename_i hready
        by_cases hij : j = i
        · subst hij
          rw [List.getElem?_set_self (List.getElem?_eq_some_iff.mp hj).1] at h
          cases h
          exact .inr (.inr ⟨l, ready, next, rest, e, rfl, hj, hready, rfl⟩)
        · rw [List.getElem?_set_ne hij] at h
          exact .inl h
      · exact .inl h
    · exact .inl h

theorem callAt_move (body : ℕ → ο → Fiber σ χ ℓ α) (m : Move ο χ) {i : ℕ} {o : ο}
    {t : Fiber σ χ ℓ α} (h : p.calls[i]? = some (o, t)) :
    ∃ t', (p.move body m).calls[i]? = some (o, t') := by
  have hlt : i < p.calls.length := (List.getElem?_eq_some_iff.mp h).1
  cases m with
  | call o' => exact ⟨t, by simp only [move, List.getElem?_append_left hlt, h]⟩
  | step j e =>
    simp only [move]
    split
    · rename_i o' l ready next rest hj
      split
      · by_cases hij : j = i
        · subst hij
          obtain ⟨rfl, -⟩ := Prod.mk.inj (Option.some.inj (h.symm.trans hj))
          exact ⟨_, List.getElem?_set_self hlt⟩
        · exact ⟨t, by rw [List.getElem?_set_ne hij, h]⟩
      · exact ⟨t, h⟩
    · exact ⟨t, h⟩

/-- No call is in flight. -/
def Quiescent (p : Pool ο σ χ ℓ α) : Prop := ∀ c ∈ p.calls, c.2.returned.isSome

instance (p : Pool ο σ χ ℓ α) : Decidable p.Quiescent :=
  inferInstanceAs (Decidable (∀ c ∈ p.calls, c.2.returned.isSome))

/-- New calls meet `A`, and actions that are taken meet `C` in the state they are taken in. -/
def Meets (A : ο → Prop) (C : ℓ → χ → σ → Prop) (p : Pool ο σ χ ℓ α) : Move ο χ → Prop
  | .call o => A o
  | .step i e =>
    match p.calls[i]? with
    | some (_, .act l ready _ _) => ready e p.world → C l e p.world
    | _ => True

instance (A : ο → Prop) (C : ℓ → χ → σ → Prop) [DecidablePred A]
    [∀ l e s, Decidable (C l e s)] (p : Pool ο σ χ ℓ α) (m : Move ο χ) :
    Decidable (p.Meets A C m) := by
  unfold Meets
  split
  · infer_instance
  · split <;> infer_instance

theorem Meets.of_act {A : ο → Prop} {C : ℓ → χ → σ → Prop} {i : ℕ} {e : χ}
    (h : p.Meets A C (.step i e)) {o : ο} {l : ℓ} {ready : χ → σ → Bool} {next : χ → σ → σ}
    {rest : χ → σ → Fiber σ χ ℓ α} (hi : p.calls[i]? = some (o, .act l ready next rest))
    (hready : ready e p.world = true) : C l e p.world := by
  simp only [Meets, hi] at h
  exact h hready

theorem meets_of_forall {A : ο → Prop} {C : ℓ → χ → σ → Prop} (hA : ∀ o, A o)
    (hC : ∀ l e s, C l e s) (p : Pool ο σ χ ℓ α) (m : Move ο χ) : p.Meets A C m := by
  cases m with
  | call o => exact hA o
  | step i e =>
    simp only [Meets]
    split
    · exact fun _ => hC _ _ _
    · trivial

end Pool

end Artel
