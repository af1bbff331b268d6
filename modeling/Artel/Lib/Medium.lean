import Mathlib.Data.List.Basic

namespace Artel

/-- A durable medium: what a write does, and what a crash inside it can leave. -/
structure Medium (σ ω : Type) where
  apply : ω → σ → σ
  torn : ω → σ → σ → Prop

namespace Medium

variable {σ ω α β : Type} (M : Medium σ ω)

def applyAll (ws : List ω) (s : σ) : σ := ws.foldl (fun s w => M.apply w s) s

@[simp] theorem applyAll_nil (s : σ) : M.applyAll [] s = s := rfl

@[simp] theorem applyAll_cons (w : ω) (ws : List ω) (s : σ) :
    M.applyAll (w :: ws) s = M.applyAll ws (M.apply w s) := rfl

@[simp] theorem applyAll_append (ws vs : List ω) (s : σ) :
    M.applyAll (ws ++ vs) s = M.applyAll vs (M.applyAll ws s) := List.foldl_append ..

/-- What a crash before, between, inside or after these writes leaves. -/
inductive Cut : List ω → σ → σ → Prop
  | here (ws : List ω) (s : σ) : Cut ws s s
  | inside {w : ω} {ws : List ω} {s s' : σ} (h : M.torn w s s') : Cut (w :: ws) s s'
  | later {w : ω} {ws : List ω} {s s' : σ} (h : Cut ws (M.apply w s) s') : Cut (w :: ws) s s'

variable {M}

theorem Cut.of_nil {s s' : σ} (h : M.Cut [] s s') : s' = s := by
  cases h
  rfl

theorem Cut.of_cons {w : ω} {ws : List ω} {s s' : σ} (h : M.Cut (w :: ws) s s') :
    s' = s ∨ M.torn w s s' ∨ M.Cut ws (M.apply w s) s' := by
  cases h with
  | here => exact .inl rfl
  | inside h => exact .inr (.inl h)
  | later h => exact .inr (.inr h)

theorem Cut.of_append {ws vs : List ω} {s s' : σ} (h : M.Cut (ws ++ vs) s s') :
    M.Cut ws s s' ∨ M.Cut vs (M.applyAll ws s) s' := by
  induction ws generalizing s with
  | nil => exact .inr h
  | cons w ws ih =>
    obtain rfl | htorn | hlater := h.of_cons
    · exact .inl (.here _ _)
    · exact .inl (.inside htorn)
    · obtain hws | hvs := ih hlater
      · exact .inl (.later hws)
      · exact .inr hvs

/-- A call, by the state it starts in: what it returns and the writes it makes. -/
def Program (_M : Medium σ ω) (α : Type) : Type := σ → α × List ω

namespace Program

def ret (a : α) : M.Program α := fun _ => (a, [])

def bind (t : M.Program α) (f : α → M.Program β) : M.Program β := fun s =>
  let next := f (t s).1 (M.applyAll (t s).2 s)
  (next.1, (t s).2 ++ next.2)

instance : Monad M.Program where
  pure := ret
  bind := bind

theorem bind_apply (t : M.Program α) (f : α → M.Program β) (s : σ) :
    (t >>= f) s = ((f (t s).1 (M.applyAll (t s).2 s)).1,
      (t s).2 ++ (f (t s).1 (M.applyAll (t s).2 s)).2) := rfl

/-- From `s` the program ends with `Q`, and a crash leaves a state with `C`. -/
structure Meets (t : M.Program α) (s : σ) (Q : α → σ → Prop) (C : σ → Prop) : Prop where
  returns : Q (t s).1 (M.applyAll (t s).2 s)
  crashes : ∀ s', M.Cut (t s).2 s s' → C s'

theorem meets_pure {a : α} {s : σ} {Q : α → σ → Prop} {C : σ → Prop} (hQ : Q a s) (hC : C s) :
    (pure a : M.Program α).Meets s Q C :=
  ⟨hQ, fun _ hcut => by rwa [hcut.of_nil]⟩

theorem Meets.bind {t : M.Program α} {f : α → M.Program β} {s : σ} {Q : β → σ → Prop}
    {C : σ → Prop} (h : t.Meets s (fun a s' => (f a).Meets s' Q C) C) :
    (t >>= f).Meets s Q C := by
  refine ⟨?_, fun s' hcut => ?_⟩
  · have hreturns := h.returns.returns
    rwa [← M.applyAll_append] at hreturns
  · obtain hfirst | hnext := Cut.of_append hcut
    · exact h.crashes s' hfirst
    · exact h.returns.crashes s' hnext

theorem Meets.mono {t : M.Program α} {s : σ} {Q Q' : α → σ → Prop} {C C' : σ → Prop}
    (h : t.Meets s Q C) (hQ : ∀ a s', Q a s' → Q' a s') (hC : ∀ s', C s' → C' s') :
    t.Meets s Q' C' :=
  ⟨hQ _ _ h.returns, fun s' hcut => hC s' (h.crashes s' hcut)⟩

end Program

end Medium

end Artel
