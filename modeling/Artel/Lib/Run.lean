import Mathlib.Data.List.Basic

namespace Artel

theorem eq_or_mem_eraseIdx {α : Type} {l : List α} {k : ℕ} {a b : α} (hk : l[k]? = some a)
    (hb : b ∈ l) : b = a ∨ b ∈ l.eraseIdx k := by
  obtain ⟨i, hi⟩ := List.mem_iff_getElem?.mp hb
  by_cases hik : i = k
  · subst hik
    exact .inl (Option.some.inj (hi.symm.trans hk))
  · exact .inr (List.mem_eraseIdx_iff_getElem?.mpr ⟨i, hik, hi⟩)

/-- Every operation of the run meets `C` in the state it is applied to. -/
def Along {σ ο : Type} (step : σ → ο → σ) (C : σ → ο → Prop) : σ → List ο → Prop
  | _, [] => True
  | s, o :: os => C s o ∧ Along step C (step s o) os

namespace Along

variable {σ ο : Type} {step : σ → ο → σ} {C : σ → ο → Prop} {s : σ} {os : List ο}

/-- What one guarded step preserves, a guarded run preserves. -/
theorem invariant {I : σ → Prop} (hstep : ∀ s o, I s → C s o → I (step s o))
    (h : Along step C s os) (hs : I s) : I (os.foldl step s) := by
  induction os generalizing s with
  | nil => exact hs
  | cons o os ih => exact ih h.2 (hstep s o hs h.1)

theorem and_of_mem {P : ο → Prop} (h : Along step C s os)
    (hp : ∀ o ∈ os, P o) : Along step (fun s o => C s o ∧ P o) s os := by
  induction os generalizing s with
  | nil => trivial
  | cons o os ih =>
    obtain ⟨hc, hrest⟩ := h
    exact ⟨⟨hc, hp o List.mem_cons_self⟩, ih hrest fun q hq => hp q (List.mem_cons_of_mem o hq)⟩

theorem of_forall (h : ∀ s o, C s o) (s : σ) (os : List ο) : Along step C s os := by
  induction os generalizing s with
  | nil => trivial
  | cons o os ih => exact ⟨h s o, ih (step s o)⟩

theorem of_mem {P : ο → Prop} (h : ∀ o ∈ os, P o) :
    Along step (fun _ o => P o) s os := by
  induction os generalizing s with
  | nil => trivial
  | cons o os ih =>
    exact ⟨h o List.mem_cons_self, ih fun q hq => h q (List.mem_cons_of_mem o hq)⟩

theorem imp {D : σ → ο → Prop} (h : Along step C s os)
    (hD : ∀ s o, C s o → D s o) : Along step D s os := by
  induction os generalizing s with
  | nil => trivial
  | cons o os ih => exact ⟨hD s o h.1, ih h.2⟩

theorem append {ps : List ο} (h : Along step C s os)
    (h' : Along step C (os.foldl step s) ps) : Along step C s (os ++ ps) := by
  induction os generalizing s with
  | nil => exact h'
  | cons o os ih => exact ⟨h.1, ih h.2 h'⟩

theorem split {ps : List ο} (h : Along step C s (os ++ ps)) :
    Along step C s os ∧ Along step C (os.foldl step s) ps := by
  induction os generalizing s with
  | nil => exact ⟨trivial, h⟩
  | cons o os ih => exact ⟨⟨h.1, (ih h.2).1⟩, (ih h.2).2⟩

theorem take (h : Along step C s os) (k : ℕ) :
    Along step C s (os.take k) := by
  induction os generalizing s k with
  | nil => simpa using h
  | cons o os ih =>
    cases k with
    | zero => trivial
    | succ k => exact ⟨h.1, ih h.2 k⟩

end Along

instance {σ ο : Type} (step : σ → ο → σ) (C : σ → ο → Prop) [∀ s o, Decidable (C s o)] (s : σ)
    (os : List ο) : Decidable (Along step C s os) := by
  induction os generalizing s with
  | nil => exact isTrue trivial
  | cons o os ih => exact @instDecidableAnd _ _ _ (ih _)

end Artel
