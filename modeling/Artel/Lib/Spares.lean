import Artel.Lib.History

namespace Artel

variable {ο σ χ ℓ κ α β : Type}

namespace Fiber

/-- Whatever the call returns is in `P`. -/
def Returns (P : α → Prop) : Fiber σ χ ℓ α → Prop
  | .ret a => P a
  | .act _ _ _ rest => ∀ e s, (rest e s).Returns P

/-- While the call can still return something in `R`, its actions change `S` at most. -/
def Spares (S : σ → σ → Prop) (R : α → Prop) : Fiber σ χ ℓ α → Prop
  | .ret _ => True
  | .act _ _ next rest => ∀ e s,
      (rest e s).Returns (fun a => ¬ R a) ∨ (S s (next e s) ∧ (rest e s).Spares S R)

variable {P : α → Prop} {S : σ → σ → Prop} {R : α → Prop}

theorem Returns.spares {t : Fiber σ χ ℓ α} (h : t.Returns fun a => ¬ R a) : t.Spares S R := by
  cases t with
  | ret a => trivial
  | act l ready next rest => exact fun e s => .inl (h e s)

theorem returns_bind {t : Fiber σ χ ℓ α} {k : α → Fiber σ χ ℓ β} {P : β → Prop}
    (hk : ∀ a, (k a).Returns P) : (t.bind k).Returns P := by
  induction t with
  | ret a => exact hk a
  | act l ready next rest ih => exact fun e s => ih e s

theorem returns_of_forall (t : Fiber σ χ ℓ α) (hP : ∀ a, P a) : t.Returns P := by
  induction t with
  | ret a => exact hP a
  | act l ready next rest ih => exact fun e s => ih e s

variable {ready : χ → σ → Bool}

theorem spares_act {l : ℓ} {f : χ → σ → β × σ} {k : β → Fiber σ χ ℓ α}
    (hf : ∀ e s, S s (f e s).2) (hk : ∀ a, (k a).Spares S R) :
    ((waitFor l ready f).bind k).Spares S R :=
  fun e s => .inr ⟨hf e s, hk _⟩

theorem spares_of_returns {l : ℓ} {f : χ → σ → β × σ}
    {k : β → Fiber σ χ ℓ α} (hk : ∀ a, (k a).Returns fun a => ¬ R a) :
    ((waitFor l ready f).bind k).Spares S R :=
  fun _ _ => .inl (hk _)

theorem Returns.map {f : α → β} {P : β → Prop} {t : Fiber σ χ ℓ α} (h : t.Returns fun a => P (f a)) :
    (t.bind fun a => .ret (f a)).Returns P := by
  induction t with
  | ret a => exact h
  | act l ready next rest ih => exact fun e s => ih e s (h e s)

theorem Returns.mono {t : Fiber σ χ ℓ α} {Q : α → Prop} (h : t.Returns P) (hQ : ∀ a, P a → Q a) :
    t.Returns Q := by
  induction t with
  | ret a => exact hQ a h
  | act l ready next rest ih => exact fun e s => ih e s (h e s)

theorem Spares.mono {t : Fiber σ χ ℓ α} {R' : α → Prop} (h : t.Spares S R) (hR : ∀ a, R' a → R a) :
    t.Spares S R' := by
  induction t with
  | ret a => trivial
  | act l ready next rest ih =>
    intro e s
    obtain hreturns | ⟨hS, hspares⟩ := h e s
    · exact .inl (hreturns.mono fun a ha h => ha (hR a h))
    · exact .inr ⟨hS, ih e s hspares⟩

theorem Spares.map {f : α → β} {R : β → Prop} {t : Fiber σ χ ℓ α} (h : t.Spares S fun a => R (f a)) :
    (t.bind fun a => .ret (f a)).Spares S R := by
  induction t with
  | ret a => trivial
  | act l ready next rest ih =>
    intro e s
    obtain hreturns | ⟨hS, hspares⟩ := h e s
    · exact .inl (Returns.map (P := fun b => ¬ R b) hreturns)
    · exact .inr ⟨hS, ih e s hspares⟩

/-- Every action changes the state by no more than `T` allows an action of its name. -/
def Each (T : ℓ → σ → σ → Prop) : Fiber σ χ ℓ α → Prop
  | .ret _ => True
  | .act l _ next rest => ∀ e s, T l s (next e s) ∧ (rest e s).Each T

variable {T : ℓ → σ → σ → Prop}

theorem each_waitFor {l : ℓ} {f : χ → σ → α × σ}
    (hf : ∀ e s, T l s (f e s).2) : (waitFor l ready f).Each T :=
  fun e s => ⟨hf e s, trivial⟩

theorem Each.bind {t : Fiber σ χ ℓ α} {k : α → Fiber σ χ ℓ β} (ht : t.Each T)
    (hk : ∀ a, (k a).Each T) : (t.bind k).Each T := by
  induction t with
  | ret a => exact hk a
  | act l ready next rest ih => exact fun e s => ⟨(ht e s).1, ih e s (ht e s).2⟩

theorem Each.option {t : Fiber σ χ ℓ (Option α)} {k : Option α → Fiber σ χ ℓ β} (ht : t.Each T)
    (hnone : (k none).Each T) (hsome : ∀ a, (k (some a)).Each T) : (t.bind k).Each T := by
  apply ht.bind
  rintro (_ | a)
  · exact hnone
  · exact hsome a

theorem Each.except {ε : Type} {t : Fiber σ χ ℓ (Except ε α)} {k : Except ε α → Fiber σ χ ℓ β}
    (ht : t.Each T) (herror : ∀ e, (k (.error e)).Each T) (hok : ∀ a, (k (.ok a)).Each T) :
    (t.bind k).Each T := by
  apply ht.bind
  rintro (e | a)
  · exact herror e
  · exact hok a

theorem Each.spares {t : Fiber σ χ ℓ α} (ht : t.Each fun _ => S) : t.Spares S R := by
  induction t with
  | ret a => trivial
  | act l ready next rest ih => exact fun e s => .inr ⟨(ht e s).1, ih e s (ht e s).2⟩

theorem Returns.false {t : Fiber σ χ ℓ α} (h : t.Returns P) (h' : t.Returns fun a => ¬ P a) (e : χ)
    (s : σ) : False := by
  induction t with
  | ret a => exact h' h
  | act l ready next rest ih => exact ih e s (h e s) (h' e s)

theorem Spares.each {t : Fiber σ χ ℓ α} (h : t.Spares S R) (hR : t.Returns R) :
    t.Each fun _ => S := by
  induction t with
  | ret a => trivial
  | act l ready next rest ih =>
    intro e s
    obtain hreturns | ⟨hS, hspares⟩ := h e s
    · exact ((hR e s).false hreturns e s).elim
    · exact ⟨hS, ih e s hspares (hR e s)⟩

theorem Returns.bind {t : Fiber σ χ ℓ α} {k : α → Fiber σ χ ℓ β} {P : β → Prop} {Q : α → Prop}
    (ht : t.Returns Q) (hk : ∀ a, Q a → (k a).Returns P) : (t.bind k).Returns P := by
  induction t with
  | ret a => exact hk a ht
  | act l ready next rest ih => exact fun e s => ih e s (ht e s)

/-- Two parts one after the other, where the second ends well unless the first did not. -/
theorem Spares.bind {t : Fiber σ χ ℓ α} {k : α → Fiber σ χ ℓ β} {R' : β → Prop} (ht : t.Spares S R)
    (hk : ∀ a, (k a).Spares S R') (hR : ∀ a, ¬ R a → (k a).Returns fun b => ¬ R' b) :
    (t.bind k).Spares S R' := by
  induction t with
  | ret a => exact hk a
  | act l ready next rest ih =>
    intro e s
    obtain hreturns | ⟨hS, hspares⟩ := ht e s
    · exact .inl (hreturns.bind hR)
    · exact .inr ⟨hS, ih e s hspares⟩

theorem Each.andThen {t : Fiber σ χ ℓ α} {k : α → Fiber σ χ ℓ β} {R' : β → Prop}
    (ht : t.Each fun _ => S) (hk : ∀ a, (k a).Spares S R') : (t.bind k).Spares S R' :=
  (ht.spares (R := fun _ => True)).bind hk fun _ h => absurd trivial h

theorem Each.thenOption {t : Fiber σ χ ℓ (Option α)} {k : Option α → Fiber σ χ ℓ β} {R' : β → Prop}
    (ht : t.Each fun _ => S) (hnone : (k none).Spares S R') (hsome : ∀ a, (k (some a)).Spares S R') :
    (t.bind k).Spares S R' := by
  apply ht.andThen
  rintro (_ | a)
  · exact hnone
  · exact hsome a

theorem Each.thenExcept {ε : Type} {t : Fiber σ χ ℓ (Except ε α)} {k : Except ε α → Fiber σ χ ℓ β}
    {R' : β → Prop} (ht : t.Each fun _ => S) (herror : ∀ e, (k (.error e)).Spares S R')
    (hok : ∀ a, (k (.ok a)).Spares S R') : (t.bind k).Spares S R' := by
  apply ht.andThen
  rintro (e | a)
  · exact herror e
  · exact hok a

section Observe

variable {γ : Type} {note : ℓ → χ → σ → σ → γ → γ}

theorem Returns.observe {t : Fiber σ χ ℓ α} (ht : t.Returns P) : (t.observe note).Returns P := by
  induction t with
  | ret a => exact ht
  | act l ready next rest ih => exact fun e s => ih e s.1 (ht e s.1)

theorem Spares.observe {t : Fiber σ χ ℓ α} (ht : t.Spares S R) :
    (t.observe note).Spares (fun w w' => S w.1 w'.1) R := by
  induction t with
  | ret a => trivial
  | act l ready next rest ih =>
    intro e s
    obtain hreturns | ⟨hS, hspares⟩ := ht e s.1
    · exact .inl hreturns.observe
    · exact .inr ⟨hS, ih e s.1 hspares⟩

end Observe

theorem Each.quiet {t : Fiber σ χ ℓ α} (ht : t.Each T) {γ ν : Type}
    {I : σ × γ → (ℕ → ν) → Prop} {C : ℓ → χ → σ × γ → Prop} {i : ℕ} {v : ν}
    {note : ℓ → χ → σ → σ → γ → γ}
    (hI : ∀ l e s s' g V, T l s s' → I (s, g) V → I (s', note l e s s' g) V) :
    Quiet I C i v (t.observe note) := by
  induction t with
  | ret a => rfl
  | act l ready next rest ih =>
    intro s V e hs hv _ _
    exact Follows.keep hv (hI l e _ _ _ V (ht e s.1).1 hs) (ih e s.1 (ht e s.1).2)

end Fiber

namespace Pool

variable {body : ℕ → ο → Fiber σ χ ℓ α} {reboot : κ → σ → σ} {S : σ → σ → Prop} {R : ο → α → Prop}

/-- Each call in flight keeps to it. -/
def Sparing (S : σ → σ → Prop) (R : ο → α → Prop) (p : Pool ο σ χ ℓ α) : Prop :=
  ∀ (i : ℕ) o t, p.calls[i]? = some (o, t) → Fiber.Spares S (R o) t

variable {p : Pool ο σ χ ℓ α}

section

variable (hbody : ∀ i o, (body i o).Spares S (R o))
include hbody

theorem Sparing.move
    (hp : p.Sparing S R) (m : Move ο χ) : (p.move body m).Sparing S R := by
  intro i o t ht
  obtain hold | ⟨-, -, rfl⟩ | ⟨l, ready, next, rest, e, -, hi, -, rfl⟩ := calls_move ht
  · exact hp i o t hold
  · exact hbody i o
  · obtain hreturns | ⟨-, hspares⟩ := hp i o _ hi e p.world
    · exact hreturns.spares
    · exact hspares

theorem sparing_history (hs : List (Happening ο χ κ))
    (hp : p.Sparing S R) : (p.history body reboot hs).Sparing S R := by
  induction hs generalizing p with
  | nil => exact hp
  | cons x hs ih =>
    apply ih
    cases x with
    | move m => exact hp.move hbody m
    | crash k =>
      intro i o t ht
      simp [happen] at ht

theorem sparing_run (ms : List (Move ο χ))
    (hp : p.Sparing S R) : (p.run body ms).Sparing S R := by
  rw [← history_map_move body fun (_ : Empty) s => s]
  exact sparing_history hbody _ hp

end

theorem returns_run {P : α → Prop} (ms : List (Move ο χ)) {i : ℕ} {o : ο}
    {t : Fiber σ χ ℓ α} (hi : p.calls[i]? = some (o, t)) (ht : t.Returns P) {a : α}
    (ha : (p.run body ms).result i = some a) : P a := by
  induction ms generalizing p t with
  | nil =>
    obtain ⟨o', ho⟩ := result_eq_some ha
    obtain ⟨-, rfl⟩ := Prod.mk.inj (Option.some.inj (hi.symm.trans ho))
    exact ht
  | cons m ms ih =>
    obtain ⟨t', ht'⟩ := callAt_move body m hi
    refine ih ht' ?_ ha
    have hlt : i < p.calls.length := (List.getElem?_eq_some_iff.mp hi).1
    obtain hold | ⟨hnew, -⟩ | ⟨l, ready, next, rest, e, -, hact, -, rfl⟩ := calls_move ht'
    · obtain ⟨-, rfl⟩ := Prod.mk.inj (Option.some.inj (hi.symm.trans hold))
      exact ht
    · omega
    · obtain ⟨-, rfl⟩ := Prod.mk.inj (Option.some.inj (hi.symm.trans hact))
      exact ht e p.world

theorem callAt_run (ms : List (Move ο χ)) {i : ℕ} {o : ο} {t : Fiber σ χ ℓ α}
    (hi : p.calls[i]? = some (o, t)) : (p.run body ms).callAt i = some o := by
  induction ms generalizing p t with
  | nil => simp [run, callAt, hi]
  | cons m ms ih =>
    obtain ⟨t', ht'⟩ := callAt_move body m hi
    exact ih ht'

/-- No action of a call that returns something in `R` did more than `S`. -/
theorem Sparing.step (hrefl : ∀ s, S s s) (hp : p.Sparing S R) {i : ℕ} {e : χ}
    {ms : List (Move ο χ)} {o : ο} {a : α}
    (ho : ((p.move body (.step i e)).run body ms).callAt i = some o)
    (ha : ((p.move body (.step i e)).run body ms).result i = some a) (hR : R o a) :
    S p.world (p.move body (.step i e)).world := by
  cases hi : p.calls[i]? with
  | none =>
    have hsame : p.move body (.step i e) = p := by simp only [Pool.move, hi]
    rw [hsame]
    exact hrefl _
  | some c =>
    obtain ⟨o', t⟩ := c
    cases t with
    | ret b =>
      have hsame : p.move body (.step i e) = p := by simp only [Pool.move, hi]
      rw [hsame]
      exact hrefl _
    | act l ready next rest =>
      cases hready : ready e p.world with
      | false =>
        have hsame : p.move body (.step i e) = p := by simp [Pool.move, hi, hready]
        rw [hsame]
        exact hrefl _
      | true =>
        have hmove : p.move body (.step i e) =
            ⟨next e p.world, p.calls.set i (o', rest e p.world)⟩ := by simp [Pool.move, hi, hready]
        rw [hmove] at ho ha ⊢
        have hnext : (p.calls.set i (o', rest e p.world))[i]? = some (o', rest e p.world) :=
          List.getElem?_set_self (List.getElem?_eq_some_iff.mp hi).1
        rw [callAt_run ms hnext] at ho
        obtain rfl := Option.some.inj ho
        obtain hreturns | ⟨hS, -⟩ := hp i o' _ hi e p.world
        · exact absurd hR (returns_run ms hnext hreturns ha)
        · exact hS

theorem Sparing.alone (hbody : ∀ i o, (body i o).Spares S (R o)) (hrefl : ∀ s, S s s)
    (htrans : ∀ s s' s'', S s s' → S s' s'' → S s s'') (hp : p.Sparing S R) {i : ℕ}
    {es : List χ} {o : ο} {a : α} (ho : (p.run body (es.map (.step i))).callAt i = some o)
    (ha : (p.run body (es.map (.step i))).result i = some a) (hR : R o a) :
    S p.world (p.run body (es.map (.step i))).world := by
  induction es generalizing p with
  | nil => exact hrefl _
  | cons e es ih =>
    exact htrans _ _ _ (hp.step hrefl ho ha hR) (ih (hp.move hbody _) ho ha)

end Pool

end Artel
