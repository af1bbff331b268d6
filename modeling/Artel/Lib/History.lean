import Artel.Lib.View

namespace Artel

open Function

variable {ο σ χ ℓ κ α β γ ν : Type}

/-- A move of the pool, or a crash that ends every call in flight. -/
inductive Happening (ο χ κ : Type)
  | move (m : Move ο χ)
  | crash (k : κ)

/-- A fact `opens` a period, and every fact `after` it `keeps` the period open. -/
def Since (opens : List β → β → Prop) (keeps : β → Prop) (facts after : List β) : Prop :=
  ∃ before f, facts = before ++ f :: after ∧ opens before f ∧ ∀ g ∈ after, keeps g

theorem since_append {opens : List β → β → Prop} {keeps : β → Prop} {facts after : List β} {f : β}
    (h : Since opens keeps (facts ++ [f]) after) :
    (∃ rest, after = rest ++ [f] ∧ Since opens keeps facts rest ∧ keeps f) ∨
      after = [] ∧ opens facts f := by
  obtain ⟨before, x, heq, hopens, hafter⟩ := h
  obtain rfl | ⟨rest, last, rfl⟩ := List.eq_nil_or_concat' after
  · right
    obtain ⟨rfl, hf⟩ := List.append_inj' heq rfl
    obtain rfl : f = x := by simpa using hf
    exact ⟨rfl, hopens⟩
  left
  have heq' : facts ++ [f] = (before ++ x :: rest) ++ [last] := by simpa using heq
  obtain ⟨rfl, hf⟩ := List.append_inj' heq' rfl
  obtain rfl : f = last := by simpa using hf
  refine ⟨rest, rfl, ⟨before, x, rfl, hopens, ?_⟩, hafter f (by simp)⟩
  exact fun g hg => hafter g (List.mem_append_left _ hg)

namespace Pool

/-- After a crash the state is what `reboot` makes of it, and nothing is in flight. -/
def happen (body : ℕ → ο → Fiber σ χ ℓ α) (reboot : κ → σ → σ) (p : Pool ο σ χ ℓ α) :
    Happening ο χ κ → Pool ο σ χ ℓ α
  | .move m => p.move body m
  | .crash k => ⟨reboot k p.world, []⟩

def history (body : ℕ → ο → Fiber σ χ ℓ α) (reboot : κ → σ → σ) (p : Pool ο σ χ ℓ α)
    (hs : List (Happening ο χ κ)) : Pool ο σ χ ℓ α :=
  hs.foldl (happen body reboot) p

theorem history_map_move (body : ℕ → ο → Fiber σ χ ℓ α) (reboot : κ → σ → σ) (p : Pool ο σ χ ℓ α)
    (ms : List (Move ο χ)) : p.history body reboot (ms.map .move) = p.run body ms := by
  rw [history, List.foldl_map]
  rfl

/-- Moves meet `A` and `C`, and a crash meets `D` in the state it comes in. -/
def Allows (A : ο → Prop) (C : ℓ → χ → σ → Prop) (D : κ → σ → Prop) (p : Pool ο σ χ ℓ α) :
    Happening ο χ κ → Prop
  | .move m => p.Meets A C m
  | .crash k => D k p.world

variable {body : ℕ → ο → Fiber σ χ ℓ α} {reboot : κ → σ → σ} {I : σ → (ℕ → ν) → Prop}
  {A : ο → Prop} {C : ℓ → χ → σ → Prop} {D : κ → σ → Prop} {Q : ο → α → ν → Prop} {idle : ν}

variable {p : Pool ο σ χ ℓ α}

/-- A history stays accounted for if a reboot gives a state with nothing in flight. -/
theorem tracked_history (hbody : ∀ i o, A o → Follows I C i (Q o) (body i o) idle)
    (hreboot : ∀ s V k, I s V → D k s → I (reboot k s) fun _ => idle)
    (hp : Tracked I C Q idle p) {hs : List (Happening ο χ κ)}
    (hhs : Along (happen body reboot) (Allows A C D) p hs) :
    Tracked I C Q idle (p.history body reboot hs) := by
  apply hhs.invariant (I := Tracked I C Q idle) ?_ hp
  intro p h hp hallow
  cases h with
  | move m => exact tracked_move hbody hp m hallow
  | crash k =>
    obtain ⟨V, hI, -⟩ := hp
    exact tracked_nil (hreboot p.world V k hI hallow)

/-- Calls meet `A`, their actions `C`, and a crash `D`. -/
def Suits (A : ο → Prop) (C : ο → ℓ → χ → σ → Prop) (D : κ → σ → Prop) (p : Pool ο σ χ ℓ α) :
    Happening ο χ κ → Prop
  | .move (.call o) => A o
  | .move (.step i e) => ∀ o l ready next rest, p.calls[i]? = some (o, .act l ready next rest) →
      ready e p.world = true → C o l e p.world
  | .crash k => D k p.world

instance (A : ο → Prop) (C : ο → ℓ → χ → σ → Prop) (D : κ → σ → Prop) [DecidablePred A]
    [∀ o l e s, Decidable (C o l e s)] [∀ k s, Decidable (D k s)] (p : Pool ο σ χ ℓ α)
    (x : Happening ο χ κ) : Decidable (p.Suits A C D x) :=
  match x with
  | .move (.call o) => inferInstanceAs (Decidable (A o))
  | .crash k => inferInstanceAs (Decidable (D k p.world))
  | .move (.step i e) =>
    match hi : p.calls[i]? with
    | none => isTrue fun _ _ _ _ _ h => absurd (hi.symm.trans h) nofun
    | some (_, .ret _) => isTrue fun _ _ _ _ _ h => absurd (hi.symm.trans h) nofun
    | some (o, .act l ready _ _) =>
      if h : ready e p.world = true → C o l e p.world then
        isTrue fun _ _ _ _ _ h' => by
          cases hi.symm.trans h'
          exact h
      else isFalse fun h' => h (h' o l ready _ _ hi)

/-- The account that outlines give of a pool when each call has a condition of its own. -/
abbrev Suited (I : σ → (ℕ → ν) → Prop) (C : ο → ℓ → χ → σ → Prop) (Q : ο → α → ν → Prop) (idle : ν) :
    Pool ο σ χ ℓ α → Prop :=
  Accounted I (fun i o t v => Follows I (C o) i (Q o) t v) idle

theorem suited_history {C : ο → ℓ → χ → σ → Prop}
    (hbody : ∀ i o, A o → Follows I (C o) i (Q o) (body i o) idle)
    (hreboot : ∀ s V k, I s V → D k s → I (reboot k s) fun _ => idle)
    (hp : Suited I C Q idle p) {hs : List (Happening ο χ κ)}
    (hhs : Along (happen body reboot) (Suits A C D) p hs) :
    Suited I C Q idle (p.history body reboot hs) := by
  apply hhs.invariant (I := Suited I C Q idle) ?_ hp
  intro p x hp hx
  cases x with
  | crash k =>
    obtain ⟨V, hI, -⟩ := hp
    exact accounted_nil (hreboot p.world V k hI hx)
  | move m =>
    cases m with
    | call o =>
      exact accounted_call (R := fun i o t v => Follows I (C o) i (Q o) t v) hbody hp o hx
    | step i e =>
      have hstep : Suited I C Q idle (p.move body (.step i e)) :=
        accounted_step (R := fun i o t v => Follows I (C o) i (Q o) t v)
          (fun _ _ _ _ _ _ _ h => h) hp i e hx
      exact hstep

variable (body) in
theorem Suited.onlooker {C : ο → ℓ → χ → σ → Prop} (hp : Suited I C Q idle p)
    {m : Move ο χ} (hm : p.Suits A C D (.move m)) {w : ν}
    (hw : ∀ V j, I p.world V → I p.world (update V j w)) :
    ∃ V j, I (p.move body m).world V ∧ V j = w := by
  obtain ⟨V, hI, -, hcalls⟩ := hp
  have hstay : ∃ V j, I p.world V ∧ V j = w := ⟨_, 0, hw V 0 hI, update_self ..⟩
  cases m with
  | call o => exact hstay
  | step i e =>
    simp only [move]
    split
    · rename_i o l ready next rest hi
      split
      · rename_i hready
        -- the call that acts has no view of its neighbour's
        have hne : i ≠ i + 1 := Nat.ne_of_lt (Nat.lt_succ_self i)
        obtain ⟨v', hI', -⟩ := hcalls i o _ hi p.world (update V (i + 1) w) e
          (hw V (i + 1) hI) (update_of_ne hne ..) hready (hm o l ready next rest hi hready)
        refine ⟨_, i + 1, hI', ?_⟩
        rw [update_of_ne hne.symm, update_self]
      · exact hstay
    · exact hstay

end Pool

namespace Fiber

/-- The same call beside a record of its actions, on which nothing of it depends. -/
def observe (note : ℓ → χ → σ → σ → γ → γ) : Fiber σ χ ℓ α → Fiber (σ × γ) χ ℓ α
  | ret a => ret a
  | act l ready next rest =>
    act l (fun e s => ready e s.1) (fun e s => (next e s.1, note l e s.1 (next e s.1) s.2))
      fun e s => (rest e s.1).observe note

variable {note : ℓ → χ → σ → σ → γ → γ}

@[simp] theorem observe_ret (a : α) : (ret a : Fiber σ χ ℓ α).observe note = ret a := rfl

theorem observe_bind (t : Fiber σ χ ℓ α) (k : α → Fiber σ χ ℓ β) :
    (t.bind k).observe note = (t.observe note).bind fun a => (k a).observe note := by
  induction t with
  | ret a => rfl
  | act l ready next rest ih =>
    simp only [bind, observe]
    congr 1
    funext e s
    exact ih e s.1

/-- The same call beside a state it takes no notice of. -/
def beside (t : Fiber σ χ ℓ α) : Fiber (σ × γ) χ ℓ α := t.observe fun _ _ _ _ g => g

end Fiber

namespace Follows

variable {I : σ × γ → (ℕ → ν) → Prop} {C : ℓ → χ → σ × γ → Prop} {i : ℕ} {Q : α → ν → Prop}
  {R : β → ν → Prop} {v : ν} {note : ℓ → χ → σ → σ → γ → γ}

theorem bindObserve {t : Fiber σ χ ℓ α} {k : α → Fiber σ χ ℓ β}
    (ht : Follows I C i Q (t.observe note) v)
    (hk : ∀ a w, Q a w → Follows I C i R ((k a).observe note) w) :
    Follows I C i R ((t.bind k).observe note) v := by
  rw [Fiber.observe_bind]
  exact ht.bind hk

theorem andThenObserve {t : Fiber σ χ ℓ α} {k : α → Fiber σ χ ℓ β} {v' : α → ν}
    (ht : Follows I C i (fun a w => w = v' a) (t.observe note) v)
    (hk : ∀ a, Follows I C i R ((k a).observe note) (v' a)) :
    Follows I C i R ((t.bind k).observe note) v := by
  apply ht.bindObserve
  rintro a w rfl
  exact hk a

theorem exceptObserve {ε : Type} {t : Fiber σ χ ℓ (Except ε α)} {k : Except ε α → Fiber σ χ ℓ β}
    {v' : ν} (ht : Follows I C i (fun _ w => w = v') (t.observe note) v)
    (herror : ∀ e, Follows I C i R ((k (.error e)).observe note) v')
    (hok : ∀ a, Follows I C i R ((k (.ok a)).observe note) v') :
    Follows I C i R ((t.bind k).observe note) v := by
  apply ht.andThenObserve
  rintro (e | a)
  · exact herror e
  · exact hok a

theorem waitForObserve {l : ℓ} {ready : χ → σ → Bool} {f : χ → σ → α × σ}
    (h : ∀ s g V e, I (s, g) V → V i = v → ready e s = true → C l e (s, g) →
      ∃ v', I ((f e s).2, note l e s (f e s).2 g) (update V i v') ∧ Q (f e s).1 v') :
    Follows I C i Q ((Fiber.waitFor l ready f).observe note) v :=
  fun s V e hI hv hready hC => h s.1 s.2 V e hI hv hready hC

theorem onceObserve {l : ℓ} {f : χ → σ → α × σ}
    (h : ∀ s g V e, I (s, g) V → V i = v → C l e (s, g) →
      ∃ v', I ((f e s).2, note l e s (f e s).2 g) (update V i v') ∧ Q (f e s).1 v') :
    Follows I C i Q ((Fiber.once l f).observe note) v :=
  waitForObserve fun s g V e hI hv _ hC => h s g V e hI hv hC

end Follows

namespace Pool

/-- The bodies with each call's own notes. -/
def observed (note : ℕ → ο → ℓ → χ → σ → σ → γ → γ) (body : ℕ → ο → Fiber σ χ ℓ α) (i : ℕ) (o : ο) :
    Fiber (σ × γ) χ ℓ α :=
  (body i o).observe (note i o)

/-- The record takes note of a crash too. -/
def rebootObserved (reboot : κ → σ → σ) (cut : γ → γ) (k : κ) (s : σ × γ) : σ × γ :=
  (reboot k s.1, cut s.2)

/-- Two pools in the same place, one of them with a record. -/
structure Shadows (note : ℕ → ο → ℓ → χ → σ → σ → γ → γ) (p : Pool ο (σ × γ) χ ℓ α)
    (q : Pool ο σ χ ℓ α) : Prop where
  world : p.world.1 = q.world
  calls : ∀ i : ℕ, p.calls[i]? =
    q.calls[i]?.map fun c : ο × Fiber σ χ ℓ α => (c.1, c.2.observe (note i c.1))

variable {note : ℕ → ο → ℓ → χ → σ → σ → γ → γ} {body : ℕ → ο → Fiber σ χ ℓ α}
  {reboot : κ → σ → σ} {cut : γ → γ} {p : Pool ο (σ × γ) χ ℓ α} {q : Pool ο σ χ ℓ α}

theorem Shadows.length_eq (h : Shadows note p q) : p.calls.length = q.calls.length := by
  apply Nat.le_antisymm
  · have hq := h.calls q.calls.length
    rw [List.getElem?_eq_none (Nat.le_refl _)] at hq
    exact List.getElem?_eq_none_iff.mp hq
  · have hp := h.calls p.calls.length
    rw [List.getElem?_eq_none (Nat.le_refl _)] at hp
    exact List.getElem?_eq_none_iff.mp (Option.map_eq_none_iff.mp hp.symm)

theorem Shadows.call (h : Shadows note p q) (o : ο) :
    Shadows note (p.move (observed note body) (.call o)) (q.move body (.call o)) := by
  refine ⟨h.world, fun i => ?_⟩
  simp only [move, List.getElem?_append, h.length_eq]
  split
  · exact h.calls i
  rename_i hlt
  rcases Nat.eq_zero_or_pos (i - q.calls.length) with hz | hpos
  · have hi : i = q.calls.length := by omega
    rw [hz, ← hi]
    rfl
  · rw [List.getElem?_eq_none (by simp; omega), List.getElem?_eq_none (by simp; omega)]
    rfl

theorem Shadows.step (h : Shadows note p q) (i : ℕ) (e : χ) :
    Shadows note (p.move (observed note body) (.step i e)) (q.move body (.step i e)) := by
  have hi := h.calls i
  simp only [move]
  cases hq : q.calls[i]? with
  | none =>
    rw [hq] at hi
    simp only [hi, Option.map_none]
    exact h
  | some c =>
    obtain ⟨o, t⟩ := c
    rw [hq] at hi
    cases t with
    | ret a =>
      simp only [hi, Option.map_some, Fiber.observe]
      exact h
    | act l ready next rest =>
      simp only [hi, Option.map_some, Fiber.observe, h.world]
      split
      · refine ⟨rfl, fun j => ?_⟩
        by_cases hij : i = j
        · subst hij
          have hlt : i < q.calls.length := (List.getElem?_eq_some_iff.mp hq).1
          rw [List.getElem?_set_self (by rwa [h.length_eq]), List.getElem?_set_self hlt]
          rfl
        · rw [List.getElem?_set_ne hij, List.getElem?_set_ne hij]
          exact h.calls j
      · exact h

variable (body) in
theorem Shadows.record_step (h : Shadows note p q) {R : γ → γ → Prop} (hrefl : ∀ g, R g g)
    (hnote : ∀ i o l e s s' g, R g (note i o l e s s' g)) (i : ℕ) (e : χ) :
    R p.world.2 (p.move (observed note body) (.step i e)).world.2 := by
  have hi := h.calls i
  simp only [Pool.move]
  split
  · rename_i o l ready next rest hact
    rw [hact] at hi
    obtain ⟨⟨o', t⟩, -, heq⟩ := Option.map_eq_some_iff.mp hi.symm
    cases t with
    | ret a => cases heq
    | act l' ready' next' rest' =>
      simp only [Fiber.observe, Prod.mk.injEq, Fiber.act.injEq] at heq
      obtain ⟨-, -, -, rfl, -⟩ := heq
      split
      · exact hnote _ _ _ _ _ _ _
      · exact hrefl _
  · exact hrefl _

theorem Shadows.move (h : Shadows note p q) (m : Move ο χ) :
    Shadows note (p.move (observed note body) m) (q.move body m) := by
  cases m with
  | call o => exact h.call o
  | step i e => exact h.step i e

theorem shadows_run (ms : List (Move ο χ)) (h : Shadows note p q) :
    Shadows note (p.run (observed note body) ms) (q.run body ms) := by
  induction ms generalizing p q with
  | nil => exact h
  | cons m ms ih => exact ih (h.move m)

/-- With and without the record a history leads to the same state and results. -/
theorem shadows_history (hs : List (Happening ο χ κ)) (h : Shadows note p q) :
    Shadows note (p.history (observed note body) (rebootObserved reboot cut) hs)
      (q.history body reboot hs) := by
  induction hs generalizing p q with
  | nil => exact h
  | cons x hs ih =>
    apply ih
    cases x with
    | move m => exact h.move m
    | crash k =>
      refine ⟨?_, fun i => by simp [happen]⟩
      simp only [happen, rebootObserved, h.world]

theorem Shadows.allows (h : Shadows note p q) {A : ο → Prop} {C : ℓ → χ → σ → Prop}
    {D : κ → σ → Prop} {x : Happening ο χ κ} (hx : q.Allows A C D x) :
    p.Allows A (fun l e s => C l e s.1) (fun k s => D k s.1) x := by
  cases x with
  | crash k =>
    simp only [Allows, h.world]
    exact hx
  | move m =>
    cases m with
    | call o => exact hx
    | step i e =>
      have hi := h.calls i
      simp only [Allows, Meets] at hx ⊢
      rw [hi]
      cases hq : q.calls[i]? with
      | none => trivial
      | some c =>
        obtain ⟨o, t⟩ := c
        rw [hq] at hx
        cases t with
        | ret a => trivial
        | act l ready next rest =>
          simp only [Option.map_some, Fiber.observe, h.world]
          exact hx

theorem Shadows.happen (h : Shadows note p q) (x : Happening ο χ κ) :
    Shadows note (p.happen (observed note body) (rebootObserved reboot cut) x)
      (q.happen body reboot x) :=
  shadows_history [x] h

theorem along_observed {A : ο → Prop} {C : ℓ → χ → σ → Prop} {D : κ → σ → Prop}
    (hs : List (Happening ο χ κ)) (h : Shadows note p q)
    (hq : Along (happen body reboot) (Allows A C D) q hs) :
    Along (happen (observed note body) (rebootObserved reboot cut))
      (Allows A (fun l e s => C l e s.1) fun k s => D k s.1) p hs := by
  induction hs generalizing p q with
  | nil => trivial
  | cons x hs ih => exact ⟨h.allows hq.1, ih (h.happen x) hq.2⟩

theorem shadows_nil (s : σ) (g : γ) :
    Shadows note (⟨(s, g), []⟩ : Pool ο (σ × γ) χ ℓ α) ⟨s, []⟩ :=
  ⟨rfl, fun i => by simp⟩

section Attend

variable {I : σ × γ → (ℕ → ν) → Prop} {C : ℓ → χ → σ × γ → Prop} {D : κ → σ × γ → Prop}
  {Q : ο → α → ν → Prop} {idle : ν}

/-- A record that takes note of arrivals as well. -/
def attend (body : ℕ → ο → Fiber (σ × γ) χ ℓ α) (reboot : κ → σ × γ → σ × γ) (arrive : ο → γ → γ)
    (p : Pool ο (σ × γ) χ ℓ α) : Happening ο χ κ → Pool ο (σ × γ) χ ℓ α
  | .move (.call o) =>
    ⟨(p.world.1, arrive o p.world.2), p.calls ++ [(o, body p.calls.length o)]⟩
  | .move (.step i e) => p.move body (.step i e)
  | .crash k => ⟨reboot k p.world, []⟩

/-- Whether a call may arrive depends on the record, too. -/
def Attends (A : ο → γ → Prop) (C : ℓ → χ → σ × γ → Prop) (D : κ → σ × γ → Prop)
    (p : Pool ο (σ × γ) χ ℓ α) : Happening ο χ κ → Prop
  | .move (.call o) => A o p.world.2
  | .move (.step i e) => p.Meets (fun _ => True) C (.step i e)
  | .crash k => D k p.world

instance (A : ο → γ → Prop) (C : ℓ → χ → σ × γ → Prop) (D : κ → σ × γ → Prop)
    [∀ o g, Decidable (A o g)] [∀ l e s, Decidable (C l e s)] [∀ k s, Decidable (D k s)]
    (p : Pool ο (σ × γ) χ ℓ α) (x : Happening ο χ κ) : Decidable (p.Attends A C D x) :=
  match x with
  | .move (.call o) => inferInstanceAs (Decidable (A o p.world.2))
  | .move (.step i e) => inferInstanceAs (Decidable (p.Meets (fun _ => True) C (.step i e)))
  | .crash k => inferInstanceAs (Decidable (D k p.world))

variable {nbody : ℕ → ο → Fiber (σ × γ) χ ℓ α} {nreboot : κ → σ × γ → σ × γ} {arrive : ο → γ → γ}
  {A : ο → γ → Prop}

theorem tracked_attend
    (harrive : ∀ s g V n o, I (s, g) V → V n = idle → A o g →
      ∃ v, I (s, arrive o g) (update V n v) ∧ Follows I C n (Q o) (nbody n o) v)
    (hreboot : ∀ s V k, I s V → D k s → I (nreboot k s) fun _ => idle) {p : Pool ο (σ × γ) χ ℓ α}
    (hp : Tracked I C Q idle p) {hs : List (Happening ο χ κ)}
    (hhs : Along (attend nbody nreboot arrive) (Attends A C D) p hs) :
    Tracked I C Q idle (hs.foldl (attend nbody nreboot arrive) p) := by
  apply hhs.invariant (I := Tracked I C Q idle) ?_ hp
  intro p x hp hx
  cases x with
  | crash k =>
    obtain ⟨V, hI, -⟩ := hp
    exact tracked_nil (hreboot p.world V k hI hx)
  | move m =>
    cases m with
    | step i e =>
      have hstep : Tracked I C Q idle (p.move nbody (.step i e)) :=
        tracked_step (A := fun _ => True) hp i e hx
      exact hstep
    | call o =>
      obtain ⟨V, hI, hidle, hcalls⟩ := hp
      obtain ⟨v, hI', hv⟩ := harrive p.world.1 p.world.2 V p.calls.length o hI
        (hidle _ (Nat.le_refl _)) hx
      refine ⟨update V p.calls.length v, hI', ?_, ?_⟩
      · intro i hi
        simp only [attend, List.length_append, List.length_singleton] at hi
        rw [update_of_ne (by omega)]
        exact hidle i (by omega)
      · intro i o' t ht
        simp only [attend, List.getElem?_append] at ht
        split at ht
        · rename_i hlt
          rw [update_of_ne (by omega)]
          exact hcalls i o' t ht
        rename_i hlt
        rcases hn : i - p.calls.length with _ | n
        · have hi : i = p.calls.length := by omega
          rw [hn, List.getElem?_cons_zero, Option.some.injEq, Prod.mk.injEq] at ht
          obtain ⟨rfl, rfl⟩ := ht
          rw [hi, update_self]
          exact hv
        · simp [hn] at ht

end Attend

theorem shadows_attend {arrive : ο → γ → γ} (hs : List (Happening ο χ κ)) (h : Shadows note p q) :
    Shadows note (hs.foldl (attend (observed note body) (rebootObserved reboot cut) arrive) p)
      (q.history body reboot hs) := by
  induction hs generalizing p q with
  | nil => exact h
  | cons x hs ih =>
    apply ih
    cases x with
    | crash k => exact h.happen (.crash k)
    | move m =>
      cases m with
      | step i e =>
        have hstep : Shadows note (p.move (observed note body) (.step i e))
            (q.move body (.step i e)) := h.step i e
        exact hstep
      | call o =>
        have hcall : Shadows note (p.move (observed note body) (.call o)) (q.move body (.call o)) :=
          h.call o
        exact ⟨h.world, hcall.calls⟩

theorem record_attend {arrive : ο → γ → γ} {R : γ → γ → Prop} (hrefl : ∀ g, R g g)
    (htrans : ∀ g g' g'', R g g' → R g' g'' → R g g'')
    (hnote : ∀ i o l e s s' g, R g (note i o l e s s' g)) (harrive : ∀ o g, R g (arrive o g))
    (hcut : ∀ g, R g (cut g)) (hs : List (Happening ο χ κ)) (h : Shadows note p q) :
    R p.world.2
      (hs.foldl (attend (observed note body) (rebootObserved reboot cut) arrive) p).world.2 := by
  induction hs generalizing p q with
  | nil => exact hrefl _
  | cons x hs ih =>
    refine htrans _ _ _ ?_ (ih (shadows_attend [x] h))
    cases x with
    | crash k => exact hcut _
    | move m =>
      cases m with
      | step i e => exact h.record_step body hrefl hnote i e
      | call o => exact harrive o _

theorem Shadows.result_eq (h : Shadows note p q) (i : ℕ) : p.result i = q.result i := by
  rw [result, result, h.calls i]
  cases q.calls[i]? with
  | none => rfl
  | some c =>
    obtain ⟨o, t⟩ := c
    cases t <;> rfl

theorem Shadows.callAt_eq (h : Shadows note p q) (i : ℕ) : p.callAt i = q.callAt i := by
  rw [callAt, callAt, h.calls i]
  cases q.calls[i]? <;> rfl

end Pool

end Artel
