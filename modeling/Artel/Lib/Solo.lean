import Artel.Lib.History

namespace Artel

variable {ο σ χ ℓ κ α β : Type}

namespace Fiber

/-- The fiber alone, by the environment's choices; what is not ready is attempted in vain. -/
def exec : List χ → Fiber σ χ ℓ α → σ → Fiber σ χ ℓ α × σ
  | [], t, s => (t, s)
  | _ :: _, ret a, s => (ret a, s)
  | e :: es, act l ready next rest, s =>
    if ready e s then exec es (rest e s) (next e s) else exec es (act l ready next rest) s

@[simp] theorem exec_ret (es : List χ) (a : α) (s : σ) :
    exec es (ret a : Fiber σ χ ℓ α) s = (ret a, s) := by
  cases es <;> rfl

end Fiber

namespace Pool

variable (body : ℕ → ο → Fiber σ χ ℓ α) (reboot : κ → σ → σ)

theorem history_steps (cs : List (ο × Fiber σ χ ℓ α)) (o : ο) (es : List χ) (t : Fiber σ χ ℓ α)
    (s : σ) :
    history body reboot ⟨s, cs ++ [(o, t)]⟩ (es.map fun e => .move (.step cs.length e)) =
      ⟨(t.exec es s).2, cs ++ [(o, (t.exec es s).1)]⟩ := by
  induction es generalizing t s with
  | nil => rfl
  | cons e es ih =>
    rw [List.map_cons, history, List.foldl_cons, ← history]
    have hget : (cs ++ [(o, t)])[cs.length]? = some (o, t) := by simp
    cases t with
    | ret a =>
      simp only [happen, move, hget]
      rw [ih, Fiber.exec_ret, Fiber.exec_ret]
    | act l ready next rest =>
      simp only [happen, move, hget, Fiber.exec]
      split
      · rw [List.set_append_right _ _ (Nat.le_refl _), Nat.sub_self, List.set_cons_zero, ih]
      · exact ih _ _

theorem history_solo (p : Pool ο σ χ ℓ α) (o : ο) (es : List χ) :
    p.history body reboot
        (.move (.call o) :: es.map fun e => .move (.step p.calls.length e)) =
      ⟨((body p.calls.length o).exec es p.world).2,
        p.calls ++ [(o, ((body p.calls.length o).exec es p.world).1)]⟩ :=
  history_steps body reboot p.calls o es _ _

theorem history_append (p : Pool ο σ χ ℓ α) (hs hs' : List (Happening ο χ κ)) :
    p.history body reboot (hs ++ hs') = (p.history body reboot hs).history body reboot hs' :=
  List.foldl_append

/-- Calls that are made one after the other, each of which runs alone with `es`. -/
def inTurn (es : List χ) : ℕ → List ο → List (Happening ο χ κ)
  | _, [] => []
  | i, o :: os => .move (.call o) :: (es.map fun e => .move (.step i e)) ++ inTurn es (i + 1) os

/-- The state after them, and what became of each. -/
def soloRun (es : List χ) : ℕ → List ο → σ → σ × List (ο × Fiber σ χ ℓ α)
  | _, [], s => (s, [])
  | i, o :: os, s =>
    let r := (body i o).exec es s
    let rest := soloRun es (i + 1) os r.2
    (rest.1, (o, r.1) :: rest.2)

theorem history_inTurn (es : List χ) (os : List ο) (p : Pool ο σ χ ℓ α) :
    p.history body reboot (inTurn es p.calls.length os) =
      ⟨(soloRun body es p.calls.length os p.world).1,
        p.calls ++ (soloRun body es p.calls.length os p.world).2⟩ := by
  induction os generalizing p with
  | nil => simp [inTurn, soloRun, history]
  | cons o os ih =>
    have hsolo := history_solo body reboot p o es
    have hrest := ih ⟨((body p.calls.length o).exec es p.world).2,
      p.calls ++ [(o, ((body p.calls.length o).exec es p.world).1)]⟩
    simp only [inTurn, soloRun]
    rw [history_append, hsolo]
    simpa using hrest

theorem soloRun_append (es : List χ) (os os' : List ο) (i : ℕ) (s : σ) :
    soloRun body es i (os ++ os') s =
      ((soloRun body es (i + os.length) os' (soloRun body es i os s).1).1,
        (soloRun body es i os s).2 ++
          (soloRun body es (i + os.length) os' (soloRun body es i os s).1).2) := by
  induction os generalizing i s with
  | nil => simp [soloRun]
  | cons o os ih =>
    have hlen : i + (os.length + 1) = i + 1 + os.length := by omega
    simp only [List.cons_append, soloRun, ih, List.length_cons, hlen]

end Pool

end Artel
