import Mathlib.Data.List.Range
import Artel.Fs.Keys
import Artel.Fs.Rotate

namespace Artel.Fs

/-- The `globset` crate: the indices of the globs that match, ascending. -/
structure Globset where
  Glob : Type
  new : Bytes → Except String Glob
  isMatch : Glob → Bytes → Bool
  build : List Glob → Except String (Bytes → List ℕ)
  ascending : ∀ globs set, build globs = .ok set → ∀ hay, (set hay).Pairwise (· < ·)
  mem_iff : ∀ globs set, build globs = .ok set → ∀ hay idx,
    idx ∈ set hay ↔ ∃ glob, globs[idx]? = some glob ∧ isMatch glob hay = true

inductive PathRulesError
  | emptyGlob
  | absoluteGlob (glob : Bytes)
  | parentTraversalGlob (glob : Bytes)
  | invalidGlob (glob : Bytes) (reason : String)

structure PathRule where
  glob : Bytes
  mode : Mode

structure PathRules where
  default : Mode
  rules : List PathRule

section

variable (globset : Globset) (unicode : Unicode)

def globMatchesOne (glob hay : Bytes) : Bool :=
  match globset.new (unicode.nfc glob) with
  | .ok g => globset.isMatch g hay
  | .error _ => false

def PathRules.modeFor (rules : PathRules) (rel : RelPath) : Mode :=
  match pathToMatchString unicode rel with
  | none => rules.default
  | some hay =>
    match rules.rules.find? fun rule => globMatchesOne globset unicode rule.glob hay with
    | some rule => rule.mode
    | none => rules.default

def newGlob (glob : Bytes) : Except PathRulesError globset.Glob :=
  (globset.new (unicode.nfc glob)).mapError (.invalidGlob glob)

def validateGlob (glob : Bytes) : Except PathRulesError Unit := do
  if glob.isEmpty then throw .emptyGlob
  if glob.head? = some 47 ∨ glob.head? = some 92 then throw (.absoluteGlob glob)
  if [46, 46] ∈ glob.splitOn 47 then throw (.parentTraversalGlob glob)
  let _ ← newGlob globset unicode glob

/-- The loop of `compile`: the globs for the builder, each with the mode of its rule. -/
def compileRules : List PathRule → Except PathRulesError (List (globset.Glob × Mode))
  | [] => .ok []
  | rule :: rules => do
    validateGlob globset unicode rule.glob
    let glob ← newGlob globset unicode rule.glob
    let rest ← compileRules rules
    return (glob, rule.mode) :: rest

theorem Globset.bounded {globs : List (globset.Glob × Mode)} {set : Bytes → List ℕ}
    (h : globset.build (globs.map Prod.fst) = .ok set) (hay : Bytes) :
    ∀ idx ∈ set hay, idx < (globs.map Prod.snd).length := by
  intro idx hidx
  obtain ⟨glob, hglob, -⟩ := (globset.mem_iff _ _ h hay idx).mp hidx
  simpa using (List.getElem?_eq_some_iff.mp hglob).1

def PathRules.compile (rules : PathRules) : Except PathRulesError CompiledPathRules := do
  let globs ← compileRules globset unicode rules.rules
  match h : globset.build (globs.map Prod.fst) with
  | .error reason => throw (.invalidGlob [] reason)
  | .ok set => return ⟨rules.default, set, globs.map Prod.snd, globset.bounded h⟩

theorem head?_eq_findIdx? {α : Type} {xs : List α} {p : α → Bool} {l : List ℕ}
    (hascending : l.Pairwise (· < ·)) (hmem : ∀ i, i ∈ l ↔ ∃ x, xs[i]? = some x ∧ p x = true) :
    l.head? = xs.findIdx? p := by
  symm
  cases l with
  | nil =>
    apply List.findIdx?_eq_none_iff.mpr
    intro x hx
    obtain ⟨i, hi⟩ := List.mem_iff_getElem?.mp hx
    by_contra hp
    exact List.not_mem_nil ((hmem i).mpr ⟨x, hi, by simpa using hp⟩)
  | cons i l =>
    obtain ⟨x, hx, hp⟩ := (hmem i).mp List.mem_cons_self
    obtain ⟨hi, rfl⟩ := List.getElem?_eq_some_iff.mp hx
    refine List.findIdx?_eq_some_iff_getElem.mpr ⟨hi, hp, ?_⟩
    intro j hj hpj
    have hjmem := (hmem j).mpr ⟨_, List.getElem?_eq_getElem (hj.trans hi), hpj⟩
    obtain rfl | hjl := List.mem_cons.mp hjmem
    · exact Nat.lt_irrefl _ hj
    · exact Nat.lt_asymm hj ((List.pairwise_cons.mp hascending).1 j hjl)

theorem modes_findIdx? (hay : Bytes) (default : Mode) {rules : List PathRule}
    {globs : List (globset.Glob × Mode)} (h : compileRules globset unicode rules = .ok globs) :
    (match (globs.map Prod.fst).findIdx? (globset.isMatch · hay) with
      | some idx => (globs.map Prod.snd).getD idx default
      | none => default) =
    match rules.find? fun rule => globMatchesOne globset unicode rule.glob hay with
    | some rule => rule.mode
    | none => default := by
  induction rules generalizing globs with
  | nil =>
    obtain rfl := Except.ok.inj h
    rfl
  | cons rule rules ih =>
    obtain ⟨-, -, h⟩ := exists_of_bind_eq_ok h
    obtain ⟨glob, hglob, h⟩ := exists_of_bind_eq_ok h
    obtain ⟨rest, hrest, h⟩ := exists_of_bind_eq_ok h
    obtain rfl := Except.ok.inj h
    have hmatch : globMatchesOne globset unicode rule.glob hay = globset.isMatch glob hay := by
      unfold newGlob at hglob
      unfold globMatchesOne
      cases hnew : globset.new (unicode.nfc rule.glob) with
      | error reason =>
        rw [hnew] at hglob
        cases hglob
      | ok g =>
        rw [hnew] at hglob
        obtain rfl := Except.ok.inj hglob
        rfl
    rw [List.map_cons, List.findIdx?_cons, List.find?_cons, hmatch]
    cases globset.isMatch glob hay with
    | true => rfl
    | false =>
      rw [← ih hrest]
      cases (rest.map Prod.fst).findIdx? (globset.isMatch · hay) <;> rfl

/-- Compiled rules give every path the mode that the rules give it one by one. -/
theorem compiled_modeFor (rules : PathRules) {compiled : CompiledPathRules}
    (h : rules.compile globset unicode = .ok compiled) (rel : RelPath) :
    compiled.modeFor unicode rel = rules.modeFor globset unicode rel := by
  obtain ⟨globs, hglobs, h⟩ := exists_of_bind_eq_ok h
  split at h
  · cases h
  · rename_i set hset
    obtain rfl := Except.ok.inj h
    unfold CompiledPathRules.modeFor PathRules.modeFor
    cases pathToMatchString unicode rel with
    | none => rfl
    | some hay =>
      have hhead := head?_eq_findIdx? (globset.ascending _ _ hset hay) (globset.mem_iff _ _ hset hay)
      dsimp only
      rw [hhead]
      exact modes_findIdx? globset unicode hay rules.default hglobs

end

def Sample.globset : Globset where
  Glob := Bytes
  new := .ok
  isMatch glob hay := glob == hay
  build globs := .ok fun hay => (List.range globs.length).filter fun idx => globs[idx]? == some hay
  ascending := by
    intro globs set h hay
    obtain rfl := Except.ok.inj h
    exact List.pairwise_lt_range.filter _
  mem_iff := by
    intro globs set h hay idx
    obtain rfl := Except.ok.inj h
    simp only [List.mem_filter, List.mem_range, beq_iff_eq, List.getElem?_eq_some_iff]
    grind

def Sample.pathRules : PathRules := ⟨.readOnly, [⟨[97], .readWrite⟩]⟩

theorem compiled_modeFor_one : ∃ compiled,
    Sample.pathRules.compile Sample.globset Sample.unicode = .ok compiled ∧
      compiled.modeFor Sample.unicode [.normal [97]] = .readWrite :=
  ⟨_, rfl, (compiled_modeFor Sample.globset Sample.unicode Sample.pathRules rfl _).trans (by decide)⟩

end Artel.Fs
