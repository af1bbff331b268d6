import Artel.Lib.Replica
import Artel.Workspace.PeerFilter

namespace Artel.Fs

open Workspace List

theorem exists_of_bind_eq_ok {ε α β : Type} {x : Except ε α} {f : α → Except ε β} {b : β}
    (h : x >>= f = .ok b) : ∃ a, x = .ok a ∧ f a = .ok b := by
  cases x with
  | error e => cases h
  | ok a => exact ⟨a, rfl, h⟩

theorem eq_ok_of_mem_toOption {ε α : Type} {x : Except ε α} {a : α} (h : a ∈ x.toOption) :
    x = .ok a := by
  cases x with
  | error e => cases h
  | ok b => exact congrArg Except.ok (Option.some.inj h)

inductive RotateCall
  | getMany
  | entry (k : ℕ)
  | create
  /-- `set_hash` or `del` of a survivor. -/
  | put (k : ℕ)
  | shareWrite
  | shareRead
  | persistCurrentNamespace
  | persistEpoch
  deriving DecidableEq

inductive RotateError
  | call (failed : RotateCall)
  /-- Rotation stopped during capability replay. -/
  | stopped
  | authorNotAnEndpoint
  deriving DecidableEq

structure RotationDropCounts where
  revoked : ℕ
  notRw : ℕ
  unresolvable : ℕ
  deriving DecidableEq

def RotationDropCounts.total (drops : RotationDropCounts) : ℕ :=
  drops.revoked + drops.notRw + drops.unresolvable

/-- The host's node. Its docs author has the bytes of its endpoint. -/
structure HostNode where
  ed : Ed25519
  endpointId : EndpointId
  peerMap : PeerMap

abbrev Survivor (η : Type) := Bytes × Option (Replica.Content η)

structure Rotated (η : Type) where
  doc : Replica (FixedBytes 32) η
  newEpoch : ℕ
  survivorEntries : ℕ
  droppedEntries : ℕ

section

variable {η : Type} (fails : RotateCall → Bool) (node : HostNode)

def require (holds : Bool) (error : RotateError) : Except RotateError Unit :=
  if holds then .ok () else .error error

def attempt (c : RotateCall) : Except RotateError Unit := require (!fails c) (.call c)

/-- An entry is kept, or counted as dropped. The host's own writes always survive. -/
def sift (e : Replica.Entry (FixedBytes 32) η) (acc : List (Survivor η) × RotationDropCounts) :
    List (Survivor η) × RotationDropCounts :=
  if (⟨e.author⟩ : EndpointId) = node.endpointId then ((e.key, e.content) :: acc.1, acc.2)
  else
    match node.peerMap.classifyAuthor ⟨e.author⟩ with
    | .rw => ((e.key, e.content) :: acc.1, acc.2)
    | .revoked => (acc.1, { acc.2 with revoked := acc.2.revoked + 1 })
    | .notRw => (acc.1, { acc.2 with notRw := acc.2.notRw + 1 })
    | .unresolvable => (acc.1, { acc.2 with unresolvable := acc.2.unresolvable + 1 })

/-- The survivors of a snapshot, and how many entries were dropped for which reason. -/
def collectRotationSurvivors : ℕ → List (Replica.Entry (FixedBytes 32) η) →
    Except RotateError (List (Survivor η) × RotationDropCounts)
  | _, [] => .ok ([], ⟨0, 0, 0⟩)
  | k, e :: rest => do
    require node.peerMap.isReady .stopped
    attempt fails (.entry k)
    require (node.ed.validKey ⟨e.author⟩) .authorNotAnEndpoint
    let acc ← collectRotationSurvivors (k + 1) rest
    return sift node e acc

/-- The survivors are written to the new document under the host's own author. -/
def reauthor : ℕ → List (Survivor η) → Replica (FixedBytes 32) η →
    Except RotateError (Replica (FixedBytes 32) η)
  | _, [], doc => .ok doc
  | k, (key, content) :: rest, doc => do
    attempt fails (.put k)
    reauthor (k + 1) rest (doc.put node.endpointId.bytes key content)

def rotateNamespace (old : Replica (FixedBytes 32) η) (prevEpoch : ℕ) :
    Except RotateError (Rotated η) := do
  attempt fails .getMany
  let (survivors, drops) ← collectRotationSurvivors fails node 0 old.latestPerKey
  attempt fails .create
  let doc ← reauthor fails node 0 survivors .empty
  attempt fails .shareWrite
  attempt fails .shareRead
  attempt fails .persistCurrentNamespace
  attempt fails .persistEpoch
  return ⟨doc, prevEpoch + 1, survivors.length, drops.total⟩

def HostNode.mayWrite (author : FixedBytes 32) : Bool :=
  decide (author = node.endpointId.bytes) || (node.peerMap.idMap ⟨author⟩).any node.peerMap.hasRw

theorem HostNode.mayWrite_iff (author : FixedBytes 32) :
    node.mayWrite author = true ↔ (⟨author⟩ : EndpointId) = node.endpointId ∨
      node.peerMap.classifyAuthor ⟨author⟩ = .rw := by
  have hhost : (⟨author⟩ : EndpointId) = node.endpointId ↔ author = node.endpointId.bytes :=
    ⟨fun h => congrArg EndpointId.bytes h, fun h => by rw [h]⟩
  simp only [HostNode.mayWrite, Bool.or_eq_true, decide_eq_true_eq, hhost, PeerMap.classifyAuthor]
  cases node.peerMap.idMap ⟨author⟩ with
  | none => simp
  | some peer =>
    dsimp only [Option.any_some]
    split
    · simp_all
    · split <;> simp_all

theorem sift_fst (e : Replica.Entry (FixedBytes 32) η)
    (acc : List (Survivor η) × RotationDropCounts) :
    (sift node e acc).1 =
      if node.mayWrite e.author then (e.key, e.content) :: acc.1 else acc.1 := by
  have hmay := node.mayWrite_iff e.author
  unfold sift
  split
  · rw [if_pos (hmay.mpr (.inl ‹_›))]
  · rename_i hhost
    cases hclass : node.peerMap.classifyAuthor ⟨e.author⟩ with
    | rw => rw [if_pos (hmay.mpr (.inr hclass))]
    | revoked | notRw | unresolvable =>
      rw [if_neg fun h => by simpa [hhost, hclass] using hmay.mp h]

variable {fails node}

theorem collectRotationSurvivors_ok {entries : List (Replica.Entry (FixedBytes 32) η)} {k : ℕ}
    {survivors : List (Survivor η)} {drops : RotationDropCounts}
    (h : collectRotationSurvivors fails node k entries = .ok (survivors, drops)) :
    survivors = (entries.filter fun e => node.mayWrite e.author).map fun e => (e.key, e.content) := by
  induction entries generalizing k survivors drops with
  | nil =>
    cases h
    rfl
  | cons e rest ih =>
    obtain ⟨-, -, h⟩ := exists_of_bind_eq_ok h
    obtain ⟨-, -, h⟩ := exists_of_bind_eq_ok h
    obtain ⟨-, -, h⟩ := exists_of_bind_eq_ok h
    obtain ⟨⟨kept, dropped⟩, hrest, h⟩ := exists_of_bind_eq_ok h
    have hsurvivors : survivors = (sift node e (kept, dropped)).1 :=
      congrArg Prod.fst (Except.ok.inj h).symm
    rw [hsurvivors, sift_fst, ih hrest, filter_cons]
    split <;> rfl

theorem reauthor_ok {survivors : List (Survivor η)} {k : ℕ} {doc made : Replica (FixedBytes 32) η}
    (h : reauthor fails node k survivors doc = .ok made) :
    made = survivors.foldl (fun doc s => doc.put node.endpointId.bytes s.1 s.2) doc := by
  induction survivors generalizing k doc with
  | nil =>
    cases h
    rfl
  | cons s rest ih =>
    obtain ⟨-, -, hrest⟩ := exists_of_bind_eq_ok h
    exact ih hrest

variable {old : Replica (FixedBytes 32) η} {prevEpoch : ℕ} {outcome : Rotated η}

section

variable (h : rotateNamespace fails node old prevEpoch = .ok outcome)
include h

theorem rotateNamespace_doc
    :
    outcome.doc = ((old.latestPerKey.filter fun e => node.mayWrite e.author).map fun e =>
      (e.key, e.content)).foldl (fun doc s => doc.put node.endpointId.bytes s.1 s.2) .empty := by
  obtain ⟨-, -, h⟩ := exists_of_bind_eq_ok h
  obtain ⟨⟨survivors, drops⟩, hsurvivors, h⟩ := exists_of_bind_eq_ok h
  obtain ⟨-, -, h⟩ := exists_of_bind_eq_ok h
  obtain ⟨doc, hdoc, h⟩ := exists_of_bind_eq_ok h
  obtain ⟨-, -, h⟩ := exists_of_bind_eq_ok h
  obtain ⟨-, -, h⟩ := exists_of_bind_eq_ok h
  obtain ⟨-, -, h⟩ := exists_of_bind_eq_ok h
  obtain ⟨-, -, h⟩ := exists_of_bind_eq_ok h
  have hmade : outcome.doc = doc := congrArg Rotated.doc (Except.ok.inj h).symm
  rw [hmade, reauthor_ok hdoc, collectRotationSurvivors_ok hsurvivors]

theorem rotateNamespace_entries
    :
    outcome.doc.entries.map (fun e => (e.key, e.content)) =
      (old.latestPerKey.filter fun e => node.mayWrite e.author).map fun e => (e.key, e.content) := by
  rw [rotateNamespace_doc h, Replica.foldl_put fun e he => absurd he not_mem_nil]
  · rfl
  · rw [pairwise_map]
    exact (old.latestPerKey_ascending.filter _).imp fun hlt => Replica.not_prefix_of_lt hlt

theorem rotateNamespace_keys_nodup
    :
    (outcome.doc.entries.map Replica.Entry.key).Nodup := by
  have hkeys := congrArg (List.map Prod.fst) (rotateNamespace_entries h)
  simp only [map_map, Function.comp_def] at hkeys
  rw [hkeys]
  refine pairwise_map.mpr ((old.latestPerKey_ascending.filter _).imp fun hlt heq => ?_)
  exact Replica.not_prefix_of_lt hlt (heq ▸ prefix_rfl)

theorem rotateNamespace_latest
    (key : Bytes) : (outcome.doc.latest key).map Replica.Entry.content =
      ((old.latest key).filter fun e => node.mayWrite e.author).map Replica.Entry.content := by
  have hentries := rotateNamespace_entries h
  refine Option.ext fun content => ?_
  simp only [Option.map_eq_some_iff, Option.filter_eq_some_iff]
  constructor
  · rintro ⟨e, he, rfl⟩
    obtain ⟨hmem, rfl⟩ := Replica.mem_of_latest he
    have hin : (e.key, e.content) ∈ outcome.doc.entries.map fun e => (e.key, e.content) :=
      mem_map_of_mem hmem
    rw [hentries] at hin
    obtain ⟨e', he', heq⟩ := mem_map.mp hin
    obtain ⟨hlatest, hmay⟩ := mem_filter.mp he'
    rw [Prod.mk.injEq] at heq
    exact ⟨e', ⟨heq.1 ▸ Replica.mem_latestPerKey.mp hlatest, hmay⟩, heq.2⟩
  · rintro ⟨e', ⟨he', hmay⟩, rfl⟩
    obtain ⟨-, rfl⟩ := Replica.mem_of_latest he'
    have hin : (e'.key, e'.content) ∈ (old.latestPerKey.filter fun e =>
        node.mayWrite e.author).map fun e => (e.key, e.content) :=
      mem_map_of_mem (mem_filter.mpr ⟨Replica.mem_latestPerKey.mpr he', hmay⟩)
    rw [← hentries] at hin
    obtain ⟨e, he, heq⟩ := mem_map.mp hin
    rw [Prod.mk.injEq] at heq
    exact ⟨e, heq.1 ▸ Replica.latest_eq_of_mem (rotateNamespace_keys_nodup h) he, heq.2⟩

theorem rotateNamespace_author
    {e : Replica.Entry (FixedBytes 32) η} (he : e ∈ outcome.doc.entries) :
    e.author = node.endpointId.bytes := by
  rw [rotateNamespace_doc h] at he
  exact (Replica.mem_foldl_put he).resolve_left not_mem_nil

end

end

/-- The new document has the latest entries of the host and of the writers, no more. -/
theorem rotated_document_carries_survivors {η : Type} (fails : RotateCall → Bool) (node : HostNode)
    (old : Replica (FixedBytes 32) η) (prevEpoch : ℕ) (outcome : Rotated η)
    (h : rotateNamespace fails node old prevEpoch = .ok outcome) :
    (outcome.doc.entries.map Replica.Entry.key).Nodup ∧
    (∀ e ∈ outcome.doc.entries, e.author = node.endpointId.bytes) ∧
    ∀ key, (outcome.doc.latest key).map Replica.Entry.content =
      ((old.latest key).filter fun e => node.mayWrite e.author).map Replica.Entry.content :=
  ⟨rotateNamespace_keys_nodup h, fun _ => rotateNamespace_author h, rotateNamespace_latest h⟩

namespace Sample

open Artel.Sample Workspace.Sample

def hostNode : HostNode where
  ed := .checksum
  endpointId := endpoint 0
  peerMap :=
    let caps := ((PeerMap.replaying (peer 0)).apply (.grant (peer 1) .readWrite)).apply
      (.revoke (peer 2))
    ((caps.register (endpoint 1) (peer 1)).register (endpoint 2) (peer 2)).finishReplay

def contentOf (bytes : Bytes) (h : 0 < bytes.length) : Replica.Content Bytes :=
  ⟨bytes, bytes.length, h⟩

/-- The host has deleted a key that begins a key of peer 1. -/
def shared : Replica (FixedBytes 32) Bytes :=
  ⟨[⟨(endpoint 2).bytes, [98], some (contentOf [7] (by decide)), 0⟩,
    ⟨(endpoint 1).bytes, [97, 98], some (contentOf [5] (by decide)), 1⟩,
    ⟨(endpoint 0).bytes, [97], none, 2⟩], 3⟩

theorem rotated_document_carries_survivors_shared :
    ∃ outcome, rotateNamespace (fun _ => false) hostNode shared 0 = .ok outcome ∧
      (outcome.doc.latest [97]).map Replica.Entry.content = some none ∧
      (outcome.doc.latest [97, 98]).map Replica.Entry.content =
        some (some (contentOf [5] (by decide))) ∧
      (outcome.doc.latest [98]).map Replica.Entry.content = none := by
  have hok : (rotateNamespace (fun _ => false) hostNode shared 0).toOption.isSome = true := by
    decide +kernel
  obtain ⟨outcome, houtcome⟩ := Option.isSome_iff_exists.mp hok
  have h := eq_ok_of_mem_toOption houtcome
  obtain ⟨-, -, hlatest⟩ :=
    rotated_document_carries_survivors (fun _ => false) hostNode shared 0 outcome h
  refine ⟨outcome, h, ?_, ?_, ?_⟩
  all_goals
    rw [hlatest]
    decide +kernel

end Sample

end Artel.Fs
