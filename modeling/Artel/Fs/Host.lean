import Artel.Fs.Watcher

namespace Artel.Fs

open List

def Disk.tree (disk : Disk) (walk : List Path) : Tree where
  files := walk.filterMap fun path =>
    match disk path with
    | some (.file bytes) => some (path.rel, bytes)
    | some .dir | some .symlink | none => none
  isSymlink := disk.isSymlink

section

variable {η : Type} (settings : Settings η)

def missingWrite (disk : Disk) (entry : Entry η) : Option (Write η) :=
  if isMissing settings disk entry then
    (keyToPath settings.filter.unicode entry.key).toOption.map fun path =>
      ⟨path.parts, entry.key, none, (disk path.parts).isSome⟩
  else none

def scanWrite (imports : RelPath → Bool) (disk : Disk) (path : Path) : Option (Write η) :=
  match disk path with
  | some (.file bytes) =>
    (scanFile settings disk.isSymlink (imports path.rel) path.rel bytes).entry.map fun entry =>
      ⟨path, entry.1, some entry.2, true⟩
  | some .dir | some .symlink | none => none

def Write.record (guard : EchoGuard η) (w : Write η) : EchoGuard η :=
  match w.content with
  | some content => guard.recordLocalPublish w.path content.hash
  | none => guard

def Write.perform (author : FixedBytes 32) (doc : Replica (FixedBytes 32) η) (w : Write η) :
    Replica (FixedBytes 32) η :=
  doc.put author w.key w.content

variable (author : FixedBytes 32) (returning : Bool) (imports : RelPath → Bool)
  (walk : List Path) (disk : Disk) (doc : Replica (FixedBytes 32) η)

/-- A host that has come up; one that returns has reconciled its document first. -/
def SyncState.hostWith : SyncState η :=
  let reconciled := if returning then reconcileDocAgainstDisk settings author disk doc else doc
  let tombstones := if returning then doc.latestPerKey.filterMap (missingWrite settings disk) else []
  let published := walk.filterMap (scanWrite settings imports disk)
  { SyncState.start disk
      (scanAndPublishExisting settings imports (disk.tree walk) author reconciled)
      (published.foldl Write.record .new) false with
    writes := tombstones ++ published }

/-- The filter has nothing against the path but what is on the disk. -/
structure Clear (path : Path) : Prop where
  hardcoded : isHardcodedSkip settings.filter.unicode path.rel = false
  excluded : settings.filter.exclude.matches settings.filter.unicode path.rel = false

structure Syncs (path : Path) (key : Bytes) : Prop extends Clear settings path where
  mode : SyncState.mode settings path ≠ .readOnly
  key : pathToKey settings.filter.unicode path.rel = .ok key

def Pass.Vetted : Pass η → Prop
  | .stat path => Clear settings path
  | .hash path | .pendingCheck path _ | .publishedCheck path _ =>
    Clear settings path ∧ SyncState.mode settings path ≠ .readOnly
  | .measure path key | .snapshot path key | .insert path key _ | .delete path key =>
    Syncs settings path key
  | .modified _ | .unmark _ _ | .record _ _ | .removed _ | .forget _ | .gate _ => True

variable {settings author returning imports walk disk doc}

theorem clear_of_check {isSymlink : List Bytes → Bool} {path : Path} {size : Option ℕ}
    (h : settings.filter.check isSymlink path.rel size = .included) : Clear settings path := by
  obtain ⟨hhardcoded, -, hexcluded, -⟩ := WorkspaceFilter.check_eq_included.mp h
  exact ⟨hhardcoded, hexcluded⟩

theorem syncs_of_removalKey {halted : Bool} {path : Path} {key : Bytes}
    (h : removalKey settings halted disk path = some key) : Syncs settings path key := by
  unfold removalKey at h
  split at h
  · cases h
  split at h
  · cases h
  · rename_i hcheck
    split at h
    · cases h
    · rename_i hmode
      exact ⟨clear_of_check hcheck, hmode, eq_ok_of_mem_toOption h⟩

theorem syncs_of_scanWrite {path : Path} {w : Write η}
    (h : scanWrite settings imports disk path = some w) : Syncs settings w.path w.key := by
  unfold scanWrite at h
  split at h
  · obtain ⟨entry, hentry, rfl⟩ := Option.map_eq_some_iff.mp h
    obtain ⟨hcheck, hmode, hkey, -⟩ := scanFile_eq_some.mp hentry
    exact ⟨clear_of_check hcheck, hmode, hkey⟩
  · cases h
  · cases h
  · cases h

theorem missingWrite_eq_some {entry : Entry η} {w : Write η} :
    missingWrite settings disk entry = some w ↔
      isMissing settings disk entry = true ∧
      ∃ path, keyToPath settings.filter.unicode entry.key = .ok path ∧
        ⟨path.parts, entry.key, none, (disk path.parts).isSome⟩ = w := by
  unfold missingWrite
  split
  · rename_i hmissing
    cases keyToPath settings.filter.unicode entry.key <;> simp [hmissing, Except.toOption]
  · rename_i hthere
    simp [hthere]

theorem reconcileDocAgainstDisk_eq :
    reconcileDocAgainstDisk settings author disk doc =
      (doc.latestPerKey.filterMap (missingWrite settings disk)).foldl (Write.perform author) doc := by
  rw [foldl_filterMap]
  unfold reconcileDocAgainstDisk
  congr 1
  funext doc entry
  unfold reconcileEntry missingWrite
  cases hmissing : isMissing settings disk entry with
  | false => rfl
  | true =>
    cases hpath : keyToPath settings.filter.unicode entry.key with
    | error reason => simp [isMissing, hpath, Except.toOption] at hmissing
    | ok path => rfl

theorem scanAndPublishExisting_eq :
    scanAndPublishExisting settings imports (disk.tree walk) author doc =
      (walk.filterMap (scanWrite settings imports disk)).foldl (Write.perform author) doc := by
  simp only [scanAndPublishExisting, scanned, Disk.tree, foldl_filterMap]
  congr 1
  funext doc path
  unfold scanWrite
  cases disk path with
  | none => rfl
  | some item =>
    cases item with
    | dir => rfl
    | symlink => rfl
    | file bytes =>
      cases hentry : (scanFile settings disk.isSymlink (imports path.rel) path.rel bytes).entry with
      | none => simp only [hentry, Option.map_none]
      | some entry => simp only [hentry, Option.map_some, Write.perform, Replica.put]

namespace SyncState

/-- The document of a host that has come up is what its writes made of the one it found. -/
theorem hostWith_doc :
    (hostWith settings author returning imports walk disk doc).doc =
      (hostWith settings author returning imports walk disk doc).writes.foldl
        (Write.perform author) doc := by
  cases returning with
  | false => exact scanAndPublishExisting_eq
  | true =>
    simp only [hostWith, start, if_true, foldl_append, reconcileDocAgainstDisk_eq,
      scanAndPublishExisting_eq]

variable {s s' : SyncState η}

theorem Next.vetted {pass pass' : Pass η} (hnext : Next settings s pass pass')
    (h : pass.Vetted settings) : pass'.Vetted settings := by
  cases hnext with
  | stat path hhalted hcheck => exact clear_of_check hcheck
  | hash path hdir hmode => exact ⟨h, hmode⟩
  | delete path key hkey => exact syncs_of_removalKey hkey
  | pendingCheck => exact h
  | publishedCheck => exact h
  | measure path hash key hnew hkey => exact ⟨h.1, h.2, hkey⟩
  | snapshot => exact h
  | insert => exact h
  | _ => trivial

theorem syncs_of_mem_effect {ok : Bool} {pass : Pass η} (h : pass.Vetted settings) {w : Write η}
    (hw : w ∈ (s.effect author ok pass).writes) : w ∈ s.writes ∨ Syncs settings w.path w.key := by
  cases pass with
  | insert path key content | delete path key =>
    simp only [effect] at hw
    split at hw
    · obtain hw | hw := mem_append.mp hw
      · exact .inl hw
      · rw [mem_singleton.mp hw]
        exact .inr h
    · exact .inl hw
  | stat path =>
    simp only [effect] at hw
    split at hw <;> exact .inl hw
  | _ => exact .inl hw

/-- Every write has the property, and the pass has looked for what comes with it. -/
structure Lawful (P : Write η → Prop) (settings : Settings η) (s : SyncState η) : Prop where
  writes : ∀ w ∈ s.writes, P w
  pass : ∀ pass ∈ s.pass, pass.Vetted settings

section

variable [DecidableEq η]

theorem Lawful.moved {P : Write η → Prop} (hP : ∀ w, Syncs settings w.path w.key → P w)
    {e : SyncEvent η} (h : Lawful P settings s) (hmoved : Moved settings author s e s') :
    Lawful P settings s' := by
  cases hmoved with
  | nothing => exact h
  | observe k change asRemoval again hidle hk hkind =>
    refine ⟨h.writes, ?_⟩
    rintro _ ⟨⟩
    cases asRemoval <;> trivial
  | walk path hpass hfile =>
    refine ⟨h.writes, ?_⟩
    rintro _ ⟨⟩
    trivial
  | watch ok pass hpass =>
    have hvetted := h.pass pass hpass
    refine ⟨fun w hw => ?_, fun pass' hpass' => (next_eq_some hpass').vetted hvetted⟩
    exact (syncs_of_mem_effect hvetted hw).elim (h.writes w) (hP w)
  | apply ok unseen work hwork =>
    refine ⟨fun w hw => h.writes w ?_, fun pass hpass => h.pass pass ?_⟩
    · simpa using hw
    · simpa using hpass
  | _ => exact ⟨h.writes, h.pass⟩

theorem writes_lawful {P : Write η → Prop} (hP : ∀ w, Syncs settings w.path w.key → P w)
    (hpass : s.pass = none) (hwrites : ∀ w ∈ s.writes, P w) (es : List (SyncEvent η)) :
    ∀ w ∈ (es.foldl (step settings author) s).writes, P w := by
  have hstart : Lawful P settings s := ⟨hwrites, by simp [hpass]⟩
  have hrun : Along (step settings author) (fun _ _ => True) s es :=
    Along.of_forall (fun _ _ => trivial) s es
  exact (hrun.invariant (fun s e hs _ => hs.moved hP (step_moved s e)) hstart).writes

end

theorem part_perform (ws : List (Write η)) :
    (ws.foldl (Write.perform author) doc).part author =
      ws.foldl (Write.perform author) (doc.part author) := by
  induction ws generalizing doc with
  | nil => rfl
  | cons w ws ih => rw [foldl_cons, ih, Write.perform, Replica.part_put, foldl_cons, Write.perform]

theorem effect_performs (author : FixedBytes 32) (ok : Bool) (pass : Pass η) :
    ∃ ws, (s.effect author ok pass).writes = s.writes ++ ws ∧
      (s.effect author ok pass).doc = ws.foldl (Write.perform author) s.doc := by
  cases pass with
  | insert path key content | delete path key =>
    simp only [effect]
    split
    · exact ⟨[_], rfl, rfl⟩
    · exact ⟨[], (append_nil _).symm, rfl⟩
  | stat path =>
    simp only [effect]
    split <;> exact ⟨[], (append_nil _).symm, rfl⟩
  | _ => exact ⟨[], (append_nil _).symm, rfl⟩

theorem effectWork_doc (ok unseen : Bool) (work : Work) :
    (s.effectWork settings ok unseen work).doc = s.doc := by
  cases work <;> simp only [effectWork] <;> (repeat' split) <;> rfl

theorem Moved.part [DecidableEq η] {e : SyncEvent η} (hmoved : Moved settings author s e s')
    (h : s.doc.part author = (s.writes.foldl (Write.perform author) doc).part author) :
    s'.doc.part author = (s'.writes.foldl (Write.perform author) doc).part author := by
  cases hmoved with
  | store entry hauthor => exact (Replica.part_store hauthor).trans h
  | watch ok pass hpass =>
    obtain ⟨ws, hwrites, hdoc⟩ := s.effect_performs author ok pass
    show (s.effect author ok pass).doc.part author = _
    rw [hdoc, part_perform, h, ← part_perform, ← foldl_append, ← hwrites]
  | apply ok unseen work hwork =>
    show (s.effectWork settings ok unseen work).doc.part author = _
    rw [effectWork_doc, effectWork_writes]
    exact h
  | _ => exact h

theorem mem_hostWith_writes {w : Write η} :
    w ∈ (hostWith settings author returning imports walk disk doc).writes ↔
      (returning = true ∧ ∃ e, doc.latest e.key = some e ∧ missingWrite settings disk e = some w) ∨
      ∃ path ∈ walk, scanWrite settings imports disk path = some w := by
  cases returning <;> simp [hostWith, Replica.mem_latestPerKey]

end SyncState

end

open SyncState in
/-- Only a returning host writes to a read-only path: one live and not on disk. -/
theorem read_only_paths_unwritten_iff {η : Type} [DecidableEq η] (settings : Settings η)
    (author : FixedBytes 32) (returning : Bool) (imports : RelPath → Bool) (walk : List Path)
    (disk : Disk) (doc : Replica (FixedBytes 32) η) :
    (∀ guard halted (es : List (SyncEvent η)),
      ∀ w ∈ (es.foldl (step settings author) (start disk doc guard halted)).writes,
        mode settings w.path ≠ .readOnly) ∧
    ((∀ es : List (SyncEvent η), ∀ w ∈ (es.foldl (step settings author)
        (hostWith settings author returning imports walk disk doc)).writes,
        mode settings w.path ≠ .readOnly) ↔
      (returning = true → ∀ e path, doc.latest e.key = some e → isMissing settings disk e = true →
        keyToPath settings.filter.unicode e.key = .ok path →
        mode settings path.parts ≠ .readOnly)) := by
  have hP : ∀ w : Write η, Syncs settings w.path w.key → mode settings w.path ≠ .readOnly :=
    fun w h => h.mode
  constructor
  · intro guard halted es
    exact writes_lawful hP rfl (fun w hw => absurd hw not_mem_nil) es
  constructor
  · intro h hreturning e path he hmissing hpath
    refine h [] ⟨path.parts, e.key, none, (disk path.parts).isSome⟩ ?_
    exact mem_hostWith_writes.mpr
      (.inl ⟨hreturning, e, he, missingWrite_eq_some.mpr ⟨hmissing, path, hpath, rfl⟩⟩)
  · intro h es
    refine writes_lawful hP rfl (fun w hw => ?_) es
    obtain ⟨hreturning, e, he, hw⟩ | ⟨path, -, hw⟩ := mem_hostWith_writes.mp hw
    · obtain ⟨hmissing, path, hpath, rfl⟩ := missingWrite_eq_some.mp hw
      exact h hreturning e path he hmissing hpath
    · exact (syncs_of_scanWrite hw).mode

namespace Sample

open Workspace.Sample SyncState

/-- A peer's read-only file is not on disk when the host comes back. -/
theorem reconcile_deletes_read_only :
    (hostWith (settings .readOnly) (endpoint 0).bytes true (fun _ => true) [] (fun _ => none)
      ⟨[fileEntry 2 [97] 1 0], 1⟩).writes.map (fun w => (w.path, w.content)) = [([[97]], none)] ∧
    mode (settings .readOnly) [[97]] = .readOnly := by
  decide +kernel

end Sample

end Artel.Fs
