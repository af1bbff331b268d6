import Artel.Fs.Containment
import Artel.Fs.Host

namespace Artel.Fs

open List

def DEFAULT_STATE_SUBDIR : Bytes := Signing.ascii ['.', 'a', 'r', 't', 'e', 'l', '-', 'f', 's']

structure WorkspaceConfig where
  stateDir : Option Path

def WorkspaceConfig.resolve (config : WorkspaceConfig) (root : Path) : Path :=
  config.stateDir.getD (root ++ [DEFAULT_STATE_SUBDIR])

section

variable (unicode : Unicode) (root stateDir : Path)

def Named (path : Path) : Prop :=
  (∃ key, pathToKey unicode path.rel = .ok key) ∨
    ∃ key named, keyToPath unicode key = .ok named ∧ named.parts = path

/-- Whatever a key can be about under the state directory is among what never syncs. -/
def Hidden : Prop :=
  ∀ path : Path, stateDir <+: root ++ path → Named unicode path → isHardcodedSkip unicode path.rel = true

variable {unicode root stateDir}

end

section

variable {η : Type} (root stateDir : Path)

/-- Nothing is published from the state directory, and nothing is applied to it. -/
structure Untouched [DecidableEq η] (settings : Settings η) : Prop where
  watched : ∀ author disk doc guard halted (es : List (SyncEvent η)),
    ∀ w ∈ (es.foldl (SyncState.step settings author)
      (SyncState.start disk doc guard halted)).writes, ¬stateDir <+: root ++ w.path
  published : ∀ author returning imports walk disk doc (es : List (SyncEvent η)),
    ∀ w ∈ (es.foldl (SyncState.step settings author)
      (SyncState.hostWith settings author returning imports walk disk doc)).writes,
      ¬stateDir <+: root ++ w.path
  applied : ∀ (site : Site η) (state : ApplierState η) entry path, site.settings = settings →
    keyToPath settings.filter.unicode entry.key = .ok path → stateDir <+: root ++ path.parts →
    ∀ state' ∈ [(state.handleEntry site entry).2, state.exportEntry site entry],
      state'.ops = state.ops ∧ state'.disk = state.disk

variable {root stateDir} {settings : Settings η}

section

variable (h : Hidden settings.filter.unicode root stateDir)
include h

theorem Hidden.not_under {path : Path}
    (hnamed : Named settings.filter.unicode path) (hclear : Clear settings path) :
    ¬stateDir <+: root ++ path := by
  intro hunder
  have hskip := h path hunder hnamed
  rw [hclear.hardcoded] at hskip
  cases hskip

theorem Hidden.not_under_of_syncs (w : Write η)
    (hw : Syncs settings w.path w.key) : ¬stateDir <+: root ++ w.path :=
  h.not_under (.inl ⟨w.key, hw.key⟩) hw.toClear

theorem untouched_of_hidden [DecidableEq η] :
    Untouched root stateDir settings where
  watched := by
    intro author disk doc guard halted es
    refine SyncState.writes_lawful h.not_under_of_syncs rfl (fun w hw => ?_) es
    exact absurd hw not_mem_nil
  published := by
    intro author returning imports walk disk doc es
    refine SyncState.writes_lawful h.not_under_of_syncs rfl (fun w hw => ?_) es
    obtain ⟨-, e, he, hw⟩ | ⟨path, -, hw⟩ := SyncState.mem_hostWith_writes.mp hw
    · obtain ⟨hmissing, path, hpath, rfl⟩ := missingWrite_eq_some.mp hw
      refine h.not_under (.inr ⟨e.key, path, hpath, rfl⟩) ?_
      have hcheck : path.check settings disk = .included := by
        simp only [isMissing, hpath, Except.toOption, Option.any_some, Bool.and_eq_true,
          decide_eq_true_eq] at hmissing
        exact hmissing.2.1
      exact clear_of_check hcheck
    · exact h.not_under_of_syncs w (syncs_of_scanWrite hw)
  applied := by
    rintro site state entry path rfl hpath hunder state' hstate'
    have hhandles : ApplierState.Handles site state entry state' := by
      simp only [mem_cons, not_mem_nil, or_false] at hstate'
      obtain rfl | rfl := hstate'
      · exact ApplierState.handleEntry_handles state site entry
      · exact ApplierState.exportEntry_handles state site entry
    have hskip : ∀ path', keyToPath site.settings.filter.unicode entry.key = .ok path' →
        incomingSkip site.settings state.disk path' (contentLen entry) ≠ none := by
      intro path' hpath' hnone
      obtain rfl : path = path' := Except.ok.inj (hpath.symm.trans hpath')
      have hclear := clear_of_check (incomingSkip_eq_none.mp hnone).1
      exact h.not_under (.inr ⟨entry.key, path, hpath, rfl⟩) hclear hunder
    cases hhandles with
    | refused hops hdisk => exact ⟨hops, hdisk⟩
    | waits path' content hpath' hcontent hblob hops hdisk => exact ⟨hops, hdisk⟩
    | removed path' calls hpath' hnone => exact absurd hnone (hskip path' hpath')
    | exported path' content bytes dirs rest hpath' hnone => exact absurd hnone (hskip path' hpath')

end

end

section

variable {η : Type} {unicode : Unicode} {root stateDir : Path}

/-- Nothing but what never syncs is refused: there are no globs, rules or limits. -/
def openSettings (unicode : Unicode) (hash : Bytes → η) : Settings η :=
  ⟨⟨unicode, .globs fun _ => false, none⟩, .all .readWrite, hash⟩

theorem check_openSettings {isSymlink : List Bytes → Bool} {path : Path} (hash : Bytes → η)
    (size : Option ℕ) (hlink : ∀ above, isSymlink above = false)
    (h : isHardcodedSkip unicode path.rel = false) :
    (openSettings unicode hash).filter.check isSymlink path.rel size = .included := by
  refine WorkspaceFilter.check_eq_included.mpr ⟨h, ?_, ?_, ?_⟩
  · exact hasSymlinkInPath_rel.mpr fun above _ _ => hlink above
  · simp [openSettings, ExcludeRules.matches]
  · intro cap hcap
    cases hcap

theorem scanWrite_openSettings {path : Path} {key : Bytes} (hash : Bytes → η)
    (hkey : pathToKey unicode path.rel = .ok key) (h : isHardcodedSkip unicode path.rel = false) :
    scanWrite (openSettings unicode hash) (fun _ => true)
      (Disk.set (fun _ => none) path (some (.file [0]))) path =
        some ⟨path, key, some ⟨hash [0], 1, Nat.one_pos⟩, true⟩ := by
  have hlink : ∀ above,
      Disk.isSymlink (Disk.set (fun _ => none) path (some (.file [0]))) above = false := by
    intro above
    by_cases habove : above = path
    · simp [Disk.isSymlink, habove]
    · simp [Disk.isSymlink, Disk.set_of_ne habove]
  simp only [scanWrite, Disk.set_self, scanFile, check_openSettings hash _ hlink h]
  simp [openSettings, hkey, publishFileStreaming, FileOutcome.entry]

theorem exportEntry_openSettings {path : KeyPath} {site : Site η} {state : ApplierState η}
    {entry : Entry η} (hash : Bytes → η) (hsite : site.settings = openSettings unicode hash)
    (hdisk : state.disk = fun _ => none) (hcontent : entry.content = none)
    (hpath : keyToPath unicode entry.key = .ok path)
    (h : isHardcodedSkip unicode path.parts.rel = false) :
    (state.exportEntry site entry).ops = state.ops ++ [.remove path.parts] := by
  have hskip : incomingSkip site.settings state.disk path (contentLen entry) = none := by
    rw [hsite, hdisk]
    refine incomingSkip_eq_none.mpr ⟨check_openSettings hash _ (fun _ => rfl) h, ?_, ?_⟩
    · intro cap hcap
      cases hcap
    · simp [openSettings]
  have hpath : keyToPath site.settings.filter.unicode entry.key = .ok path := by
    rw [hsite]
    exact hpath
  simp only [ApplierState.exportEntry, hpath, hskip, hcontent]
  exact (ApplierState.unlink_evolves _ site path).ops

theorem hidden_of_untouched [DecidableEq η] {hash : Bytes → η}
    (h : Untouched root stateDir (openSettings unicode hash)) : Hidden unicode root stateDir := by
  intro path hunder hnamed
  let author : FixedBytes 32 := ⟨List.replicate 32 0, length_replicate⟩
  by_contra hskip
  have hskip : isHardcodedSkip unicode path.rel = false := by simpa using hskip
  obtain ⟨key, hkey⟩ | ⟨key, named, hkey, rfl⟩ := hnamed
  · let disk := Disk.set (fun _ => none) path (some (.file [0]))
    have hwrite := scanWrite_openSettings hash hkey hskip
    exact h.published author false (fun _ => true) [path] disk .empty [] _
      (SyncState.mem_hostWith_writes.mpr (.inr ⟨path, mem_singleton_self path, hwrite⟩)) hunder
  let site : Site η := ⟨openSettings unicode hash, 0, fun _ => none, fun _ => false⟩
  let state : ApplierState η := ⟨fun _ => none, [], .new, [], .new, 0, []⟩
  let entry : Entry η := ⟨author, key, none, 0⟩
  have hops : (state.exportEntry site entry).ops = [.remove named.parts] :=
    exportEntry_openSettings hash rfl rfl rfl hkey hskip
  have hnone := (h.applied site state entry named rfl hkey hunder _
    (mem_cons_of_mem _ mem_cons_self)).1
  rw [hops] at hnone
  cases hnone

end

/-- The state directory is untouched exactly if all of it is among what never syncs. -/
theorem state_dir_untouched_iff {η : Type} [DecidableEq η] (unicode : Unicode) (hash : Bytes → η)
    (canonicalise : Path → Path) (config : WorkspaceConfig) (root : Path) :
    (∀ exclude maxFileSize rules, Untouched root (canonicalise (config.resolve root))
      (⟨⟨unicode, exclude, maxFileSize⟩, rules, hash⟩ : Settings η)) ↔
    Hidden unicode root (canonicalise (config.resolve root)) := by
  constructor
  · intro h
    exact hidden_of_untouched (h (.globs fun _ => false) none (.all .readWrite))
  · intro h exclude maxFileSize rules
    exact untouched_of_hidden h

namespace Sample

open Workspace.Sample SyncState

/-- A host keeps its state in `w/state` below its root `w`, and publishes its secret key. -/
theorem scan_publishes_secret_key :
    let config : WorkspaceConfig := ⟨some [[119], Signing.ascii ['s', 't', 'a', 't', 'e']]⟩
    let secretKey : Path := [Signing.ascii ['s', 't', 'a', 't', 'e'],
      Signing.ascii ['i', 'r', 'o', 'h', '.', 'k', 'e', 'y']]
    config.resolve [[119]] <+: [[119]] ++ secretKey ∧
    (hostWith (settings .readWrite) (endpoint 0).bytes false (fun _ => true) [secretKey]
      (Disk.set (fun _ => none) secretKey (some (.file [7]))) .empty).writes.map
        (fun w => (w.path, w.content.map Replica.Content.hash)) = [(secretKey, some [7])] := by
  decide +kernel

end Sample

end Artel.Fs
