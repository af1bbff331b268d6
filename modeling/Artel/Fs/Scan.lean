import Artel.Fs.Filter
import Artel.Fs.Rotate

namespace Artel.Fs

open Workspace

structure Settings (η : Type) where
  filter : WorkspaceFilter
  rules : CompiledPathRules
  hash : Bytes → η

/-- The regular files below the root in the order of a walk, and the links. -/
structure Tree where
  files : List (RelPath × Bytes)
  isSymlink : List Bytes → Bool

/-- What a scan does with one file; but for the last two the consumer is told. -/
inductive FileOutcome (η : Type)
  | skippedTooLarge (size : ℕ)
  | skippedExcluded
  | skippedReadOnly
  | keyFailed (reason : InvalidPath)
  | publishFailed
  | skipped
  | published (key : Bytes) (content : Replica.Content η)

section

variable {η : Type} (settings : Settings η) (isSymlink : List Bytes → Bool)

/-- The file is imported as a blob and its entry set; an empty file has no entry. -/
def publishFileStreaming (imported : Bool) (key bytes : Bytes) : FileOutcome η :=
  if h : 0 < bytes.length then
    if settings.filter.maxFileSize.any (· < bytes.length) then .skippedTooLarge bytes.length
    else if imported then .published key ⟨settings.hash bytes, bytes.length, h⟩
    else .publishFailed
  else .skipped

def scanFile (imported : Bool) (rel : RelPath) (bytes : Bytes) : FileOutcome η :=
  match settings.filter.check isSymlink rel (some bytes.length) with
  | .skip (.tooLarge size) => .skippedTooLarge size
  | .skip .excluded => .skippedExcluded
  | .skip .hardcoded | .skip .symlink => .skipped
  | .included =>
    if settings.rules.modeFor settings.filter.unicode rel = .readOnly then .skippedReadOnly
    else
      match pathToKey settings.filter.unicode rel with
      | .error reason => .keyFailed reason
      | .ok key => publishFileStreaming settings imported key bytes

def FileOutcome.entry : FileOutcome η → Option (Bytes × Replica.Content η)
  | .published key content => some (key, content)
  | .skippedTooLarge _ | .skippedExcluded | .skippedReadOnly | .keyFailed _ | .publishFailed
  | .skipped => none

variable (imports : RelPath → Bool) (tree : Tree)

def scanned : List (Bytes × Replica.Content η) :=
  tree.files.filterMap fun file =>
    (scanFile settings tree.isSymlink (imports file.1) file.1 file.2).entry

def scanAndPublishExisting (author : FixedBytes 32) (doc : Replica (FixedBytes 32) η) :
    Replica (FixedBytes 32) η :=
  (scanned settings imports tree).foldl (fun doc entry => doc.setHash author entry.1 entry.2) doc

/-- The document that a host is on after it has rotated, moved and scanned its tree. -/
def evictedDocument (fails : RotateCall → Bool) (node : HostNode)
    (old : Replica (FixedBytes 32) η) (prevEpoch : ℕ) :
    Except RotateError (Replica (FixedBytes 32) η) := do
  let outcome ← rotateNamespace fails node old prevEpoch
  return scanAndPublishExisting settings imports tree node.endpointId.bytes outcome.doc

/-- The files that sync are the latest contents that sync. -/
structure InSync (old : Replica (FixedBytes 32) η) : Prop where
  files : ∀ key content, (key, content) ∈ scanned settings (fun _ => true) tree →
    ∃ e, old.latest key = some e ∧ e.content = some content
  entries : ∀ e content, old.latest e.key = some e → e.content = some content →
    ∀ rel bytes, (scanFile settings tree.isSymlink true rel bytes).entry = some (e.key, content) →
      (e.key, content) ∈ scanned settings (fun _ => true) tree

/-- The latest of its key, dropped as a revoked peer's. -/
def DroppedAsRevoked (node : HostNode) (old : Replica (FixedBytes 32) η)
    (e : Replica.Entry (FixedBytes 32) η) : Prop :=
  old.latest e.key = some e ∧ (⟨e.author⟩ : EndpointId) ≠ node.endpointId ∧
    node.peerMap.classifyAuthor ⟨e.author⟩ = .revoked

variable {settings isSymlink imports tree} {imported : Bool} {entry : Bytes × Replica.Content η}

theorem publishFileStreaming_entry {key bytes : Bytes}
    :
    (publishFileStreaming settings imported key bytes).entry = some entry ↔
      imported = true ∧ (∀ cap, settings.filter.maxFileSize = some cap → bytes.length ≤ cap) ∧
      entry.1 = key ∧ entry.2.hash = settings.hash bytes ∧ entry.2.len = bytes.length := by
  obtain ⟨key', ⟨hash, len, hpos⟩⟩ := entry
  have hcap : settings.filter.maxFileSize.any (· < bytes.length) = false ↔
      ∀ cap, settings.filter.maxFileSize = some cap → bytes.length ≤ cap := by
    cases settings.filter.maxFileSize <;> simp
  rw [← hcap]
  unfold publishFileStreaming
  split
  · cases settings.filter.maxFileSize.any (· < bytes.length)
    · cases imported
      · simp [FileOutcome.entry]
      · simp [FileOutcome.entry, eq_comm]
    · simp [FileOutcome.entry]
  · rename_i hempty
    simp only [FileOutcome.entry, reduceCtorEq, false_iff]
    rintro ⟨-, -, -, -, hlen⟩
    exact hempty (hlen ▸ hpos)

theorem scanFile_eq_some {rel : RelPath} {bytes : Bytes}
    :
    (scanFile settings isSymlink imported rel bytes).entry = some entry ↔
      settings.filter.check isSymlink rel (some bytes.length) = .included ∧
      settings.rules.modeFor settings.filter.unicode rel ≠ .readOnly ∧
      pathToKey settings.filter.unicode rel = .ok entry.1 ∧ imported = true ∧
      entry.2.hash = settings.hash bytes ∧ entry.2.len = bytes.length := by
  unfold scanFile
  split <;> rename_i hcheck
  · simp [hcheck, FileOutcome.entry]
  · simp [hcheck, FileOutcome.entry]
  · simp [hcheck, FileOutcome.entry]
  · simp [hcheck, FileOutcome.entry]
  · have hcap : ∀ cap, settings.filter.maxFileSize = some cap → bytes.length ≤ cap :=
      fun cap hmax => (WorkspaceFilter.check_eq_included.mp hcheck).2.2.2 cap hmax _ rfl
    split
    · rename_i hmode
      simp [hmode, FileOutcome.entry]
    rename_i hmode
    split
    · rename_i reason hkey
      simp [hkey, FileOutcome.entry]
    rename_i key hkey
    rw [publishFileStreaming_entry, hkey, Except.ok.injEq]
    constructor
    · rintro ⟨himported, -, hentry, hhash, hlen⟩
      exact ⟨hcheck, hmode, hentry.symm, himported, hhash, hlen⟩
    · rintro ⟨-, -, hentry, himported, hhash, hlen⟩
      exact ⟨himported, hcap, hentry.symm, hhash, hlen⟩

theorem scanFile_entry {rel : RelPath} {bytes : Bytes}
    (h : (scanFile settings isSymlink imported rel bytes).entry = some entry) :
    (scanFile settings isSymlink true rel bytes).entry = some entry := by
  obtain ⟨hcheck, hmode, hkey, -, hcontent⟩ := scanFile_eq_some.mp h
  exact scanFile_eq_some.mpr ⟨hcheck, hmode, hkey, rfl, hcontent⟩

theorem mem_scanned
    (h : entry ∈ scanned settings imports tree) : entry ∈ scanned settings (fun _ => true) tree := by
  obtain ⟨file, hfile, hentry⟩ := List.mem_filterMap.mp h
  exact List.mem_filterMap.mpr ⟨file, hfile, scanFile_entry hentry⟩

theorem DroppedAsRevoked.latest {fails : RotateCall → Bool} {node : HostNode}
    {old : Replica (FixedBytes 32) η} {prevEpoch : ℕ} {outcome : Rotated η}
    {e : Replica.Entry (FixedBytes 32) η} (hdropped : DroppedAsRevoked node old e)
    (h : rotateNamespace fails node old prevEpoch = .ok outcome) :
    outcome.doc.latest e.key = none := by
  obtain ⟨hlatest, hhost, hrevoked⟩ := hdropped
  have hmay : node.mayWrite e.author = false := by
    rw [Bool.eq_false_iff, Ne, HostNode.mayWrite_iff]
    simp [hhost, hrevoked]
  have hfilter : (some e).filter (fun e => node.mayWrite e.author) = none := by
    simp [Option.filter, hmay]
  have hmap := rotateNamespace_latest h e.key
  rw [hlatest, hfilter] at hmap
  simpa using hmap

end

/-- Revoked content is gone exactly if the scan publishes nothing under its keys. -/
theorem revoked_content_dropped_iff {η : Type} (settings : Settings η) (imports : RelPath → Bool)
    (tree : Tree) (fails : RotateCall → Bool) (node : HostNode) (old : Replica (FixedBytes 32) η)
    (prevEpoch : ℕ) (doc : Replica (FixedBytes 32) η) (hsync : InSync settings tree old)
    (h : evictedDocument settings imports tree fails node old prevEpoch = .ok doc) :
    (∀ e content, DroppedAsRevoked node old e → e.content = some content →
      ∀ e' content', doc.latest e.key = some e' → e'.content = some content' →
        content'.hash ≠ content.hash) ↔
    ∀ e content, DroppedAsRevoked node old e → e.content = some content →
      ∀ entry ∈ scanned settings imports tree, entry.1 ≠ e.key := by
  obtain ⟨outcome, hrotated, hdoc⟩ := exists_of_bind_eq_ok h
  obtain rfl : scanAndPublishExisting settings imports tree node.endpointId.bytes outcome.doc = doc :=
    Except.ok.inj hdoc
  have htimed : outcome.doc.Timed := by
    rw [rotateNamespace_doc hrotated]
    exact Replica.Timed.empty.foldl_put _
  constructor
  · intro hgone e content hdropped hcontent entry hentry hkey
    obtain ⟨e', content', he', hcontent', hin⟩ : ∃ e' content',
        (scanAndPublishExisting settings imports tree node.endpointId.bytes outcome.doc).latest
          e.key = some e' ∧ e'.content = some content' ∧
        (e.key, content') ∈ scanned settings imports tree :=
      htimed.latest_foldl_setHash ⟨entry, hentry, hkey⟩
    -- what the scan published is the content of the dropped entry, since the tree is in sync
    obtain ⟨e₂, he₂, hcontent₂⟩ := hsync.files e.key content' (mem_scanned hin)
    obtain rfl : e = e₂ := Option.some.inj (hdropped.1.symm.trans he₂)
    obtain rfl : content = content' := Option.some.inj (hcontent.symm.trans hcontent₂)
    exact hgone e content hdropped hcontent e' content he' hcontent' rfl
  · intro hunpublished e content hdropped hcontent e' content' he'
    have hnone := hdropped.latest hrotated
    rw [scanAndPublishExisting,
      Replica.latest_foldl_setHash_of_ne (hunpublished e content hdropped hcontent), hnone] at he'
    cases he'

namespace Sample

open Artel.Sample Workspace.Sample

def settings (mode : Mode) : Settings Bytes :=
  ⟨⟨⟨fun bytes => bytes.all (· < 128), id⟩, .dotfiles, some (64 * 2 ^ 20)⟩, .all mode, id⟩

def tree : Tree := ⟨[([.normal [97]], [1])], fun _ => false⟩

def revokedEntry : Replica.Entry (FixedBytes 32) Bytes :=
  ⟨(endpoint 2).bytes, KEY_PREFIX ++ [97], some (contentOf [1] (by decide)), 0⟩

def written : Replica (FixedBytes 32) Bytes := ⟨[revokedEntry], 1⟩

theorem revokedEntry_dropped : DroppedAsRevoked hostNode written revokedEntry :=
  ⟨by decide +kernel, by decide +kernel, by decide +kernel⟩

/-- Where the rules keep the file from being published, the entry is gone. -/
theorem revoked_content_dropped_iff_readOnly :
    ∃ doc, evictedDocument (settings .readOnly) (fun _ => true) tree (fun _ => false) hostNode
      written 0 = .ok doc ∧ DroppedAsRevoked hostNode written revokedEntry ∧
      ∀ e content, DroppedAsRevoked hostNode written e → e.content = some content →
        ∀ e' content', doc.latest e.key = some e' → e'.content = some content' →
          content'.hash ≠ content.hash := by
  have hscanned : scanned (settings .readOnly) (fun _ => true) tree = [] := by decide +kernel
  have hnone : ∀ rel bytes,
      (scanFile (settings .readOnly) tree.isSymlink true rel bytes).entry = none := by
    intro rel bytes
    unfold scanFile
    split
    · rfl
    · rfl
    · rfl
    · rfl
    · simp [settings, FileOutcome.entry]
  have hsync : InSync (settings .readOnly) tree written := by
    refine ⟨fun key content hin => ?_, fun e content _ _ rel bytes hentry => ?_⟩
    · simp [hscanned] at hin
    · simp [hnone] at hentry
  have hok : (evictedDocument (settings .readOnly) (fun _ => true) tree (fun _ => false) hostNode
      written 0).toOption.isSome = true := by
    decide +kernel
  obtain ⟨doc, hdoc⟩ := Option.isSome_iff_exists.mp hok
  have h := eq_ok_of_mem_toOption hdoc
  refine ⟨doc, h, revokedEntry_dropped, ?_⟩
  refine (revoked_content_dropped_iff (settings .readOnly) (fun _ => true) tree (fun _ => false)
    hostNode written 0 doc hsync h).mpr fun e content _ _ entry hentry => ?_
  simp [hscanned] at hentry

/-- The scan publishes the file that the revoked peer wrote, now as the host's. -/
theorem scan_republishes_revoked :
    InSync (settings .readWrite) tree written ∧
    DroppedAsRevoked hostNode written revokedEntry ∧
    ∃ doc, evictedDocument (settings .readWrite) (fun _ => true) tree (fun _ => false) hostNode
      written 0 = .ok doc ∧
      (doc.latest revokedEntry.key).map Replica.Entry.content = some revokedEntry.content := by
  have hscanned : scanned (settings .readWrite) (fun _ => true) tree =
      [(revokedEntry.key, contentOf [1] (by decide))] := by
    decide +kernel
  refine ⟨⟨fun key content hin => ?_, fun e content he hcontent _ _ _ => ?_⟩, revokedEntry_dropped, ?_⟩
  · rw [hscanned, List.mem_singleton, Prod.mk.injEq] at hin
    obtain ⟨rfl, rfl⟩ := hin
    exact ⟨revokedEntry, revokedEntry_dropped.1, rfl⟩
  · obtain rfl : e = revokedEntry := List.mem_singleton.mp (Replica.mem_of_latest he).1
    obtain rfl := Option.some.inj hcontent
    rw [hscanned]
    exact List.mem_singleton_self _
  · have hdoc : ∃ doc ∈ (evictedDocument (settings .readWrite) (fun _ => true) tree
        (fun _ => false) hostNode written 0).toOption,
        (doc.latest revokedEntry.key).map Replica.Entry.content = some revokedEntry.content := by
      decide +kernel
    obtain ⟨doc, hdoc, hlatest⟩ := hdoc
    exact ⟨doc, eq_ok_of_mem_toOption hdoc, hlatest⟩

end Sample

end Artel.Fs
