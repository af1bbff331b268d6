import Artel.Fs.Apply

namespace Artel.Fs

open Function List

section

variable {η : Type} (settings : Settings η) (author : FixedBytes 32) (disk : Disk)
  (doc : Replica (FixedBytes 32) η)

/-- The path syncs both ways, and a file that is at it is within the cap. -/
structure Mirrored (path : Path) : Prop where
  included : SyncState.check settings disk path = .included
  mode : SyncState.mode settings path ≠ .readOnly

structure Published (path : Path) (key bytes : Bytes) : Prop extends
    Mirrored settings disk path where
  file : disk path = some (.file bytes)
  ne_nil : bytes ≠ []
  key : pathToKey settings.filter.unicode path.rel = .ok key

/-- The keys that the reconciliation tombstones, in ascending order. -/
def missingKeys : List Bytes :=
  (doc.latestPerKey.filter (isMissing settings disk)).map Replica.Entry.key

/-- The document without what the host wrote under keys that begin with a missing one. -/
def unpruned : Replica (FixedBytes 32) η :=
  { doc with entries := doc.entries.filter fun e =>
      ¬(e.author = author ∧ ∃ key ∈ missingKeys settings disk doc, key <+: e.key) }

/-- An entry that the reconciliation leaves as the latest of its key. -/
structure Left (e : Entry η) : Prop where
  kept : e.key ∉ missingKeys settings disk doc
  latest : (unpruned settings author disk doc).latest e.key = some e

/-- The disk has a file that is not empty, or it has no file and the entry is a tombstone. -/
def Agrees (path : Path) (e : Entry η) : Prop :=
  (∃ bytes, disk path = some (.file bytes) ∧ bytes ≠ []) ∨
    e.content = none ∧ ∀ bytes, disk path ≠ some (.file bytes)

def IsContentOf (content : Replica.Content η) (bytes : Bytes) : Prop :=
  content.hash = settings.hash bytes ∧ content.len = bytes.length

def Exact (path : Path) (e : Entry η) : Prop :=
  (∃ bytes content, disk path = some (.file bytes) ∧ e.content = some content ∧
    IsContentOf settings content bytes) ∨
    e.content = none ∧ ∀ bytes, disk path ≠ some (.file bytes)

/-- The files are as they were, and the live entries are those that are not empty. -/
structure Reproduced (disk' : Disk) (doc' : Replica (FixedBytes 32) η) : Prop where
  files : ∀ path, Mirrored settings disk path →
    ∀ bytes, disk' path = some (.file bytes) ↔ disk path = some (.file bytes)
  entries : ∀ e path content, doc'.latest e.key = some e → e.content = some content →
    keyToPath settings.filter.unicode e.key = .ok path → Mirrored settings disk path.parts →
    ∃ bytes, disk' path.parts = some (.file bytes) ∧ IsContentOf settings content bytes
  published : ∀ path bytes, Mirrored settings disk path → disk' path = some (.file bytes) →
    bytes ≠ [] → ∃ e content keyPath, doc'.latest e.key = some e ∧ e.content = some content ∧
      keyToPath settings.filter.unicode e.key = .ok keyPath ∧ keyPath.parts = path ∧
      IsContentOf settings content bytes

end

/-- A host that has come back, and whose applier has caught up with the document. -/
def caughtUp {η : Type} [DecidableEq η] (site : Site η) (tempSeq : ℕ) (host : SyncState η) :
    ApplierState η :=
  ApplierState.catchUp site ⟨host.disk, [], host.guard, [], .new, tempSeq, []⟩ host.doc

/-- The clock is past every entry, keys and names are regular, and no call fails. -/
structure Regular {η : Type} (site : Site η) (imports : RelPath → Bool) (walk : List Path)
    (disk : Disk) (doc : Replica (FixedBytes 32) η) : Prop where
  timed : doc.Timed
  keys : ∀ e ∈ doc.entries, ∀ path, keyToPath site.settings.filter.unicode e.key = .ok path →
    Clear site.settings path.parts → SyncState.mode site.settings path.parts ≠ .readOnly →
    Canonical site.settings.filter.unicode e.key path
  names : ∀ path bytes, disk path = some (.file bytes) → Mirrored site.settings disk path →
    ∃ key keyPath, keyToPath site.settings.filter.unicode key = .ok keyPath ∧
      Canonical site.settings.filter.unicode key keyPath ∧ keyPath.parts = path
  dirs : ∀ path bytes, disk path = some (.file bytes) →
    ∀ above, above <+: path → above ≠ path → above ≠ [] → disk above = some .dir
  walk : ∀ path bytes, disk path = some (.file bytes) → path ∈ walk
  imports : ∀ rel, imports rel = true
  fails : ∀ op, site.fails op = false

section

variable {η : Type} {settings : Settings η} {author : FixedBytes 32} {disk : Disk}
  {doc : Replica (FixedBytes 32) η} {key : Bytes} {path : KeyPath} {e : Entry η}

theorem reconcileDocAgainstDisk_foldl_del :
    reconcileDocAgainstDisk settings author disk doc =
      (missingKeys settings disk doc).foldl (fun doc key => doc.del author key) doc := by
  rw [missingKeys, foldl_map, foldl_filter]
  rfl

theorem missingKeys_ascending (doc : Replica (FixedBytes 32) η) :
    (missingKeys settings disk doc).Pairwise (· < ·) :=
  pairwise_map.mpr (doc.latestPerKey_ascending.filter _)

theorem mem_missingKeys : key ∈ missingKeys settings disk doc ↔
    ∃ e, doc.latest e.key = some e ∧ isMissing settings disk e = true ∧ e.key = key := by
  simp [missingKeys, Replica.mem_latestPerKey, and_assoc]

theorem latest_reconcile_of_not_mem (h : key ∉ missingKeys settings disk doc) :
    (reconcileDocAgainstDisk settings author disk doc).latest key =
      (unpruned settings author disk doc).latest key := by
  rw [reconcileDocAgainstDisk_foldl_del, Replica.latest_foldl_del h, Replica.latest, unpruned]
  congr 1
  rw [filter_filter, filter_filter]
  exact filter_congr fun e _ => Bool.and_comm ..

theorem latest_reconcile_of_mem (htimed : doc.Timed) (h : key ∈ missingKeys settings disk doc) :
    ∃ e, (reconcileDocAgainstDisk settings author disk doc).latest key = some e ∧
      e.content = none := by
  rw [reconcileDocAgainstDisk_foldl_del]
  exact htimed.latest_foldl_del (missingKeys_ascending doc) h

theorem reconcile_timed (htimed : doc.Timed) :
    (reconcileDocAgainstDisk settings author disk doc).Timed := by
  rw [reconcileDocAgainstDisk_foldl_del]
  have hput : (((missingKeys settings disk doc).map fun key => (key, none)).foldl
      (fun doc p => doc.put author p.1 p.2) doc).Timed := htimed.foldl_put _
  rwa [foldl_map] at hput

theorem Left.mem (h : Left settings author disk doc e) : e ∈ doc.entries :=
  (mem_filter.mp (Replica.mem_of_latest h.latest).1).1

theorem none_of_isMissing (hpath : keyToPath settings.filter.unicode e.key = .ok path)
    (hasDir : path.asDir = false) (h : isMissing settings disk e = true) :
    disk path.parts = none := by
  simp only [isMissing, hpath, Except.toOption, Option.any_some, Bool.and_eq_true,
    Bool.not_eq_true', KeyPath.tryExists, hasDir, Bool.false_eq_true, if_false] at h
  simpa using h.2.2

theorem Mirrored.clear {path : Path} (h : Mirrored settings disk path) : Clear settings path :=
  clear_of_check h.included

section

variable {site : Site η} {imports : RelPath → Bool} {walk : List Path}

theorem Regular.mem_scanned (hregular : Regular site imports walk disk doc)
    {content : Replica.Content η} :
    (key, content) ∈ scanned site.settings imports (disk.tree walk) ↔
      ∃ path bytes, Published site.settings disk path key bytes ∧
        IsContentOf site.settings content bytes := by
  constructor
  · intro h
    obtain ⟨file, hfile, hentry⟩ := mem_filterMap.mp h
    obtain ⟨path, -, hitem⟩ := mem_filterMap.mp hfile
    split at hitem
    · rename_i bytes hbytes
      obtain rfl := Option.some.inj hitem
      obtain ⟨hcheck, hmode, hkey, -, hcontent⟩ := scanFile_eq_some.mp hentry
      refine ⟨path, bytes, ⟨⟨?_, hmode⟩, hbytes, ?_, hkey⟩, hcontent⟩
      · have hsize : disk.fileSize path = some bytes.length := by simp [Disk.fileSize, hbytes]
        rw [SyncState.check, hsize]
        exact hcheck
      · intro hnil
        rw [hnil] at hcontent
        exact content.pos.ne' hcontent.2
    · cases hitem
    · cases hitem
    · cases hitem
  · rintro ⟨path, bytes, hpublished, hcontent⟩
    have hfile : (path.rel, bytes) ∈ (disk.tree walk).files := by
      refine mem_filterMap.mpr ⟨path, hregular.walk path bytes hpublished.file, ?_⟩
      simp only [hpublished.file]
    have hcheck := hpublished.included
    simp only [SyncState.check, Disk.fileSize, hpublished.file] at hcheck
    refine mem_filterMap.mpr ⟨(path.rel, bytes), hfile, ?_⟩
    exact scanFile_eq_some.mpr
      ⟨hcheck, hpublished.mode, hpublished.key, hregular.imports _, hcontent⟩

theorem Regular.published_path (hregular : Regular site imports walk disk doc) {file : Path}
    {bytes : Bytes} (h : Published site.settings disk file key bytes) :
    ∃ path : KeyPath, keyToPath site.settings.filter.unicode key = .ok path ∧
      Canonical site.settings.filter.unicode key path ∧ path.parts = file := by
  obtain ⟨key', path, hpath, hcanonical, hparts⟩ :=
    hregular.names file bytes h.file h.toMirrored
  have hkey := hcanonical.2
  rw [hparts, h.key] at hkey
  obtain rfl := Except.ok.inj hkey
  exact ⟨path, hpath, hcanonical, hparts⟩

/-- What the latest entries of a host that has come back are. -/
inductive Stands (settings : Settings η) (author : FixedBytes 32) (disk : Disk)
    (doc : Replica (FixedBytes 32) η) (e : Entry η) : Prop
  | published (file : Path) (bytes : Bytes) (content : Replica.Content η)
      (hpublished : Published settings disk file e.key bytes) (hsome : e.content = some content)
      (hcontent : IsContentOf settings content bytes)
  | removed (hmissing : e.key ∈ missingKeys settings disk doc) (hnone : e.content = none)
  | left (hleft : Left settings author disk doc e)
      (hnew : ∀ file bytes, ¬Published settings disk file e.key bytes)

section

variable (hregular : Regular site imports walk disk doc)
include hregular

theorem latest_host_of_not_published
    (h : ∀ file bytes, ¬Published site.settings disk file key bytes) :
    (SyncState.hostWith site.settings author true imports walk disk doc).doc.latest key =
      (reconcileDocAgainstDisk site.settings author disk doc).latest key := by
  refine Replica.latest_foldl_setHash_of_ne fun p hp hkey => ?_
  obtain ⟨file, bytes, hpublished, -⟩ := hregular.mem_scanned.mp (show (p.1, p.2) ∈ _ from hp)
  exact h file bytes (hkey ▸ hpublished)

theorem latest_host_of_published {file : Path}
    {bytes : Bytes} (h : Published site.settings disk file key bytes) :
    ∃ e content, (SyncState.hostWith site.settings author true imports walk disk doc).doc.latest
        key = some e ∧ e.content = some content ∧ IsContentOf site.settings content bytes := by
  have htimed : (reconcileDocAgainstDisk site.settings author disk doc).Timed :=
    reconcile_timed hregular.timed
  have hpos : 0 < bytes.length := length_pos_iff.mpr h.ne_nil
  have hin : (key, ⟨site.settings.hash bytes, bytes.length, hpos⟩) ∈
      scanned site.settings imports (disk.tree walk) :=
    hregular.mem_scanned.mpr ⟨file, bytes, h, rfl, rfl⟩
  obtain ⟨e, content, he, hsome, hcontent⟩ := htimed.latest_foldl_setHash ⟨_, hin, rfl⟩
  obtain ⟨file', bytes', h', hcontent⟩ := hregular.mem_scanned.mp hcontent
  -- two files that are published under one key are one file
  obtain ⟨path, hpath, -, rfl⟩ := hregular.published_path h
  obtain ⟨path', hpath', -, rfl⟩ := hregular.published_path h'
  obtain rfl : path = path' := Except.ok.inj (hpath.symm.trans hpath')
  obtain rfl : bytes = bytes' := by simpa using h.file.symm.trans h'.file
  exact ⟨e, content, he, hsome, hcontent⟩

theorem stands_of_latest
    (h : (SyncState.hostWith site.settings author true imports walk disk doc).doc.latest e.key =
      some e) : Stands site.settings author disk doc e := by
  by_cases hnew : ∃ file bytes, Published site.settings disk file e.key bytes
  · obtain ⟨file, bytes, hpublished⟩ := hnew
    obtain ⟨e', content, he', hsome, hcontent⟩ := latest_host_of_published hregular hpublished
    obtain rfl : e = e' := Option.some.inj (h.symm.trans he')
    exact .published file bytes content hpublished hsome hcontent
  have hnone : ∀ file bytes, ¬Published site.settings disk file e.key bytes :=
    fun file bytes hpublished => hnew ⟨file, bytes, hpublished⟩
  rw [latest_host_of_not_published hregular hnone] at h
  by_cases hmissing : e.key ∈ missingKeys site.settings disk doc
  · obtain ⟨e', he', hcontent⟩ := latest_reconcile_of_mem hregular.timed hmissing
    obtain rfl : e = e' := Option.some.inj (h.symm.trans he')
    exact .removed hmissing hcontent
  · rw [latest_reconcile_of_not_mem hmissing] at h
    exact .left ⟨hmissing, h⟩ hnone

theorem Stands.canonical
    (h : Stands site.settings author disk doc e)
    (hpath : keyToPath site.settings.filter.unicode e.key = .ok path)
    (hclear : Clear site.settings path.parts)
    (hmode : SyncState.mode site.settings path.parts ≠ .readOnly) :
    Canonical site.settings.filter.unicode e.key path := by
  cases h with
  | published file bytes content hpublished =>
    obtain ⟨path', hpath', hcanonical, -⟩ := hregular.published_path hpublished
    obtain rfl : path = path' := Except.ok.inj (hpath.symm.trans hpath')
    exact hcanonical
  | removed hmissing =>
    obtain ⟨m, hm, -, hkey⟩ := mem_missingKeys.mp hmissing
    rw [← hkey] at hpath ⊢
    exact hregular.keys m (Replica.mem_of_latest hm).1 path hpath hclear hmode
  | left hleft => exact hregular.keys e hleft.mem path hpath hclear hmode

theorem Published.of_file {file : Path}
    {bytes : Bytes} (hmirrored : Mirrored site.settings disk file)
    (hfile : disk file = some (.file bytes)) (hne : bytes ≠ []) :
    ∃ key, Published site.settings disk file key bytes := by
  obtain ⟨key, path, -, hcanonical, rfl⟩ := hregular.names file bytes hfile hmirrored
  exact ⟨key, hmirrored, hfile, hne, hcanonical.2⟩

theorem Stands.exact
    (hleft : ∀ e path, Left site.settings author disk doc e →
      keyToPath site.settings.filter.unicode e.key = .ok path →
      Mirrored site.settings disk path.parts → Agrees disk path.parts e)
    (h : Stands site.settings author disk doc e)
    (hpath : keyToPath site.settings.filter.unicode e.key = .ok path)
    (hmirrored : Mirrored site.settings disk path.parts) :
    Exact site.settings disk path.parts e := by
  have hcanonical := h.canonical hregular hpath hmirrored.clear hmirrored.mode
  cases h with
  | published file bytes content hpublished hsome hcontent =>
    obtain ⟨path', hpath', -, rfl⟩ := hregular.published_path hpublished
    obtain rfl : path = path' := Except.ok.inj (hpath.symm.trans hpath')
    exact .inl ⟨bytes, content, hpublished.file, hsome, hcontent⟩
  | removed hmissing hnone =>
    obtain ⟨m, -, hm, hkey⟩ := mem_missingKeys.mp hmissing
    have habsent : disk path.parts = none := none_of_isMissing (hkey ▸ hpath) hcanonical.1 hm
    exact .inr ⟨hnone, by simp [habsent]⟩
  | left h hnew =>
    obtain ⟨bytes, hfile, hne⟩ | hgone := hleft e path h hpath hmirrored
    · exact absurd ⟨hmirrored, hfile, hne, hcanonical.2⟩ (hnew path.parts bytes)
    · exact .inr hgone

end

end

section

variable {site : Site η} {state : ApplierState η}

theorem mirrored_of_incomingSkip {len : ℕ} (hasDir : path.asDir = false)
    (h : incomingSkip settings disk path len = none) : Mirrored settings disk path.parts := by
  obtain ⟨hcheck, -, hmode⟩ := incomingSkip_eq_none.mp h
  refine ⟨?_, hmode⟩
  simpa [SyncState.check, KeyPath.check, KeyPath.size, hasDir] using hcheck

theorem applyTombstone_of_not_file (hfile : ∀ bytes, state.disk path.parts ≠ some (.file bytes))
    (hlink : state.disk path.parts ≠ some .symlink) :
    (state.applyTombstone site path).disk = state.disk := by
  have hperform : (FsOp.remove path.parts).perform state.disk = none := by
    simp only [FsOp.perform]
    split
    · rename_i bytes h
      exact absurd h (hfile bytes)
    · rename_i h
      exact absurd h hlink
    · rfl
    · rfl
  unfold ApplierState.applyTombstone EchoGuard.markRemoteDelete
  cases state.guard.deleteMark path.parts with
  | duplicate => rfl
  | fresh => simp [ApplierState.unlink, ApplierState.emit, ApplierState.attempt, hperform]

theorem catchUpEntry_disk [DecidableEq η]
    (h : ∀ path, keyToPath site.settings.filter.unicode e.key = .ok path →
      incomingSkip site.settings state.disk path (contentLen e) = none →
      path.asDir = false ∧ Exact site.settings state.disk path.parts e) :
    (state.catchUpEntry site e).disk = state.disk := by
  unfold ApplierState.catchUpEntry
  split
  · rfl
  rename_i path hpath
  split
  · rfl
  rename_i hdiffers
  cases hskip : incomingSkip site.settings state.disk path (contentLen e) with
  | some events => simp [ApplierState.handleEntry, hpath, hskip, ApplierState.emit,
      ApplierState.supersede]
  | none =>
    obtain ⟨hasDir, ⟨bytes, content, hfile, hsome, hcontent⟩ | ⟨hnone, hfile⟩⟩ :=
      h path hpath hskip
    · have hmatches : ApplierState.diskMatches state.disk path e = true := by
        simp [ApplierState.diskMatches, hsome, KeyPath.size, hasDir, Disk.fileSize, hfile,
          hcontent.2]
      exact absurd hmatches hdiffers
    · have hlink := (inside_of_incomingSkip hskip).noLink path.parts prefix_rfl path.ne_nil
      simp only [ApplierState.handleEntry, hpath, hskip, hnone]
      exact applyTombstone_of_not_file hfile hlink

theorem guard_attempt {fails ok : Bool} {op : FsOp} {state' : ApplierState η}
    (h : state.attempt fails op = (ok, state')) : state'.guard = state.guard := by
  obtain ⟨disk, ops, hrest⟩ := state.attempt_rest fails op
  rw [h] at hrest
  exact congrArg (·.guard) hrest

theorem guard_removeTemp (temp : Path) : (state.removeTemp site temp).guard = state.guard :=
  guard_attempt rfl

theorem applyEntryStreaming_peerDeleted {hash : η} {other : Path} (hne : other ≠ path.parts) :
    (state.applyEntryStreaming site hash path).2.guard.peerDeleted other =
      state.guard.peerDeleted other := by
  obtain ⟨disk, ops, hmade⟩ := state.createDirAll_rest site [] path.parts.dropLast
  have hmarked : ∀ guard : EchoGuard η,
      (guard.markRemoteWrite path.parts hash).peerDeleted other = guard.peerDeleted other :=
    fun guard => update_of_ne hne ..
  simp only [ApplierState.applyEntryStreaming, hmade]
  split
  · rfl
  split
  · rename_i failed hfailed
    rw [guard_removeTemp, guard_attempt hfailed]
  rename_i written hwritten
  split
  · rename_i applied happlied
    rw [guard_attempt happlied, hmarked, guard_attempt hwritten]
  · rename_i failed hfailed
    have hunmarked : (failed.guard.unmarkRemoteWrite path.parts).peerDeleted =
        failed.guard.peerDeleted := rfl
    rw [guard_removeTemp, hunmarked, guard_attempt hfailed, hmarked, guard_attempt hwritten]

/-- What the applier does elsewhere leaves of a path: it may come to be a directory. -/
structure Passes (other : Path) (state state' : ApplierState η) : Prop where
  self : state'.disk other = state.disk other ∨
    state.disk other = none ∧ state'.disk other = some .dir
  dirs : ∀ dir, state.disk dir = some .dir → state'.disk dir = some .dir
  mark : state'.guard.peerDeleted other = state.guard.peerDeleted other

theorem Passes.refl (other : Path) (state : ApplierState η) : Passes other state state :=
  ⟨.inl rfl, fun _ hdir => hdir, rfl⟩

theorem Passes.trans {other : Path} {state' state'' : ApplierState η} (h : Passes other state state')
    (h' : Passes other state' state'') : Passes other state state'' where
  self := by
    obtain hsame | ⟨hnone, hdir⟩ := h.self
    · rw [← hsame]
      exact h'.self
    · exact .inr ⟨hnone, h'.dirs other hdir⟩
  dirs dir hdir := h'.dirs dir (h.dirs dir hdir)
  mark := h'.mark.trans h.mark

section

variable [DecidableEq η] {other : Path}

theorem handleEntry_peerDeleted
    (hother : ∀ path, keyToPath site.settings.filter.unicode e.key = .ok path →
      incomingSkip site.settings state.disk path (contentLen e) = none → other ≠ path.parts) :
    (state.handleEntry site e).2.guard.peerDeleted other = state.guard.peerDeleted other := by
  unfold ApplierState.handleEntry
  split
  · rfl
  rename_i path hpath
  split
  · rfl
  rename_i hskip
  have hne := hother path hpath hskip
  split
  · dsimp only
    rw [ApplierState.applyTombstone_guard]
    exact update_of_ne hne ..
  · rename_i content hcontent
    have hmark : (state.applyEntryStreaming site content.hash path).2.guard.peerDeleted other =
        state.guard.peerDeleted other := applyEntryStreaming_peerDeleted hne
    split <;> rename_i heq <;> rw [heq] at hmark <;> exact hmark

theorem catchUpEntry_passes
    (hother : ∀ path, keyToPath site.settings.filter.unicode e.key = .ok path →
      incomingSkip site.settings state.disk path (contentLen e) = none → other ≠ path.parts)
    (htemp : ∀ seq path, other ≠ applyTempPath site.processId seq path) :
    Passes other state (state.catchUpEntry site e) := by
  unfold ApplierState.catchUpEntry
  split
  · exact .refl other state
  split
  · exact .refl other state
  have hmark := handleEntry_peerDeleted hother
  cases state.handleEntry_handles site e with
  | refused hops hdisk hskip | waits path content hpath hcontent hblob hops hdisk =>
    exact ⟨.inl (by rw [hdisk]), fun dir hdir => by rw [hdisk, hdir], hmark⟩
  | removed path calls hpath hskip hcontent hcalls h =>
    have hne := hother path hpath hskip
    exact ⟨(h.frame other hne hne).imp_right fun hmade => hmade.2.2, h.dirs, hmark⟩
  | exported path content bytes dirs rest hpath hskip hcontent hblob h =>
    have hne := hother path hpath hskip
    exact ⟨(h.frame other hne (htemp _ _)).imp_right fun hmade => hmade.2.2, h.dirs, hmark⟩

theorem foldl_passes {entries : List (Entry η)}
    (h : ∀ e ∈ entries, ∀ state, Passes other state (state.catchUpEntry site e)) :
    Passes other state (entries.foldl (fun state e => state.catchUpEntry site e) state) :=
  List.foldlRecOn (motive := Passes other state) entries _ (.refl other state)
    fun _ hpasses e he => hpasses.trans (h e he _)

theorem catchUpEntry_removes (hfails : ∀ op, site.fails op = false)
    (hpath : keyToPath site.settings.filter.unicode e.key = .ok path) (hasDir : path.asDir = false)
    (hclear : Clear site.settings path.parts)
    (hmode : SyncState.mode site.settings path.parts ≠ .readOnly) (hnone : e.content = none)
    (hempty : state.disk path.parts = some (.file []))
    (hdirs : ∀ above, above <+: path.parts → above ≠ path.parts → above ≠ [] →
      state.disk above = some .dir)
    (hmark : state.guard.peerDeleted path.parts = false) :
    (state.catchUpEntry site e).disk path.parts = none := by
  have hdiffers : ApplierState.diskMatches state.disk path e = false := by
    simp [ApplierState.diskMatches, hnone, hempty]
  have hskip : incomingSkip site.settings state.disk path (contentLen e) = none := by
    refine incomingSkip_eq_none.mpr ⟨?_, ?_, hmode⟩
    · refine WorkspaceFilter.check_eq_included.mpr ⟨hclear.hardcoded, ?_, hclear.excluded, ?_⟩
      · refine hasSymlinkInPath_rel.mpr fun above habove hne => ?_
        by_cases hself : above = path.parts
        · simp [Disk.isSymlink, hself, hempty]
        · simp [Disk.isSymlink, hdirs above habove hself hne]
      · intro cap _ n hn
        simp only [KeyPath.size, hasDir, Disk.fileSize, hempty, Bool.false_eq_true, if_false,
          length_nil, Option.some.injEq] at hn
        omega
    · intro cap _
      simp [contentLen, hnone]
  have hgone : ((state.supersede path.parts none).applyTombstone site path).disk =
      state.disk.set path.parts none :=
    ApplierState.applyTombstone_disk hfails hasDir (.inr ⟨[], hempty⟩) fun hdeleted =>
      absurd (hmark.symm.trans hdeleted) Bool.false_ne_true
  simp only [ApplierState.catchUpEntry, hpath, hdiffers, Bool.false_eq_true, if_false,
    ApplierState.handleEntry, hskip, hnone]
  rw [hgone, Disk.set_self]

theorem catchUp_removes {doc : Replica (FixedBytes 32) η}
    (hkeys : ∀ x path, doc.latest x.key = some x →
      keyToPath site.settings.filter.unicode x.key = .ok path → Clear site.settings path.parts →
      SyncState.mode site.settings path.parts ≠ .readOnly →
      Canonical site.settings.filter.unicode x.key path)
    (hfails : ∀ op, site.fails op = false) (he : doc.latest e.key = some e)
    (hnone : e.content = none) (hpath : keyToPath site.settings.filter.unicode e.key = .ok path)
    (hclear : Clear site.settings path.parts)
    (hmode : SyncState.mode site.settings path.parts ≠ .readOnly)
    (hempty : state.disk path.parts = some (.file []))
    (hdirs : ∀ above, above <+: path.parts → above ≠ path.parts → above ≠ [] →
      state.disk above = some .dir)
    (hmark : state.guard.peerDeleted path.parts = false) (bytes : Bytes) :
    (state.catchUp site doc).disk path.parts ≠ some (.file bytes) := by
  have hcanonical := hkeys e path he hpath hclear hmode
  have htemp : ∀ seq other, path.parts ≠ applyTempPath site.processId seq other :=
    fun seq other heq => temp_not_above hclear hcanonical site.processId seq other
      (heq ▸ prefix_rfl)
  -- an entry of another key is of another path
  have hother : ∀ x ∈ doc.latestPerKey, x.key ≠ e.key → ∀ state : ApplierState η,
      Passes path.parts state (state.catchUpEntry site x) := by
    intro x hx hne state
    refine catchUpEntry_passes (fun path' hpath' hskip heq => hne ?_) htemp
    obtain ⟨hcheck, -, hmode'⟩ := incomingSkip_eq_none.mp hskip
    have hcanonical' := hkeys x path' (Replica.mem_latestPerKey.mp hx) hpath'
      (clear_of_check hcheck) hmode'
    exact hcanonical'.inj hcanonical heq.symm
  have hascending := doc.latestPerKey_ascending
  obtain ⟨before, after, hsplit⟩ := append_of_mem (Replica.mem_latestPerKey.mpr he)
  rw [hsplit] at hother hascending
  obtain ⟨-, hafter, hbefore⟩ := pairwise_append.mp hascending
  have hpre : Passes path.parts state
      (before.foldl (fun state x => state.catchUpEntry site x) state) := by
    refine foldl_passes fun x hx => hother x (mem_append_left _ hx) fun heq => ?_
    exact List.lt_irrefl _ (heq ▸ hbefore x hx e List.mem_cons_self)
  have hpost : ∀ state : ApplierState η, Passes path.parts state
      (after.foldl (fun state x => state.catchUpEntry site x) state) := by
    intro state
    refine foldl_passes fun x hx => hother x ?_ fun heq => ?_
    · exact mem_append_right _ (mem_cons_of_mem e hx)
    · exact List.lt_irrefl _ (heq ▸ (List.pairwise_cons.mp hafter).1 x hx)
  rw [ApplierState.catchUp, hsplit, foldl_append, foldl_cons]
  generalize before.foldl (fun state x => state.catchUpEntry site x) state = reached at hpre ⊢
  have hthere : reached.disk path.parts = some (.file []) := by
    obtain hsame | ⟨habsent, -⟩ := hpre.self
    · rw [hsame, hempty]
    · simp [hempty] at habsent
  have hgone := catchUpEntry_removes hfails hpath hcanonical.1 hclear hmode hnone hthere
    (fun above habove hne hnil => hpre.dirs above (hdirs above habove hne hnil))
    (hpre.mark.trans hmark)
  obtain hsame | ⟨-, hdir⟩ := (hpost (reached.catchUpEntry site e)).self
  · simp [hsame, hgone]
  · simp [hdir]

end

end

theorem peerDeleted_foldl_record {guard : EchoGuard η} {file : Path}
    (h : guard.peerDeleted file = false) (ws : List (Write η)) :
    (ws.foldl Write.record guard).peerDeleted file = false := by
  refine List.foldlRecOn (motive := fun guard : EchoGuard η => guard.peerDeleted file = false)
    ws _ h ?_
  intro guard hguard w _
  unfold Write.record
  split
  · by_cases hfile : file = w.path
    · subst hfile
      exact update_self ..
    · exact (update_of_ne hfile ..).trans hguard
  · exact hguard

section

variable [DecidableEq η] {site : Site η} {imports : RelPath → Bool} {walk : List Path} {tempSeq : ℕ}

theorem caughtUp_disk (hregular : Regular site imports walk disk doc)
    (hleft : ∀ e path, Left site.settings author disk doc e →
      keyToPath site.settings.filter.unicode e.key = .ok path →
      Mirrored site.settings disk path.parts → Agrees disk path.parts e) :
    (caughtUp site tempSeq (.hostWith site.settings author true imports walk disk doc)).disk =
      disk := by
  refine List.foldlRecOn (motive := fun state : ApplierState η => state.disk = disk) _ _ rfl ?_
  intro state hstate e he
  have hstands := stands_of_latest hregular (Replica.mem_latestPerKey.mp he)
  refine (catchUpEntry_disk fun path hpath hskip => ?_).trans hstate
  obtain ⟨hcheck, -, hmode⟩ := incomingSkip_eq_none.mp hskip
  have hcanonical := hstands.canonical hregular hpath (clear_of_check hcheck) hmode
  have hmirrored := mirrored_of_incomingSkip hcanonical.1 hskip
  rw [hstate] at hmirrored ⊢
  exact ⟨hcanonical.1, hstands.exact hregular hleft hpath hmirrored⟩

end

end

namespace Sample

open Workspace.Sample

def edited : Disk := fun path => if path = [[97]] then some (.file [2]) else none

theorem edited_eq_file {path : Path} {bytes : Bytes} (h : edited path = some (.file bytes)) :
    path = [[97]] := by
  by_contra hne
  simp [edited, hne] at h

theorem keyToPath_name {name : Bytes} (hname : name ∈ [[97], [98]]) :
    ∃ path, keyToPath site.settings.filter.unicode (KEY_PREFIX ++ name) = .ok path ∧
      Canonical site.settings.filter.unicode (KEY_PREFIX ++ name) path ∧ path.parts = [name] := by
  have hnames : ∀ name ∈ [[97], [98]],
      ∃ path ∈ (keyToPath site.settings.filter.unicode (KEY_PREFIX ++ name)).toOption,
        path.asDir = false ∧ path.parts = [name] ∧
        pathToKey site.settings.filter.unicode path.parts.rel = .ok (KEY_PREFIX ++ name) := by
    decide +kernel
  obtain ⟨path, hpath, hasDir, hparts, hkey⟩ := hnames name hname
  exact ⟨path, eq_ok_of_mem_toOption hpath, ⟨hasDir, hkey⟩, hparts⟩

theorem regular_edited : Regular site (fun _ => true) [[[97]]] edited twoFiles := by
  have hname : ∀ e ∈ twoFiles.entries, ∃ name ∈ [[97], [98]], e.key = KEY_PREFIX ++ name := by
    decide +kernel
  have htimed : ∀ e ∈ twoFiles.entries, e.timestamp < twoFiles.clock := by decide +kernel
  refine ⟨htimed, ?_, ?_, ?_, ?_, fun _ => rfl, fun _ => rfl⟩
  · intro e he path hpath _ _
    obtain ⟨name, hin, hkey⟩ := hname e he
    obtain ⟨path', hpath', hcanonical, -⟩ := keyToPath_name hin
    rw [hkey] at hpath ⊢
    obtain rfl : path = path' := Except.ok.inj (hpath.symm.trans hpath')
    exact hcanonical
  · intro path bytes hfile _
    obtain rfl := edited_eq_file hfile
    obtain ⟨path, hpath, hcanonical, hparts⟩ := keyToPath_name mem_cons_self
    exact ⟨KEY_PREFIX ++ [97], path, hpath, hcanonical, hparts⟩
  · intro path bytes hfile above habove hne hnil
    obtain rfl := edited_eq_file hfile
    have hroot : above = [] ++ [[97]] ∨ above <+: [] := prefix_concat_iff.mp habove
    exact absurd (prefix_nil.mp (hroot.resolve_left hne)) hnil
  · intro path bytes hfile
    exact mem_singleton.mpr (edited_eq_file hfile)

end Sample

end Artel.Fs
