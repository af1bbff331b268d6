import Artel.Fs.Containment
import Artel.Fs.Host

namespace Artel.Fs

open Function List

/-- The tree with a directory at each place from the root down to the path. -/
def Disk.withDirs (disk : Disk) (path : Path) : Disk := fun other =>
  if other <+: path ∧ other ≠ [] then some .dir else disk other

/-- A file can be put at the path: nothing is in the way. -/
structure Free {η : Type} (settings : Settings η) (processId : ℕ) (disk : Disk) (path : Path) :
    Prop where
  above : ∀ dir, dir <+: path → dir ≠ path → dir ≠ [] → disk dir = none ∨ disk dir = some .dir
  self : disk path = none ∨ ∃ bytes, disk path = some (.file bytes) ∧
    ∀ cap, settings.filter.maxFileSize = some cap → bytes.length ≤ cap
  temp : ∀ seq, disk (applyTempPath processId seq path) = none

theorem Disk.withDirs_of_dirs {disk : Disk} {path : Path}
    (h : ∀ dir, dir <+: path → dir ≠ [] → disk dir = some .dir) : disk.withDirs path = disk := by
  funext other
  unfold Disk.withDirs
  split
  · rename_i hother
    exact (h other hother.1 hother.2).symm
  · rfl

theorem not_prefix_dropLast {path : Path} (h : path ≠ []) : ¬path <+: path.dropLast := by
  intro hbegins
  have hle := hbegins.length_le
  have hpos := length_pos_iff.mpr h
  rw [length_dropLast] at hle
  omega

theorem applyTempPath_ne (processId seq : ℕ) {path : Path} (h : path ≠ []) :
    applyTempPath processId seq path ≠ path := by
  intro heq
  have hlast := congrArg List.getLast? heq
  rw [applyTempPath, getLast?_concat, ← dropLast_append_getLast h,
    getLast?_concat] at hlast
  have hlen := congrArg List.length (Option.some.inj hlast)
  simp [getLastD_eq_getLast?, Signing.ascii] at hlen
  omega

theorem temp_not_above {η : Type} {settings : Settings η} {key : Bytes} {path : KeyPath}
    (hclear : Clear settings path.parts) (hcanonical : Canonical settings.filter.unicode key path)
    (processId seq : ℕ) (other : Path) : ¬applyTempPath processId seq other <+: path.parts := by
  intro hbegins
  have hin : (applyTempPath processId seq other).getLastD [] ∈ path.parts := by
    refine hbegins.subset ?_
    simp [applyTempPath]
  have htmp : (Signing.ascii ['.', 't', 'm', 'p']).isSuffixOf
      ((applyTempPath processId seq other).getLastD []) = true := by
    rw [isSuffixOf_iff_suffix, applyTempPath, getLastD_concat]
    exact suffix_append _ _
  have hutf8 := hcanonical.isUtf8 _ hin
  have hskip : isHardcodedSkip settings.filter.unicode path.parts.rel = true := by
    simp only [isHardcodedSkip, Path.rel, any_map, any_eq_true]
    refine ⟨_, hin, ?_⟩
    simp only [comp, Component.asOsStr, hutf8, htmp, Bool.or_true, Bool.and_true]
  rw [hclear.hardcoded] at hskip
  cases hskip

theorem FsOp.perform_rename {disk : Disk} {source target : Path} {bytes : Bytes}
    (hne : source ≠ target) (hsource : disk source = none)
    (htarget : disk target = none ∨ ∃ old, disk target = some (.file old)) :
    (FsOp.rename source target).perform (disk.set source (some (.file bytes))) =
      some (disk.set target (some (.file bytes))) := by
  have hmoved : ((disk.set source (some (.file bytes))).set source none).set target
      (some (.file bytes)) = disk.set target (some (.file bytes)) := by
    funext other
    by_cases hother : other = target
    · simp [hother]
    · rw [Disk.set_of_ne hother, Disk.set_of_ne hother]
      by_cases hfrom : other = source
      · simp [hfrom, hsource]
      · rw [Disk.set_of_ne hfrom, Disk.set_of_ne hfrom]
  have hthere : disk.set source (some (.file bytes)) target = disk target :=
    Disk.set_of_ne hne.symm
  obtain h | ⟨old, h⟩ := htarget <;> simp only [FsOp.perform, Disk.set_self, hthere, h, hmoved]

namespace ApplierState

variable {η : Type} {site : Site η} {state : ApplierState η}

theorem attempt_eq (state : ApplierState η) {fails : Bool} {op : FsOp} {disk : Disk}
    (hfails : fails = false)
    (h : op.perform state.disk = some disk) :
    state.attempt fails op = (true, { state with disk, ops := state.ops ++ [op] }) := by
  simp [attempt, hfails, h]

theorem createDirAll_eq (hfails : ∀ op, site.fails op = false) {above : Path} {names : List Bytes}
    (habove : ∀ dir, dir <+: above → dir ≠ [] → state.disk dir = some .dir)
    (hfree : ∀ dir, dir <+: above ++ names → dir ≠ [] →
      state.disk dir = none ∨ state.disk dir = some .dir) :
    ∃ ops, createDirAll site above names state =
      { state with disk := state.disk.withDirs (above ++ names), ops } := by
  induction names generalizing above state with
  | nil =>
    rw [append_nil, Disk.withDirs_of_dirs habove]
    exact ⟨state.ops, rfl⟩
  | cons name names ih =>
    have hpath : above ++ name :: names = above ++ [name] ++ names := by simp
    rw [hpath] at hfree ⊢
    have hdir : above ++ [name] <+: above ++ [name] ++ names := prefix_append _ _
    have hne : above ++ [name] ≠ [] := by simp
    rw [createDirAll]
    split
    · rename_i hisDir
      refine ih (fun dir hbegins hdirne => ?_) hfree
      obtain rfl | h := prefix_concat_iff.mp hbegins
      · simpa [Disk.isDir] using hisDir
      · exact habove dir h hdirne
    · rename_i hnotDir
      have hnone : state.disk (above ++ [name]) = none := by
        refine (hfree _ hdir hne).resolve_right fun h => hnotDir ?_
        simp [Disk.isDir, h]
      have hparent : state.disk.isDir above = true := by
        by_cases h : above = []
        · simp [Disk.isDir, h]
        · simp [Disk.isDir, habove above prefix_rfl h]
      have hperform : (FsOp.createDir (above ++ [name])).perform state.disk =
          some (state.disk.set (above ++ [name]) (some .dir)) := by
        simp [FsOp.perform, hparent, hnone]
      let made : ApplierState η :=
        { state with
          disk := state.disk.set (above ++ [name]) (some .dir)
          ops := state.ops ++ [.createDir (above ++ [name])] }
      have hset : ∀ dir, made.disk dir = some .dir ∨ made.disk dir = state.disk dir := by
        intro dir
        by_cases h : dir = above ++ [name]
        · exact .inl (h ▸ Disk.set_self)
        · exact .inr (Disk.set_of_ne h)
      have hmade : ∀ dir, dir <+: above ++ [name] → dir ≠ [] → made.disk dir = some .dir := by
        intro dir hbegins hdirne
        obtain rfl | h := prefix_concat_iff.mp hbegins
        · exact Disk.set_self
        · exact (hset dir).elim id fun heq => heq.trans (habove dir h hdirne)
      obtain ⟨ops, hops⟩ := ih hmade fun dir hbegins hdirne =>
        (hset dir).elim .inr fun heq => heq ▸ hfree dir hbegins hdirne
      refine ⟨ops, ?_⟩
      rw [attempt_eq state (hfails _) hperform]
      refine hops.trans ?_
      congr 1
      funext other
      unfold Disk.withDirs
      split
      · rfl
      · rename_i hother
        refine Disk.set_of_ne ?_
        rintro rfl
        exact hother ⟨hdir, hne⟩

theorem applyEntryStreaming_eq (hfails : ∀ op, site.fails op = false) {hash : η} {bytes : Bytes}
    {path : KeyPath} (hblob : site.blob hash = some bytes) (hasDir : path.asDir = false)
    (hfree : Free site.settings site.processId state.disk path.parts) :
    ∃ ops, state.applyEntryStreaming site hash path = (.applied, { state with
      disk := (state.disk.withDirs path.parts.dropLast).set path.parts (some (.file bytes))
      ops
      guard := state.guard.markRemoteWrite path.parts hash
      tempSeq := state.tempSeq + 1 }) := by
  let parts := path.parts
  let temp := applyTempPath site.processId state.tempSeq parts
  let made := state.disk.withDirs parts.dropLast
  have hroot : ∀ dir, dir <+: ([] : Path) → dir ≠ [] → state.disk dir = some .dir :=
    fun dir hnil hne => absurd (prefix_nil.mp hnil) hne
  have habove : ∀ dir, dir <+: [] ++ parts.dropLast → dir ≠ [] →
      state.disk dir = none ∨ state.disk dir = some .dir := by
    intro dir hbegins hne
    refine hfree.above dir (hbegins.trans ( dropLast_prefix parts)) ?_ hne
    rintro rfl
    exact not_prefix_dropLast path.ne_nil hbegins
  obtain ⟨dirs, hdirs⟩ := createDirAll_eq hfails hroot habove
  have hself : made parts = state.disk parts :=
    if_neg fun h => not_prefix_dropLast path.ne_nil h.1
  have htemp : made temp = none := by
    refine (if_neg fun h => ?_).trans (hfree.temp state.tempSeq)
    have hle := h.1.length_le
    simp [temp, applyTempPath] at hle
  have hne : temp ≠ parts := applyTempPath_ne _ _ path.ne_nil
  have hparent : made.isDir temp.dropLast = true := by
    have hdrop : temp.dropLast = parts.dropLast := dropLast_concat
    rw [hdrop]
    by_cases h : parts.dropLast = []
    · simp [Disk.isDir, h]
    · have hdir : made parts.dropLast = some .dir := if_pos ⟨prefix_rfl, h⟩
      simp [Disk.isDir, hdir]
  have hwrite : (FsOp.write temp bytes).perform made = some (made.set temp (some (.file bytes))) := by
    simp only [FsOp.perform, hparent, if_true, htemp]
  have hrename : (FsOp.rename temp parts).perform (made.set temp (some (.file bytes))) =
      some (made.set parts (some (.file bytes))) := by
    refine FsOp.perform_rename hne htemp ?_
    rw [hself]
    refine hfree.self.imp_right ?_
    rintro ⟨old, hold, -⟩
    exact ⟨old, hold⟩
  have hnofault : (path.asDir || site.fails (.rename temp parts)) = false := by
    simp [hasDir, hfails]
  refine ⟨dirs ++ [.write temp bytes] ++ [.rename temp parts], ?_⟩
  simp only [applyEntryStreaming, hblob]
  rw [hdirs]
  have hwritten := attempt_eq { state with
    disk := made, ops := dirs, tempSeq := state.tempSeq + 1 } (hfails (.write temp bytes)) hwrite
  have hrenamed := attempt_eq { state with
    disk := made.set temp (some (.file bytes))
    ops := dirs ++ [.write temp bytes]
    guard := state.guard.markRemoteWrite parts hash
    tempSeq := state.tempSeq + 1 } hnofault hrename
  simp only [nil_append]
  rw [hwritten]
  dsimp only
  rw [hrenamed]

theorem set_none_of_eq {disk : Disk} {path : Path} (h : disk path = none) :
    disk.set path none = disk := by
  funext other
  by_cases hother : other = path
  · rw [hother, Disk.set_self, h]
  · exact Disk.set_of_ne hother

theorem applyTombstone_disk (hfails : ∀ op, site.fails op = false) {path : KeyPath}
    (hasDir : path.asDir = false)
    (hself : state.disk path.parts = none ∨ ∃ bytes, state.disk path.parts = some (.file bytes))
    (hmark : state.guard.peerDeleted path.parts = true → state.disk path.parts = none) :
    (state.applyTombstone site path).disk = state.disk.set path.parts none := by
  have hnofault : (path.asDir || site.fails (.remove path.parts)) = false := by
    simp [hasDir, hfails]
  cases hdeleted : state.guard.peerDeleted path.parts with
  | true =>
    rw [set_none_of_eq (hmark hdeleted)]
    simp [applyTombstone, EchoGuard.markRemoteDelete, EchoGuard.deleteMark, hdeleted]
  | false =>
    obtain hnone | ⟨bytes, hfile⟩ := hself
    · rw [set_none_of_eq hnone]
      simp [applyTombstone, EchoGuard.markRemoteDelete, EchoGuard.deleteMark, hdeleted, unlink, emit,
        attempt, hnofault, FsOp.perform, hnone]
    · simp [applyTombstone, EchoGuard.markRemoteDelete, EchoGuard.deleteMark, hdeleted, unlink, emit,
        attempt, hnofault, FsOp.perform, hfile]

theorem applyTombstone_guard {path : KeyPath} :
    (state.applyTombstone site path).guard.peerDeleted =
      update state.guard.peerDeleted path.parts true := by
  unfold applyTombstone EchoGuard.markRemoteDelete
  cases state.guard.deleteMark path.parts with
  | duplicate => rfl
  | fresh =>
    simp only [unlink, emit, attempt]
    split <;> rfl

theorem applyTombstone_trackers {path : KeyPath} :
    (state.applyTombstone site path).trackers = state.trackers := by
  unfold applyTombstone EchoGuard.markRemoteDelete
  cases state.guard.deleteMark path.parts with
  | duplicate => rfl
  | fresh =>
    simp only [unlink, emit, attempt]
    split <;> rfl

inductive Settles [DecidableEq η] (site : Site η) (state : ApplierState η) (entry : Entry η)
    (state' : ApplierState η) : Prop
  | invalid (reason : InvalidKey)
      (hkey : keyToPath site.settings.filter.unicode entry.key = .error reason)
      (hdisk : state'.disk = state.disk) (hguard : state'.guard = state.guard)
      (htrackers : state'.trackers = state.trackers)
  | refused (path : KeyPath) (hpath : keyToPath site.settings.filter.unicode entry.key = .ok path)
      (hskip : incomingSkip site.settings state.disk path (contentLen entry) ≠ none)
      (hdisk : state'.disk = state.disk) (hguard : state'.guard = state.guard)
      (htrackers : state'.trackers = state.trackers.supersede path.parts none)
  | removed (path : KeyPath) (hpath : keyToPath site.settings.filter.unicode entry.key = .ok path)
      (hskip : incomingSkip site.settings state.disk path (contentLen entry) = none)
      (hcontent : entry.content = none) (hdisk : state'.disk = state.disk.set path.parts none)
      (hguard : state'.guard.peerDeleted =
        update state.guard.peerDeleted path.parts true)
      (htrackers : state'.trackers = state.trackers.supersede path.parts none)
  | waits (path : KeyPath) (content : Replica.Content η)
      (hpath : keyToPath site.settings.filter.unicode entry.key = .ok path)
      (hskip : incomingSkip site.settings state.disk path (contentLen entry) = none)
      (hcontent : entry.content = some content) (hblob : site.blob content.hash = none)
      (hdisk : state'.disk = state.disk) (hguard : state'.guard = state.guard)
      (htrackers : state'.trackers = state.trackers.track content.hash path.parts)
  | applied (path : KeyPath) (content : Replica.Content η) (bytes : Bytes)
      (hpath : keyToPath site.settings.filter.unicode entry.key = .ok path)
      (hskip : incomingSkip site.settings state.disk path (contentLen entry) = none)
      (hcontent : entry.content = some content) (hblob : site.blob content.hash = some bytes)
      (hdisk : state'.disk =
        (state.disk.withDirs path.parts.dropLast).set path.parts (some (.file bytes)))
      (hguard : state'.guard.peerDeleted =
        update state.guard.peerDeleted path.parts false)
      (htrackers : state'.trackers =
        (state.trackers.supersede path.parts (some content.hash)).finish content.hash)

/-- The entry's path is free, and not marked as deleted with a file at it. -/
structure Fits (site : Site η) (state : ApplierState η) (path : KeyPath) : Prop where
  asDir : path.asDir = false
  free : Free site.settings site.processId state.disk path.parts
  mark : state.guard.peerDeleted path.parts = true → state.disk path.parts = none

theorem handleEntry_settles [DecidableEq η] {entry : Entry η}
    (hfails : ∀ op, site.fails op = false)
    (hfits : ∀ path, keyToPath site.settings.filter.unicode entry.key = .ok path →
      incomingSkip site.settings state.disk path (contentLen entry) = none →
      Fits site state path) :
    Settles site state entry (state.handleEntry site entry).2 := by
  unfold handleEntry
  split
  · rename_i reason hkey
    exact .invalid reason hkey rfl rfl rfl
  rename_i path hpath
  split
  · rename_i hskip
    exact .refused path hpath (by simp [hskip]) rfl rfl rfl
  rename_i hskip
  have hfit := hfits path hpath hskip
  split
  · rename_i hcontent
    refine .removed path hpath hskip hcontent ?_ applyTombstone_guard applyTombstone_trackers
    exact applyTombstone_disk hfails hfit.asDir
      (hfit.free.self.imp_right fun ⟨bytes, hfile, _⟩ => ⟨bytes, hfile⟩) hfit.mark
  rename_i content hcontent
  cases hblob : site.blob content.hash with
  | none =>
    rw [applyEntryStreaming_of_none state path hblob]
    exact .waits path content hpath hskip hcontent hblob rfl rfl rfl
  | some bytes =>
    obtain ⟨ops, happlied⟩ := applyEntryStreaming_eq hfails hblob hfit.asDir hfit.free
    rw [happlied]
    exact .applied path content bytes hpath hskip hcontent hblob rfl rfl rfl

end ApplierState

end Artel.Fs
