import Artel.Lib.Run
import Artel.Fs.Applier

namespace Artel.Fs

open List

/-- It makes a directory above the path, or works on the path and its temporary. -/
def FsOp.Within (path temp : Path) : FsOp → Prop
  | .createDir dir => dir <+: path.dropLast ∧ dir ≠ []
  | .write target _ => target = temp
  | .rename source target => source = temp ∧ target = path
  | .remove target => target = path ∨ target = temp

namespace ApplierState

variable {η : Type}

/-- The calls that led from one state to another, and what they left alone. -/
structure Evolves (path temp : Path) (calls : List FsOp) (state state' : ApplierState η) :
    Prop where
  ops : state'.ops = state.ops ++ calls
  within : ∀ op ∈ calls, op.Within path temp
  frame : ∀ other, other ≠ path → other ≠ temp → state'.disk other = state.disk other ∨
    (other <+: path.dropLast ∧ other ≠ [] ∧ state.disk other = none ∧
      state'.disk other = some .dir)
  dirs : ∀ other, state.disk other = some .dir → state'.disk other = some .dir

namespace Evolves

variable {path temp : Path} {ops ops' : List FsOp} {state state' state'' : ApplierState η}

theorem quiet (hops : state'.ops = state.ops) (hdisk : state'.disk = state.disk) :
    Evolves path temp [] state state' where
  ops := by simp [hops]
  within := fun op hop => absurd hop not_mem_nil
  frame other _ _ := .inl (by rw [hdisk])
  dirs other hdir := by rw [hdisk, hdir]

theorem trans (h : Evolves path temp ops state state') (h' : Evolves path temp ops' state' state'') :
    Evolves path temp (ops ++ ops') state state'' where
  ops := by rw [h'.ops, h.ops, append_assoc]
  within op hop := (mem_append.mp hop).elim (h.within op) (h'.within op)
  frame other hpath htemp := by
    obtain hsame | ⟨habove, hne, hnone, hdir⟩ := h.frame other hpath htemp
    · rw [← hsame]
      exact h'.frame other hpath htemp
    · obtain hsame' | ⟨-, -, hnone', -⟩ := h'.frame other hpath htemp
      · exact .inr ⟨habove, hne, hnone, hsame'.trans hdir⟩
      · simp [hdir] at hnone'
  dirs other hdir := h'.dirs other (h.dirs other hdir)

end Evolves

section

variable {site : Site η} {path temp : Path} (state : ApplierState η)

theorem attempt_evolves {op : FsOp} (fails : Bool) (hop : op.Within path temp) :
    Evolves path temp [op] state (state.attempt fails op).2 := by
  unfold attempt
  split
  · rename_i disk hdisk
    split at hdisk
    · cases hdisk
    refine ⟨rfl, by simpa using hop, fun other hpath htemp => ?_,
      fun other hdir => FsOp.perform_dir hdisk hdir⟩
    cases op with
    | createDir dir =>
      obtain ⟨hnone, hset⟩ := FsOp.perform_createDir hdisk
      by_cases hdir : other = dir
      · subst hdir
        exact .inr ⟨hop.1, hop.2, hnone, by simp [hset]⟩
      · exact .inl (by simp [hset, Disk.set_of_ne hdir])
    | write target bytes =>
      have hne : other ∉ (FsOp.write target bytes).paths := by
        simpa [FsOp.paths, show target = temp from hop] using htemp
      exact .inl (FsOp.perform_of_not_mem hdisk hne)
    | rename source target =>
      have hne : other ∉ (FsOp.rename source target).paths := by
        obtain ⟨rfl, rfl⟩ := hop
        simp [FsOp.paths, hpath, htemp]
      exact .inl (FsOp.perform_of_not_mem hdisk hne)
    | remove target =>
      have hne : other ∉ (FsOp.remove target).paths := by
        obtain rfl | rfl := hop
        · simpa [FsOp.paths] using hpath
        · simpa [FsOp.paths] using htemp
      exact .inl (FsOp.perform_of_not_mem hdisk hne)
  · exact ⟨rfl, by simpa using hop, fun other _ _ => .inl rfl, fun other hdir => hdir⟩

theorem attempt_rest (fails : Bool) (op : FsOp) :
    ∃ disk ops, (state.attempt fails op).2 = { state with disk, ops } := by
  unfold attempt
  split
  · exact ⟨_, _, rfl⟩
  · exact ⟨_, _, rfl⟩

theorem createDirAll_rest (site : Site η) (above : Path) (names : List Bytes) :
    ∃ disk ops, createDirAll site above names state = { state with disk, ops } := by
  induction names generalizing above state with
  | nil => exact ⟨_, _, rfl⟩
  | cons name names ih =>
    obtain ⟨disk, ops, hrest⟩ := attempt_rest state (site.fails (.createDir (above ++ [name])))
      (.createDir (above ++ [name]))
    simp only [createDirAll]
    split
    · exact ih _ _
    split
    · rename_i made hmade
      obtain rfl : made = { state with disk, ops } := by rw [← hrest, hmade]
      exact ih _ _
    · rename_i failed hfailed
      rw [hfailed] at hrest
      exact ⟨disk, ops, hrest⟩

theorem tempSeq_createDirAll (above : Path) (names : List Bytes) :
    (createDirAll site above names state).tempSeq = state.tempSeq := by
  obtain ⟨disk, ops, hrest⟩ := createDirAll_rest state site above names
  rw [hrest]

theorem createDirAll_evolves (site : Site η) (temp : Path) {above : Path} {names : List Bytes}
    (h : above ++ names = path.dropLast) :
    ∃ ops, Evolves path temp ops state (createDirAll site above names state) := by
  induction names generalizing above state with
  | nil => exact ⟨[], .quiet rfl rfl⟩
  | cons name names ih =>
    have hrest : (above ++ [name]) ++ names = path.dropLast := by simpa using h
    have hwithin : (FsOp.createDir (above ++ [name])).Within path temp :=
      ⟨⟨names, hrest⟩, by simp⟩
    have hmake := attempt_evolves state (site.fails (.createDir (above ++ [name]))) hwithin
    simp only [createDirAll]
    split
    · exact ih state hrest
    split
    · rename_i hmade
      rw [hmade] at hmake
      obtain ⟨ops, hops⟩ := ih _ hrest
      exact ⟨_, hmake.trans hops⟩
    · rename_i hfailed
      rw [hfailed] at hmake
      exact ⟨_, hmake⟩

theorem removeTemp_evolves : Evolves path temp [.remove temp] state (state.removeTemp site temp) :=
  attempt_evolves state _ (Or.inr rfl)

theorem applyEntryStreaming_evolves {hash : η} {bytes : Bytes} (path : KeyPath)
    (hblob : site.blob hash = some bytes) :
    ∃ dirs rest, Evolves path.parts (applyTempPath site.processId state.tempSeq path.parts)
      (dirs ++ .write (applyTempPath site.processId state.tempSeq path.parts) bytes :: rest) state
      (state.applyEntryStreaming site hash path).2 := by
  obtain ⟨dirs, hdirs⟩ := createDirAll_evolves state site
    (applyTempPath site.processId state.tempSeq path.parts)
    (nil_append path.parts.dropLast)
  simp only [applyEntryStreaming, hblob, tempSeq_createDirAll]
  generalize createDirAll site [] path.parts.dropLast state = made at hdirs
  generalize applyTempPath site.processId state.tempSeq path.parts = temp at hdirs
  have hnext : Evolves path.parts temp dirs state { made with tempSeq := state.tempSeq + 1 } :=
    ⟨hdirs.ops, hdirs.within, hdirs.frame, hdirs.dirs⟩
  have hwrite : (FsOp.write temp bytes).Within path.parts temp := rfl
  have hwritten := hnext.trans (attempt_evolves _ (site.fails (.write temp bytes)) hwrite)
  refine ⟨dirs, ?_⟩
  split
  · rename_i failed hfailed
    rw [hfailed] at hwritten
    exact ⟨[.remove temp], by simpa using hwritten.trans (removeTemp_evolves failed)⟩
  rename_i written hok
  rw [hok] at hwritten
  have hrename : (FsOp.rename temp path.parts).Within path.parts temp := ⟨rfl, rfl⟩
  have hmarked : Evolves path.parts temp [] written
      { written with guard := written.guard.markRemoteWrite path.parts hash } :=
    .quiet rfl rfl
  have hrenamed := (hwritten.trans hmarked).trans (attempt_evolves _
    (path.asDir || site.fails (.rename temp path.parts)) hrename)
  split
  · rename_i applied happlied
    rw [happlied] at hrenamed
    exact ⟨[.rename temp path.parts], by simpa using hrenamed⟩
  rename_i failed hfailed
  rw [hfailed] at hrenamed
  have hunmarked : Evolves path.parts temp [] failed
      { failed with guard := failed.guard.unmarkRemoteWrite path.parts } :=
    .quiet rfl rfl
  exact ⟨[.rename temp path.parts, .remove temp], by
    simpa using (hrenamed.trans hunmarked).trans (removeTemp_evolves _)⟩

inductive Handles (site : Site η) (state : ApplierState η) (entry : Entry η)
    (state' : ApplierState η) : Prop
  | refused (hops : state'.ops = state.ops) (hdisk : state'.disk = state.disk)
      (hskip : ∀ path, keyToPath site.settings.filter.unicode entry.key = .ok path →
        incomingSkip site.settings state.disk path (contentLen entry) ≠ none)
  | removed (path : KeyPath) (calls : List FsOp)
      (hpath : keyToPath site.settings.filter.unicode entry.key = .ok path)
      (hskip : incomingSkip site.settings state.disk path (contentLen entry) = none)
      (hcontent : entry.content = none)
      (hcalls : ∀ op ∈ calls, op = .remove path.parts)
      (h : Evolves path.parts path.parts calls state state')
  | waits (path : KeyPath) (content : Replica.Content η)
      (hpath : keyToPath site.settings.filter.unicode entry.key = .ok path)
      (hcontent : entry.content = some content) (hblob : site.blob content.hash = none)
      (hops : state'.ops = state.ops) (hdisk : state'.disk = state.disk)
  | exported (path : KeyPath) (content : Replica.Content η) (bytes : Bytes) (dirs rest : List FsOp)
      (hpath : keyToPath site.settings.filter.unicode entry.key = .ok path)
      (hskip : incomingSkip site.settings state.disk path (contentLen entry) = none)
      (hcontent : entry.content = some content) (hblob : site.blob content.hash = some bytes)
      (h : Evolves path.parts (applyTempPath site.processId state.tempSeq path.parts)
        (dirs ++ .write (applyTempPath site.processId state.tempSeq path.parts) bytes :: rest)
        state state')

theorem unlink_evolves (site : Site η) (path : KeyPath) :
    Evolves path.parts path.parts [.remove path.parts] state (state.unlink site path) := by
  have hremove : (FsOp.remove path.parts).Within path.parts path.parts := Or.inl rfl
  have h := attempt_evolves state (path.asDir || site.fails (.remove path.parts)) hremove
  exact ⟨h.ops, h.within, h.frame, h.dirs⟩

theorem applyTombstone_evolves (site : Site η) (path : KeyPath) :
    ∃ calls, (∀ op ∈ calls, op = .remove path.parts) ∧
      Evolves path.parts path.parts calls state (state.applyTombstone site path) := by
  unfold applyTombstone
  split
  · exact ⟨[], fun op hop => absurd hop not_mem_nil, .quiet rfl rfl⟩
  · rename_i guard _
    have h := unlink_evolves { state with guard } site path
    exact ⟨[.remove path.parts], by simp, ⟨h.ops, h.within, h.frame, h.dirs⟩⟩

theorem applyEntryStreaming_of_none {hash : η} (path : KeyPath) (hblob : site.blob hash = none) :
    state.applyEntryStreaming site hash path = (.notReady, state) := by
  simp [applyEntryStreaming, hblob]

theorem handleEntry_handles [DecidableEq η] (site : Site η) (entry : Entry η) :
    Handles site state entry (state.handleEntry site entry).2 := by
  unfold handleEntry
  split
  · rename_i hkey
    exact .refused rfl rfl fun path hpath => by simp [hkey] at hpath
  rename_i path hpath
  split
  · rename_i hskip
    refine .refused rfl rfl fun path' hpath' => ?_
    obtain rfl : path = path' := Except.ok.inj (hpath.symm.trans hpath')
    simp [hskip]
  rename_i hskip
  split
  · rename_i hcontent
    obtain ⟨calls, hcalls, h⟩ :=
      applyTombstone_evolves (state.supersede path.parts none) site path
    exact .removed path calls hpath hskip hcontent hcalls ⟨h.ops, h.within, h.frame, h.dirs⟩
  rename_i content hcontent
  cases hblob : site.blob content.hash with
  | none =>
    rw [applyEntryStreaming_of_none state path hblob]
    exact .waits path content hpath hcontent hblob rfl rfl
  | some bytes =>
    obtain ⟨dirs, rest, h⟩ := applyEntryStreaming_evolves state path hblob
    refine .exported path content bytes dirs rest hpath hskip hcontent hblob ?_
    split <;> rename_i heq <;> rw [heq] at h <;> exact ⟨h.ops, h.within, h.frame, h.dirs⟩

theorem exportEntry_handles (site : Site η) (entry : Entry η) :
    Handles site state entry (state.exportEntry site entry) := by
  unfold exportEntry
  split
  · rename_i hkey
    exact .refused rfl rfl fun path hpath => by simp [hkey] at hpath
  rename_i path hpath
  split
  · rename_i hskip
    refine .refused rfl rfl fun path' hpath' => ?_
    obtain rfl : path = path' := Except.ok.inj (hpath.symm.trans hpath')
    simp [hskip]
  rename_i hskip
  split
  · rename_i hcontent
    have h := unlink_evolves
      { state with guard := (state.guard.markRemoteDelete path.parts).2 } site path
    exact .removed path [.remove path.parts] hpath hskip hcontent (by simp)
      ⟨h.ops, h.within, h.frame, h.dirs⟩
  · rename_i content hcontent
    cases hblob : site.blob content.hash with
    | none =>
      rw [applyEntryStreaming_of_none state path hblob]
      exact .waits path content hpath hcontent hblob rfl rfl
    | some bytes =>
      obtain ⟨dirs, rest, h⟩ := applyEntryStreaming_evolves state path hblob
      refine .exported path content bytes dirs rest hpath hskip hcontent hblob ?_
      split <;> rename_i heq <;> rw [heq] at h <;> exact ⟨h.ops, h.within, h.frame, h.dirs⟩

end

end ApplierState

/-- A place below the root that no component and no link leads out of. -/
structure Inside (disk : Disk) (target : Path) : Prop where
  ne_nil : target ≠ []
  isName : ∀ part ∈ target, IsName part
  noLink : ∀ above, above <+: target → above ≠ [] → disk above ≠ some .symlink

/-- Every call for an entry is within its path, inside the root, and where paths sync. -/
def Contained {η : Type} (site : Site η) (state : ApplierState η) (entry : Entry η)
    (state' : ApplierState η) : Prop :=
  ∃ calls, state'.ops = state.ops ++ calls ∧ ∀ op ∈ calls,
    ∃ path, keyToPath site.settings.filter.unicode entry.key = .ok path ∧
      isHardcodedSkip site.settings.filter.unicode path.parts.rel = false ∧
      op.Within path.parts (applyTempPath site.processId state.tempSeq path.parts) ∧
      ∀ target ∈ op.paths, Inside state.disk target

/-- An entry is exported by way of a link. -/
def TempIsLink {η : Type} (site : Site η) (state : ApplierState η) (entry : Entry η) : Prop :=
  ∃ path content, keyToPath site.settings.filter.unicode entry.key = .ok path ∧
    incomingSkip site.settings state.disk path (contentLen entry) = none ∧
    entry.content = some content ∧ (site.blob content.hash).isSome ∧
    state.disk (applyTempPath site.processId state.tempSeq path.parts) = some .symlink

theorem slash_not_mem_digits (n : ℕ) : 47 ∉ Signing.ascii (Nat.toDigits 10 n) :=
  fun h => absurd (Signing.digit_of_mem h).1 (by decide)

theorem isName_temp {processId seq : ℕ} {path : Path} (h : ∀ part ∈ path, IsName part) :
    ∀ part ∈ applyTempPath processId seq path, IsName part := by
  intro part hpart
  obtain hpart | hpart := mem_append.mp hpart
  · exact h part (mem_of_mem_dropLast hpart)
  rw [mem_singleton.mp hpart]
  have hlast : 47 ∉ path.getLastD [] := by
    cases hl : path.getLast? with
    | none => simp [getLastD_eq_getLast?, hl]
    | some last =>
      have hin := mem_of_getLast? hl
      simpa [getLastD_eq_getLast?, hl] using (h last hin).no_slash
  have hdigits := slash_not_mem_digits
  refine ⟨?_, ?_, ?_, ?_⟩
  · simp [Signing.ascii]
  · simp [Signing.ascii]
  · simp [Signing.ascii]
  · simp only [mem_append, hdigits, hlast, or_false]
    decide

section

variable {η : Type} {site : Site η} {state state' : ApplierState η} {entry : Entry η} {disk : Disk}

theorem inside_of_incomingSkip {settings : Settings η} {path : KeyPath} {len : ℕ}
    (h : incomingSkip settings disk path len = none) : Inside disk path.parts := by
  obtain ⟨hcheck, -, -⟩ := incomingSkip_eq_none.mp h
  obtain ⟨-, hlink, -, -⟩ := WorkspaceFilter.check_eq_included.mp hcheck
  refine ⟨path.ne_nil, path.isName, fun above habove hne => ?_⟩
  simpa [Disk.isSymlink] using hasSymlinkInPath_rel.mp hlink above habove hne

theorem Inside.above {target dir : Path} (h : Inside disk target)
    (hdir : dir <+: target.dropLast) (hne : dir ≠ []) : Inside disk dir := by
  have hbelow : dir <+: target := hdir.trans target.dropLast_prefix
  exact ⟨hne, fun part hpart => h.isName part (hbelow.subset hpart),
    fun above habove => h.noLink above (habove.trans hbelow)⟩

theorem Inside.temp {target : Path} {processId seq : ℕ} (h : Inside disk target)
    (htemp : disk (applyTempPath processId seq target) ≠ some .symlink) :
    Inside disk (applyTempPath processId seq target) := by
  refine ⟨by simp [applyTempPath], isName_temp h.isName, fun above habove hne => ?_⟩
  obtain rfl | habove := prefix_concat_iff.mp habove
  · exact htemp
  · exact (h.above habove hne).noLink above prefix_rfl hne

theorem FsOp.Within.inside {path temp : Path} {op : FsOp} (h : op.Within path temp)
    (hpath : Inside disk path) (htemp : Inside disk temp) :
    ∀ target ∈ op.paths, Inside disk target := by
  cases op with
  | createDir dir => exact forall_mem_singleton.mpr (hpath.above h.1 h.2)
  | write target bytes =>
    obtain rfl := h
    exact forall_mem_singleton.mpr htemp
  | rename source target =>
    obtain ⟨rfl, rfl⟩ := h
    simp [FsOp.paths, hpath, htemp]
  | remove target =>
    obtain rfl | rfl := h
    · exact forall_mem_singleton.mpr hpath
    · exact forall_mem_singleton.mpr htemp

theorem ApplierState.Handles.contained_iff (h : ApplierState.Handles site state entry state') :
    Contained site state entry state' ↔ ¬TempIsLink site state entry := by
  have hempty : state'.ops = state.ops → Contained site state entry state' := fun hops =>
    ⟨[], by simp [hops], fun op hop => absurd hop not_mem_nil⟩
  have hhard : ∀ {path len}, incomingSkip site.settings state.disk path len = none →
      isHardcodedSkip site.settings.filter.unicode path.parts.rel = false := fun hskip =>
    (WorkspaceFilter.check_eq_included.mp (incomingSkip_eq_none.mp hskip).1).1
  cases h with
  | refused hops hdisk hskip =>
    refine iff_of_true (hempty hops) ?_
    rintro ⟨path, content, hpath, hnone, -⟩
    exact hskip path hpath hnone
  | waits path content hpath hcontent hblob hops hdisk =>
    refine iff_of_true (hempty hops) ?_
    rintro ⟨path', content', -, -, hcontent', hsome, -⟩
    obtain rfl : content = content' := Option.some.inj (hcontent.symm.trans hcontent')
    simp [hblob] at hsome
  | removed path calls hpath hskip hcontent hcalls h =>
    refine iff_of_true ⟨calls, h.ops, fun op hop => ?_⟩ ?_
    · obtain rfl := hcalls op hop
      refine ⟨path, hpath, hhard hskip, .inl rfl, ?_⟩
      exact forall_mem_singleton.mpr (inside_of_incomingSkip hskip)
    · rintro ⟨path', content', -, -, hcontent', -⟩
      simp [hcontent] at hcontent'
  | exported path content bytes dirs rest hpath hskip hcontent hblob h =>
    constructor
    · rintro ⟨calls, hcalls, hinside⟩ ⟨path', content', hpath', -, -, -, hlink⟩
      obtain rfl : path = path' := Except.ok.inj (hpath.symm.trans hpath')
      obtain rfl := append_cancel_left (h.ops.symm.trans hcalls)
      obtain ⟨-, -, -, -, htemp⟩ := hinside _ (mem_append_right dirs mem_cons_self)
      have hin := htemp _ mem_cons_self
      exact hin.noLink _ prefix_rfl hin.ne_nil hlink
    · intro hlink
      have hpathInside := inside_of_incomingSkip hskip
      have htemp := hpathInside.temp fun heq =>
        hlink ⟨path, content, hpath, hskip, hcontent, by simp [hblob], heq⟩
      exact ⟨_, h.ops, fun op hop => ⟨path, hpath, hhard hskip, h.within op hop,
        (h.within op hop).inside hpathInside htemp⟩⟩

end

/-- Entries stay contained unless a link lies at a temporary sibling on the way. -/
theorem entries_contained_iff {η : Type} [DecidableEq η] (site : Site η) (state : ApplierState η) :
    (∀ entry, Contained site state entry (state.handleEntry site entry).2 ↔
      ¬TempIsLink site state entry) ∧
    ∀ doc : Replica (FixedBytes 32) η,
      Along (fun state entry => state.exportEntry site entry)
        (fun state entry => Contained site state entry (state.exportEntry site entry)) state
        doc.latestPerKey ↔
      Along (fun state entry => state.exportEntry site entry)
        (fun state entry => ¬TempIsLink site state entry) state doc.latestPerKey := by
  refine ⟨fun entry => (state.handleEntry_handles site entry).contained_iff, fun doc => ?_⟩
  constructor
  · exact fun h => h.imp fun state entry =>
      (state.exportEntry_handles site entry).contained_iff.mp
  · exact fun h => h.imp fun state entry =>
      (state.exportEntry_handles site entry).contained_iff.mpr

namespace Sample

def linked : ApplierState Bytes :=
  { blank with disk := fun path => if path = applyTempPath 1 0 [[97]] then some .symlink else none }

/-- The blob is written to where the link leads. -/
theorem export_follows_link :
    FsOp.write (applyTempPath 1 0 [[97]]) [1] ∈ (linked.handleEntry site (fileEntry 2 [97] 1 0)).2.ops ∧
    linked.disk (applyTempPath 1 0 [[97]]) = some .symlink ∧
    ¬Contained site linked (fileEntry 2 [97] 1 0)
      (linked.handleEntry site (fileEntry 2 [97] 1 0)).2 := by
  have hlink : linked.disk (applyTempPath 1 0 [[97]]) = some .symlink := by decide +kernel
  refine ⟨by decide +kernel, hlink, fun h => ?_⟩
  have hpath : ∃ path ∈ (keyToPath site.settings.filter.unicode (fileEntry 2 [97] 1 0).key).toOption,
      path.parts = [[97]] ∧ incomingSkip site.settings linked.disk path 1 = none := by
    decide +kernel
  obtain ⟨path, hpath, hparts, hskip⟩ := hpath
  refine (linked.handleEntry_handles site (fileEntry 2 [97] 1 0)).contained_iff.mp h ?_
  exact ⟨path, _, eq_ok_of_mem_toOption hpath, hskip, rfl, rfl, by rw [hparts]; exact hlink⟩

end Sample

end Artel.Fs
