import Artel.Lib.Run
import Artel.Fs.Apply

namespace Artel.Fs

inductive LiveEvent (η : Type)
  | insertRemote (entry : Entry η)
  | contentReady (hash : η)
  deriving DecidableEq

/-- What an applier runs on, with the bytes of each blob whether complete or not. -/
structure World (η : Type) where
  settings : Settings η
  processId : ℕ
  content : η → Bytes
  fails : FsOp → Bool

/-- A replica that peers write to, and the applier that follows it. -/
structure Live (η : Type) where
  doc : Replica (FixedBytes 32) η
  complete : List η
  /-- The complete blobs whose event is still to come. -/
  unannounced : List η
  queue : List (LiveEvent η)
  node : ApplierState η
  /-- The entries that have been handled, for their own event or for a blob's. -/
  handled : List (Entry η)

inductive LiveAction (η : Type)
  /-- A peer's entry reaches the replica. -/
  | store (entry : Entry η)
  | fetch (hash : η)
  | announce (hash : η)
  /-- The applier handles one of the events that wait for it. -/
  | handle (k : ℕ)

def LiveAction.entry {η : Type} : LiveAction η → Option (Entry η)
  | .store entry => some entry
  | .fetch _ | .announce _ | .handle _ => none

section

variable {η : Type} [DecidableEq η] (world : World η)

def World.site (complete : List η) : Site η :=
  ⟨world.settings, world.processId,
    fun hash => if hash ∈ complete then some (world.content hash) else none, world.fails⟩

namespace Live

variable (s : Live η)

def concerned : LiveEvent η → List (Entry η)
  | .insertRemote entry => [entry]
  | .contentReady hash => s.node.readyEntries (world.site s.complete) s.doc hash

def react : LiveEvent η → ApplierState η
  | .insertRemote entry => (s.node.handleEntry (world.site s.complete) entry).2
  | .contentReady hash => s.node.handleContentReady (world.site s.complete) s.doc hash

def step (s : Live η) : LiveAction η → Live η
  | .store entry =>
    if s.doc.accepts entry then
      { s with doc := s.doc.store entry, queue := s.queue ++ [.insertRemote entry] }
    else s
  | .fetch hash =>
    { s with complete := hash :: s.complete, unannounced := hash :: s.unannounced }
  | .announce hash =>
    { s with
      queue := s.queue ++ [.contentReady hash]
      unannounced := s.unannounced.filter (· ≠ hash) }
  | .handle k =>
    match s.queue[k]? with
    | none => s
    | some event =>
      { s with
        queue := s.queue.eraseIdx k
        node := s.react world event
        handled := s.handled ++ s.concerned world event }

def start (disk : Disk) (tempSeq : ℕ) : Live η :=
  ⟨.empty, [], [], [], ⟨disk, [], .new, [], .new, tempSeq, []⟩, []⟩

end Live

/-- Whenever an entry is handled, its blob is followed already or fewer than the limit are. -/
def Tracks (site : Site η) : ApplierState η → List (Entry η) → Prop
  | _, [] => True
  | state, entry :: entries =>
    (∀ content ∈ entry.content, content.hash ∈ state.trackers.hashes ∨
      state.trackers.hashes.length < MAX_CONCURRENT_TRACKERS) ∧
    Tracks site (state.handleEntry site entry).2 entries

def contentHash (entry : Entry η) : Option η := entry.content.map Replica.Content.hash

/-- After a key's latest entry only its content is handled, and blobs are tracked. -/
def Live.Orderly (s : Live η) : LiveAction η → Prop
  | .handle k => ∀ event ∈ s.queue[k]?,
    Tracks (world.site s.complete) s.node (s.concerned world event) ∧
    ∀ entry ∈ s.concerned world event, ∀ latest ∈ s.doc.latest entry.key, latest ∈ s.handled →
      contentHash latest = contentHash entry
  | .store _ | .fetch _ | .announce _ => True

end

section

variable {η : Type} (world : World η)

structure Place (entry : Entry η) (path : KeyPath) : Prop extends
    Clear world.settings path.parts where
  key : keyToPath world.settings.filter.unicode entry.key = .ok path
  mode : SyncState.mode world.settings path.parts ≠ .readOnly

def WithinCap (entry : Entry η) : Prop :=
  ∀ cap, world.settings.filter.maxFileSize = some cap → contentLen entry ≤ cap

/-- Honest lengths and keys, a free disk, and no path in the way of another. -/
structure Layout (disk : Disk) (entries : List (Entry η)) : Prop where
  len : ∀ e ∈ entries, ∀ content, e.content = some content →
    (world.content content.hash).length = content.len
  canonical : ∀ e ∈ entries, ∀ path, Place world e path →
    Canonical world.settings.filter.unicode e.key path
  free : ∀ e ∈ entries, ∀ path, Place world e path →
    Free world.settings world.processId disk path.parts
  apart : ∀ e ∈ entries, ∀ e' ∈ entries, ∀ path path', Place world e path → Place world e' path' →
    path.parts <+: path'.parts → path.parts = path'.parts

/-- The disk is still free, and a path that is marked as deleted has no file. -/
structure Clean (entries : List (Entry η)) (state : ApplierState η) : Prop where
  free : ∀ e ∈ entries, ∀ path, Place world e path →
    Free world.settings world.processId state.disk path.parts
  mark : ∀ e ∈ entries, ∀ path, Place world e path → state.guard.peerDeleted path.parts = true →
    state.disk path.parts = none

variable {world} {entries : List (Entry η)} {disk : Disk} {state state' : ApplierState η}
  {e x : Entry η} {path path' : KeyPath}

theorem incomingSkip_of_place (hplace : Place world e path) (hasDir : path.asDir = false)
    (hfree : Free world.settings world.processId disk path.parts) (hcap : WithinCap world e) :
    incomingSkip world.settings disk path (contentLen e) = none := by
  refine incomingSkip_eq_none.mpr ⟨?_, hcap, hplace.mode⟩
  refine WorkspaceFilter.check_eq_included.mpr ⟨hplace.hardcoded, ?_, hplace.excluded, ?_⟩
  · refine hasSymlinkInPath_rel.mpr fun above habove hne => ?_
    have hitem : disk above = none ∨ disk above = some .dir ∨ ∃ bytes, disk above = some (.file bytes) := by
      by_cases hself : above = path.parts
      · rw [hself]
        obtain h | ⟨bytes, h, -⟩ := hfree.self
        · exact .inl h
        · exact .inr (.inr ⟨bytes, h⟩)
      · exact (hfree.above above habove hself hne).imp_right .inl
    obtain h | h | ⟨bytes, h⟩ := hitem <;> simp [Disk.isSymlink, h]
  · intro cap hmax n hn
    simp only [KeyPath.size, hasDir, Bool.false_eq_true, if_false, Disk.fileSize] at hn
    obtain h | ⟨bytes, h, hlen⟩ := hfree.self
    · simp [h] at hn
    · simp only [h, Option.some.injEq] at hn
      exact hn ▸ hlen cap hmax

theorem place_of_incomingSkip (hkey : keyToPath world.settings.filter.unicode e.key = .ok path)
    (h : incomingSkip world.settings disk path (contentLen e) = none) :
    Place world e path ∧ WithinCap world e := by
  obtain ⟨hcheck, hcap, hmode⟩ := incomingSkip_eq_none.mp h
  exact ⟨⟨clear_of_check hcheck, hkey, hmode⟩, hcap⟩

theorem Layout.frame (hlayout : Layout world disk entries) (he : e ∈ entries) (hx : x ∈ entries)
    (hplace : Place world e path) (hplace' : Place world x path') (hne : path'.parts ≠ path.parts)
    (before : Disk) (item : Item) :
    ((before.withDirs path.parts.dropLast).set path.parts (some item)) path'.parts =
      before path'.parts := by
  rw [Disk.set_of_ne hne]
  refine if_neg fun habove => hne ?_
  have hbegins := habove.1.trans (List.dropLast_prefix path.parts)
  exact hlayout.apart x hx e he path' path hplace' hplace hbegins

theorem Free.remove {other : Path}
    (h : Free world.settings world.processId disk other) (path : Path) :
    Free world.settings world.processId (disk.set path none) other := by
  have hset : ∀ at', disk.set path none at' = none ∨ disk.set path none at' = disk at' := by
    intro at'
    by_cases hat : at' = path
    · exact .inl (hat ▸ Disk.set_self)
    · exact .inr (Disk.set_of_ne hat)
  refine ⟨fun dir hbegins hne hnil => ?_, ?_, fun seq => ?_⟩
  · exact (hset dir).elim .inl fun heq => heq ▸ h.above dir hbegins hne hnil
  · exact (hset other).elim .inl fun heq => heq ▸ h.self
  · exact (hset _).elim id fun heq => heq.trans (h.temp seq)

section

variable (hlayout : Layout world disk entries)
include hlayout

theorem Layout.free_put (he : e ∈ entries) (hx : x ∈ entries)
    (hplace : Place world e path) (hplace' : Place world x path') {before : Disk} {bytes : Bytes}
    (hcap : ∀ cap, world.settings.filter.maxFileSize = some cap → bytes.length ≤ cap)
    (h : Free world.settings world.processId before path'.parts) :
    Free world.settings world.processId
      ((before.withDirs path.parts.dropLast).set path.parts (some (.file bytes))) path'.parts := by
  refine ⟨fun dir hbegins hne hnil => ?_, ?_, fun seq => ?_⟩
  · by_cases hdir : dir = path.parts
    · -- the file would be in the way of the other place
      subst hdir
      exact absurd (hlayout.apart e he x hx path path' hplace hplace' hbegins) hne
    · rw [Disk.set_of_ne hdir]
      unfold Disk.withDirs
      split
      · exact .inr rfl
      · exact h.above dir hbegins hne hnil
  · by_cases hself : path'.parts = path.parts
    · rw [hself, Disk.set_self]
      exact .inr ⟨bytes, rfl, hcap⟩
    · rw [hlayout.frame he hx hplace hplace' hself]
      exact h.self
  · have hnot := temp_not_above hplace.toClear (hlayout.canonical e he path hplace) world.processId seq
      path'.parts
    have hne : applyTempPath world.processId seq path'.parts ≠ path.parts := fun heq =>
      hnot (heq ▸ List.prefix_rfl)
    rw [Disk.set_of_ne hne]
    refine (if_neg fun habove => ?_).trans (h.temp seq)
    exact hnot (habove.1.trans (List.dropLast_prefix path.parts))

theorem Layout.parts_ne (he : e ∈ entries) (hx : x ∈ entries)
    (hpath : keyToPath world.settings.filter.unicode e.key = .ok path)
    (hplace' : Place world x path') (hkey : e.key ≠ x.key) : path'.parts ≠ path.parts := by
  intro heq
  have hplace : Place world e path := ⟨heq ▸ hplace'.toClear, hpath, heq ▸ hplace'.mode⟩
  have hcanonical := hlayout.canonical e he path hplace
  exact hkey (hcanonical.inj (hlayout.canonical x hx path' hplace') heq.symm)

theorem WithinCap.of_contentHash_eq (he : e ∈ entries)
    (hx : x ∈ entries) (h : contentHash x = contentHash e) (hcap : WithinCap world x) :
    WithinCap world e := by
  have hlen : contentLen x = contentLen e := by
    unfold contentHash at h
    cases hcontent : e.content with
    | none =>
      rw [hcontent, Option.map_none, Option.map_eq_none_iff] at h
      simp [contentLen, hcontent, h]
    | some content =>
      rw [hcontent, Option.map_some, Option.map_eq_some_iff] at h
      obtain ⟨content', hcontent', hhash⟩ := h
      have hlen := hlayout.len e he content hcontent
      rw [← hhash, hlayout.len x hx content' hcontent'] at hlen
      simp [contentLen, hcontent, hcontent', hlen]
  unfold WithinCap
  exact hlen ▸ hcap

end

section

variable [DecidableEq η] {complete : List η}

theorem World.blob_eq_none {hash : η} :
    (world.site complete).blob hash = none ↔ hash ∉ complete := by
  simp [World.site]

theorem World.blob_eq_some {hash : η} {bytes : Bytes} :
    (world.site complete).blob hash = some bytes ↔ hash ∈ complete ∧ world.content hash = bytes := by
  simp [World.site]

section

variable (hlayout : Layout world disk entries)
include hlayout

theorem Clean.fits (h : Clean world entries state)
    (he : e ∈ entries) (hkey : keyToPath world.settings.filter.unicode e.key = .ok path)
    (hskip : incomingSkip world.settings state.disk path (contentLen e) = none) :
    ApplierState.Fits (world.site complete) state path := by
  have hplace := (place_of_incomingSkip hkey hskip).1
  exact ⟨(hlayout.canonical e he path hplace).1, h.free e he path hplace, h.mark e he path hplace⟩

theorem Clean.settles (hfails : ∀ op, world.fails op = false)
    (h : Clean world entries state) (he : e ∈ entries) :
    ApplierState.Settles (world.site complete) state e
      (state.handleEntry (world.site complete) e).2 :=
  ApplierState.handleEntry_settles hfails fun _ => h.fits hlayout he

theorem Clean.settled (h : Clean world entries state)
    (he : e ∈ entries) (hsettles : ApplierState.Settles (world.site complete) state e state') :
    Clean world entries state' := by
  cases hsettles with
  | invalid reason hkey hdisk hguard htrackers | refused path hpath hskip hdisk hguard htrackers
  | waits path content hpath hskip hcontent hblob hdisk hguard htrackers =>
    exact ⟨by simpa only [hdisk] using h.free, by simpa only [hdisk, hguard] using h.mark⟩
  | removed path hpath hskip hcontent hdisk hguard htrackers =>
    refine ⟨fun x hx path' hplace' => ?_, fun x hx path' hplace' hmark => ?_⟩
    · rw [hdisk]
      exact (h.free x hx path' hplace').remove path.parts
    · rw [hdisk]
      by_cases heq : path'.parts = path.parts
      · rw [heq, Disk.set_self]
      · rw [hguard, Function.update_of_ne heq] at hmark
        rw [Disk.set_of_ne heq]
        exact h.mark x hx path' hplace' hmark
  | applied path content bytes hpath hskip hcontent hblob hdisk hguard htrackers =>
    obtain ⟨hplace, hcap⟩ := place_of_incomingSkip hpath hskip
    have hlen : contentLen e = bytes.length := by
      rw [← (World.blob_eq_some.mp hblob).2, hlayout.len e he content hcontent, contentLen, hcontent]
      rfl
    refine ⟨fun x hx path' hplace' => ?_, fun x hx path' hplace' hmark => ?_⟩
    · rw [hdisk]
      exact hlayout.free_put he hx hplace hplace' (hlen ▸ hcap) (h.free x hx path' hplace')
    · rw [hdisk]
      by_cases heq : path'.parts = path.parts
      · rw [hguard, heq, Function.update_self] at hmark
        cases hmark
      · rw [hguard, Function.update_of_ne heq] at hmark
        rw [hlayout.frame he hx hplace hplace' heq]
        exact h.mark x hx path' hplace' hmark

end

variable (world complete) in
/-- The disk has what the entry says. -/
def Reflects (disk : Disk) (path : Path) (entry : Entry η) : Prop :=
  disk path = (contentHash entry).map fun hash => .file (world.content hash)

variable (complete) in
/-- The path is tried again when the blob is ready. -/
def Waits (trackers : TransferTrackers η) (path : Path) (hash : η) : Prop :=
  path ∈ trackers.trackedPaths hash ∨ (hash ∈ complete ∧ trackers.trackedPaths hash = [])

variable {trackers : TransferTrackers η} {waiting other : Path} {hash hash' : η}

section

variable (h : Waits complete trackers waiting hash)
include h

theorem Waits.supersede (hne : waiting ≠ other)
    (keep : Option η) : Waits complete (trackers.supersede other keep) waiting hash := by
  refine h.imp (fun hin => ?_) fun ⟨hcomplete, hnil⟩ => ⟨hcomplete, ?_⟩
  · exact TransferTrackers.mem_supersede.mpr ⟨hin, .inr hne⟩
  · refine List.eq_nil_iff_forall_not_mem.mpr fun path hpath => ?_
    have hold := (TransferTrackers.mem_supersede.mp hpath).1
    simp [hnil] at hold

theorem Waits.track (hne : waiting ≠ other)
    (hmissing : hash' ∉ complete) : Waits complete (trackers.track hash' other) waiting hash := by
  refine h.imp (TransferTrackers.mem_track_of_mem hne) fun ⟨hcomplete, hnil⟩ => ⟨hcomplete, ?_⟩
  refine List.eq_nil_iff_forall_not_mem.mpr fun path hpath => ?_
  obtain hold | ⟨rfl, -⟩ := TransferTrackers.mem_track hpath
  · simp [hnil] at hold
  · exact hmissing hcomplete

theorem Waits.finish
    (hfinish : hash = hash' → hash ∈ complete) :
    Waits complete (trackers.finish hash') waiting hash := by
  by_cases heq : hash = hash'
  · refine .inr ⟨hfinish heq, List.eq_nil_iff_forall_not_mem.mpr fun path hpath => ?_⟩
    exact (TransferTrackers.mem_finish.mp hpath).2 heq
  · refine h.imp (fun hin => TransferTrackers.mem_finish.mpr ⟨hin, heq⟩) fun ⟨hcomplete, hnil⟩ =>
      ⟨hcomplete, List.eq_nil_iff_forall_not_mem.mpr fun path hpath => ?_⟩
    have hold := (TransferTrackers.mem_finish.mp hpath).1
    simp [hnil] at hold

end

theorem ApplierState.Settles.frame (hlayout : Layout world disk entries) (he : e ∈ entries)
    (hx : x ∈ entries) (hplace' : Place world x path') (hkey : e.key ≠ x.key)
    (h : ApplierState.Settles (world.site complete) state e state') :
    state'.disk path'.parts = state.disk path'.parts ∧
    ∀ hash, Waits complete state.trackers path'.parts hash →
      Waits complete state'.trackers path'.parts hash := by
  cases h with
  | invalid reason hreason hdisk hguard htrackers =>
    rw [hdisk, htrackers]
    exact ⟨rfl, fun hash hwaits => hwaits⟩
  | refused path hpath hskip hdisk hguard htrackers =>
    have hne := hlayout.parts_ne he hx hpath hplace' hkey
    rw [hdisk, htrackers]
    exact ⟨rfl, fun hash hwaits => hwaits.supersede hne none⟩
  | removed path hpath hskip hcontent hdisk hguard htrackers =>
    have hne := hlayout.parts_ne he hx hpath hplace' hkey
    rw [hdisk, htrackers]
    exact ⟨Disk.set_of_ne hne, fun hash hwaits => hwaits.supersede hne none⟩
  | waits path content hpath hskip hcontent hblob hdisk hguard htrackers =>
    have hne := hlayout.parts_ne he hx hpath hplace' hkey
    rw [hdisk, htrackers]
    exact ⟨rfl, fun hash hwaits => hwaits.track hne (World.blob_eq_none.mp hblob)⟩
  | applied path content bytes hpath hskip hcontent hblob hdisk hguard htrackers =>
    have hne := hlayout.parts_ne he hx hpath hplace' hkey
    have hplace := (place_of_incomingSkip hpath hskip).1
    rw [hdisk, htrackers]
    refine ⟨hlayout.frame he hx hplace hplace' hne state.disk _, fun hash hwaits => ?_⟩
    refine (hwaits.supersede hne _).finish fun heq => ?_
    exact heq ▸ (World.blob_eq_some.mp hblob).1

theorem ApplierState.Settles.reflects_or_track (hlayout : Layout world disk entries)
    (hclean : Clean world entries state) (he : e ∈ entries) (hx : x ∈ entries)
    (hplace' : Place world x path') (hcap : WithinCap world x) (hkey : e.key = x.key)
    (hcontent' : contentHash x = contentHash e)
    (h : ApplierState.Settles (world.site complete) state e state') :
    Reflects world state'.disk path'.parts x ∨
    ∃ content ∈ e.content, content.hash ∉ complete ∧
      state'.trackers = state.trackers.track content.hash path'.parts := by
  have hpath' : keyToPath world.settings.filter.unicode e.key = .ok path' := hkey ▸ hplace'.key
  have hplace : Place world e path' := ⟨hplace'.toClear, hpath', hplace'.mode⟩
  cases h with
  | invalid reason hreason hdisk hguard htrackers => cases hreason.symm.trans hpath'
  | refused path hpath hskip hdisk hguard htrackers =>
    obtain rfl : path = path' := Except.ok.inj (hpath.symm.trans hpath')
    exact absurd (incomingSkip_of_place hplace (hlayout.canonical e he path hplace).1
      (hclean.free e he path hplace) (hcap.of_contentHash_eq hlayout he hx hcontent')) hskip
  | removed path hpath hskip hcontent hdisk hguard htrackers =>
    obtain rfl : path = path' := Except.ok.inj (hpath.symm.trans hpath')
    have hnone : contentHash x = none := by rw [hcontent', contentHash, hcontent, Option.map_none]
    refine .inl ?_
    rw [Reflects, hnone, hdisk, Disk.set_self, Option.map_none]
  | waits path content hpath hskip hcontent hblob hdisk hguard htrackers =>
    obtain rfl : path = path' := Except.ok.inj (hpath.symm.trans hpath')
    exact .inr ⟨content, hcontent, World.blob_eq_none.mp hblob, htrackers⟩
  | applied path content bytes hpath hskip hcontent hblob hdisk hguard htrackers =>
    obtain rfl : path = path' := Except.ok.inj (hpath.symm.trans hpath')
    have hsome : contentHash x = some content.hash := by
      rw [hcontent', contentHash, hcontent, Option.map_some]
    refine .inl ?_
    rw [Reflects, hsome, hdisk, Disk.set_self, Option.map_some, (World.blob_eq_some.mp hblob).2]

theorem ApplierState.Settles.reflects (hlayout : Layout world disk entries)
    (hclean : Clean world entries state) (he : e ∈ entries) (hx : x ∈ entries)
    (hplace' : Place world x path') (hcap : WithinCap world x) (hkey : e.key = x.key)
    (hcontent' : contentHash x = contentHash e)
    (hroom : ∀ content ∈ e.content, content.hash ∈ state.trackers.hashes ∨
      state.trackers.hashes.length < MAX_CONCURRENT_TRACKERS)
    (h : ApplierState.Settles (world.site complete) state e state') :
    Reflects world state'.disk path'.parts x ∨
    ∃ hash, contentHash x = some hash ∧ hash ∉ complete ∧
      path'.parts ∈ state'.trackers.trackedPaths hash := by
  refine (h.reflects_or_track hlayout hclean he hx hplace' hcap hkey hcontent').imp_right ?_
  rintro ⟨content, hcontent, hmissing, htrackers⟩
  refine ⟨content.hash, ?_, hmissing, ?_⟩
  · rw [hcontent', contentHash, hcontent, Option.map_some]
  · rw [htrackers]
    exact TransferTrackers.mem_track_self (hroom content hcontent)

end

end

end Artel.Fs
