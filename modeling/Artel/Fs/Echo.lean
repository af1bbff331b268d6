import Artel.Fs.Tombstones

namespace Artel.Fs

open Function List

namespace SyncState

variable {η : Type}

def Busy (s : SyncState η) (path : Path) : Prop := ∃ work ∈ s.work, work.path = path

def NoRemoval (s : SyncState η) (path : Path) : Prop :=
  ∀ c ∈ s.changes, c.path = path → c.removed = false

/-- A file cannot be renamed over a directory. -/
def renamesOntoDir (s : SyncState η) : Bool :=
  match s.work with
  | some (.rename path _) => s.disk.isDir path
  | some _ | none => false

/-- Watcher and applier keep to different paths, and the applier's calls succeed. -/
def Apart (s : SyncState η) : SyncEvent η → Prop
  | .receive path _ => (∀ pass ∈ s.pass, pass.path ≠ path) ∧ s.NoRemoval path
  | .receiveTombstone path => ∀ pass ∈ s.pass, pass.path ≠ path
  | .observe k _ _ => ∀ change ∈ s.changes[k]?, ¬s.Busy change.path
  | .walk path => ¬s.Busy path
  | .apply ok _ => ok = true ∧ s.renamesOntoDir = false
  | .edit _ _ | .halt _ | .store _ | .merge _ | .endWalk | .watch _ | .createDir _ | .fire _ => True

instance (s : SyncState η) (path : Path) : Decidable (s.Busy path) :=
  Option.decidableExistsMem s.work

instance (s : SyncState η) (path : Path) : Decidable (s.NoRemoval path) :=
  inferInstanceAs (Decidable (∀ c ∈ s.changes, c.path = path → c.removed = false))

instance (s : SyncState η) : ∀ e : SyncEvent η, Decidable (Apart s e)
  | .receive path _ =>
    inferInstanceAs (Decidable ((∀ pass ∈ s.pass, pass.path ≠ path) ∧ s.NoRemoval path))
  | .receiveTombstone path => inferInstanceAs (Decidable (∀ pass ∈ s.pass, pass.path ≠ path))
  | .observe k _ _ => inferInstanceAs (Decidable (∀ change ∈ s.changes[k]?, ¬s.Busy change.path))
  | .walk path => inferInstanceAs (Decidable (¬s.Busy path))
  | .apply ok _ => inferInstanceAs (Decidable (ok = true ∧ s.renamesOntoDir = false))
  | .edit _ _ | .halt _ | .store _ | .merge _ | .endWalk | .watch _ | .createDir _ | .fire _ =>
    inferInstanceAs (Decidable True)

structure Publishes (settings : Settings η) (path : Path) (bytes : Bytes) : Prop where
  ne_nil : bytes ≠ []
  hardcoded : isHardcodedSkip settings.filter.unicode path.rel = false
  excluded : settings.filter.exclude.matches settings.filter.unicode path.rel = false
  mode : SyncState.mode settings path ≠ .readOnly
  cap : ∀ cap, settings.filter.maxFileSize = some cap → bytes.length ≤ cap

def Recorded (settings : Settings η) (s : SyncState η) (path : Path) : Prop :=
  ∀ bytes, s.disk path = some (.file bytes) → Publishes settings path bytes →
    s.guard.lastPublished path = some (settings.hash bytes)

/-- The guard agrees with the disk where the applier is not at work. -/
structure Calm (settings : Settings η) (s : SyncState η) (path : Path) : Prop where
  recorded : Recorded settings s path
  absent : s.guard.peerDeleted path = true → s.disk.fileSize path = none
  shown : (∃ c ∈ s.changes, c.path = path) → s.disk path ≠ none ∨ s.guard.peerDeleted path = true

/-- What a pass has found; one that no user has caused comes to nothing. -/
def Harmless (settings : Settings η) (s : SyncState η) : Pass η → Prop
  | .modified path => s.disk path ≠ none ∨ s.guard.peerDeleted path = true
  | .stat path => (s.disk path ≠ none ∨ s.guard.peerDeleted path = true) ∧
      ∀ bytes, s.disk path = some (.file bytes) → bytes ≠ [] →
        SyncState.mode settings path ≠ .readOnly →
        s.guard.lastPublished path = some (settings.hash bytes)
  | .hash path => (s.disk path ≠ none ∨ s.guard.peerDeleted path = true) ∧
      ∀ bytes, s.disk path = some (.file bytes) → bytes ≠ [] →
        s.guard.lastPublished path = some (settings.hash bytes)
  | .pendingCheck path hash | .publishedCheck path hash =>
      ∃ bytes, s.disk path = some (.file bytes) ∧ hash = settings.hash bytes ∧
        (bytes ≠ [] → s.guard.lastPublished path = some hash)
  | .measure path _ => s.disk path = some (.file [])
  | .removed path => s.guard.peerDeleted path = true
  | .snapshot _ _ | .insert _ _ _ | .unmark _ _ | .record _ _ | .forget _ | .gate _
  | .delete _ _ => False

def Underway (settings : Settings η) (s : SyncState η) : Work → Prop
  | .insertPending path _ | .removePeerDeleted path _ => Calm settings s path ∧ s.NoRemoval path
  | .insertLastPublished path _ => s.NoRemoval path ∧ s.guard.peerDeleted path = false
  | .rename path bytes => s.NoRemoval path ∧ s.guard.peerDeleted path = false ∧
      s.guard.lastPublished path = some (settings.hash bytes)
  | .release path | .forget path => Calm settings s path
  | .removePending _ | .forgetFailed _ => False
  | .insertPeerDeleted path => s.guard.peerDeleted path = true → s.disk.fileSize path = none
  | .fingerprint path => s.guard.peerDeleted path = true
  | .unlink path before => s.guard.peerDeleted path = true ∧
      (s.stamp path = before ∨ s.disk.fileSize path = none)

/-- A node that publishes nothing unless its user does something. -/
structure Quiet (settings : Settings η) (s : SyncState η) : Prop where
  calm : ∀ path, ¬s.Busy path → Calm settings s path
  removal : ∀ c ∈ s.changes, c.removed = true → s.guard.peerDeleted c.path = true
  pass : ∀ pass, s.pass = some pass → ¬s.Busy pass.path ∧ Harmless settings s pass
  work : ∀ work, s.work = some work → Underway settings s work
  writes : s.writes = []

structure Same (s s' : SyncState η) (path : Path) : Prop where
  disk : s'.disk path = s.disk path
  lastPublished : s'.guard.lastPublished path = s.guard.lastPublished path
  peerDeleted : s'.guard.peerDeleted path = s.guard.peerDeleted path
  changes : ∀ c ∈ s'.changes, c.path = path → c ∈ s.changes

variable {settings : Settings η} {author : FixedBytes 32} {s s' : SyncState η} {path : Path}

theorem Same.fileSize (h : Same s s' path) : s'.disk.fileSize path = s.disk.fileSize path := by
  simp only [Disk.fileSize, h.disk]

theorem Calm.of_same (h : Calm settings s path) (hsame : Same s s' path) : Calm settings s' path where
  recorded := by
    unfold Recorded
    rw [hsame.disk, hsame.lastPublished]
    exact h.recorded
  absent := by
    rw [hsame.peerDeleted, hsame.fileSize]
    exact h.absent
  shown := by
    rintro ⟨c, hc, hpath⟩
    rw [hsame.disk, hsame.peerDeleted]
    exact h.shown ⟨c, hsame.changes c hc hpath, hpath⟩

theorem Harmless.of_same {pass : Pass η} (h : Harmless settings s pass)
    (hsame : Same s s' pass.path) : Harmless settings s' pass := by
  obtain ⟨hdisk, hlast, hdeleted, -⟩ := hsame
  cases pass <;> simp only [Pass.path] at hdisk hlast hdeleted <;>
    simpa only [Harmless, hdisk, hlast, hdeleted] using h

theorem Underway.of_same {work : Work} (h : Underway settings s work)
    (hsame : Same s s' work.path) (hstamp : s'.stamp work.path = s.stamp work.path) :
    Underway settings s' work := by
  have hremoval : s.NoRemoval work.path → s'.NoRemoval work.path := fun hnone c hc hpath =>
    hnone c (hsame.changes c hc hpath) hpath
  have hcalm : Calm settings s work.path → Calm settings s' work.path := fun hcalm =>
    hcalm.of_same hsame
  have hsize := hsame.fileSize
  obtain ⟨-, hlast, hdeleted, -⟩ := hsame
  cases work <;> simp only [Work.path] at hlast hdeleted hstamp hsize hremoval hcalm <;>
    simp only [Underway, hlast, hdeleted, hstamp, hsize] at h ⊢ <;> tauto

theorem put_same {item : Option Item} {isLocal : Bool} {other : Path} (h : other ≠ path) :
    Same s (s.put path item isLocal) other where
  disk := Disk.set_of_ne h
  lastPublished := rfl
  peerDeleted := rfl
  changes c hc hpath := by
    obtain hc | hc := mem_append.mp hc
    · exact hc
    · rw [mem_singleton.mp hc] at hpath
      exact absurd hpath.symm h

theorem effectWork_same (ok unseen : Bool) {work : Work} (h : path ≠ work.path) :
    Same s (s.effectWork settings ok unseen work) path := by
  have hrefl : Same s s path := ⟨rfl, rfl, rfl, fun c hc _ => hc⟩
  cases work with
  | rename target bytes =>
    simp only [effectWork]
    split
    · exact put_same h
    · exact hrefl
  | unlink target before =>
    simp only [effectWork]
    split
    · split
      · exact put_same h
      · exact put_same h
      · exact hrefl
      · exact hrefl
    · exact hrefl
  | insertPending target bytes | release target
  | removePending target => exact ⟨rfl, rfl, rfl, fun c hc _ => hc⟩
  | removePeerDeleted target bytes =>
    exact ⟨rfl, rfl, update_of_ne h .., fun c hc _ => hc⟩
  | insertLastPublished target bytes =>
    exact ⟨rfl, update_of_ne h .., rfl, fun c hc _ => hc⟩
  | forgetFailed target | forget target => exact ⟨rfl, update_of_ne h .., rfl, fun c hc _ => hc⟩
  | insertPeerDeleted target => exact ⟨rfl, rfl, update_of_ne h .., fun c hc _ => hc⟩
  | fingerprint target => exact hrefl

theorem Calm.of_removed (hsize : s.disk.fileSize path = none)
    (hdeleted : s.guard.peerDeleted path = true) : Calm settings s path where
  recorded bytes hfile := by simp [Disk.fileSize, hfile] at hsize
  absent _ := hsize
  shown _ := .inr hdeleted

theorem Underway.calm_unlink {before : ℕ} (ok unseen : Bool) (hok : ok = true)
    (h : Underway settings s (.unlink path before)) :
    Calm settings (s.effectWork settings ok unseen (.unlink path before)) path := by
  obtain ⟨hdeleted, hstamp⟩ := h
  simp only [effectWork]
  split
  · split
    · exact .of_removed (by simp [put, Disk.fileSize]) hdeleted
    · exact .of_removed (by simp [put, Disk.fileSize]) hdeleted
    · exact .of_removed (by simp [Disk.fileSize, *]) hdeleted
    · exact .of_removed (by simp [Disk.fileSize, *]) hdeleted
  · rename_i hspared
    refine .of_removed (hstamp.resolve_left fun heq => hspared ?_) hdeleted
    simp [hok, heq]

/-- The applier's step leaves its path as the next needs it, and calm in the end. -/
theorem Underway.next {work : Work} (ok unseen : Bool) (h : Underway settings s work) (hok : ok = true)
    (hdir : ∀ path bytes, work = .rename path bytes → s.disk.isDir path = false) :
    (∀ work', s.nextWork ok work = some work' →
      Underway settings (s.effectWork settings ok unseen work) work') ∧
    (s.nextWork ok work = none →
      Calm settings (s.effectWork settings ok unseen work) work.path) := by
  cases work with
  | insertPending path bytes =>
    refine ⟨fun work' hnext => ?_, fun hnext => by cases hnext⟩
    obtain rfl := Option.some.inj hnext
    exact ⟨h.1.of_same ⟨rfl, rfl, rfl, fun c hc _ => hc⟩, h.2⟩
  | removePeerDeleted path bytes =>
    refine ⟨fun work' hnext => ?_, fun hnext => by cases hnext⟩
    obtain rfl := Option.some.inj hnext
    exact ⟨h.2, by simp [effectWork, EchoGuard.removePeerDeleted]⟩
  | insertLastPublished path bytes =>
    refine ⟨fun work' hnext => ?_, fun hnext => by cases hnext⟩
    obtain rfl := Option.some.inj hnext
    exact ⟨h.1, h.2, by simp [effectWork, EchoGuard.insertLastPublished]⟩
  | rename path bytes =>
    obtain ⟨hremoval, hdeleted, hlast⟩ := h
    have hren : (ok && !s.disk.isDir path) = true := by simp [hok, hdir path bytes rfl]
    refine ⟨fun work' hnext => ?_, fun hnext => ?_⟩
    · obtain rfl : Work.release path = work' := by simpa [nextWork, hren] using hnext
      simp only [effectWork, hren, if_true]
      refine ⟨fun bytes' hfile _ => ?_, fun hdel => ?_, fun _ => .inl ?_⟩
      · obtain rfl : bytes = bytes' := by simpa [put] using hfile
        exact hlast
      · simp [put, hdeleted] at hdel
      · simp [put]
    · simp [nextWork, hren] at hnext
  | release path =>
    refine ⟨fun _ hnext => (by cases hnext), fun _ => ?_⟩
    exact Calm.of_same h ⟨rfl, rfl, rfl, fun c hc _ => hc⟩
  | removePending path => exact h.elim
  | forgetFailed path => exact h.elim
  | forget path =>
    refine ⟨fun work' hnext => ?_, fun hnext => by cases hnext⟩
    obtain rfl := Option.some.inj hnext
    exact h.absent
  | insertPeerDeleted path =>
    have hmarked : (s.effectWork settings ok unseen (.insertPeerDeleted path)).guard.peerDeleted path
        = true := by
      simp [effectWork, EchoGuard.insertPeerDeleted]
    cases hmark : s.guard.peerDeleted path with
    | true =>
      refine ⟨fun work' hnext => ?_, fun _ => .of_removed (h hmark) hmarked⟩
      simp [nextWork, EchoGuard.deleteMark, hmark] at hnext
    | false =>
      refine ⟨fun work' hnext => ?_, fun hnext => ?_⟩
      · obtain rfl : Work.fingerprint path = work' := by
          simpa [nextWork, EchoGuard.deleteMark, hmark] using hnext
        exact hmarked
      · simp [nextWork, EchoGuard.deleteMark, hmark] at hnext
  | fingerprint path =>
    refine ⟨fun work' hnext => ?_, fun hnext => by cases hnext⟩
    obtain rfl := Option.some.inj hnext
    exact ⟨h, .inl rfl⟩
  | unlink path before => exact ⟨fun _ hnext => (by cases hnext), fun _ => h.calm_unlink ok unseen hok⟩

theorem Underway.removal {work : Work} (ok unseen : Bool) (h : Underway settings s work)
    (hremoval : ∀ c ∈ s.changes, c.removed = true → s.guard.peerDeleted c.path = true) :
    ∀ c ∈ (s.effectWork settings ok unseen work).changes, c.removed = true →
      (s.effectWork settings ok unseen work).guard.peerDeleted c.path = true := by
  intro c hc hremoved
  by_cases hpath : c.path = work.path
  · cases work with
    | removePeerDeleted path bytes => simp [h.2 c hc hpath] at hremoved
    | insertPeerDeleted path =>
      have hpath : c.path = path := hpath
      simp [effectWork, EchoGuard.insertPeerDeleted, hpath]
    | rename path bytes =>
      simp only [effectWork] at hc ⊢
      split at hc
      · obtain hc | hc := mem_append.mp hc
        · simp [h.1 c hc hpath] at hremoved
        · rw [mem_singleton.mp hc] at hremoved
          cases hremoved
      · simp [h.1 c hc hpath] at hremoved
    | unlink path before =>
      have hguard : (s.effectWork settings ok unseen (.unlink path before)).guard = s.guard := by
        simp only [effectWork]
        (repeat' split) <;> rfl
      rw [hguard, show c.path = path from hpath]
      exact h.1
    | _ => exact hremoval c hc hremoved
  · have hsame : Same s (s.effectWork settings ok unseen work) c.path :=
      effectWork_same ok unseen hpath
    rw [hsame.peerDeleted]
    exact hremoval c (hsame.changes c hc rfl) hremoved

section

variable [DecidableEq η]

theorem Harmless.next {pass pass' : Pass η} (h : Harmless settings s pass)
    (hcalm : Calm settings s pass.path) (hnext : Next settings s pass pass') :
    Harmless settings s pass' := by
  cases hnext with
  | stat path hhalted hcheck =>
    obtain ⟨hhard, -, hexclude, hcap⟩ := WorkspaceFilter.check_eq_included.mp hcheck
    refine ⟨h, fun bytes hfile hne hmode => ?_⟩
    refine hcalm.recorded bytes hfile ⟨hne, hhard, hexclude, hmode, fun cap hmax => ?_⟩
    exact hcap cap hmax _ (by simp [Disk.fileSize, hfile])
  | hash path hdir hmode => exact ⟨h.1, fun bytes hfile hne => h.2 bytes hfile hne hmode⟩
  | vanished path hnone => exact h.1.resolve_left fun hne => hne hnone
  | pendingCheck path bytes hfile => exact ⟨bytes, hfile, rfl, h.2 bytes hfile⟩
  | publishedCheck path hash hpending => exact h
  | measure path hash key hnew hkey =>
    obtain ⟨bytes, hfile, -, hlast⟩ := h
    obtain rfl : bytes = [] := by
      by_contra hne
      exact hnew (hlast hne)
    exact hfile
  | gone path key hnone =>
    have hfile : s.disk path = some (.file []) := h
    simp [hnone] at hfile
  | snapshot path key bytes hfile hne =>
    have hempty : s.disk path = some (.file []) := h
    rw [hfile] at hempty
    cases hempty
    exact absurd rfl hne
  | forget path hmark =>
    have hdeleted : s.guard.peerDeleted path = true := h
    simp [hmark] at hdeleted
  | insert | unmark | record | gate | delete => exact h.elim

theorem Harmless.effect {pass : Pass η} (ok : Bool) (h : Harmless settings s pass) :
    ∃ walks, s.effect author ok pass = { s with walks } := by
  cases pass with
  | stat path =>
    simp only [SyncState.effect]
    split
    · exact ⟨_, rfl⟩
    · exact ⟨s.walks, rfl⟩
  | insert | unmark | record | forget | delete => exact h.elim
  | _ => exact ⟨s.walks, rfl⟩

theorem Quiet.of_same (h : Quiet settings s) (hsame : ∀ path, Same s s' path)
    (hstamp : s'.stamp = s.stamp) (hwork : s'.work = s.work) (hwrites : s'.writes = s.writes)
    (hpass : ∀ pass, s'.pass = some pass → ¬s.Busy pass.path ∧ Harmless settings s pass) :
    Quiet settings s' where
  calm path hbusy := by
    unfold Busy at hbusy
    rw [hwork] at hbusy
    exact (h.calm path hbusy).of_same (hsame path)
  removal c hc hremoved := by
    rw [(hsame c.path).peerDeleted]
    exact h.removal c ((hsame c.path).changes c hc rfl) hremoved
  pass pass hp := by
    obtain ⟨hbusy, hharmless⟩ := hpass pass hp
    unfold Busy
    rw [hwork]
    exact ⟨hbusy, hharmless.of_same (hsame pass.path)⟩
  work work hw := by
    rw [hwork] at hw
    exact (h.work work hw).of_same (hsame work.path) (congrFun hstamp work.path)
  writes := hwrites.trans h.writes

theorem Quiet.watch (h : Quiet settings s) (ok : Bool) {pass : Pass η} (hpass : s.pass = some pass) :
    Quiet settings { s.effect author ok pass with pass := s.next settings ok pass } := by
  obtain ⟨hbusy, hharmless⟩ := h.pass pass hpass
  obtain ⟨walks, heffect⟩ : ∃ walks, s.effect author ok pass = { s with walks } :=
    hharmless.effect ok
  rw [heffect]
  refine h.of_same (fun path => ⟨rfl, rfl, rfl, fun c hc _ => hc⟩) rfl rfl rfl fun pass' hpass' => ?_
  have hnext : Next settings s pass pass' := next_eq_some hpass'
  rw [hnext.path]
  exact ⟨hbusy, hharmless.next (h.calm _ hbusy) hnext⟩

theorem nextWork_path {ok : Bool} {work work' : Work} (h : s.nextWork ok work = some work') :
    work'.path = work.path := by
  cases work with
  | rename path bytes =>
    simp only [nextWork] at h
    split at h <;> cases h <;> rfl
  | insertPeerDeleted path =>
    simp only [nextWork] at h
    split at h <;> cases h
    rfl
  | _ => cases h <;> rfl

theorem Quiet.apply (h : Quiet settings s) (ok unseen : Bool) {work : Work}
    (hwork : s.work = some work) (hapart : Apart s (.apply ok unseen)) :
    Quiet settings { s.effectWork settings ok unseen work with work := s.nextWork ok work } := by
  obtain ⟨hok, hdir⟩ := hapart
  have hunderway := h.work work hwork
  obtain ⟨hnext, hend⟩ := hunderway.next ok unseen hok fun path bytes heq => by
    simpa [renamesOntoDir, hwork, heq] using hdir
  have hother : ∀ path, path ≠ work.path → ¬s.Busy path := by
    rintro path hne ⟨work', hwork', rfl⟩
    obtain rfl := Option.some.inj (hwork.symm.trans hwork')
    exact hne rfl
  have hsame : ∀ path, path ≠ work.path → Same s
      { s.effectWork settings ok unseen work with work := s.nextWork ok work } path := by
    intro path hne
    have hsame : Same s (s.effectWork settings ok unseen work) path := effectWork_same ok unseen hne
    exact ⟨hsame.disk, hsame.lastPublished, hsame.peerDeleted, hsame.changes⟩
  refine ⟨fun path hbusy => ?_, ?_, fun pass hpass => ?_, fun work' hwork' => ?_, ?_⟩
  · by_cases hpath : path = work.path
    · subst hpath
      -- the applier is done, or it would still be at work here
      have hnone : s.nextWork ok work = none := by
        refine Option.eq_none_iff_forall_ne_some.mpr fun work' hwork' => ?_
        exact hbusy ⟨work', hwork', nextWork_path hwork'⟩
      exact (hend hnone).of_same ⟨rfl, rfl, rfl, fun c hc _ => hc⟩
    · exact (h.calm path (hother path hpath)).of_same (hsame path hpath)
  · exact hunderway.removal ok unseen h.removal
  · have hpass : s.pass = some pass := by simpa using hpass
    obtain ⟨hbusy, hharmless⟩ := h.pass pass hpass
    have hne : pass.path ≠ work.path := fun heq => hbusy ⟨work, hwork, heq.symm⟩
    refine ⟨?_, hharmless.of_same (hsame pass.path hne)⟩
    rintro ⟨work', hwork', hpath⟩
    exact hne (hpath.symm.trans (nextWork_path hwork'))
  · exact (hnext work' hwork').of_same ⟨rfl, rfl, rfl, fun c hc _ => hc⟩ rfl
  · exact (effectWork_writes ok unseen work).trans h.writes

theorem Calm.createDir (path : Path) : Calm settings (s.put path (some .dir) false) path where
  recorded bytes hfile := by simp [put] at hfile
  absent _ := by simp [put, Disk.fileSize]
  shown _ := .inl (by simp [put])

theorem Quiet.createDir (h : Quiet settings s) {path : Path} (hnone : s.disk path = none) :
    Quiet settings (s.put path (some .dir) false) := by
  have hcalm : Calm settings (s.put path (some .dir) false) path := .createDir path
  have hnoRemoval : s.NoRemoval path → (s.put path (some .dir) false).NoRemoval path := by
    intro hremoval c hc hpath
    obtain hc | hc := mem_append.mp hc
    · exact hremoval c hc hpath
    · rw [mem_singleton.mp hc]
      rfl
  refine ⟨fun other hbusy => ?_, fun c hc hremoved => ?_, fun pass hpass => ?_, fun work hwork => ?_,
    h.writes⟩
  · by_cases hpath : other = path
    · exact hpath ▸ hcalm
    · exact (h.calm other hbusy).of_same (put_same hpath)
  · obtain hc | hc := mem_append.mp hc
    · exact h.removal c hc hremoved
    · rw [mem_singleton.mp hc] at hremoved
      cases hremoved
  · obtain ⟨hbusy, hharmless⟩ := h.pass pass hpass
    refine ⟨hbusy, ?_⟩
    by_cases hpath : pass.path = path
    · subst hpath
      cases pass with
      | modified => exact .inl (by simp [put, Pass.path])
      | stat
      | hash => exact ⟨.inl (by simp [put, Pass.path]), fun bytes hfile => by simp [put, Pass.path] at hfile⟩
      | pendingCheck | publishedCheck =>
        obtain ⟨bytes, hfile, -⟩ := hharmless
        simp [hfile, Pass.path] at hnone
      | measure => simp [show s.disk _ = _ from hharmless, Pass.path] at hnone
      | removed => exact hharmless
      | _ => exact hharmless.elim
    · exact hharmless.of_same (put_same hpath)
  · have hunderway := h.work work hwork
    by_cases hpath : work.path = path
    · subst hpath
      cases work with
      | insertPending => exact ⟨hcalm, hnoRemoval hunderway.2⟩
      | removePeerDeleted => exact ⟨hcalm, hnoRemoval hunderway.2⟩
      | insertLastPublished => exact ⟨hnoRemoval hunderway.1, hunderway.2⟩
      | rename => exact ⟨hnoRemoval hunderway.1, hunderway.2⟩
      | release => exact hcalm
      | forget => exact hcalm
      | removePending => exact hunderway.elim
      | forgetFailed => exact hunderway.elim
      | insertPeerDeleted => exact hcalm.absent
      | fingerprint => exact hunderway
      | unlink => exact ⟨hunderway.1, .inr (hcalm.absent hunderway.1)⟩
    · exact hunderway.of_same (put_same hpath) (update_of_ne hpath ..)

theorem Quiet.begin {work : Work} (h : Quiet settings s) (hwork : s.work = none)
    (hpass : ∀ pass, s.pass = some pass → pass.path ≠ work.path)
    (hunderway : Calm settings s work.path → Underway settings s work) :
    Quiet settings { s with work := some work } := by
  have hresting : ∀ path, ¬s.Busy path := by
    rintro path ⟨work', hwork', -⟩
    simp [hwork] at hwork'
  have hsame : ∀ path, Same s { s with work := some work } path := fun path =>
    ⟨rfl, rfl, rfl, fun c hc _ => hc⟩
  refine ⟨fun path _ => (h.calm path (hresting path)).of_same (hsame path), h.removal,
    fun pass hp => ?_, fun work' hwork' => ?_, h.writes⟩
  · refine ⟨?_, (h.pass pass hp).2.of_same (hsame pass.path)⟩
    rintro ⟨work', hwork', hpath⟩
    obtain rfl := Option.some.inj hwork'
    exact hpass pass hp hpath.symm
  · obtain rfl := Option.some.inj hwork'
    exact (hunderway (h.calm _ (hresting _))).of_same (hsame work.path) rfl

theorem Quiet.moved {e : SyncEvent η} (h : Quiet settings s) (hapart : Apart s e)
    (huser : e.isEdit = false) (hmoved : Moved settings author s e s') :
    Quiet settings s' := by
  cases hmoved with
  | nothing => exact h
  | edit path item => cases huser
  | halt halted => exact h.of_same (fun path => ⟨rfl, rfl, rfl, fun c hc _ => hc⟩) rfl rfl rfl h.pass
  | store entry hauthor | endWalk hnone | fire k path hk =>
    exact h.of_same (fun path => ⟨rfl, rfl, rfl, fun c hc _ => hc⟩) rfl rfl rfl h.pass
  | observe k change asRemoval again hidle hk hkind =>
    have hin := mem_of_getElem? hk
    refine h.of_same (fun path => ⟨rfl, rfl, rfl, fun c hc _ => ?_⟩) rfl rfl rfl fun pass hpass => ?_
    · cases again with
      | true => exact hc
      | false => exact mem_of_mem_eraseIdx hc
    · obtain rfl := Option.some.inj hpass
      cases asRemoval with
      | true => exact ⟨hapart change hk, h.removal change hin (hkind rfl)⟩
      | false => exact ⟨hapart change hk, (h.calm _ (hapart change hk)).shown ⟨change, hin, rfl⟩⟩
  | merge k change hk hother =>
    exact h.of_same (fun path => ⟨rfl, rfl, rfl, fun c hc _ => mem_of_mem_eraseIdx hc⟩)
      rfl rfl rfl h.pass
  | walk path hnone hfile =>
    refine h.of_same (fun path => ⟨rfl, rfl, rfl, fun c hc _ => hc⟩) rfl rfl rfl fun pass hpass => ?_
    obtain rfl := Option.some.inj hpass
    refine ⟨hapart, .inl fun habsent => ?_⟩
    simp [Disk.fileSize, habsent] at hfile
  | watch ok pass hpass => exact h.watch ok hpass
  | createDir path hnone => exact h.createDir hnone
  | receive path bytes hwork hreceives =>
    exact h.begin hwork hapart.1 fun hcalm => ⟨hcalm, hapart.2⟩
  | receiveTombstone path hwork hreceives => exact h.begin hwork hapart id
  | apply ok unseen work hwork => exact h.apply ok unseen hwork hapart

end

/-- A guard that knows the files of the tree, as after the scan and the bulk export. -/
structure Known (settings : Settings η) (disk : Disk) (guard : EchoGuard η) : Prop where
  recorded : ∀ path bytes, disk path = some (.file bytes) → Publishes settings path bytes →
    guard.lastPublished path = some (settings.hash bytes)
  absent : ∀ path, guard.peerDeleted path = true → disk.fileSize path = none

end SyncState

open SyncState in
/-- Without a user, the watcher publishes nothing of what the applier did. -/
theorem no_echo {η : Type} [DecidableEq η] (settings : Settings η) (author : FixedBytes 32)
    (disk : Disk) (doc : Replica (FixedBytes 32) η) (guard : EchoGuard η) (halted : Bool)
    (es : List (SyncEvent η)) (hknown : Known settings disk guard)
    (huser : ∀ e ∈ es, e.isEdit = false)
    (h : Along (step settings author) Apart (start disk doc guard halted) es) :
    (es.foldl (step settings author) (start disk doc guard halted)).writes = [] := by
  have hstart : SyncState.Quiet settings (start disk doc guard halted) := by
    refine ⟨fun path _ => ⟨hknown.recorded path, hknown.absent path, ?_⟩, ?_, nofun, nofun, rfl⟩
    · rintro ⟨c, hc, -⟩
      cases hc
    · intro c hc
      cases hc
  refine ((h.and_of_mem huser).invariant (I := SyncState.Quiet settings) (fun s e hs he => ?_) hstart).writes
  exact hs.moved he.1 he.2 (step_moved s e)

namespace Sample

open Workspace.Sample SyncState

def writesFile (b : UInt8) : List (SyncEvent Bytes) :=
  .receive [[97]] [b] :: List.replicate 5 (.apply true false)

def removesFile : List (SyncEvent Bytes) :=
  .receiveTombstone [[97]] :: List.replicate 4 (.apply true false)

def passOver (asRemoval : Bool) : List (SyncEvent Bytes) :=
  .observe 0 asRemoval false :: List.replicate 5 (.watch true)

def joined : SyncState Bytes := start (fun _ => none) Replica.empty .new false

/-- Each change is seen before the next is made. -/
theorem no_echo_in_turn :
    (run joined (writesFile 1 ++ .fire 0 :: passOver false ++ removesFile ++ passOver true ++
      writesFile 2 ++ passOver false)).writes = [] := by
  refine no_echo _ _ _ _ _ _ _ ⟨?_, ?_⟩ ?_ ?_
  · intro path bytes hfile
    cases hfile
  · intro path hdeleted
    cases hdeleted
  · decide +kernel
  · decide +kernel

/-- The removal of the file is looked at after the file has been written again. -/
theorem late_removal_echoes :
    (run joined (writesFile 1 ++ passOver false ++ removesFile ++ writesFile 2 ++
      passOver true)).writes.map (fun w => (w.path, w.content)) = [([[97]], none)] := by
  decide +kernel

end Sample

end Artel.Fs
