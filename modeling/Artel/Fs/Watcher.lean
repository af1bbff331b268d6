import Artel.Lib.Run
import Artel.Fs.Removal

namespace Artel.Fs

/-- What the debouncer has seen of a path; several changes may be told of as one. -/
structure Change where
  path : Path
  removed : Bool
  deriving DecidableEq

/-- Where the watcher is in `on_modified` and `on_removed`. -/
inductive Pass (η : Type)
  | modified (path : Path)
  | stat (path : Path)
  | hash (path : Path)
  | pendingCheck (path : Path) (hash : η)
  | publishedCheck (path : Path) (hash : η)
  | measure (path : Path) (key : Bytes)
  | snapshot (path : Path) (key : Bytes)
  | insert (path : Path) (key : Bytes) (content : Replica.Content η)
  | unmark (path : Path) (hash : η)
  | record (path : Path) (hash : η)
  | removed (path : Path)
  | forget (path : Path)
  | gate (path : Path)
  | delete (path : Path) (key : Bytes)

def Pass.path {η : Type} : Pass η → Path
  | .modified path | .stat path | .hash path | .pendingCheck path _ | .publishedCheck path _
  | .measure path _ | .snapshot path _ | .insert path _ _ | .unmark path _ | .record path _
  | .removed path | .forget path | .gate path | .delete path _ => path

/-- Where the applier is in writing a blob that it has exported, or in removing a file. -/
inductive Work
  | insertPending (path : Path) (bytes : Bytes)
  | removePeerDeleted (path : Path) (bytes : Bytes)
  | insertLastPublished (path : Path) (bytes : Bytes)
  | rename (path : Path) (bytes : Bytes)
  | release (path : Path)
  | removePending (path : Path)
  | forgetFailed (path : Path)
  | forget (path : Path)
  | insertPeerDeleted (path : Path)
  | fingerprint (path : Path)
  | unlink (path : Path) (before : ℕ)

def Work.path : Work → Path
  | .insertPending path _ | .removePeerDeleted path _ | .insertLastPublished path _
  | .rename path _ | .release path | .removePending path | .forgetFailed path | .forget path
  | .insertPeerDeleted path | .fingerprint path | .unlink path _ => path

/-- An entry or a tombstone that the node wrote, and whether the path was there then. -/
structure Write (η : Type) where
  path : Path
  key : Bytes
  content : Option (Replica.Content η)
  existed : Bool

structure SyncState (η : Type) where
  disk : Disk
  /-- Goes up with each change of a path. -/
  stamp : Path → ℕ
  /-- The last change of the path was made by the user. -/
  lastLocal : Path → Bool
  doc : Replica (FixedBytes 32) η
  guard : EchoGuard η
  timers : List Path
  changes : List Change
  pass : Option (Pass η)
  /-- The directories that are being walked, the innermost first. -/
  walks : List Path
  work : Option Work
  halted : Bool
  writes : List (Write η)

inductive SyncEvent (η : Type)
  /-- The user puts something at a path, or removes what is there. -/
  | edit (path : Path) (item : Option Item)
  | halt (halted : Bool)
  /-- A peer's entry reaches the replica. -/
  | store (entry : Entry η)
  /-- The watcher takes up a change, which may be told of again. -/
  | observe (k : ℕ) (asRemoval again : Bool)
  /-- A change is told of with another one of its path. -/
  | merge (k : ℕ)
  | walk (path : Path)
  | endWalk
  /-- The watcher runs up to its next await; a call that it waits for may fail. -/
  | watch (ok : Bool)
  | createDir (path : Path)
  | receive (path : Path) (bytes : Bytes)
  | receiveTombstone (path : Path)
  /-- To its next await; `unseen` is a change that the fingerprint does not show. -/
  | apply (ok unseen : Bool)
  | fire (k : ℕ)

def SyncEvent.isEdit {η : Type} : SyncEvent η → Bool
  | .edit _ _ => true
  | .halt _ | .store _ | .observe _ _ _ | .merge _ | .walk _ | .endWalk | .watch _ | .createDir _
  | .receive _ _ | .receiveTombstone _ | .apply _ _ | .fire _ => false

namespace SyncState

variable {η : Type} (settings : Settings η) (author : FixedBytes 32)

def check (disk : Disk) (path : Path) : FilterDecision :=
  settings.filter.check disk.isSymlink path.rel (disk.fileSize path)

def mode (path : Path) : Mode := settings.rules.modeFor settings.filter.unicode path.rel

def receives (disk : Disk) (path : Path) (len : ℕ) : Bool :=
  check settings disk path = .included && settings.filter.maxFileSize.all (len ≤ ·) &&
    mode settings path = .readWrite

def put (s : SyncState η) (path : Path) (item : Option Item) (isLocal : Bool) : SyncState η :=
  { s with
    disk := s.disk.set path item
    stamp := Function.update s.stamp path (s.stamp path + 1)
    lastLocal := Function.update s.lastLocal path isLocal
    changes := s.changes ++ [⟨path, item.isNone⟩] }

section

variable [DecidableEq η]

def next (s : SyncState η) (ok : Bool) : Pass η → Option (Pass η)
  | .modified path =>
    if s.halted then none
    else if check settings s.disk path = .included then some (.stat path) else none
  | .stat path =>
    if s.disk.isDir path || mode settings path = .readOnly then none else some (.hash path)
  | .hash path =>
    match s.disk path with
    | none => if s.disk.blocked path then none else some (.removed path)
    | some (.file bytes) => if ok then some (.pendingCheck path (settings.hash bytes)) else none
    | some .dir | some .symlink => none
  | .pendingCheck path hash => if s.guard.pending path then none else some (.publishedCheck path hash)
  | .publishedCheck path hash =>
    if s.guard.lastPublished path = some hash then none
    else (pathToKey settings.filter.unicode path.rel).toOption.map (.measure path)
  | .measure path key =>
    match s.disk path with
    | none => if s.disk.blocked path then none else some (.removed path)
    | some (.file bytes) => if bytes = [] then none else some (.snapshot path key)
    | some .dir | some .symlink => none
  | .snapshot path key =>
    match s.disk path with
    | some (.file bytes) =>
      (publishFileStreaming settings ok key bytes).entry.map fun entry => .insert path key entry.2
    | none | some .dir | some .symlink => none
  | .insert path _ content => if ok then some (.unmark path content.hash) else none
  | .unmark path hash => some (.record path hash)
  | .removed path => if s.guard.shouldSkipRemoval path then none else some (.forget path)
  | .forget path => some (.gate path)
  | .gate path => (removalKey settings s.halted s.disk path).map (.delete path)
  | .record _ _ | .delete _ _ => none

def effect (s : SyncState η) (ok : Bool) : Pass η → SyncState η
  | .stat path => if s.disk.isDir path then { s with walks := path :: s.walks } else s
  | .insert path key content =>
    if ok then
      { s with
        doc := s.doc.setHash author key content
        writes := s.writes ++ [⟨path, key, some content, (s.disk path).isSome⟩] }
    else s
  | .unmark path _ => { s with guard := s.guard.removePeerDeleted path }
  | .record path hash => { s with guard := s.guard.insertLastPublished path hash }
  | .forget path => { s with guard := s.guard.forget path }
  | .delete path key =>
    if ok then
      { s with
        doc := s.doc.del author key
        writes := s.writes ++ [⟨path, key, none, (s.disk path).isSome⟩] }
    else s
  | .modified _ | .hash _ | .pendingCheck _ _ | .publishedCheck _ _ | .measure _ _ | .snapshot _ _
  | .removed _ | .gate _ => s

def nextWork (s : SyncState η) (ok : Bool) : Work → Option Work
  | .insertPending path bytes => some (.removePeerDeleted path bytes)
  | .removePeerDeleted path bytes => some (.insertLastPublished path bytes)
  | .insertLastPublished path bytes => some (.rename path bytes)
  | .rename path _ =>
    if ok && !s.disk.isDir path then some (.release path) else some (.removePending path)
  | .removePending path => some (.forgetFailed path)
  | .forget path => some (.insertPeerDeleted path)
  | .insertPeerDeleted path =>
    match s.guard.deleteMark path with
    | .duplicate => none
    | .fresh => some (.fingerprint path)
  | .fingerprint path => some (.unlink path (s.stamp path))
  | .release _ | .forgetFailed _ | .unlink _ _ => none

def effectWork (s : SyncState η) (ok unseen : Bool) : Work → SyncState η
  | .insertPending path _ => { s with guard := s.guard.insertPending path }
  | .removePeerDeleted path _ => { s with guard := s.guard.removePeerDeleted path }
  | .insertLastPublished path bytes =>
    { s with guard := s.guard.insertLastPublished path (settings.hash bytes) }
  | .rename path bytes =>
    if ok && !s.disk.isDir path then s.put path (some (.file bytes)) false else s
  | .release path => { s with timers := s.timers ++ [path] }
  | .removePending path => { s with guard := s.guard.removePending path }
  | .forgetFailed path | .forget path => { s with guard := s.guard.forget path }
  | .insertPeerDeleted path => { s with guard := s.guard.insertPeerDeleted path }
  | .fingerprint _ => s
  | .unlink path before =>
    if ok && (s.stamp path = before || unseen) then
      match s.disk path with
      | some (.file _) | some .symlink => s.put path none false
      | some .dir | none => s
    else s

def isResting (s : SyncState η) : Bool := s.work.isNone

def isIdle (s : SyncState η) : Bool := s.pass.isNone && s.walks.isEmpty

def step (s : SyncState η) : SyncEvent η → SyncState η
  | .edit path item => s.put path item true
  | .halt halted => { s with halted }
  | .store entry =>
    if entry.author ≠ author ∧ s.doc.accepts entry then { s with doc := s.doc.store entry } else s
  | .observe k asRemoval again =>
    match s.changes[k]? with
    | none => s
    | some change =>
      if s.isIdle && (change.removed || !asRemoval) then
        { s with
          pass := some (if asRemoval then .removed change.path else .modified change.path)
          changes := if again then s.changes else s.changes.eraseIdx k }
      else s
  | .merge k =>
    match s.changes[k]? with
    | none => s
    | some change =>
      if change.path ∈ (s.changes.eraseIdx k).map Change.path then
        { s with changes := s.changes.eraseIdx k }
      else s
  | .walk path =>
    match s.walks with
    | [] => s
    | dir :: _ =>
      if s.pass.isNone && dir.isPrefixOf path && (s.disk.fileSize path).isSome then
        { s with pass := some (.modified path) }
      else s
  | .endWalk => if s.pass.isNone then { s with walks := s.walks.tail } else s
  | .watch ok =>
    match s.pass with
    | none => s
    | some pass => { s.effect author ok pass with pass := s.next settings ok pass }
  | .createDir path => if s.disk path = none then s.put path (some .dir) false else s
  | .receive path bytes =>
    if s.isResting && receives settings s.disk path bytes.length then
      { s with work := some (.insertPending path bytes) }
    else s
  | .receiveTombstone path =>
    if s.isResting && receives settings s.disk path 0 then { s with work := some (.forget path) }
    else s
  | .apply ok unseen =>
    match s.work with
    | none => s
    | some work => { s.effectWork settings ok unseen work with work := s.nextWork ok work }
  | .fire k =>
    match s.timers[k]? with
    | none => s
    | some path =>
      { s with timers := s.timers.eraseIdx k, guard := s.guard.removePending path }

def start (disk : Disk) (doc : Replica (FixedBytes 32) η) (guard : EchoGuard η) (halted : Bool) :
    SyncState η where
  disk := disk
  stamp := fun _ => 0
  lastLocal := fun _ => false
  doc := doc
  guard := guard
  timers := []
  changes := []
  pass := none
  walks := []
  work := none
  halted := halted
  writes := []

variable {settings author} {s : SyncState η} (ok : Bool) (pass : Pass η)

@[simp] theorem effect_disk :
    (s.effect author ok pass).disk = s.disk := by
  cases pass <;> simp only [effect] <;> (try split) <;> rfl

@[simp] theorem effect_changes :
    (s.effect author ok pass).changes = s.changes := by
  cases pass <;> simp only [effect] <;> (try split) <;> rfl

@[simp] theorem effect_lastLocal :
    (s.effect author ok pass).lastLocal = s.lastLocal := by
  cases pass <;> simp only [effect] <;> (try split) <;> rfl

@[simp] theorem effectWork_pass (unseen : Bool) (work : Work) :
    (s.effectWork settings ok unseen work).pass = s.pass := by
  cases work <;> simp only [effectWork] <;> (repeat' split) <;> rfl

@[simp] theorem effectWork_writes (unseen : Bool) (work : Work) :
    (s.effectWork settings ok unseen work).writes = s.writes := by
  cases work <;> simp only [effectWork] <;> (repeat' split) <;> rfl

inductive Next (settings : Settings η) (s : SyncState η) : Pass η → Pass η → Prop
  | stat (path : Path) (hhalted : s.halted = false) (hcheck : check settings s.disk path = .included) :
      Next settings s (.modified path) (.stat path)
  | hash (path : Path) (hdir : s.disk.isDir path = false)
      (hmode : mode settings path ≠ .readOnly) : Next settings s (.stat path) (.hash path)
  | vanished (path : Path) (hnone : s.disk path = none) :
      Next settings s (.hash path) (.removed path)
  | pendingCheck (path : Path) (bytes : Bytes) (hfile : s.disk path = some (.file bytes)) :
      Next settings s (.hash path) (.pendingCheck path (settings.hash bytes))
  | publishedCheck (path : Path) (hash : η) (hpending : s.guard.pending path = false) :
      Next settings s (.pendingCheck path hash) (.publishedCheck path hash)
  | measure (path : Path) (hash : η) (key : Bytes) (hnew : s.guard.lastPublished path ≠ some hash)
      (hkey : pathToKey settings.filter.unicode path.rel = .ok key) :
      Next settings s (.publishedCheck path hash) (.measure path key)
  | gone (path : Path) (key : Bytes) (hnone : s.disk path = none) :
      Next settings s (.measure path key) (.removed path)
  | snapshot (path : Path) (key bytes : Bytes) (hfile : s.disk path = some (.file bytes))
      (hne : bytes ≠ []) : Next settings s (.measure path key) (.snapshot path key)
  | insert (path : Path) (key bytes : Bytes) (content : Replica.Content η)
      (hfile : s.disk path = some (.file bytes)) (hhash : content.hash = settings.hash bytes) :
      Next settings s (.snapshot path key) (.insert path key content)
  | unmark (path : Path) (key : Bytes) (content : Replica.Content η) :
      Next settings s (.insert path key content) (.unmark path content.hash)
  | record (path : Path) (hash : η) : Next settings s (.unmark path hash) (.record path hash)
  | forget (path : Path) (hmark : s.guard.peerDeleted path = false) :
      Next settings s (.removed path) (.forget path)
  | gate (path : Path) : Next settings s (.forget path) (.gate path)
  | delete (path : Path) (key : Bytes) (hkey : removalKey settings s.halted s.disk path = some key) :
      Next settings s (.gate path) (.delete path key)

theorem next_eq_some {ok : Bool} {pass pass' : Pass η} (h : s.next settings ok pass = some pass') :
    Next settings s pass pass' := by
  cases pass with
  | modified path =>
    simp only [next] at h
    split at h
    · cases h
    · split at h <;> cases h
      exact .stat path (Bool.eq_false_of_not_eq_true ‹_›) ‹_›
  | stat path =>
    simp only [next] at h
    split at h <;> cases h
    rename_i hgo
    obtain ⟨hdir, hmode⟩ : s.disk.isDir path = false ∧ mode settings path ≠ .readOnly := by
      simpa using hgo
    exact .hash path hdir hmode
  | hash path =>
    simp only [next] at h
    split at h
    · split at h <;> cases h
      exact .vanished path ‹_›
    · split at h <;> cases h
      exact .pendingCheck path _ ‹_›
    · cases h
    · cases h
  | pendingCheck path hash =>
    simp only [next] at h
    split at h <;> cases h
    exact .publishedCheck path hash (Bool.eq_false_of_not_eq_true ‹_›)
  | publishedCheck path hash =>
    simp only [next] at h
    split at h
    · cases h
    · obtain ⟨key, hkey, rfl⟩ := Option.map_eq_some_iff.mp h
      exact .measure path hash key ‹_› (eq_ok_of_mem_toOption hkey)
  | measure path key =>
    simp only [next] at h
    split at h
    · split at h <;> cases h
      exact .gone path key ‹_›
    · split at h <;> cases h
      exact .snapshot path key _ ‹_› ‹_›
    · cases h
    · cases h
  | snapshot path key =>
    simp only [next] at h
    split at h
    · obtain ⟨entry, hentry, rfl⟩ := Option.map_eq_some_iff.mp h
      exact .insert path key _ entry.2 ‹_› (publishFileStreaming_entry.mp hentry).2.2.2.1
    · cases h
    · cases h
    · cases h
  | insert path key content =>
    simp only [next] at h
    split at h <;> cases h
    exact .unmark path key content
  | unmark path hash =>
    cases h
    exact .record path hash
  | record path hash => cases h
  | removed path =>
    simp only [next] at h
    split at h <;> cases h
    exact .forget path (Bool.eq_false_of_not_eq_true ‹_›)
  | forget path =>
    cases h
    exact .gate path
  | gate path =>
    simp only [next] at h
    obtain ⟨key, hkey, rfl⟩ := Option.map_eq_some_iff.mp h
    exact .delete path key hkey
  | delete path key => cases h

theorem Next.path {pass pass' : Pass η} (h : Next settings s pass pass') :
    pass'.path = pass.path := by
  cases h <;> rfl

inductive Moved (settings : Settings η) (author : FixedBytes 32) (s : SyncState η) :
    SyncEvent η → SyncState η → Prop
  | nothing (e : SyncEvent η) : Moved settings author s e s
  | edit (path : Path) (item : Option Item) :
      Moved settings author s (.edit path item) (s.put path item true)
  | halt (halted : Bool) : Moved settings author s (.halt halted) { s with halted }
  | store (entry : Entry η) (hauthor : entry.author ≠ author) :
      Moved settings author s (.store entry) { s with doc := s.doc.store entry }
  | observe (k : ℕ) (change : Change) (asRemoval again : Bool) (hidle : s.isIdle = true)
      (hk : s.changes[k]? = some change) (hkind : asRemoval = true → change.removed = true) :
      Moved settings author s (.observe k asRemoval again)
        { s with
          pass := some (if asRemoval then .removed change.path else .modified change.path)
          changes := if again then s.changes else s.changes.eraseIdx k }
  | merge (k : ℕ) (change : Change) (hk : s.changes[k]? = some change)
      (hother : change.path ∈ (s.changes.eraseIdx k).map Change.path) :
      Moved settings author s (.merge k) { s with changes := s.changes.eraseIdx k }
  | walk (path : Path) (hpass : s.pass = none) (hfile : (s.disk.fileSize path).isSome = true) :
      Moved settings author s (.walk path) { s with pass := some (.modified path) }
  | endWalk (hpass : s.pass = none) :
      Moved settings author s .endWalk { s with walks := s.walks.tail }
  | watch (ok : Bool) (pass : Pass η) (hpass : s.pass = some pass) :
      Moved settings author s (.watch ok)
        { s.effect author ok pass with pass := s.next settings ok pass }
  | createDir (path : Path) (hnone : s.disk path = none) :
      Moved settings author s (.createDir path) (s.put path (some .dir) false)
  | receive (path : Path) (bytes : Bytes) (hwork : s.work = none)
      (hreceives : receives settings s.disk path bytes.length = true) :
      Moved settings author s (.receive path bytes) { s with work := some (.insertPending path bytes) }
  | receiveTombstone (path : Path) (hwork : s.work = none)
      (hreceives : receives settings s.disk path 0 = true) :
      Moved settings author s (.receiveTombstone path) { s with work := some (.forget path) }
  | apply (ok unseen : Bool) (work : Work) (hwork : s.work = some work) :
      Moved settings author s (.apply ok unseen)
        { s.effectWork settings ok unseen work with work := s.nextWork ok work }
  | fire (k : ℕ) (path : Path) (hk : s.timers[k]? = some path) :
      Moved settings author s (.fire k)
        { s with timers := s.timers.eraseIdx k, guard := s.guard.removePending path }

theorem step_moved (s : SyncState η) (e : SyncEvent η) :
    Moved settings author s e (s.step settings author e) := by
  cases e with
  | edit path item => exact .edit path item
  | halt halted => exact .halt halted
  | store entry =>
    simp only [step]
    split
    · rename_i h
      exact .store entry h.1
    · exact .nothing _
  | observe k asRemoval again =>
    simp only [step]
    split
    · exact .nothing _
    rename_i change hk
    split
    · rename_i h
      simp only [Bool.and_eq_true, Bool.or_eq_true, Bool.not_eq_true'] at h
      refine .observe k change asRemoval again h.1 hk fun hremoval => ?_
      exact h.2.resolve_right (by simp [hremoval])
    · exact .nothing _
  | merge k =>
    simp only [step]
    split
    · exact .nothing _
    · rename_i change hk
      split
      · rename_i h
        exact .merge k change hk h
      · exact .nothing _
  | walk path =>
    simp only [step]
    split
    · exact .nothing _
    · split
      · rename_i h
        simp only [Bool.and_eq_true, Option.isNone_iff_eq_none] at h
        exact .walk path h.1.1 h.2
      · exact .nothing _
  | endWalk =>
    simp only [step]
    split
    · rename_i h
      exact .endWalk (Option.isNone_iff_eq_none.mp h)
    · exact .nothing _
  | watch ok =>
    simp only [step]
    split
    · exact .nothing _
    · rename_i pass hpass
      exact .watch ok pass hpass
  | createDir path =>
    simp only [step]
    split
    · rename_i h
      exact .createDir path h
    · exact .nothing _
  | receive path bytes =>
    simp only [step]
    split
    · rename_i h
      simp only [isResting, Bool.and_eq_true, Option.isNone_iff_eq_none] at h
      exact .receive path bytes h.1 h.2
    · exact .nothing _
  | receiveTombstone path =>
    simp only [step]
    split
    · rename_i h
      simp only [isResting, Bool.and_eq_true, Option.isNone_iff_eq_none] at h
      exact .receiveTombstone path h.1 h.2
    · exact .nothing _
  | apply ok unseen =>
    simp only [step]
    split
    · exact .nothing _
    · rename_i work hwork
      exact .apply ok unseen work hwork
  | fire k =>
    simp only [step]
    split
    · exact .nothing _
    · rename_i path hk
      exact .fire k path hk

end

end SyncState

end Artel.Fs
