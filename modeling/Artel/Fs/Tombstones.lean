import Artel.Fs.Watcher

namespace Artel.Fs

open List

def Pass.isRemoval {η : Type} : Pass η → Bool
  | .removed _ | .forget _ | .gate _ | .delete _ _ => true
  | .modified _ | .stat _ | .hash _ | .pendingCheck _ _ | .publishedCheck _ _ | .measure _ _
  | .snapshot _ _ | .insert _ _ _ | .unmark _ _ | .record _ _ => false

namespace SyncState

variable {η : Type} [DecidableEq η]

/-- A removal that the watcher has yet to take up, or has not done with. -/
def Unhandled (s : SyncState η) (path : Path) : Prop :=
  (∃ c ∈ s.changes, c.path = path ∧ c.removed = true) ∨
    ∃ pass, s.pass = some pass ∧ pass.path = path ∧ pass.isRemoval = true

def creates (s : SyncState η) : SyncEvent η → Option Path
  | .edit path (some _) => some path
  | .createDir path => some path
  | .apply _ _ =>
    match s.work with
    | some (.rename path _) => some path
    | _ => none
  | _ => none

def NoRecreation (s : SyncState η) (e : SyncEvent η) : Prop :=
  ∀ path, s.creates e = some path → ¬s.Unhandled path

structure Gone (s : SyncState η) : Prop where
  absent : ∀ path, s.Unhandled path → s.disk path = none
  writes : ∀ w ∈ s.writes, w.content = none → w.existed = false

variable {settings : Settings η} {author : FixedBytes 32} {s : SyncState η}

theorem Gone.put (h : Gone s) {path : Path} {item : Option Item} {isLocal : Bool}
    (hitem : item.isSome = true → ¬s.Unhandled path) : Gone (s.put path item isLocal) := by
  refine ⟨fun other hother => ?_, h.writes⟩
  show s.disk.set path item other = none
  by_cases hpath : other = path
  · subst hpath
    rw [Disk.set_self]
    cases item with
    | none => rfl
    | some item =>
      -- the change that is put is not a removal, so an earlier one is unhandled
      refine absurd ?_ (hitem rfl)
      obtain ⟨c, hc, hcpath, hremoved⟩ | hpass := hother
      · obtain hc | hc := mem_append.mp hc
        · exact .inl ⟨c, hc, hcpath, hremoved⟩
        · rw [mem_singleton.mp hc] at hremoved
          cases hremoved
      · exact .inr hpass
  · rw [Disk.set_of_ne hpath]
    refine h.absent other ?_
    obtain ⟨c, hc, hcpath, hremoved⟩ | hpass := hother
    · obtain hc | hc := mem_append.mp hc
      · exact .inl ⟨c, hc, hcpath, hremoved⟩
      · rw [mem_singleton.mp hc] at hcpath
        exact absurd hcpath.symm hpath
    · exact .inr hpass

theorem Gone.of_unhandled {s' : SyncState η} (h : Gone s) (hdisk : s'.disk = s.disk)
    (hwrites : s'.writes = s.writes) (hunhandled : ∀ path, s'.Unhandled path → s.Unhandled path) :
    Gone s' := by
  refine ⟨fun path hpath => ?_, ?_⟩
  · rw [hdisk]
    exact h.absent path (hunhandled path hpath)
  · rw [hwrites]
    exact h.writes

theorem Next.isRemoval {pass pass' : Pass η} (h : Next settings s pass pass')
    (hremoval : pass'.isRemoval = true) : pass.isRemoval = true ∨ s.disk pass.path = none := by
  cases h with
  | vanished path hnone => exact .inr hnone
  | gone path key hnone => exact .inr hnone
  | forget => exact .inl rfl
  | gate => exact .inl rfl
  | delete => exact .inl rfl
  | _ => cases hremoval

theorem Gone.watch (h : Gone s) (ok : Bool) {pass : Pass η} (hpass : s.pass = some pass) :
    Gone { s.effect author ok pass with pass := s.next settings ok pass } := by
  refine ⟨fun path hpath => ?_, ?_⟩
  · show (s.effect author ok pass).disk path = none
    rw [effect_disk]
    obtain ⟨c, hc, hcpath⟩ | ⟨pass', hpass', rfl, hremoval⟩ := hpath
    · have hc' : c ∈ s.changes := by simpa using hc
      exact h.absent path (.inl ⟨c, hc', hcpath⟩)
    · have hnext : Next settings s pass pass' := next_eq_some hpass'
      rw [hnext.path]
      obtain hbefore | hnone := hnext.isRemoval hremoval
      · exact h.absent _ (.inr ⟨pass, hpass, rfl, hbefore⟩)
      · exact hnone
  · show ∀ w ∈ (s.effect author ok pass).writes, w.content = none → w.existed = false
    cases pass with
    | insert path key content =>
      simp only [effect]
      split
      · simpa [or_imp, forall_and] using h.writes
      · exact h.writes
    | delete path key =>
      have habsent : s.disk path = none := h.absent path (.inr ⟨_, hpass, rfl, rfl⟩)
      simp only [effect]
      split
      · simpa [habsent, or_imp, forall_and] using h.writes
      · exact h.writes
    | stat path =>
      simp only [effect]
      split <;> exact h.writes
    | _ => exact h.writes

theorem Gone.effectWork (h : Gone s) (ok unseen : Bool) {work : Work} (hwork : s.work = some work)
    (hrecreation : NoRecreation s (.apply ok unseen)) : Gone (s.effectWork settings ok unseen work) := by
  cases work with
  | rename path bytes =>
    simp only [SyncState.effectWork]
    split
    · exact h.put fun _ => hrecreation path (by simp [creates, hwork])
    · exact h
  | unlink path before =>
    simp only [SyncState.effectWork]
    split
    · split
      · exact h.put fun hitem => by cases hitem
      · exact h.put fun hitem => by cases hitem
      · exact h
      · exact h
    · exact h
  | _ => exact h.of_unhandled rfl rfl fun _ => id

theorem Gone.moved {e : SyncEvent η} {s' : SyncState η} (h : Gone s)
    (hrecreation : NoRecreation s e) (hmoved : Moved settings author s e s') : Gone s' := by
  cases hmoved with
  | nothing => exact h
  | edit path item =>
    refine h.put fun hitem => ?_
    obtain ⟨item, rfl⟩ := Option.isSome_iff_exists.mp hitem
    exact hrecreation path rfl
  | observe k change asRemoval again hidle hk hkind =>
    have hin := mem_of_getElem? hk
    refine h.of_unhandled rfl rfl fun path hpath => ?_
    obtain ⟨c, hc, hcpath⟩ | ⟨pass, hpass', rfl, hremoval⟩ := hpath
    · refine .inl ⟨c, ?_, hcpath⟩
      cases again with
      | true => exact hc
      | false => exact mem_of_mem_eraseIdx hc
    · obtain rfl := Option.some.inj hpass'
      cases asRemoval with
      | true => exact .inl ⟨change, hin, rfl, hkind rfl⟩
      | false => cases hremoval
  | merge k change hk hother =>
    refine h.of_unhandled rfl rfl fun path hpath => ?_
    obtain ⟨c, hc, hcpath⟩ | hpass' := hpath
    · exact .inl ⟨c, mem_of_mem_eraseIdx hc, hcpath⟩
    · exact .inr hpass'
  | walk path hnone hfile =>
    refine h.of_unhandled rfl rfl fun other hother => ?_
    obtain hchange | ⟨pass, hpass', -, hremoval⟩ := hother
    · exact .inl hchange
    · obtain rfl := Option.some.inj hpass'
      cases hremoval
  | watch ok pass hpass' => exact h.watch ok hpass'
  | createDir path hnone => exact h.put fun _ => hrecreation path rfl
  | apply ok unseen work hwork =>
    exact (h.effectWork ok unseen hwork hrecreation).of_unhandled rfl rfl fun _ => id
  | _ => exact h.of_unhandled rfl rfl fun _ => id

end SyncState

open SyncState in
/-- If nothing is put where a removal is not handled, tombstones are of absent paths. -/
theorem tombstones_are_of_absent_paths {η : Type} [DecidableEq η] (settings : Settings η)
    (author : FixedBytes 32) (disk : Disk) (doc : Replica (FixedBytes 32) η) (guard : EchoGuard η)
    (halted : Bool) (es : List (SyncEvent η))
    (h : Along (step settings author) NoRecreation (start disk doc guard halted) es) :
    ∀ w ∈ (es.foldl (step settings author) (start disk doc guard halted)).writes,
      w.content = none → w.existed = false := by
  have hstart : Gone (start disk doc guard halted) := by
    refine ⟨fun path hpath => ?_, nofun⟩
    obtain ⟨c, hc, -⟩ | ⟨pass, hpass, -⟩ := hpath
    · cases hc
    · cases hpass
  exact (h.invariant (fun s e hs he => hs.moved he (step_moved s e)) hstart).writes

namespace Sample

open Workspace.Sample SyncState

def oneFile : SyncState Bytes :=
  start (fun path => if path = [[97]] then some (.file [1]) else none) ⟨[fileEntry 0 [97] 1 0], 1⟩
    (EchoGuard.new.recordLocalPublish [[97]] [1]) false

def run (s : SyncState Bytes) (es : List (SyncEvent Bytes)) : SyncState Bytes :=
  es.foldl (step (settings .readWrite) (endpoint 0).bytes) s

/-- The watcher takes up the first change as a removal and sees it through. -/
def removalPass : List (SyncEvent Bytes) :=
  [.observe 0 true false, .watch true, .watch true, .watch true, .watch true]

theorem tombstones_are_of_absent_paths_removed :
    (run oneFile (.edit [[97]] none :: removalPass)).writes.map Write.content = [none] ∧
    ∀ w ∈ (run oneFile (.edit [[97]] none :: removalPass)).writes,
      w.content = none → w.existed = false := by
  refine ⟨by decide +kernel, tombstones_are_of_absent_paths _ _ _ _ _ _ _ ?_⟩
  refine Along.imp (C := fun _ e => ∀ s : SyncState Bytes, s.creates e = none)
    (Along.of_mem ?_) fun s e h path hpath => ?_
  · intro e he s
    simp only [removalPass, mem_cons, not_mem_nil, or_false] at he
    obtain rfl | rfl | rfl | rfl | rfl | rfl := he <;> rfl
  · simp [h s] at hpath

/-- The file is written again before its removal is looked at. -/
theorem tombstone_of_existing_path :
    (run oneFile (.edit [[97]] none :: .edit [[97]] (some (.file [2])) :: removalPass)).writes.map
      (fun w => (w.path, w.content, w.existed)) = [([[97]], none, true)] := by
  decide +kernel

end Sample

end Artel.Fs
