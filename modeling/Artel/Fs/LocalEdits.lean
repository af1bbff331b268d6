import Artel.Fs.Echo

namespace Artel.Fs

namespace SyncState

variable {η : Type} (settings : Settings η) (author : FixedBytes 32) (path : Path) (key : Bytes)

def ownContent (s : SyncState η) : Option (Replica.Content η) :=
  (s.doc.own author key).bind Replica.Entry.content

def ownHash (s : SyncState η) : Option η := (s.ownContent author key).map Replica.Content.hash

/-- The node's own entry has the content of the file, and none if there is no file. -/
def Published (s : SyncState η) : Prop :=
  match s.disk path with
  | some (.file bytes) => bytes ≠ [] → s.ownHash author key = some (settings.hash bytes)
  | none => s.ownContent author key = none
  | some .dir | some .symlink => True

/-- A pass over the path can publish it, and one elsewhere leaves its key. -/
def HeardPass (s : SyncState η) (ok : Bool) : Pass η → Prop
  | .modified other =>
    other = path → s.halted = false ∧ check settings s.disk path = .included
  | .hash other => other = path → ok = true ∧ s.disk.blocked path = false
  | .pendingCheck other _ => other = path → s.guard.pending path = false
  | .publishedCheck other hash =>
    other = path → s.guard.lastPublished path = some hash → s.ownHash author key = some hash
  | .snapshot other _ => other = path → ok = true
  | .insert other other' _ => (other = path → ok = true) ∧ (other ≠ path → other' ≠ key)
  | .removed other =>
    other = path → s.disk path = none ∧
      (s.guard.peerDeleted path = true → s.ownContent author key = none)
  | .gate other => other = path → removalKey settings s.halted s.disk path = some key
  | .delete other other' =>
    (other = path → ok = true ∧ s.disk path = none) ∧ (other ≠ path → ¬other' <+: key)
  | .stat _ | .measure _ _ | .unmark _ _ | .record _ _ | .forget _ => True

/-- The user was the last to change the path, and the watcher has taken it up. -/
def TakenUp (s : SyncState η) : Prop := s.lastLocal path = true ∧ ∀ c ∈ s.changes, c.path ≠ path

/-- The watcher hears of a change by the user that it has taken up. -/
def Heard (s : SyncState η) : SyncEvent η → Prop
  | .watch ok => TakenUp path s → ∀ pass ∈ s.pass, HeardPass settings author path key s ok pass
  | .edit _ _ | .halt _ | .store _ | .observe _ _ _ | .merge _ | .walk _ | .endWalk | .createDir _
  | .receive _ _ | .receiveTombstone _ | .apply _ _ | .fire _ => True

def WithinCap (s : SyncState η) : Prop :=
  ∀ bytes cap, s.disk path = some (.file bytes) → settings.filter.maxFileSize = some cap →
    bytes.length ≤ cap

def Fresh (s : SyncState η) : Pass η → Prop
  | .modified _ | .removed _ => True
  | .stat _ | .hash _ => WithinCap settings path s
  | .pendingCheck _ hash | .publishedCheck _ hash =>
    WithinCap settings path s ∧ ∃ bytes, s.disk path = some (.file bytes) ∧ hash = settings.hash bytes
  | .measure _ other =>
    WithinCap settings path s ∧ other = key ∧ ∃ bytes, s.disk path = some (.file bytes)
  | .snapshot _ other =>
    WithinCap settings path s ∧ other = key ∧ ∃ bytes, s.disk path = some (.file bytes) ∧ bytes ≠ []
  | .insert _ other content =>
    other = key ∧ ∃ bytes, s.disk path = some (.file bytes) ∧ content.hash = settings.hash bytes
  | .unmark _ _ | .record _ _ => Published settings author path key s
  | .forget _ | .gate _ => s.disk path = none
  | .delete _ other => other = key ∧ s.disk path = none

/-- A change by the user waits for the watcher, is being looked at, or is published. -/
def Attended (s : SyncState η) : Prop :=
  s.lastLocal path = true →
    (∃ c ∈ s.changes, c.path = path) ∨
    ((∀ pass ∈ s.pass, pass.path = path → Fresh settings author path key s pass) ∧
      ((∃ pass ∈ s.pass, pass.path = path) ∨ Published settings author path key s))

variable {settings author path key} {s s' : SyncState η}

theorem Published.of_eq (hdisk : s'.disk path = s.disk path)
    (hown : s'.doc.own author key = s.doc.own author key)
    (h : Published settings author path key s) : Published settings author path key s' := by
  simpa only [Published, ownHash, ownContent, hdisk, hown] using h

theorem Fresh.of_eq {pass : Pass η} (hdisk : s'.disk path = s.disk path)
    (hown : s'.doc.own author key = s.doc.own author key)
    (h : Fresh settings author path key s pass) : Fresh settings author path key s' pass := by
  have hpublished : Published settings author path key s →
      Published settings author path key s' :=
    Published.of_eq hdisk hown
  cases pass <;> simp only [Fresh, WithinCap, hdisk] at h ⊢ <;> tauto

theorem Attended.of_eq (h : Attended settings author path key s)
    (hdisk : s'.disk path = s.disk path) (hown : s'.doc.own author key = s.doc.own author key)
    (hlocal : s'.lastLocal path = s.lastLocal path) (hpass : s'.pass = s.pass)
    (hchanges : ∀ c ∈ s.changes, c.path = path → ∃ c' ∈ s'.changes, c'.path = path) :
    Attended settings author path key s' := by
  intro hlast
  rw [hlocal] at hlast
  rw [hpass]
  obtain ⟨c, hc, hpath⟩ | ⟨hfresh, hseen⟩ := h hlast
  · exact .inl (hchanges c hc hpath)
  · refine .inr ⟨fun pass hin hpath => (hfresh pass hin hpath).of_eq hdisk hown, ?_⟩
    exact hseen.imp_right (Published.of_eq hdisk hown)

theorem Attended.put (item : Option Item) (isLocal : Bool) (target : Path)
    (h : Attended settings author path key s) :
    Attended settings author path key (s.put target item isLocal) := by
  by_cases htarget : path = target
  · subst htarget
    intro _
    exact .inl ⟨⟨path, item.isNone⟩, List.mem_append_right _ (List.mem_singleton_self _), rfl⟩
  · refine h.of_eq (Disk.set_of_ne htarget) rfl (Function.update_of_ne htarget ..) rfl ?_
    exact fun c hc hpath => ⟨c, List.mem_append_left _ hc, hpath⟩

theorem published_of_none (hdisk : s.disk path = none) (hown : s.ownContent author key = none) :
    Published settings author path key s := by
  simpa only [Published, hdisk] using hown

theorem published_of_file {bytes : Bytes} (hdisk : s.disk path = some (.file bytes))
    (hown : bytes ≠ [] → s.ownHash author key = some (settings.hash bytes)) :
    Published settings author path key s := by
  simpa only [Published, hdisk] using hown

theorem own_effect {ok : Bool} {pass : Pass η} (hpath : pass.path ≠ path)
    (hheard : HeardPass settings author path key s ok pass) :
    (s.effect author ok pass).doc.own author key = s.doc.own author key := by
  cases pass with
  | insert other other' content =>
    have hne : key ≠ other' := fun heq => hheard.2 hpath heq.symm
    simp only [effect]
    split
    · exact Replica.own_setHash_of_ne hne
    · rfl
  | delete other other' =>
    simp only [effect]
    split
    · exact Replica.own_del_of_not_prefix (hheard.2 hpath)
    · rfl
  | stat other =>
    simp only [effect]
    split <;> rfl
  | _ => rfl

theorem exists_change_eraseIdx {changes : List Change} {k : ℕ} {change : Change}
    (hk : changes[k]? = some change)
    (hother : change.path = path → ∃ c ∈ changes.eraseIdx k, c.path = path)
    (h : ∃ c ∈ changes, c.path = path) : ∃ c ∈ changes.eraseIdx k, c.path = path := by
  obtain ⟨c, hc, hpath⟩ := h
  obtain rfl | hrest := eq_or_mem_eraseIdx hk hc
  · exact hother hpath
  · exact ⟨c, hrest, hpath⟩

theorem Attended.takeUp {pass : Pass η} {changes : List Change}
    (h : Attended settings author path key s) (hnone : s.pass = none)
    (hnew : Fresh settings author path key s pass)
    (hwaits : pass.path ≠ path → (∃ c ∈ s.changes, c.path = path) → ∃ c ∈ changes, c.path = path) :
    Attended settings author path key { s with pass := some pass, changes := changes } := by
  intro hlast
  by_cases hpath : pass.path = path
  · refine .inr ⟨?_, .inl ⟨pass, rfl, hpath⟩⟩
    rintro _ ⟨⟩ -
    exact hnew.of_eq rfl rfl
  obtain hwaiting | ⟨-, hseen⟩ := h hlast
  · exact .inl (hwaits hpath hwaiting)
  · have hpublished := hseen.resolve_left (by simp [hnone])
    refine .inr ⟨?_, .inr (hpublished.of_eq rfl rfl)⟩
    rintro _ ⟨⟩ hpath'
    exact absurd hpath' hpath

theorem Attended.effectWork {ok unseen : Bool} {work : Work}
    (h : Attended settings author path key s) :
    Attended settings author path key (s.effectWork settings ok unseen work) := by
  cases work with
  | rename target bytes =>
    simp only [SyncState.effectWork]
    split
    · exact h.put _ _ _
    · exact h
  | unlink target before =>
    simp only [SyncState.effectWork]
    split
    · split
      · exact h.put _ _ _
      · exact h.put _ _ _
      · exact h
      · exact h
    · exact h
  | _ => exact h.of_eq rfl rfl rfl rfl fun c hc hpath => ⟨c, hc, hpath⟩

section

variable [DecidableEq η]

theorem Fresh.next {ok : Bool} {pass pass' : Pass η}
    (hkey : pathToKey settings.filter.unicode path.rel = .ok key) (hpath : pass.path = path)
    (h : Fresh settings author path key s pass)
    (hheard : HeardPass settings author path key s ok pass) (hnext : Next settings s pass pass') :
    Fresh settings author path key (s.effect author ok pass) pass' := by
  subst hpath
  cases hnext with
  | stat path hhalted hcheck =>
    intro bytes cap hfile hmax
    obtain ⟨-, -, -, hcap⟩ := WorkspaceFilter.check_eq_included.mp hcheck
    have hfile : s.disk path = some (.file bytes) := hfile
    exact hcap cap hmax _ (by simp [Disk.fileSize, hfile])
  | hash path hdir hmode =>
    have hcap : WithinCap settings path s := h
    intro bytes cap hfile
    exact hcap bytes cap (by simpa [Pass.path] using hfile)
  | vanished => trivial
  | pendingCheck path bytes hfile => exact ⟨h, bytes, hfile, rfl⟩
  | publishedCheck => exact h
  | measure path hash other hnew hother =>
    obtain ⟨hcap, bytes, hfile, -⟩ := h
    exact ⟨hcap, Except.ok.inj (hother.symm.trans hkey), bytes, hfile⟩
  | gone => trivial
  | snapshot path other bytes hfile hne => exact ⟨h.1, h.2.1, bytes, hfile, hne⟩
  | insert path other bytes content hfile hhash => exact ⟨h.2.1, bytes, hfile, hhash⟩
  | unmark path other content =>
    obtain ⟨rfl, bytes, hfile, hhash⟩ := h
    have hok : ok = true := hheard.1 rfl
    simp only [effect, hok, if_true]
    refine published_of_file hfile fun _ => ?_
    simp only [ownHash, ownContent, Replica.own_setHash_self]
    simp [hhash]
  | record => exact Published.of_eq rfl rfl h
  | forget => exact (hheard rfl).1
  | gate => exact h
  | delete path other hother =>
    exact ⟨Option.some.inj (hother.symm.trans (hheard rfl)), h⟩

theorem Fresh.ends {ok : Bool} {pass : Pass η} (hne : path ≠ [])
    (hmode : mode settings path ≠ .readOnly)
    (hkey : pathToKey settings.filter.unicode path.rel = .ok key) (hpath : pass.path = path)
    (h : Fresh settings author path key s pass)
    (hheard : HeardPass settings author path key s ok pass) (hend : s.next settings ok pass = none) :
    Published settings author path key (s.effect author ok pass) := by
  subst hpath
  cases pass with
  | modified path =>
    obtain ⟨hhalted, hcheck⟩ : s.halted = false ∧ check settings s.disk path = .included := hheard rfl
    simp [SyncState.next, hhalted, hcheck] at hend
  | stat path =>
    have hne : path ≠ [] := hne
    have hmode : mode settings path ≠ .readOnly := hmode
    have hdir : s.disk path = some .dir := by
      simpa [SyncState.next, Disk.isDir, hmode, hne] using hend
    simp [Published, Pass.path, hdir]
  | hash path =>
    obtain ⟨hok, hblocked⟩ : ok = true ∧ s.disk.blocked path = false := hheard rfl
    simp only [SyncState.next] at hend
    split at hend
    · simp [hblocked] at hend
    · simp [hok] at hend
    · simp [Published, Pass.path, effect, *]
    · simp [Published, Pass.path, effect, *]
  | pendingCheck path hash =>
    have hpending : s.guard.pending path = false := hheard rfl
    simp [SyncState.next, hpending] at hend
  | publishedCheck path hash =>
    have hkey : pathToKey settings.filter.unicode path.rel = .ok key := hkey
    obtain ⟨-, bytes, hfile, hhash⟩ := h
    simp only [SyncState.next, hkey] at hend
    split at hend
    · rename_i hlast
      exact published_of_file hfile fun _ => by rw [← hhash]; exact hheard rfl hlast
    · simp [Except.toOption] at hend
  | measure path other =>
    obtain ⟨-, -, bytes, hfile⟩ := h
    have hfile : s.disk path = some (.file bytes) := hfile
    simp only [SyncState.next, hfile] at hend
    split at hend
    · rename_i hempty
      exact published_of_file hfile fun hne => absurd hempty hne
    · cases hend
  | snapshot path other =>
    obtain ⟨hcap, -, bytes, hfile, hbytes⟩ := h
    have hfile : s.disk path = some (.file bytes) := hfile
    have hpos : 0 < bytes.length := List.length_pos_iff.mpr hbytes
    have hsize : settings.filter.maxFileSize.any (· < bytes.length) = false := by
      cases hmax : settings.filter.maxFileSize with
      | none => rfl
      | some cap => simpa using hcap bytes cap hfile hmax
    simp [SyncState.next, hfile, publishFileStreaming, hpos, hsize, hheard rfl, FileOutcome.entry] at hend
  | insert path other content => simp [SyncState.next, hheard.1 rfl] at hend
  | unmark path hash => cases hend
  | record path hash => exact Published.of_eq rfl rfl h
  | removed path =>
    obtain ⟨hnone, hown⟩ := hheard rfl
    simp only [SyncState.next] at hend
    split at hend
    · exact published_of_none hnone (hown ‹_›)
    · cases hend
  | forget path => cases hend
  | gate path =>
    have hremoval : removalKey settings s.halted s.disk path = some key := hheard rfl
    simp [SyncState.next, hremoval] at hend
  | delete path other =>
    obtain ⟨rfl, hnone⟩ := h
    have hok : ok = true := (hheard.1 rfl).1
    simp only [effect, hok, if_true]
    refine published_of_none hnone ?_
    simp only [ownContent, Replica.own_del_self, Option.bind_some]

theorem Attended.watch {ok : Bool} {pass : Pass η} (hne : path ≠ [])
    (hmode : mode settings path ≠ .readOnly)
    (hkey : pathToKey settings.filter.unicode path.rel = .ok key)
    (h : Attended settings author path key s) (hpass : s.pass = some pass)
    (hheard : TakenUp path s → HeardPass settings author path key s ok pass) :
    Attended settings author path key
      { s.effect author ok pass with pass := s.next settings ok pass } := by
  intro hlast
  have hlast : s.lastLocal path = true := by simpa using hlast
  by_cases hwaits : ∃ c ∈ s.changes, c.path = path
  · exact .inl (by simpa using hwaits)
  have hheard := hheard ⟨hlast, by simpa using hwaits⟩
  obtain ⟨hfresh, hseen⟩ := (h hlast).resolve_left hwaits
  by_cases hpath : pass.path = path
  · have hfresh := hfresh pass hpass hpath
    cases hnext : s.next settings ok pass with
    | none =>
      refine .inr ⟨nofun, .inr ?_⟩
      exact Published.of_eq rfl rfl (hfresh.ends hne hmode hkey hpath hheard hnext)
    | some pass' =>
      have hnext := next_eq_some hnext
      refine .inr ⟨?_, .inl ⟨pass', rfl, hnext.path.trans hpath⟩⟩
      rintro _ ⟨⟩ -
      exact (hfresh.next hkey hpath hheard hnext).of_eq rfl rfl
  · have hpublished := hseen.resolve_left (by
      rintro ⟨pass', hpass', hpath'⟩
      obtain rfl := Option.some.inj (hpass.symm.trans hpass')
      exact hpath hpath')
    refine .inr ⟨fun pass' hpass' hpath' => ?_, .inr ?_⟩
    · exact absurd ((next_eq_some hpass').path.symm.trans hpath') hpath
    · refine hpublished.of_eq ?_ (own_effect hpath hheard)
      exact congrFun (effect_disk ok pass) path

theorem Attended.moved {e : SyncEvent η} (hne : path ≠ []) (hmode : mode settings path ≠ .readOnly)
    (hkey : pathToKey settings.filter.unicode path.rel = .ok key)
    (h : Attended settings author path key s) (hheard : Heard settings author path key s e)
    (hmoved : Moved settings author s e s') : Attended settings author path key s' := by
  have hstays : ∀ c ∈ s.changes, c.path = path → ∃ c' ∈ s.changes, c'.path = path :=
    fun c hc hpath => ⟨c, hc, hpath⟩
  cases hmoved with
  | nothing => exact h
  | edit target item => exact h.put item true target
  | store entry hauthor => exact h.of_eq rfl (Replica.own_store_of_ne hauthor) rfl rfl hstays
  | observe k change asRemoval again hidle hk =>
    have hnone : s.pass = none := by
      simp only [isIdle, Bool.and_eq_true, Option.isNone_iff_eq_none] at hidle
      exact hidle.1
    refine h.takeUp hnone ?_ fun hpath hwaits => ?_
    · cases asRemoval <;> trivial
    · have hchange : change.path ≠ path := by cases asRemoval <;> exact hpath
      cases again with
      | true => exact hwaits
      | false => exact exists_change_eraseIdx hk (fun heq => absurd heq hchange) hwaits
  | merge k change hk hother =>
    refine h.of_eq rfl rfl rfl rfl fun c hc hpath => ?_
    refine exists_change_eraseIdx hk (fun hchange => ?_) ⟨c, hc, hpath⟩
    obtain ⟨c', hc', hpath'⟩ := List.mem_map.mp hother
    exact ⟨c', hc', hpath'.trans hchange⟩
  | walk target hpass hfile => exact h.takeUp hpass trivial fun _ => id
  | watch ok pass hpass => exact h.watch hne hmode hkey hpass fun htaken => hheard htaken pass hpass
  | createDir target hnone => exact h.put _ _ _
  | apply ok unseen work hwork =>
    have h : Attended settings author path key (s.effectWork settings ok unseen work) := h.effectWork
    exact h.of_eq rfl rfl rfl rfl fun c hc hpath => ⟨c, hc, hpath⟩
  | _ => exact h.of_eq rfl rfl rfl rfl hstays

end

instance decidableHeardPass [DecidableEq η] (s : SyncState η) (ok : Bool) :
    (pass : Pass η) → Decidable (HeardPass settings author path key s ok pass)
  | .modified other =>
    inferInstanceAs (Decidable (other = path → s.halted = false ∧ check settings s.disk path = .included))
  | .hash other =>
    inferInstanceAs (Decidable (other = path → ok = true ∧ s.disk.blocked path = false))
  | .pendingCheck other _ => inferInstanceAs (Decidable (other = path → s.guard.pending path = false))
  | .publishedCheck other hash =>
    inferInstanceAs (Decidable (other = path → s.guard.lastPublished path = some hash →
      s.ownHash author key = some hash))
  | .snapshot other _ => inferInstanceAs (Decidable (other = path → ok = true))
  | .insert other other' _ =>
    inferInstanceAs (Decidable ((other = path → ok = true) ∧ (other ≠ path → other' ≠ key)))
  | .removed other =>
    inferInstanceAs (Decidable (other = path → s.disk path = none ∧
      (s.guard.peerDeleted path = true → s.ownContent author key = none)))
  | .gate other =>
    inferInstanceAs (Decidable (other = path → removalKey settings s.halted s.disk path = some key))
  | .delete other other' =>
    inferInstanceAs (Decidable ((other = path → ok = true ∧ s.disk path = none) ∧
      (other ≠ path → ¬other' <+: key)))
  | .stat _ | .measure _ _ | .unmark _ _ | .record _ _ | .forget _ =>
    inferInstanceAs (Decidable True)

instance decidableHeard [DecidableEq η] (s : SyncState η) :
    (e : SyncEvent η) → Decidable (Heard settings author path key s e)
  | .watch ok =>
    have : DecidablePred (HeardPass settings author path key s ok) := decidableHeardPass s ok
    have : Decidable (∀ pass ∈ s.pass, HeardPass settings author path key s ok pass) :=
      Option.decidableForallMem s.pass
    inferInstanceAs (Decidable ((s.lastLocal path = true ∧ ∀ c ∈ s.changes, c.path ≠ path) →
      ∀ pass ∈ s.pass, HeardPass settings author path key s ok pass))
  | .edit _ _ | .halt _ | .store _ | .observe _ _ _ | .merge _ | .walk _ | .endWalk | .createDir _
  | .receive _ _ | .receiveTombstone _ | .apply _ _ | .fire _ => inferInstanceAs (Decidable True)

end SyncState

open SyncState in
/-- Changes that the watcher hears of are in the node's own entry once handled. -/
theorem local_edits_are_published {η : Type} [DecidableEq η] (settings : Settings η)
    (author : FixedBytes 32) (path : Path) (key : Bytes) (disk : Disk)
    (doc : Replica (FixedBytes 32) η) (guard : EchoGuard η) (halted : Bool)
    (es : List (SyncEvent η)) (hne : path ≠ []) (hmode : mode settings path ≠ .readOnly)
    (hkey : pathToKey settings.filter.unicode path.rel = .ok key)
    (h : Along (step settings author) (Heard settings author path key)
      (start disk doc guard halted) es) :
    let s := es.foldl (step settings author) (start disk doc guard halted)
    s.lastLocal path = true → (∀ c ∈ s.changes, c.path ≠ path) → s.pass = none →
      SyncState.Published settings author path key s := by
  intro s hlast hchanges hpass
  have hstart : Attended settings author path key (start disk doc guard halted) := by
    intro hlast
    cases hlast
  have hs : Attended settings author path key s :=
    h.invariant (fun s e hs he => hs.moved hne hmode hkey he (step_moved s e)) hstart
  obtain ⟨c, hc, hpath⟩ | ⟨-, hseen⟩ := hs hlast
  · exact absurd hpath (hchanges c hc)
  · exact hseen.resolve_left (by simp [hpass])

namespace Sample

open Workspace.Sample SyncState

/-- A peer's file is changed by the user once the applier's mark has been released. -/
theorem local_edits_are_published_released :
    SyncState.Published (settings .readWrite) (endpoint 0).bytes [[97]] (KEY_PREFIX ++ [97])
      (run joined (writesFile 1 ++ passOver false ++ [.fire 0, .edit [[97]] (some (.file [2]))] ++
        .observe 0 false false :: List.replicate 10 (.watch true))) := by
  refine local_edits_are_published _ _ _ _ _ _ _ _ _ ?_ ?_ ?_ ?_ ?_ ?_ ?_
  all_goals decide +kernel

/-- The user changes the file while the applier's mark is on it, and is not heard. -/
theorem local_edit_is_lost :
    let s := run joined (writesFile 1 ++ [.edit [[97]] (some (.file [2]))] ++ passOver false ++
      passOver false ++ [.fire 0])
    s.lastLocal [[97]] = true ∧ s.changes = [] ∧ s.pass.isNone ∧ s.timers = [] ∧ s.work.isNone ∧
      s.halted = false ∧ check (settings .readWrite) s.disk [[97]] = .included ∧
      s.disk [[97]] = some (.file [2]) ∧ s.doc.own (endpoint 0).bytes (KEY_PREFIX ++ [97]) = none := by
  decide +kernel

end Sample

end Artel.Fs
