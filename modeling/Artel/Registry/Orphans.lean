import Artel.Registry.Attachments

namespace Artel.Cascade

open Store Registry Fs Function

/-- Nothing, the session's lock, or also that the directory is there. -/
inductive View
  | idle
  | locked
  | putting

/-- What is kept of the id's one session `h₀` and of its directory. -/
structure Inv (h₀ : Handle) (w : World × Attic) (V : ℕ → View) : Prop where
  mapped : ∀ h, w.1.sessions = some h → h = h₀
  nested : w.2.attachments.isSome → w.1.disk.dir.isSome
  gone : w.2.removed = true → w.1.disk.dir = none
  holds : ∀ i, V i ≠ .idle → (w.1.cells h₀).holder = some i
  putting : ∀ i, V i = .putting → w.2.removed = false

/-- A rollback takes its steps while nobody holds the lock of the mirror. -/
def Guard : Label → Env → World × Attic → Prop
  | .rollbackDelete h, _, w => (w.1.cells h).holder = none
  | _, _, _ => True

instance (l : Label) (e : Env) (w : World × Attic) : Decidable (Guard l e w) := by
  unfold Guard
  split <;> infer_instance

/-- An action of the registry that is not about the directory or a lock. -/
structure Aside (s s' : World) : Prop where
  sessions : ∀ h, s'.sessions = some h → s.sessions = some h
  disk : s'.disk = s.disk
  holder : ∀ h, (s'.cells h).holder = (s.cells h).holder

theorem Aside.of_eq {s s' : World} (hsessions : s'.sessions = s.sessions)
    (hdisk : s'.disk = s.disk) (hcells : s'.cells = s.cells) : Aside s s' :=
  ⟨fun _ h => hsessions ▸ h, hdisk, fun h => by rw [hcells]⟩

theorem Aside.modify (s : World) (h : Handle) {f : Cell → Cell} (hf : ∀ c, (f c).holder = c.holder) :
    Aside s (s.modify h f) := by
  refine ⟨fun _ h => h, rfl, fun k => ?_⟩
  by_cases hk : k = h
  · rw [hk, World.modify_cells_self, hf]
  · rw [World.modify_cells_of_ne _ _ hk]

section Steps

variable {h₀ : Handle} {w w' : World × Attic} {V : ℕ → View} {i : ℕ} {v : View}

theorem Inv.aside {s s' : World} {g : Attic} (hI : Inv h₀ (s, g) V) (hs : Aside s s') :
    Inv h₀ (s', g) V := by
  refine ⟨fun h hh => hI.mapped h (hs.sessions h hh), fun h => ?_, fun h => ?_, fun j hj => ?_,
    hI.putting⟩
  · rw [hs.disk]
    exact hI.nested h
  · rw [hs.disk]
    exact hI.gone h
  · rw [hs.holder]
    exact hI.holds j hj

theorem Inv.files (hI : Inv h₀ w V) (hsessions : w'.1.sessions = w.1.sessions)
    (hcells : w'.1.cells = w.1.cells) (hremoved : w'.2.removed = w.2.removed)
    (hnested : w'.2.attachments.isSome → w'.1.disk.dir.isSome)
    (hdir : w.2.removed = true → w'.1.disk.dir = none) : Inv h₀ w' V := by
  refine ⟨fun h hh => hI.mapped h (hsessions ▸ hh), hnested, fun h => hdir (hremoved ▸ h), ?_, ?_⟩
  · rw [hcells]
    exact hI.holds
  · rw [hremoved]
    exact hI.putting

theorem Inv.remove (hI : Inv h₀ w V) (hclear : ∀ j, V j ≠ .putting)
    (hnone : w.2.attachments = none) : Inv h₀ (noteRemoved (setDir none w)) V := by
  refine ⟨hI.mapped, fun h => ?_, fun _ => rfl, hI.holds, fun j hj => absurd hj (hclear j)⟩
  have hsome : w.2.attachments.isSome := h
  rw [hnone] at hsome
  cases hsome

theorem Inv.lock {s : World} {g : Attic} (hI : Inv h₀ (s, g) V)
    (hfree : (s.cells h₀).holder = none) :
    Inv h₀ (s.modify h₀ fun c => { c with holder := some i }, g) (update V i .locked) := by
  have hidle : ∀ j, V j = .idle := by
    intro j
    by_contra hj
    cases (hI.holds j hj).symm.trans hfree
  refine ⟨hI.mapped, hI.nested, hI.gone, fun j hj => ?_, fun j hj => ?_⟩
  · by_cases hij : j = i
    · simp [hij]
    · rw [update_of_ne hij] at hj
      exact absurd (hidle j) hj
  · by_cases hij : j = i
    · rw [hij, update_self] at hj
      cases hj
    · rw [update_of_ne hij, hidle j] at hj
      cases hj

theorem Inv.unlock {s : World} {g : Attic} (hI : Inv h₀ (s, g) V) (hv : V i ≠ .idle) :
    Inv h₀ (s.modify h₀ fun c => { c with holder := none }, g) (update V i .idle) := by
  have hother : ∀ j, j ≠ i → V j = .idle := by
    intro j hij
    by_contra hj
    exact hij (Option.some.inj ((hI.holds j hj).symm.trans (hI.holds i hv)))
  have hidle : ∀ j, update V i .idle j = .idle := by
    intro j
    by_cases hij : j = i
    · rw [hij, update_self]
    · rw [update_of_ne hij, hother j hij]
  refine ⟨hI.mapped, hI.nested, hI.gone, fun j hj => absurd (hidle j) hj, fun j hj => ?_⟩
  rw [hidle j] at hj
  cases hj

theorem Inv.review (hI : Inv h₀ w V) (hv : V i ≠ .idle) {u : View}
    (hu : u = .putting → w.2.removed = false) :
    Inv h₀ w (update V i u) := by
  refine ⟨hI.mapped, hI.nested, hI.gone, fun j hj => ?_, fun j hj => ?_⟩
  · by_cases hij : j = i
    · rw [hij]
      exact hI.holds i hv
    · rw [update_of_ne hij] at hj
      exact hI.holds j hj
  · by_cases hij : j = i
    · rw [hij, update_self] at hj
      exact hu hj
    · rw [update_of_ne hij] at hj
      exact hI.putting j hj

theorem Inv.clear (hI : Inv h₀ w V) (hv : V i = .locked) (j : ℕ) : V j ≠ .putting := by
  intro hj
  have hji := (hI.holds j (by rw [hj]; nofun)).symm.trans (hI.holds i (by rw [hv]; nofun))
  rw [Option.some.inj hji, hv] at hj
  cases hj

end Steps

section Outlines

variable {h₀ : Handle} {i : ℕ} {v : View} {l : Label}

theorem quiet_aside {α : Type} {t : Async α} (ht : t.Each fun _ => Aside) :
    Quiet (Inv h₀) Guard i v t.beside :=
  ht.quiet fun _ _ _ _ _ _ hs hI => hI.aside hs

theorem quiet_step {α : Type} {f : World × Attic → Except IoError α × (World × Attic)}
    (hf : ∀ e w V, Inv h₀ w V → V i = v → Guard l e w → Inv h₀ (f w).2 V) :
    Quiet (Inv h₀) Guard i v (fsStep l f) := by
  refine Quiet.once fun e w V hI hv hC => ?_
  split
  · exact hI
  · exact hf e w V hI hv hC

theorem inv_setAttachments {w : World × Attic} {V : ℕ → View} (hI : Inv h₀ w V)
    {files : Option (List AttachmentFile)} (hfiles : files.isSome → w.1.disk.dir.isSome) :
    Inv h₀ (setAttachments files w) V :=
  hI.files rfl rfl rfl hfiles hI.gone

theorem quiet_mkdirAttachments : Quiet (Inv h₀) Guard i v (fsStep l mkdirAttachments) := by
  refine quiet_step fun e w V hI _ _ => ?_
  unfold mkdirAttachments
  split
  · exact hI
  · rename_i hdir
    split
    · exact hI
    · refine inv_setAttachments hI fun _ => ?_
      simpa [Option.isSome_iff_ne_none] using hdir

theorem quiet_mkdirSession : Quiet (Inv h₀) Guard i .putting (fsStep l mkdirSession) := by
  refine quiet_step fun e w V hI hv _ => ?_
  unfold mkdirSession
  split
  · exact hI
  · refine hI.files rfl rfl rfl (fun _ => rfl) fun h => ?_
    cases (hI.putting i hv).symm.trans h

theorem quiet_need {f : World × Attic → Except IoError Unit} :
    Quiet (Inv h₀) Guard i v (fsStep l fun w => (f w, w)) :=
  quiet_step fun _ _ _ hI _ _ => hI

theorem quiet_unlinkAttachment (file : AttachmentFile → Bool) :
    Quiet (Inv h₀) Guard i v (fsStep l (unlinkAttachment file)) := by
  refine quiet_step fun e w V hI _ _ => inv_setAttachments hI fun h => hI.nested ?_
  simpa using h

theorem quiet_openTmp (kind : String) : Quiet (Inv h₀) Guard i v (fsStep l (openTmp kind)) := by
  refine quiet_step fun e w V hI _ _ => ?_
  unfold openTmp
  split
  · exact hI.files rfl rfl rfl hI.nested hI.gone
  · rename_i files hfiles
    exact hI.files rfl rfl rfl (fun _ => hI.nested (by rw [hfiles]; rfl)) hI.gone

theorem quiet_renameTmp (kind : String) (counter : ℕ) (payload : Bytes) :
    Quiet (Inv h₀) Guard i v (fsStep l (renameTmp kind counter payload)) := by
  refine quiet_step fun e w V hI _ _ => ?_
  unfold renameTmp
  split
  · exact hI
  · rename_i files hfiles
    split
    · exact inv_setAttachments hI fun _ => hI.nested (by rw [hfiles]; rfl)
    · exact hI

theorem quiet_createDirAll : Quiet (Inv h₀) Guard i .putting (createDirAll l) := by
  refine quiet_mkdirAttachments.andThen fun result => ?_
  split
  · rfl
  · exact quiet_mkdirSession.except (fun _ => rfl) fun _ => quiet_mkdirAttachments
  · rfl

theorem quiet_ensureDir : Quiet (Inv h₀) Guard i .putting (ensureDir l) := by
  refine Quiet.andThen quiet_need fun result => ?_
  split
  · rfl
  · refine quiet_createDirAll.except (fun _ => rfl) fun _ => ?_
    refine Quiet.andThen quiet_need fun result => ?_
    cases result with
    | error e => rfl
    | ok _ => exact quiet_need
  · rfl

theorem quiet_writeAttachment (kind : String) (payload : Bytes) :
    Quiet (Inv h₀) Guard i v (writeAttachment l kind payload) := by
  refine (quiet_openTmp kind).except (fun _ => rfl) fun counter => ?_
  have hdiscard : ∀ e : IoError, Quiet (Inv h₀) Guard i v
      ((fsStep l (unlinkAttachment fun f => f = .tmp kind counter)).bind fun _ =>
        .ret (.error e : Except IoError Unit)) := fun e =>
    (quiet_unlinkAttachment _).andThen fun _ => rfl
  refine Quiet.andThen quiet_need fun result => ?_
  cases result with
  | error e => exact hdiscard e
  | ok _ =>
    refine (quiet_renameTmp kind counter payload).except (fun e => hdiscard e) fun _ => ?_
    refine Quiet.andThen quiet_need fun result => ?_
    cases result with
    | error e => exact hdiscard e
    | ok _ => rfl

theorem outline_putAttachment (kind : String) (payload : Bytes) :
    Follows (Inv h₀) Guard i (fun _ v => v ≠ .idle) (putAttachment l kind payload) .locked := by
  unfold putAttachment
  split
  · nofun
  split
  · nofun
  split
  · nofun
  refine Follows.once fun w V e hI hv _ => ?_
  have hlocked : V i ≠ .idle := by rw [hv]; nofun
  split
  · exact Follows.keep hv hI nofun
  dsimp only
  cases hdir : w.1.disk.dir.isSome with
  | false => exact Follows.keep hv hI nofun
  | true =>
    -- a directory that is there was not removed, and from here on it will not be
    refine ⟨.putting, hI.review hlocked fun _ => ?_, ?_⟩
    · by_contra hremoved
      have hnone := hI.gone (by simpa using hremoved)
      rw [hnone] at hdir
      cases hdir
    · refine quiet_ensureDir.andThen fun result => ?_
      cases result with
      | error e => nofun
      | ok _ =>
        refine (quiet_writeAttachment kind payload).andThen fun result => ?_
        cases result with
        | error e => nofun
        | ok _ => nofun

def Clears (h₀ : Handle) (i : ℕ) (l : Label) (v : View) : Prop :=
  ∀ e w V, Inv h₀ w V → V i = v → Guard l e w → ∀ j, V j ≠ .putting

theorem clears_locked : Clears h₀ i l .locked := fun _ _ _ hI hv _ => hI.clear hv

theorem clears_rollback : Clears h₀ i (.rollbackDelete h₀) .idle := by
  intro e w V hI _ hfree j hj
  have hholder := hI.holds j (by rw [hj]; nofun)
  cases hholder.symm.trans hfree

theorem inv_noteRemoved {w : World × Attic} {V : ℕ → View} (hI : Inv h₀ w V)
    (hclear : ∀ j, V j ≠ .putting) (hdir : w.1.disk.dir = none) : Inv h₀ (noteRemoved w) V :=
  ⟨hI.mapped, hI.nested, fun _ => hdir, hI.holds, fun j hj => absurd hj (hclear j)⟩

theorem quiet_unlink (entry : DirEntry) : Quiet (Inv h₀) Guard i v (fsStep l (unlink entry)) := by
  have hfile : ∀ {f : SessionDir → SessionDir} {w : World × Attic} {V : ℕ → View}, Inv h₀ w V →
      Inv h₀ (setDir (w.1.disk.dir.map f) w) V := by
    intro f w V hI
    refine hI.files rfl rfl rfl (fun h => ?_) fun h => ?_
    · simpa [setDir] using hI.nested h
    · simp [setDir, hI.gone h]
  cases entry with
  | attachment file => exact quiet_unlinkAttachment _
  | attachmentsDir =>
    refine quiet_step fun e w V hI _ _ => ?_
    unfold unlink
    dsimp only
    split
    · exact hI
    · exact inv_setAttachments hI nofun
  | _ => exact quiet_step fun e w V hI _ _ => hfile hI

theorem quiet_removeEntries (hclear : Clears h₀ i l v) (order : List DirEntry) :
    Quiet (Inv h₀) Guard i v (removeEntries l order) := by
  induction order with
  | nil =>
    refine quiet_step fun e w V hI hv hC => ?_
    unfold rmdirSession
    split
    · exact inv_noteRemoved hI (hclear e w V hI hv hC) ‹_›
    · split
      · rename_i hempty
        exact hI.remove (hclear e w V hI hv hC) hempty.2
      · exact hI
  | cons entry rest ih =>
    exact (quiet_unlink entry).except (fun _ => rfl) fun _ => ih

theorem quiet_delete (hclear : Clears h₀ i l v) (order : List DirEntry) :
    Quiet (Inv h₀) Guard i v (Fs.delete l order) := by
  refine Quiet.andThen (quiet_step fun e w V hI hv hC => ?_) fun result => ?_
  · split
    · rename_i hnone
      exact inv_noteRemoved hI (hclear e w V hI hv hC) (Option.isNone_iff_eq_none.mp hnone)
    · exact hI
  · split
    · rfl
    · rfl
    · exact quiet_removeEntries hclear order

theorem follows_lookup : Follows (Inv h₀) Guard i
    (fun found v => v = .idle ∧ ∀ h, found = some h → h = h₀) lookup.beside .idle := by
  refine Follows.waitForObserve fun s g V e hI hv _ _ => ⟨.idle, ?_, rfl, hI.mapped⟩
  rw [← hv, update_eq_self]
  exact hI

theorem follows_lock :
    Follows (Inv h₀) Guard i (fun _ v => v = .locked) (lock i h₀).beside .idle :=
  Follows.waitForObserve fun _ _ _ _ hI _ hready _ =>
    ⟨.locked, hI.lock (Option.isNone_iff_eq_none.mp hready), rfl⟩

theorem follows_unlock (hne : v ≠ .idle) :
    Follows (Inv h₀) Guard i (fun _ v => v = .idle) (unlock h₀).beside v :=
  Follows.onceObserve fun _ _ _ _ hI hv _ => ⟨.idle, hI.unlock (by rw [hv]; exact hne), rfl⟩

theorem follows_release {α : Type} (a : α) : Follows (Inv h₀) Guard i (fun _ v => v = .idle)
    ((unlock h₀).beside.bind fun _ => .ret a) .locked :=
  (follows_unlock (v := .locked) nofun).bind fun _ _ hw => hw

variable (id : SessionId)

theorem outline_registerAttachment (kind : String) (payload : Bytes) :
    Quiet (Inv h₀) Guard i .idle (registerAttachment id i kind payload) := by
  refine follows_lookup.bind ?_
  rintro found _ ⟨rfl, hfound⟩
  cases found with
  | none => rfl
  | some h =>
    obtain rfl := hfound h rfl
    refine follows_lock.bind ?_
    rintro _ _ rfl
    refine (outline_putAttachment kind payload).bind fun result w hw => ?_
    refine (follows_unlock hw).bind ?_
    rintro _ _ rfl
    split <;> rfl

theorem outline_forgetAttachment (kind : String) :
    Quiet (Inv h₀) Guard i .idle (forgetAttachment i kind) := by
  refine follows_lookup.bind ?_
  rintro found _ ⟨rfl, hfound⟩
  cases found with
  | none =>
    refine (quiet_unlinkAttachment _).andThen fun result => ?_
    cases result <;> rfl
  | some h =>
    obtain rfl := hfound h rfl
    refine follows_lock.bind ?_
    rintro _ _ rfl
    refine (quiet_unlinkAttachment _).andThen fun result => ?_
    refine (follows_unlock (v := .locked) nofun).bind ?_
    rintro _ _ rfl
    split <;> rfl

variable (h : Handle)

theorem aside_modify {α : Type} {l : Label} {ready : Env → World → Bool} {a : Env → World → α}
    {f : Cell → Cell} (hf : ∀ c, (f c).holder = c.holder) :
    (Fiber.waitFor l ready fun e s => (a e s, s.modify h f)).Each fun _ => Aside :=
  Fiber.each_waitFor fun _ s => Aside.modify s h hf

theorem aside_update (f : Session → Session) : (update h f).Each fun _ => Aside :=
  aside_modify h fun _ => rfl

theorem aside_emit (event : Event) : (emit h event).Each fun _ => Aside :=
  aside_modify h fun _ => rfl

theorem aside_unpublishAs (l : Label) : (unpublishAs l).Each fun _ => Aside :=
  Fiber.each_waitFor fun _ _ => ⟨nofun, rfl, fun _ => rfl⟩

theorem aside_abort (feeds : Option Handle) (s : World) : Aside s (abort feeds s) := by
  cases feeds <;> exact .of_eq rfl rfl rfl

theorem aside_forget : (forget h).Each fun _ => Aside := by
  refine Fiber.each_waitFor fun _ s => ?_
  split
  · rename_i feeds _
    cases feeds <;> exact .of_eq rfl rfl rfl
  · exact .of_eq rfl rfl rfl

theorem aside_joinSession : (joinSession h).Each fun _ => Aside := by
  refine Fiber.Each.bind ?_ fun _ => Fiber.each_waitFor fun _ _ => .of_eq rfl rfl rfl
  refine Fiber.Each.bind (Fiber.each_waitFor fun _ s => ?_) fun generation => ?_
  · split <;> exact .of_eq rfl rfl rfl
  · cases generation with
    | none => trivial
    | some generation =>
      refine Fiber.Each.bind (Fiber.each_waitFor fun _ _ => .of_eq rfl rfl rfl) fun err => ?_
      cases err with
      | some err =>
        refine Fiber.Each.bind (Fiber.each_waitFor fun _ s => ?_) fun _ => trivial
        split <;> exact .of_eq rfl rfl rfl
      | none =>
        refine Fiber.Each.bind (Fiber.each_waitFor fun _ _ => .of_eq rfl rfl rfl) fun _ =>
          Fiber.Each.bind (Fiber.each_waitFor fun _ s => ?_) fun _ => trivial
        dsimp only
        split
        · exact .of_eq rfl rfl rfl
        · exact aside_abort _ s

theorem aside_finish (ok : Bool) : (finish h ok).Each fun _ => Aside :=
  (Fiber.each_waitFor fun _ _ => .of_eq rfl rfl rfl).bind fun _ => Fiber.each_waitFor fun _ _ => .of_eq rfl rfl rfl

theorem quiet_removeMemberFile (peer : PeerId) :
    Quiet (Inv h₀) Guard i v (removeMemberFile l peer) := by
  refine Quiet.once fun e w V hI _ _ => ?_
  split
  · refine hI.files rfl rfl rfl (fun h => ?_) fun h => ?_
    · simpa [setDir] using hI.nested h
    · simp [setDir, hI.gone h]
  · refine hI.files rfl rfl rfl (fun h => ?_) fun h => ?_
    · obtain ⟨dir, hdir⟩ := Option.isSome_iff_exists.mp (hI.nested h)
      simp only [setDir, Store.removeMember, updateMembers, hdir]
      split <;> simp [hdir]
    · simp [setDir, Store.removeMember, updateMembers, hI.gone h]

theorem outline_leaveBySteps (peer : PeerId) (order : List DirEntry) :
    Quiet (Inv h₀) Guard i .idle (leaveBySteps id i peer order) := by
  refine follows_lookup.bind ?_
  rintro found _ ⟨rfl, hfound⟩
  cases found with
  | none => rfl
  | some h =>
    obtain rfl := hfound h rfl
    refine follows_lock.bind ?_
    rintro s _ rfl
    split
    · exact follows_release _
    have hstore : Quiet (Inv h) Guard i .locked (if peer = s.host ∨ s.kind = .Remote then
        Fs.delete (.write h) order else removeMemberFile (.write h) peer) := by
      split
      · exact quiet_delete clears_locked order
      · exact quiet_removeMemberFile peer
    refine hstore.except (fun _ => follows_release _) fun _ => ?_
    refine (quiet_aside (aside_update h _)).andThen fun _ =>
      (quiet_aside (aside_emit h _)).andThen fun _ => ?_
    refine (follows_unlock (v := .locked) nofun).bind ?_
    rintro _ _ rfl
    split
    · exact (quiet_aside (aside_unpublishAs _)).andThen fun _ =>
        (quiet_aside (aside_forget h)).andThen fun _ => rfl
    · rfl

theorem outline_hostClosedBySteps (order : List DirEntry) :
    Quiet (Inv h₀) Guard i .idle (hostClosedBySteps i order) := by
  refine follows_lookup.bind ?_
  rintro found _ ⟨rfl, hfound⟩
  cases found with
  | none => rfl
  | some h =>
    obtain rfl := hfound h rfl
    refine follows_lock.bind ?_
    rintro s _ rfl
    split
    · exact follows_release _
    refine (quiet_delete clears_locked order).except (fun _ => follows_release _) fun _ => ?_
    refine (follows_unlock (v := .locked) nofun).bind ?_
    rintro _ _ rfl
    exact (quiet_aside (aside_unpublishAs _)).andThen fun _ =>
      (quiet_aside (aside_emit h _)).andThen fun _ =>
        (quiet_aside (aside_forget h)).andThen fun _ => rfl

theorem outline_driveBySteps (order : List DirEntry) :
    Quiet (Inv h₀) Guard i .idle (driveBySteps i h₀ order) := by
  refine follows_lock.bind ?_
  rintro _ _ rfl
  refine (follows_unlock (v := .locked) nofun).bind ?_
  rintro _ _ rfl
  refine (quiet_aside (aside_joinSession h₀)).andThen fun result => ?_
  have hrollback : Quiet (Inv h₀) Guard i .idle (rollbackBySteps h₀ order) :=
    (quiet_aside (aside_unpublishAs _)).andThen fun _ =>
      (quiet_delete clears_rollback order).andThen fun _ => rfl
  cases result with
  | some err => exact hrollback.andThen fun _ => (quiet_aside (aside_finish h₀ false)).andThen fun _ => rfl
  | none => exact (quiet_aside (aside_finish h₀ true)).andThen fun _ => rfl

/-- A join that is past its claim holds the mirror that is in the map. -/
def Calls (h₀ : Handle) : AtticCall → Prop
  | .drive h _ => h = h₀
  | _ => True

instance (h₀ : Handle) : DecidablePred (Calls h₀) := fun o => by
  unfold Calls
  split <;> infer_instance

theorem outline_body {o : AtticCall} (ho : Calls h₀ o) :
    Quiet (Inv h₀) Guard i .idle (o.body id i) := by
  cases o with
  | register kind payload => exact outline_registerAttachment id kind payload
  | forget kind => exact outline_forgetAttachment kind
  | leave peer order => exact outline_leaveBySteps id peer order
  | hostClosedSession order => exact outline_hostClosedBySteps order
  | drive h order =>
    obtain rfl : h = h₀ := ho
    exact outline_driveBySteps order

end Outlines

section Runs

variable (id : SessionId)

/-- A session in the map, or none, and nothing removed yet. -/
structure Begins (h₀ : Handle) (w : World × Attic) : Prop where
  mapped : ∀ h, w.1.sessions = some h → h = h₀
  nested : w.2.attachments.isSome → w.1.disk.dir.isSome
  kept : w.2.removed = false

def Gone (w : World × Attic) : Prop :=
  w.1.disk.dir = none ∧ w.2.attachments = none ∧
    ∀ kindFilter, listAttachments kindFilter w.1.disk w.2 = []

end Runs

namespace Sample

open Artel.Sample

def mirrored : World × Attic :=
  ({ World.empty blank ⟨some { SessionDir.empty with log := some [] }, none⟩ with
      sessions := some 0
      cells := fun _ => ⟨.new session (peer 1) .Remote, none, []⟩
      nextHandle := 1 },
    ⟨none, 0, false⟩)

def takes (i n : ℕ) (e : Env) : List (Move AtticCall Env) := List.replicate n (.step i e)

def order : List DirEntry := [.log, .attachment (.bin "k" [7]), .attachmentsDir]

/-- An attachment is registered, and then the join fails. -/
def inOrder : List (Move AtticCall Env) :=
  .call (.register "k" [7]) :: takes 0 12 calm ++ .call (.drive 0 order) :: takes 1 16 stormy

/-- The rollback of a join deletes the directory under a registration. -/
def raced : List (Move AtticCall Env) :=
  .call (.drive 0 order) :: takes 0 2 stormy ++ .call (.register "k" [7]) :: takes 1 3 calm ++
    takes 0 12 stormy ++ takes 1 12 calm

end Sample

end Artel.Cascade
