import Artel.Store.Fs

namespace Artel.Store

/-- A created session's directory: its log is whole and a load takes it. -/
structure FiledIn (host : PeerId) (kind : SessionKind) (log : List SessionMessage)
    (dir : SessionDir) (doc : Meta) : Prop where
  log_eq : dir.log = some (encodeLog log)
  doc_eq : dir.metaJson = some doc
  version : doc.version = META_VERSION
  host : doc.host = host
  kind : doc.kind = kind
  envelope : ∀ e ∈ dir.workspaceTicket, e.length ≤ WORKSPACE_TICKET_ENVELOPE_MAX

def Filed (host : PeerId) (kind : SessionKind) (log : List SessionMessage) (disk : Disk) : Prop :=
  ∃ dir doc, disk.dir = some dir ∧ FiledIn host kind log dir doc

/-- What decides whether a load takes the disk and which log it gives. -/
def Disk.kept (disk : Disk) :
    Option (Option Bytes × Option (ℕ × PeerId × SessionKind) × Option Bytes) :=
  disk.dir.map fun dir =>
    (dir.log, dir.metaJson.map fun doc => (doc.version, doc.host, doc.kind), dir.workspaceTicket)

/-- A crash in the middle of an append leaves torn bytes behind the log. -/
def Disk.TornTo (tail : Bytes) (disk disk' : Disk) : Prop :=
  Frames.Torn MAX_FRAME_SIZE tail ∧
    disk'.kept = disk.kept.map fun k => (k.1.map fun log => log ++ tail, k.2)

section Filed

variable {host : PeerId} {kind : SessionKind} {log : List SessionMessage} {disk : Disk}

section

variable (h : Filed host kind log disk)
include h

theorem Filed.append {m : SessionMessage}
    (hsize : (encodeMessage m).length ≤ MAX_FRAME_SIZE) :
    ∃ disk', append none m disk = (.ok (), disk') ∧ Filed host kind (log ++ [m]) disk' := by
  obtain ⟨dir, doc, hdir, h⟩ := h
  refine ⟨_, append_none hdir h.log_eq h.doc_eq hsize, _,
    { doc with head := max doc.head m.seq }, rfl, ?_⟩
  exact { h with log_eq := rfl, doc_eq := rfl }

theorem Filed.append_error {m : SessionMessage} {disk' : Disk}
    {e : IoError} (herr : Store.append none m disk = (.error e, disk')) :
    Filed host kind log disk' := by
  have hfiled := h
  obtain ⟨dir, doc, hdir, hin⟩ := h
  by_cases hsize : (encodeMessage m).length ≤ MAX_FRAME_SIZE
  · rw [append_none hdir hin.log_eq hin.doc_eq hsize] at herr
    cases herr
  · rw [append_oversize m hdir hin.log_eq (Nat.lt_of_not_le hsize)] at herr
    cases herr
    exact hfiled

theorem Filed.putTickets (tickets : List TicketEntry) :
    ∃ disk', putTickets tickets disk = (.ok (), disk') ∧ Filed host kind log disk' := by
  obtain ⟨dir, doc, hdir, h⟩ := h
  simp only [Store.putTickets, hdir]
  exact ⟨_, rfl, _, doc, rfl, { h with }⟩

theorem Filed.bumpHostEpoch (epoch : UInt64) :
    ∃ disk', bumpHostEpoch epoch disk = (.ok (), disk') ∧ Filed host kind log disk' := by
  obtain ⟨dir, doc, hdir, h⟩ := h
  simp only [Store.bumpHostEpoch, hdir, h.doc_eq]
  exact ⟨_, rfl, _, { doc with hostEpoch := epoch }, rfl, { h with doc_eq := rfl }⟩

theorem Filed.updateMembers (f : Finset PeerId → Finset PeerId) :
    ∃ disk', updateMembers f disk = (.ok (), disk') ∧ Filed host kind log disk' := by
  obtain ⟨dir, doc, hdir, h⟩ := h
  simp only [Store.updateMembers, hdir, h.doc_eq]
  exact ⟨_, rfl, _, { doc with members := f doc.members }, rfl, { h with doc_eq := rfl }⟩

end

theorem filed_create (hdir : disk.dir = none) (r : SessionRecord) (hlog : r.log = [])
    (hticket : r.workspaceTicket = none) :
    ∃ disk', create r disk = (.ok (), disk') ∧ Filed r.host r.kind [] disk' := by
  simp only [create, hdir, hlog, hticket, Option.getD_none, SessionDir.empty, appendAll]
  refine ⟨_, rfl, _, Meta.fromRecord r, rfl, ?_⟩
  exact
    { log_eq := rfl
      doc_eq := rfl
      version := rfl
      host := rfl
      kind := rfl
      envelope := fun e he => by cases he }

section

variable (h : Filed host kind log disk)
include h

/-- A load gives the log back, with a head that covers it, and leaves the files as good. -/
theorem Filed.load (ed : Ed25519) (id : SessionId) (verify : Bool)
    (hsize : ∀ m ∈ log, (encodeMessage m).length ≤ MAX_FRAME_SIZE)
    (hv : verify = true → ∀ m ∈ log, Signing.verifyMessage ed id m m.signature = .ok ()) :
    ∃ r disk', load ed id verify disk = (.ok r, disk') ∧ r.id = id ∧ r.host = host ∧
      r.kind = kind ∧ r.log = log ∧ (∀ m ∈ log, m.seq ≤ r.head) ∧ Filed host kind log disk' := by
  obtain ⟨dir, doc, hdir, h⟩ := h
  have hload := loadOne_ok ed id verify dir h.log_eq h.doc_eq h.version h.envelope hsize hv
  simp only [Store.load, hdir, hload]
  refine ⟨_, _, rfl, rfl, h.host, h.kind, rfl, ?_, _, doc, rfl, { h with }⟩
  intro m hm
  exact (seq_le_logTail log m hm).trans (le_max_right _ _)

theorem Filed.of_kept {disk' : Disk}
    (hkept : disk'.kept = disk.kept) : Filed host kind log disk' := by
  obtain ⟨dir, doc, hdir, h⟩ := h
  cases hdir' : disk'.dir with
  | none => simp [Disk.kept, hdir, hdir'] at hkept
  | some dir' =>
    simp only [Disk.kept, hdir, hdir', h.doc_eq, Option.map_some, Option.some.injEq,
      Prod.mk.injEq] at hkept
    obtain ⟨hlog, hdoc, hticket⟩ := hkept
    obtain ⟨doc', hdoc', heq⟩ := Option.map_eq_some_iff.mp hdoc
    obtain ⟨hversion, hhost, hkind⟩ : doc'.version = doc.version ∧ doc'.host = doc.host ∧
        doc'.kind = doc.kind := by simpa using heq
    refine ⟨dir', doc', hdir', ?_⟩
    exact
      { log_eq := hlog.trans h.log_eq
        doc_eq := hdoc'
        version := hversion.trans h.version
        host := hhost.trans h.host
        kind := hkind.trans h.kind
        envelope := by rw [hticket]; exact h.envelope }

theorem Filed.logBytes : disk.logBytes = encodeLog log := by
  obtain ⟨dir, doc, hdir, h⟩ := h
  simp [Disk.logBytes, hdir, h.log_eq]

theorem Filed.load_torn {disk' : Disk} {tail : Bytes}
    (htorn : disk.TornTo tail disk') (ed : Ed25519) (id : SessionId) (verify : Bool)
    (hsize : ∀ m ∈ log, (encodeMessage m).length ≤ MAX_FRAME_SIZE) :
    ∃ r disk'', Store.load ed id verify disk' = (.ok r, disk'') ∧ r.host = host ∧ r.kind = kind ∧
      r.log = (readLog ed id verify (encodeLog log)).1 ∧ Filed host kind log disk'' := by
  obtain ⟨htail, hkept⟩ := htorn
  obtain ⟨dir, doc, hdir, h⟩ := h
  cases hdir' : disk'.dir with
  | none => simp [Disk.kept, hdir, hdir'] at hkept
  | some dir' =>
    simp only [Disk.kept, hdir, hdir', h.doc_eq, h.log_eq, Option.map_some, Option.some.injEq,
      Prod.mk.injEq] at hkept
    obtain ⟨hlog, hdoc, hticket⟩ := hkept
    obtain ⟨doc', hdoc', heq⟩ := Option.map_eq_some_iff.mp hdoc
    obtain ⟨hversion, hhost, hkind⟩ : doc'.version = doc.version ∧ doc'.host = doc.host ∧
        doc'.kind = doc.kind := by simpa using heq
    have henvelope : ∀ e ∈ dir'.workspaceTicket, e.length ≤ WORKSPACE_TICKET_ENVELOPE_MAX := by
      rw [hticket]
      exact h.envelope
    have hload := loadOne_torn ed id verify dir' hlog hdoc' (hversion.trans h.version) henvelope hsize
      htail
    simp only [Store.load, hdir', hload]
    refine ⟨_, _, rfl, hhost.trans h.host, hkind.trans h.kind, rfl, _, doc', rfl, ?_⟩
    exact
      { log_eq := rfl
        doc_eq := hdoc'
        version := hversion.trans h.version
        host := hhost.trans h.host
        kind := hkind.trans h.kind
        envelope := henvelope }

end

end Filed

end Artel.Store
