import Artel.Lib.Run
import Artel.Store.Stores

namespace Artel.Store.Reference

open List

variable (ed : Ed25519) (verify : Bool)

/-- Ids are created once with what the disk takes; appends are signed and fit. -/
def Plain (s : MemoryStore) : StoreCall → Prop
  | .create r => r.id ∉ s.inner ∧
      (∀ m ∈ r.log, (encodeMessage m).length ≤ MAX_FRAME_SIZE ∧ m.seq ≤ r.head ∧
        (verify = true → Signing.verifyMessage ed r.id m m.signature = .ok ())) ∧
      ∀ e ∈ r.workspaceTicket, e.length ≤ WORKSPACE_TICKET_ENVELOPE_MAX
  | .append id m => (encodeMessage m).length ≤ MAX_FRAME_SIZE ∧
      (verify = true → Signing.verifyMessage ed id m m.signature = .ok ())
  | .bumpHostEpoch id _ => id ∈ s.inner
  | .putAttachment _ kind payload => payload.length ≤ MAX_FRAME_SIZE ∧
      (Signing.utf8 kind).length ≤ MAX_KIND_LEN ∧ kind ≠ ""
  | _ => True

/-- The directory `attachments` has one file for each attachment of the entry. -/
structure Attached (files : Finmap fun _ : Bytes => Bytes) (kinds : Finmap fun _ : String => Bytes) :
    Prop where
  mem_iff : ∀ name, name ∈ files ↔ ∃ kind ∈ kinds, attachmentFilename kind = name
  lookup : ∀ kind, files.lookup (attachmentFilename kind) = kinds.lookup kind
  size : ∀ kind payload, kinds.lookup kind = some payload → payload.length ≤ MAX_FRAME_SIZE

namespace Attached

variable {files : Finmap fun _ : Bytes => Bytes} {kinds : Finmap fun _ : String => Bytes}

theorem empty : Attached ∅ ∅ where
  mem_iff := by simp [Finmap.notMem_empty]
  lookup _ := rfl
  size kind payload h := by cases h

theorem insert (h : Attached files kinds) (kind : String) {payload : Bytes}
    (hsize : payload.length ≤ MAX_FRAME_SIZE) :
    Attached (files.insert (attachmentFilename kind) payload) (kinds.insert kind payload) where
  mem_iff name := by
    simp only [Finmap.mem_insert, h.mem_iff]
    constructor
    · rintro (rfl | ⟨k, hk, rfl⟩)
      · exact ⟨kind, .inl rfl, rfl⟩
      · exact ⟨k, .inr hk, rfl⟩
    · rintro ⟨k, rfl | hk, rfl⟩
      · exact .inl rfl
      · exact .inr ⟨k, hk, rfl⟩
  lookup k := by
    by_cases hk : k = kind
    · subst hk
      simp
    · have hname : attachmentFilename k ≠ attachmentFilename kind :=
        fun heq => hk (attachmentFilename_injective heq)
      rw [Finmap.lookup_insert_of_ne _ hname, Finmap.lookup_insert_of_ne _ hk, h.lookup]
  size k p hp := by
    by_cases hk : k = kind
    · subst hk
      rw [Finmap.lookup_insert] at hp
      cases hp
      exact hsize
    · rw [Finmap.lookup_insert_of_ne _ hk] at hp
      exact h.size k p hp

theorem erase (h : Attached files kinds) (kind : String) :
    Attached (files.erase (attachmentFilename kind)) (kinds.erase kind) where
  mem_iff name := by
    simp only [Finmap.mem_erase, h.mem_iff]
    constructor
    · rintro ⟨hne, k, hk, rfl⟩
      exact ⟨k, ⟨fun heq => hne (congrArg attachmentFilename heq), hk⟩, rfl⟩
    · rintro ⟨k, ⟨hne, hk⟩, rfl⟩
      exact ⟨fun heq => hne (attachmentFilename_injective heq), k, hk, rfl⟩
  lookup k := by
    by_cases hk : k = kind
    · subst hk
      simp
    · have hname : attachmentFilename k ≠ attachmentFilename kind :=
        fun heq => hk (attachmentFilename_injective heq)
      rw [Finmap.lookup_erase_ne hname, Finmap.lookup_erase_ne hk, h.lookup]
  size k p hp := by
    by_cases hk : k = kind
    · subst hk
      rw [Finmap.lookup_erase] at hp
      cases hp
    · rw [Finmap.lookup_erase_ne hk] at hp
      exact h.size k p hp

theorem keys_eq (h : Attached files kinds) :
    files.keys = kinds.keys.map ⟨attachmentFilename, attachmentFilename_injective⟩ := by
  ext name
  simp only [Finmap.mem_keys, h.mem_iff, Finset.mem_map, Function.Embedding.coeFn_mk]

end Attached

structure Filing (id : SessionId) (files : SessionFiles) (entry : SessionEntry) : Prop where
  id_eq : entry.record.id = id
  metaJson : files.dir.metaJson = some (Meta.fromRecord entry.record)
  log : files.dir.log = some (encodeLog entry.record.log)
  tickets : (loadTickets files.dir.ticketsJson).1 = entry.record.tickets
  workspaceTicket : files.dir.workspaceTicket = entry.record.workspaceTicket
  envelope : ∀ e ∈ entry.record.workspaceTicket, e.length ≤ WORKSPACE_TICKET_ENVELOPE_MAX
  size : ∀ m ∈ entry.record.log, (encodeMessage m).length ≤ MAX_FRAME_SIZE
  signed : verify = true →
    ∀ m ∈ entry.record.log, Signing.verifyMessage ed id m m.signature = .ok ()
  le_head : ∀ m ∈ entry.record.log, m.seq ≤ entry.record.head
  attached : Attached (files.attachments.getD ∅) entry.attachments

structure Agree (fs : FsLogStore) (mem : MemoryStore) : Prop where
  held : ∀ id, Option.Rel (Filing ed verify id) (fs.dirs.lookup id) (mem.inner.lookup id)
  floor : ∀ id, (fs.epochFloors.lookup id).getD 0 = (mem.epochFloors.lookup id).getD 0

theorem agree_empty : Agree ed verify .empty .empty where
  held id := by
    exact .none
  floor _ := rfl

section Lookups

variable (fs : FsLogStore) (id : SessionId) (disk : Disk)

theorem lookup_setDisk_dirs (id' : SessionId) :
    (fs.setDisk id disk).dirs.lookup id' =
      if id' = id then
        disk.dir.map fun dir => ⟨dir, (fs.dirs.lookup id).bind SessionFiles.attachments⟩
      else fs.dirs.lookup id' := by
  unfold FsLogStore.setDisk
  by_cases h : id' = id
  · subst h
    cases disk.dir <;> simp
  · cases disk.dir <;> simp [h, Finmap.lookup_insert_of_ne]

theorem lookup_setDisk_floors (id' : SessionId) :
    (fs.setDisk id disk).epochFloors.lookup id' =
      if id' = id then disk.epochFloor else fs.epochFloors.lookup id' := by
  unfold FsLogStore.setDisk
  by_cases h : id' = id
  · subst h
    cases disk.epochFloor <;> simp
  · cases disk.epochFloor <;> simp [h, Finmap.lookup_insert_of_ne]

end Lookups

variable {ed verify} {fs : FsLogStore} {mem : MemoryStore}

theorem Agree.set (h : Agree ed verify fs mem) (id : SessionId) (disk : Disk)
    (entry : Option SessionEntry) {mem' : MemoryStore}
    (hinner : ∀ id', mem'.inner.lookup id' = if id' = id then entry else mem.inner.lookup id')
    (hfloors : ∀ id', (mem'.epochFloors.lookup id').getD 0 =
      if id' = id then disk.epochFloor.getD 0 else (mem.epochFloors.lookup id').getD 0)
    (hfiling : Option.Rel (Filing ed verify id)
      (disk.dir.map fun dir => ⟨dir, (fs.dirs.lookup id).bind SessionFiles.attachments⟩) entry) :
    Agree ed verify (fs.setDisk id disk) mem' where
  held id' := by
    rw [lookup_setDisk_dirs, hinner]
    by_cases hid : id' = id
    · subst hid
      rw [if_pos rfl, if_pos rfl]
      exact hfiling
    · rw [if_neg hid, if_neg hid]
      exact h.held id'
  floor id' := by
    rw [lookup_setDisk_floors, hfloors]
    by_cases hid : id' = id
    · rw [if_pos hid, if_pos hid]
    · rw [if_neg hid, if_neg hid]
      exact h.floor id'

theorem Agree.same (h : Agree ed verify fs mem) (id : SessionId) :
    Agree ed verify (fs.setDisk id (fs.disk id)) mem where
  held id' := by
    have hdirs : (fs.setDisk id (fs.disk id)).dirs.lookup id' = fs.dirs.lookup id' := by
      rw [lookup_setDisk_dirs]
      split
      · subst_vars
        cases hid : fs.dirs.lookup id' <;> simp [FsLogStore.disk, hid]
      · rfl
    rw [hdirs]
    exact h.held id'
  floor id' := by
    have hfloors : (fs.setDisk id (fs.disk id)).epochFloors.lookup id' =
        fs.epochFloors.lookup id' := by
      rw [lookup_setDisk_floors]
      split
      · subst_vars
        rfl
      · rfl
    rw [hfloors]
    exact h.floor id'

theorem Agree.cases (h : Agree ed verify fs mem) (id : SessionId) :
    (fs.dirs.lookup id = none ∧ mem.inner.lookup id = none) ∨
      ∃ files entry, fs.dirs.lookup id = some files ∧ mem.inner.lookup id = some entry ∧
        Filing ed verify id files entry := by
  have hheld := h.held id
  generalize fs.dirs.lookup id = files at hheld ⊢
  generalize mem.inner.lookup id = entry at hheld ⊢
  cases hheld with
  | none => exact .inl ⟨rfl, rfl⟩
  | some hfiling => exact .inr ⟨_, _, rfl, rfl, hfiling⟩

variable (ed verify) in
def Alike (fs : StoreResult × FsLogStore) (mem : StoreResult × MemoryStore) : Prop :=
  fs.1.toOption = mem.1.toOption ∧ Agree ed verify fs.2 mem.2

theorem lookup_insert_ite {α : Type} (m : Finmap fun _ : SessionId => α) (id id' : SessionId) (a : α) :
    (m.insert id a).lookup id' = if id' = id then some a else m.lookup id' := by
  by_cases h : id' = id
  · subst h
    simp
  · simp [h, Finmap.lookup_insert_of_ne]

theorem Agree.insert (h : Agree ed verify fs mem) {id : SessionId} {files : SessionFiles}
    {entry : SessionEntry} {dir : SessionDir} (hfiles : fs.dirs.lookup id = some files)
    (hfiling : Filing ed verify id { files with dir := dir } entry) :
    Agree ed verify (fs.setDisk id { fs.disk id with dir := some dir })
      { mem with inner := mem.inner.insert id entry } := by
  refine h.set id _ (some entry) (fun id' => lookup_insert_ite _ id id' _) ?_ ?_
  · intro id'
    split
    · subst_vars
      exact (h.floor _).symm
    · rfl
  · rw [hfiles]
    exact .some hfiling

theorem alike_update (h : Agree ed verify fs mem) {id : SessionId} {op : Disk → IoResult Unit}
    {f : SessionRecord → SessionRecord}
    (hnone : ∀ disk : Disk, disk.dir = none → op disk = (.error .notFound, disk))
    (hsome : ∀ (disk : Disk) (files : SessionFiles) (entry : SessionEntry),
      disk.dir = some files.dir → Filing ed verify id files entry →
        ∃ dir, op disk = (.ok (), { disk with dir := some dir }) ∧
          Filing ed verify id { files with dir := dir } { entry with record := f entry.record }) :
    Alike ed verify (fs.onDisk id op fun _ => .done) (mem.update id f) := by
  unfold MemoryStore.update MemoryStore.getMut FsLogStore.onDisk
  obtain ⟨hfiles, hentry⟩ | ⟨files, entry, hfiles, hentry, hfiling⟩ := h.cases id
  · have hdir : (fs.disk id).dir = none := by simp [FsLogStore.disk, hfiles]
    rw [hnone _ hdir, hentry]
    exact ⟨rfl, h.same id⟩
  · have hdir : (fs.disk id).dir = some files.dir := by simp [FsLogStore.disk, hfiles]
    obtain ⟨dir, hop, hfiling'⟩ := hsome _ files entry hdir hfiling
    rw [hop, hentry]
    exact ⟨rfl, h.insert hfiles hfiling'⟩

theorem appendAll_ok {log : List SessionMessage} (file : Bytes)
    (hsize : ∀ m ∈ log, (encodeMessage m).length ≤ MAX_FRAME_SIZE) :
    appendAll log file = (.ok (), file ++ encodeLog log) := by
  induction log generalizing file with
  | nil => simp [appendAll]
  | cons m log ih =>
    have hm := Nat.not_lt.mpr (hsize m mem_cons_self)
    have hrest := ih (file ++ Frames.frame (encodeMessage m)) fun x hx =>
      hsize x (mem_cons_of_mem m hx)
    simp only [appendAll, appendLog, if_neg hm, hrest, append_assoc]
    rfl

theorem logTail_le {log : List SessionMessage} {head : Seq} (hlog : ∀ m ∈ log, m.seq ≤ head) :
    logTail log ≤ head := by
  have hfold : ∀ (seqs : List Seq) (acc : Seq), acc ≤ head → (∀ n ∈ seqs, n ≤ head) →
      seqs.foldl max acc ≤ head := by
    intro seqs
    induction seqs with
    | nil => exact fun _ hacc _ => hacc
    | cons n seqs ih =>
      intro acc hacc hseqs
      exact ih _ (max_le hacc (hseqs n mem_cons_self)) fun k hk =>
        hseqs k (mem_cons_of_mem n hk)
  refine hfold _ _ (Seq.zero_le _) fun n hn => ?_
  obtain ⟨m, hm, rfl⟩ := mem_map.mp hn
  exact hlog m hm

theorem listed_attachmentFilename (kindFilter : Option String) (id : SessionId) (kind : String)
    {payload : Bytes} (hsize : payload.length ≤ MAX_FRAME_SIZE) :
    FsLogStore.listed kindFilter id (attachmentFilename kind) payload =
      if kindFilter.any (· ≠ kind) then none else some ⟨id, kind, payload⟩ := by
  simp only [FsLogStore.listed, isAttachmentTmp_attachmentFilename, decode_attachmentFilename,
    if_neg (Nat.not_lt.mpr hsize)]
  rfl

theorem Attached.list_eq (id : SessionId) {files : Finmap fun _ : Bytes => Bytes}
    {kinds : Finmap fun _ : String => Bytes} (hatt : Attached files kinds)
    (kindFilter : Option String) :
    files.keys.val.filterMap (fun name => (files.lookup name).bind
        (FsLogStore.listed kindFilter id name)) =
      kinds.keys.val.filterMap fun kind =>
        if kindFilter.any (· ≠ kind) then none
        else (kinds.lookup kind).map fun payload => (⟨id, kind, payload⟩ : StoredAttachment) := by
  rw [hatt.keys_eq, Finset.map_val, Multiset.filterMap_map]
  congr 1
  funext kind
  simp only [Function.comp_apply, Function.Embedding.coeFn_mk, hatt.lookup]
  cases hkind : kinds.lookup kind with
  | none => simp
  | some payload =>
    rw [Option.bind_some, listed_attachmentFilename _ _ _ (hatt.size kind payload hkind)]
    rfl

section Calls

variable (h : Agree ed verify fs mem) (id : SessionId)
include h

theorem alike_append {m : SessionMessage} (hsize : (encodeMessage m).length ≤ MAX_FRAME_SIZE)
    (hsigned : verify = true → Signing.verifyMessage ed id m m.signature = .ok ()) :
    Alike ed verify (FsLogStore.step (.append id m) fs) (MemoryStore.step (.append id m) mem) := by
  refine alike_update h (fun disk hdir => by simp [Store.append, hdir]) ?_
  intro disk files entry hdir hfiling
  refine ⟨_, append_none hdir hfiling.log hfiling.metaJson hsize, ?_⟩
  have hmem : ∀ x ∈ entry.record.log ++ [m], x ∈ entry.record.log ∨ x = m := by simp
  refine { hfiling with metaJson := rfl, log := rfl, size := ?_, signed := ?_, le_head := ?_ }
  · intro x hx
    obtain hx | rfl := hmem x hx
    · exact hfiling.size x hx
    · exact hsize
  · intro hv x hx
    obtain hx | rfl := hmem x hx
    · exact hfiling.signed hv x hx
    · exact hsigned hv
  · intro x hx
    obtain hx | rfl := hmem x hx
    · exact (hfiling.le_head x hx).trans (le_max_left _ _)
    · exact le_max_right _ _

theorem alike_putTickets (tickets : List TicketEntry) :
    Alike ed verify (FsLogStore.step (.putTickets id tickets) fs)
      (MemoryStore.step (.putTickets id tickets) mem) := by
  refine alike_update h (fun disk hdir => by simp [putTickets, hdir]) ?_
  intro disk files entry hdir hfiling
  refine ⟨{ files.dir with ticketsJson := some ⟨TICKETS_VERSION, tickets⟩ },
    by simp [putTickets, hdir], ?_⟩
  exact { hfiling with metaJson := hfiling.metaJson, tickets := rfl }

theorem alike_updateMembers (f : Finset PeerId → Finset PeerId) :
    Alike ed verify (fs.onDisk id (updateMembers f) fun _ => .done)
      (mem.update id fun r => { r with members := f r.members }) := by
  refine alike_update h (fun disk hdir => by simp [updateMembers, hdir]) ?_
  intro disk files entry hdir hfiling
  refine ⟨_, by simp [updateMembers, hdir, hfiling.metaJson]; rfl, ?_⟩
  exact { hfiling with metaJson := rfl }

theorem alike_putWorkspaceTicket (envelope : Bytes) :
    Alike ed verify (FsLogStore.step (.putWorkspaceTicket id envelope) fs)
      (MemoryStore.step (.putWorkspaceTicket id envelope) mem) := by
  by_cases hmax : WORKSPACE_TICKET_ENVELOPE_MAX < envelope.length
  · have hmem : MemoryStore.step (.putWorkspaceTicket id envelope) mem = (.error .invalidData, mem) :=
      if_pos hmax
    rw [hmem]
    have hfs : ∃ e, putWorkspaceTicket envelope (fs.disk id) = (.error e, fs.disk id) := by
      unfold putWorkspaceTicket
      rcases hdir : fs.disk id with ⟨_ | dir, floor⟩
      · exact ⟨.notFound, rfl⟩
      · exact ⟨.invalidData, by simp [writeWorkspaceTicket, hmax]⟩
    obtain ⟨e, hfs⟩ := hfs
    change Alike ed verify (fs.onDisk id _ _) _
    rw [FsLogStore.onDisk, hfs]
    exact ⟨rfl, h.same id⟩
  · have hmem : MemoryStore.step (.putWorkspaceTicket id envelope) mem =
        mem.update id fun r => { r with workspaceTicket := some envelope } := if_neg hmax
    rw [hmem]
    refine alike_update h (fun disk hdir => by simp [putWorkspaceTicket, hdir]) ?_
    intro disk files entry hdir hfiling
    refine ⟨{ files.dir with workspaceTicket := some envelope },
      by simp [putWorkspaceTicket, writeWorkspaceTicket, hdir, hmax], ?_⟩
    have henvelope : ∀ e ∈ some envelope, e.length ≤ WORKSPACE_TICKET_ENVELOPE_MAX := by
      rintro e ⟨⟩
      exact Nat.le_of_not_lt hmax
    exact { hfiling with
      metaJson := hfiling.metaJson
      workspaceTicket := rfl
      envelope := henvelope }

theorem epochFloor_eq : FsLogStore.step (.epochFloor id) fs =
    (.ok (.epoch ((mem.epochFloors.lookup id).getD 0)), fs.setDisk id (fs.disk id)) := by
  have hread : epochFloor (fs.disk id) = (.ok ((fs.disk id).epochFloor.getD 0), fs.disk id) := by
    simp [epochFloor, readAndRaiseEpochFloor]
  have hfloor : (fs.disk id).epochFloor.getD 0 = (mem.epochFloors.lookup id).getD 0 := h.floor id
  change fs.onDisk id epochFloor .epoch = _
  rw [FsLogStore.onDisk, hread, hfloor]
  rfl

theorem alike_epochFloor :
    Alike ed verify (FsLogStore.step (.epochFloor id) fs) (MemoryStore.step (.epochFloor id) mem) := by
  rw [epochFloor_eq h id]
  exact ⟨rfl, h.same id⟩

theorem floor_raised (raiseTo : UInt64) (id' : SessionId) :
    (((mem.raiseEpochFloor id raiseTo).epochFloors.lookup id').getD 0) =
      if id' = id then (readAndRaiseEpochFloor (fs.disk id).epochFloor raiseTo).2.getD 0
      else (mem.epochFloors.lookup id').getD 0 := by
  have hfloor : (fs.disk id).epochFloor.getD 0 = (mem.epochFloors.lookup id).getD 0 := h.floor id
  unfold MemoryStore.raiseEpochFloor readAndRaiseEpochFloor
  rw [lookup_insert_ite, ← hfloor]
  dsimp only
  split
  · split
    · rfl
    · rfl
  · rfl

theorem alike_bumpHostEpoch (epoch : UInt64) (hid : id ∈ mem.inner) :
    Alike ed verify (FsLogStore.step (.bumpHostEpoch id epoch) fs)
      (MemoryStore.step (.bumpHostEpoch id epoch) mem) := by
  obtain ⟨-, hentry⟩ | ⟨files, entry, hfiles, hentry, hfiling⟩ := h.cases id
  · exact absurd hid (Finmap.lookup_eq_none.mp hentry)
  have hdir : (fs.disk id).dir = some files.dir := by simp [FsLogStore.disk, hfiles]
  have hfs : FsLogStore.step (.bumpHostEpoch id epoch) fs = (.ok .done, fs.setDisk id
      ⟨some { files.dir with
          metaJson := some { Meta.fromRecord entry.record with hostEpoch := epoch } },
        (readAndRaiseEpochFloor (fs.disk id).epochFloor (epoch + 1)).2⟩) := by
    simp [FsLogStore.step, FsLogStore.onDisk, bumpHostEpoch, hdir, hfiling.metaJson, Except.map]
  have hmem : MemoryStore.step (.bumpHostEpoch id epoch) mem = (.ok .done,
      { mem.raiseEpochFloor id (epoch + 1) with
        inner := mem.inner.insert id
          { entry with record := { entry.record with hostEpoch := epoch } } }) := by
    simp [MemoryStore.step, MemoryStore.update, MemoryStore.getMut, MemoryStore.raiseEpochFloor,
      hentry]
  rw [hfs, hmem]
  refine ⟨rfl, ?_⟩
  dsimp only
  refine h.set id _ _ (fun id' => lookup_insert_ite _ id id' _) (floor_raised h id _) ?_
  rw [hfiles]
  exact .some { hfiling with metaJson := rfl }

theorem alike_create {r : SessionRecord} (hr : Plain ed verify mem (.create r)) :
    Alike ed verify (FsLogStore.step (.create r) fs) (MemoryStore.step (.create r) mem) := by
  obtain ⟨hid, hlog, henvelope⟩ := hr
  obtain ⟨hfiles, -⟩ | ⟨_, _, -, hentry, -⟩ := h.cases r.id
  · have hdir : (fs.disk r.id).dir = none := by simp [FsLogStore.disk, hfiles]
    have happend : appendAll r.log [] = (.ok (), encodeLog r.log) :=
      appendAll_ok [] fun m hm => (hlog m hm).1
    have hfs : FsLogStore.step (.create r) fs = (.ok .done, fs.setDisk r.id
        ⟨some ⟨some (encodeLog r.log), some (Meta.fromRecord r),
            if r.tickets.isEmpty then none else some ⟨TICKETS_VERSION, r.tickets⟩,
            r.workspaceTicket⟩,
          (readAndRaiseEpochFloor (fs.disk r.id).epochFloor (r.hostEpoch + 1)).2⟩) := by
      cases hticket : r.workspaceTicket with
      | none =>
        simp [FsLogStore.step, FsLogStore.onDisk, create, hdir, hticket, SessionDir.empty, happend,
          Except.map]
      | some envelope =>
        have hmax := Nat.not_lt.mpr (henvelope envelope hticket)
        simp [FsLogStore.step, FsLogStore.onDisk, create, hdir, hticket, SessionDir.empty, happend,
          Except.map, writeWorkspaceTicket, hmax]
    have hmem : MemoryStore.step (.create r) mem = (.ok .done,
        { mem.raiseEpochFloor r.id (r.hostEpoch + 1) with inner := mem.inner.insert r.id ⟨r, ∅⟩ }) :=
      rfl
    rw [hfs, hmem]
    refine ⟨rfl, ?_⟩
    dsimp only
    refine h.set r.id _ _ (fun id' => lookup_insert_ite _ r.id id' _) (floor_raised h r.id _) ?_
    rw [hfiles]
    refine .some ?_
    exact
      { id_eq := rfl
        metaJson := rfl
        log := rfl
        tickets := by cases r.tickets <;> rfl
        workspaceTicket := rfl
        envelope := henvelope
        size := fun m hm => (hlog m hm).1
        signed := fun hv m hm => (hlog m hm).2.2 hv
        le_head := fun m hm => (hlog m hm).2.1
        attached := .empty }
  · exact absurd (Finmap.mem_of_lookup_eq_some hentry) hid

theorem alike_delete :
    Alike ed verify (FsLogStore.step (.delete id) fs) (MemoryStore.step (.delete id) mem) := by
  refine ⟨rfl, h.set id { fs.disk id with dir := none } none ?_ ?_ .none⟩
  · intro id'
    by_cases hid : id' = id
    · subst hid
      simp [MemoryStore.step]
    · simp [MemoryStore.step, hid]
  · intro id'
    split
    · subst_vars
      exact (h.floor _).symm
    · rfl

theorem Agree.insertFiles {files : SessionFiles} {entry : SessionEntry}
    (hfiling : Filing ed verify id files entry) :
    Agree ed verify { fs with dirs := fs.dirs.insert id files }
      { mem with inner := mem.inner.insert id entry } where
  held id' := by
    rw [lookup_insert_ite, lookup_insert_ite]
    split
    · subst_vars
      exact .some hfiling
    · exact h.held id'
  floor := h.floor

theorem alike_putAttachment {kind : String} {payload : Bytes}
    (hcall : Plain ed verify mem (.putAttachment id kind payload)) :
    Alike ed verify (FsLogStore.step (.putAttachment id kind payload) fs)
      (MemoryStore.step (.putAttachment id kind payload) mem) := by
  obtain ⟨hsize, hlen, hempty⟩ := hcall
  have hsize' := Nat.not_lt.mpr hsize
  have hlen' := Nat.not_lt.mpr hlen
  obtain ⟨hfiles, hentry⟩ | ⟨files, entry, hfiles, hentry, hfiling⟩ := h.cases id
  · simp only [FsLogStore.step, FsLogStore.putAttachment, MemoryStore.step, if_neg hsize',
      if_neg hlen', if_neg hempty, hfiles, hentry]
    exact ⟨rfl, h⟩
  · simp only [FsLogStore.step, FsLogStore.putAttachment, MemoryStore.step, if_neg hsize',
      if_neg hlen', if_neg hempty, hfiles, hentry]
    refine ⟨rfl, h.insertFiles id ?_⟩
    exact { hfiling with attached := hfiling.attached.insert kind hsize }

theorem alike_deleteAttachment (kind : String) :
    Alike ed verify (FsLogStore.step (.deleteAttachment id kind) fs)
      (MemoryStore.step (.deleteAttachment id kind) mem) := by
  obtain ⟨hfiles, hentry⟩ | ⟨files, entry, hfiles, hentry, hfiling⟩ := h.cases id
  · simp only [FsLogStore.step, FsLogStore.deleteAttachment, MemoryStore.step, MemoryStore.getMut,
      hfiles, hentry]
    exact ⟨rfl, h⟩
  simp only [FsLogStore.step, FsLogStore.deleteAttachment, MemoryStore.step, MemoryStore.getMut,
    hfiles, hentry]
  refine ⟨rfl, h.insertFiles id ?_⟩
  have hattached : Attached
      ((files.attachments.map fun a => a.erase (attachmentFilename kind)).getD ∅)
      (entry.attachments.erase kind) := by
    have herase := hfiling.attached.erase kind
    cases hatt : files.attachments with
    | none =>
      rw [hatt] at herase
      exact herase
    | some a =>
      rw [hatt] at herase
      exact herase
  exact { hfiling with attached := hattached }

theorem alike_step {c : StoreCall} (hc : Plain ed verify mem c) :
    Alike ed verify (FsLogStore.step c fs) (MemoryStore.step c mem) := by
  cases c with
  | create r => exact alike_create h hc
  | append id m => exact alike_append h id hc.1 hc.2
  | bumpHostEpoch id epoch => exact alike_bumpHostEpoch h id epoch hc
  | epochFloor id => exact alike_epochFloor h id
  | putTickets id tickets => exact alike_putTickets h id tickets
  | putWorkspaceTicket id envelope => exact alike_putWorkspaceTicket h id envelope
  | addMember id peer => exact alike_updateMembers h id (Insert.insert peer)
  | removeMember id peer => exact alike_updateMembers h id fun members => members.erase peer
  | delete id => exact alike_delete h id
  | putAttachment id kind payload => exact alike_putAttachment h id hc
  | deleteAttachment id kind => exact alike_deleteAttachment h id kind

theorem Agree.keys_eq : fs.dirs.keys = mem.inner.keys := by
  ext id
  rw [Finmap.mem_keys, Finmap.mem_keys, ← Finmap.lookup_isSome, ← Finmap.lookup_isSome]
  obtain ⟨hfiles, hentry⟩ | ⟨files, entry, hfiles, hentry, -⟩ := h.cases id
  · rw [hfiles, hentry]
    rfl
  · rw [hfiles, hentry]
    rfl

theorem Agree.loadAll_eq : fs.loadAll ed verify = mem.loadAll := by
  unfold FsLogStore.loadAll MemoryStore.loadAll
  rw [h.keys_eq]
  congr 1
  funext id
  obtain ⟨hfiles, hentry⟩ | ⟨files, entry, hfiles, hentry, hfiling⟩ := h.cases id
  · simp [load, FsLogStore.disk, hfiles, hentry, Except.toOption]
  have hload := loadOne_ok ed id verify files.dir hfiling.log hfiling.metaJson rfl
    (by rw [hfiling.workspaceTicket]; exact hfiling.envelope) hfiling.size hfiling.signed
  have hhead : max (Meta.fromRecord entry.record).head (logTail entry.record.log) =
      entry.record.head := max_eq_left (logTail_le hfiling.le_head)
  rw [hhead, hfiling.tickets, hfiling.workspaceTicket] at hload
  simp only [load, FsLogStore.disk, hfiles, hentry, Option.map_some, hload, Except.toOption]
  rw [← hfiling.id_eq]
  rfl

theorem Agree.listAttachments_eq (kindFilter : Option String) :
    fs.listAttachments kindFilter = mem.listAttachments kindFilter := by
  unfold FsLogStore.listAttachments MemoryStore.listAttachments
  rw [h.keys_eq]
  congr 1
  funext id
  obtain ⟨hfiles, hentry⟩ | ⟨files, entry, hfiles, hentry, hfiling⟩ := h.cases id
  · simp [hfiles, hentry]
  · have hlist := Attached.list_eq id hfiling.attached kindFilter
    simp only [hfiles, hentry, Option.bind_some, ← hlist]
    cases files.attachments with
    | none => rfl
    | some a => rfl

end Calls

theorem agree_answers {calls : List StoreCall} (h : Agree ed verify fs mem)
    (hplain : Along (fun s c => (MemoryStore.step c s).2) (Plain ed verify) mem calls) :
    (answers FsLogStore.step calls fs).1.map Except.toOption =
        (answers MemoryStore.step calls mem).1.map Except.toOption ∧
      Agree ed verify (answers FsLogStore.step calls fs).2 (answers MemoryStore.step calls mem).2 := by
  induction calls generalizing fs mem with
  | nil => exact ⟨rfl, h⟩
  | cons c calls ih =>
    obtain ⟨hc, hcalls⟩ := hplain
    obtain ⟨hresult, hagree⟩ := alike_step h hc
    obtain ⟨hresults, hagrees⟩ := ih hagree hcalls
    refine ⟨?_, hagrees⟩
    rw [answers, answers, map_cons, map_cons, hresult, hresults]

variable (ed verify) in
/-- On plain calls the two stores cannot be told apart. -/
theorem stores_agree (calls : List StoreCall)
    (hplain : Along (fun s c => (MemoryStore.step c s).2) (Plain ed verify) .empty calls) :
    let fs := answers FsLogStore.step calls .empty
    let mem := answers MemoryStore.step calls .empty
    fs.1.map Except.toOption = mem.1.map Except.toOption ∧
      fs.2.loadAll ed verify = mem.2.loadAll ∧
      (∀ kindFilter, fs.2.listAttachments kindFilter = mem.2.listAttachments kindFilter) ∧
      ∀ id, (FsLogStore.step (.epochFloor id) fs.2).1 = (MemoryStore.step (.epochFloor id) mem.2).1 := by
  obtain ⟨hresults, hagree⟩ := agree_answers (agree_empty ed verify) hplain
  refine ⟨hresults, hagree.loadAll_eq, hagree.listAttachments_eq, fun id => ?_⟩
  rw [epochFloor_eq hagree id]
  rfl


namespace Sample

open Artel.Sample

def record : SessionRecord := ⟨session, peer 0, {peer 0}, Seq.ZERO, [], .Local, 0, [], none⟩

def first : SessionMessage := message 0 1 .chat "" []

/-- A session with a message and an attachment, deleted and created again. -/
def calls : List StoreCall :=
  [.create record, .append session first, .putAttachment session "artel-fs/workspace/v1" [7],
    .bumpHostEpoch session 1, .delete session, .create record, .append session first]

theorem stores_agree_recreated :
    (answers FsLogStore.step calls .empty).2.loadAll .checksum true =
        (answers MemoryStore.step calls .empty).2.loadAll ∧
      (answers MemoryStore.step calls .empty).2.loadAll.card = 1 := by
  have hfirst : Plain .checksum true .empty (.append session first) :=
    ⟨by decide +kernel, fun _ => verify_message _ _ _ _ _⟩
  refine ⟨(stores_agree .checksum true calls ?_).2.1, by decide +kernel⟩
  have hattached : Plain .checksum true .empty
      (.putAttachment session "artel-fs/workspace/v1" [7]) :=
    ⟨by decide +kernel, by decide +kernel, by decide +kernel⟩
  refine ⟨⟨by decide +kernel, nofun, nofun⟩, hfirst, hattached, ?_, trivial,
    ⟨?_, nofun, nofun⟩, hfirst, trivial⟩
  · change _ ∈ _
    decide +kernel
  · decide +kernel

/-- Nameless kinds, a second create, and the floor of an unknown session. -/
theorem stores_differ :
    (answers FsLogStore.step [.create record, .putAttachment session "" []] .empty).1 =
        [.ok .done, .error .invalidData] ∧
      (answers MemoryStore.step [.create record, .putAttachment session "" []] .empty).1 =
        [.ok .done, .ok (.known true)] ∧
      ((answers FsLogStore.step [.create record, .putAttachment session "k" [], .create record]
        .empty).2.listAttachments none).card = 1 ∧
      ((answers MemoryStore.step [.create record, .putAttachment session "k" [], .create record]
        .empty).2.listAttachments none).card = 0 ∧
      (answers FsLogStore.step [.bumpHostEpoch session 4, .epochFloor session] .empty).1 =
        [.ok .done, .ok (.epoch 0)] ∧
      (answers MemoryStore.step [.bumpHostEpoch session 4, .epochFloor session] .empty).1 =
        [.ok .done, .ok (.epoch 5)] := by
  decide +kernel

end Sample

end Artel.Store.Reference
