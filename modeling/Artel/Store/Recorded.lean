import Artel.Store.Fs

namespace Artel.Store

def storedMeta (disk : Disk) : Option Meta := disk.dir.bind SessionDir.metaJson

def stamp (doc : Meta) : SessionKind × UInt64 := (doc.kind, doc.hostEpoch)

theorem stamp_append (m : SessionMessage) (disk : Disk) :
    (storedMeta (append none m disk).2).map stamp = (storedMeta disk).map stamp := by
  obtain ⟨_ | ⟨log, _ | doc, tickets, envelope⟩, floor⟩ := disk
  · rfl
  · simp only [append, raiseHead]
    split <;> rfl
  · simp only [append, raiseHead]
    split <;> rfl

theorem stamp_updateMembers (f : Finset PeerId → Finset PeerId) (disk : Disk) :
    (storedMeta (updateMembers f disk).2).map stamp = (storedMeta disk).map stamp := by
  obtain ⟨_ | ⟨log, _ | doc, tickets, envelope⟩, floor⟩ := disk <;> rfl

theorem storedMeta_create (r : SessionRecord) (disk : Disk) :
    storedMeta (create r disk).2 = some (Meta.fromRecord r) := by
  simp only [create]
  split <;> rfl

theorem storedMeta_bumpHostEpoch (epoch : UInt64) {disk : Disk} {doc : Meta}
    (h : storedMeta disk = some doc) :
    storedMeta (bumpHostEpoch epoch disk).2 = some { doc with hostEpoch := epoch } := by
  obtain ⟨_ | ⟨log, _ | doc', tickets, envelope⟩, floor⟩ := disk
  · cases h
  · cases h
  · cases h
    rfl

theorem bumpHostEpoch_ok (epoch : UInt64) (disk : Disk) : (bumpHostEpoch epoch disk).1 = .ok () := by
  obtain ⟨_ | ⟨log, _ | doc, tickets, envelope⟩, floor⟩ := disk <;> rfl

theorem stamp_load (ed : Ed25519) (id : SessionId) (verify : Bool) (disk : Disk) :
    (storedMeta (load ed id verify disk).2).map stamp = (storedMeta disk).map stamp := by
  obtain ⟨_ | ⟨log, _ | doc, tickets, envelope⟩, floor⟩ := disk
  · rfl
  · rfl
  · simp only [load, loadOne]
    split
    · rfl
    · split <;> rfl

theorem load_stamp {ed : Ed25519} {id : SessionId} {verify : Bool} {disk : Disk} {r : SessionRecord}
    (h : (load ed id verify disk).1 = .ok r) :
    (storedMeta disk).map stamp = some (r.kind, r.hostEpoch) := by
  obtain ⟨_ | ⟨log, _ | doc, tickets, envelope⟩, floor⟩ := disk
  · cases h
  · cases h
  simp only [load, loadOne] at h
  split at h
  · cases h
  · split at h
    · cases h
    · cases h
      rfl

def Raised (disk disk' : Disk) : Prop :=
  ∀ doc, storedMeta disk = some doc →
    ∃ doc', storedMeta disk' = some doc' ∧ doc.hostEpoch ≤ doc'.hostEpoch

theorem Raised.refl (disk : Disk) : Raised disk disk :=
  fun doc hdoc => ⟨doc, hdoc, UInt64.le_refl _⟩

theorem raised_of_stamp {disk disk' : Disk}
    (h : (storedMeta disk').map stamp = (storedMeta disk).map stamp) : Raised disk disk' := by
  intro doc hdoc
  rw [hdoc, Option.map_some, Option.map_eq_some_iff] at h
  obtain ⟨doc', hdoc', heq⟩ := h
  exact ⟨doc', hdoc', by rw [(Prod.mk.inj heq).2]; exact UInt64.le_refl _⟩

theorem remote_of_stamp {disk disk' : Disk}
    (h : (storedMeta disk').map stamp = (storedMeta disk).map stamp)
    (hremote : ∀ doc, storedMeta disk = some doc → doc.kind = .Remote) (doc : Meta)
    (hdoc : storedMeta disk' = some doc) : doc.kind = .Remote := by
  rw [hdoc, Option.map_some, eq_comm, Option.map_eq_some_iff] at h
  obtain ⟨doc', hdoc', heq⟩ := h
  rw [← (Prod.mk.inj heq).1]
  exact hremote doc' hdoc'

end Artel.Store
