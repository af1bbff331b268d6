import Artel.Session.Host
import Artel.Store.Writes

namespace Artel.EpochFloor

open Store List

inductive File
  | log
  | metaJson
  | ticketsJson
  | workspaceTicket
  deriving DecidableEq

def removeFile (dir : SessionDir) : File → SessionDir
  | .log => { dir with log := none }
  | .metaJson => { dir with metaJson := none }
  | .ticketsJson => { dir with ticketsJson := none }
  | .workspaceTicket => { dir with workspaceTicket := none }

/-- With `crash := some k` the daemon dies after `k` file writes of the call. -/
inductive Op
  | create (r : SessionRecord) (crash : Option ℕ)
  | bumpHostEpoch (epoch : UInt64) (crash : Option ℕ)
  | delete (gone : Option (List File))

structure State where
  disk : Disk
  /-- Every host epoch that was written to the id's meta; nothing reads it. -/
  written : List UInt64

namespace State

def empty : State := ⟨⟨none, none⟩, []⟩

def floor (s : State) : UInt64 := s.disk.epochFloor.getD 0

def write (s : State) (w : FileWrite) : State :=
  ⟨w.apply s.disk, s.written ++ w.hostEpoch.toList⟩

def writeUpTo (s : State) (crash : Option ℕ) (ws : List FileWrite) : State :=
  (crash.elim ws fun k => ws.take k).foldl write s

end State

def step (s : State) : Op → State
  | .create r crash => s.writeUpTo crash (createWrites r s.disk)
  | .bumpHostEpoch epoch crash => s.writeUpTo crash (bumpWrites epoch s.disk)
  | .delete none => { s with disk := (delete s.disk).2 }
  | .delete (some gone) => { s with disk := s.disk.modifyDir fun dir => gone.foldl removeFile dir }

def run (ops : List Op) : State := ops.foldl step .empty

def Op.hostEpoch : Op → Option UInt64
  | .create r _ => some r.hostEpoch
  | .bumpHostEpoch epoch _ => some epoch
  | .delete _ => none

/-- The last epoch has no successor for the floor to go to. -/
def MAX_EPOCH : UInt64 := 0xFFFFFFFFFFFFFFFF

def Bounded (op : Op) : Prop := op.hostEpoch ≠ some MAX_EPOCH

instance (op : Op) : Decidable (Bounded op) := inferInstanceAs (Decidable (_ ≠ _))

def Above (s : State) : Prop := ∀ e ∈ s.written, e < s.floor

/-- A write raises the floor, or puts an epoch below it into the meta. -/
def Sound (s : State) : FileWrite → Prop
  | .epochFloor floor => s.floor ≤ floor
  | .metaJson doc => doc.hostEpoch < s.floor
  | _ => True

variable {s : State}

theorem write_above {w : FileWrite} (hs : Above s) (hw : Sound s w) :
    Above (s.write w) ∧ s.floor ≤ (s.write w).floor := by
  cases w with
  | epochFloor floor =>
    refine ⟨fun e he => ?_, hw⟩
    have hmem : e ∈ s.written := by simpa [State.write, FileWrite.hostEpoch] using he
    exact UInt64.lt_of_lt_of_le (hs e hmem) hw
  | metaJson doc =>
    refine ⟨fun e he => ?_, UInt64.le_refl _⟩
    obtain he | he := mem_append.mp he
    · exact hs e he
    · obtain rfl : e = doc.hostEpoch := by simpa [FileWrite.hostEpoch] using he
      exact hw
  | _ =>
    refine ⟨fun e he => ?_, UInt64.le_refl _⟩
    apply hs e
    simpa [State.write, FileWrite.hostEpoch] using he

/-- Each write is sound in the state its predecessors leave. -/
abbrev SoundAll (s : State) (ws : List FileWrite) : Prop := Along State.write Sound s ws

theorem foldl_above {ws : List FileWrite} (hs : Above s) (hws : SoundAll s ws) :
    Above (ws.foldl State.write s) ∧ s.floor ≤ (ws.foldl State.write s).floor := by
  induction ws generalizing s with
  | nil => exact ⟨hs, UInt64.le_refl _⟩
  | cons w ws ih =>
    obtain ⟨hw, hrest⟩ := hws
    obtain ⟨habove, hle⟩ := write_above hs hw
    obtain ⟨hend, hle'⟩ := ih habove hrest
    exact ⟨hend, UInt64.le_trans hle hle'⟩

theorem toNat_succ {e : UInt64} (h : e ≠ MAX_EPOCH) : (e + 1).toNat = e.toNat + 1 := by
  have hlt := e.toNat_lt
  have hne : e.toNat ≠ MAX_EPOCH.toNat := fun heq => h (UInt64.toNat_inj.mp heq)
  have hmax : MAX_EPOCH.toNat = 2 ^ 64 - 1 := rfl
  rw [UInt64.toNat_add, UInt64.toNat_one]
  omega

theorem sound_raiseWrites {epoch : UInt64} {floor : Option UInt64}
    (hfloor : s.disk.epochFloor = floor) (he : epoch ≠ MAX_EPOCH) :
    SoundAll s (raiseWrites floor (epoch + 1)) ∧
      epoch < ((raiseWrites floor (epoch + 1)).foldl State.write s).floor := by
  have hsucc := toNat_succ he
  have hnext : epoch < epoch + 1 := UInt64.lt_iff_toNat_lt.mpr (by omega)
  have hcur : s.floor = floor.getD 0 := by rw [State.floor, hfloor]
  unfold raiseWrites
  split
  · rename_i hlt
    refine ⟨⟨?_, trivial⟩, hnext⟩
    rw [← hcur] at hlt
    exact UInt64.le_of_lt hlt
  · rename_i hle
    refine ⟨trivial, ?_⟩
    rw [foldl_nil, hcur]
    exact UInt64.lt_of_lt_of_le hnext (UInt64.not_lt.mp hle)

theorem sound_appendWrites (log : List SessionMessage) {w : FileWrite} (hw : w ∈ appendWrites log)
    (s : State) : Sound s w := by
  obtain ⟨m, -, rfl⟩ := mem_map.mp hw
  trivial

theorem sound_bumpWrites {epoch : UInt64} (he : epoch ≠ MAX_EPOCH) :
    SoundAll s (bumpWrites epoch s.disk) := by
  unfold bumpWrites
  split
  · trivial
  · obtain ⟨hraise, hbelow⟩ := sound_raiseWrites (s := s) rfl he
    exact Along.append hraise ⟨hbelow, trivial⟩

theorem sound_sidecars (r : SessionRecord) (s : State) :
    SoundAll s ((if r.tickets.isEmpty then [] else [.ticketsJson ⟨TICKETS_VERSION, r.tickets⟩]) ++
      match r.workspaceTicket with
      | none => appendWrites r.log
      | some envelope =>
        if WORKSPACE_TICKET_ENVELOPE_MAX < envelope.length then []
        else .workspaceTicket envelope :: appendWrites r.log) := by
  have hlog : ∀ s, SoundAll s (appendWrites r.log) := fun s =>
    (Along.of_mem (P := fun w => ∀ s, Sound s w) fun w hw s => sound_appendWrites r.log hw s).imp
      fun s w hw => hw s
  refine Along.append ?_ ?_
  · split
    · trivial
    · exact ⟨trivial, trivial⟩
  · cases r.workspaceTicket with
    | none => exact hlog _
    | some envelope =>
      by_cases hmax : WORKSPACE_TICKET_ENVELOPE_MAX < envelope.length
      · simp only [if_pos hmax]
        trivial
      · simp only [if_neg hmax]
        exact ⟨trivial, hlog _⟩

/-- Directory, floor, log, meta, and then what the floor does not concern. -/
theorem sound_createWrites {r : SessionRecord} (he : r.hostEpoch ≠ MAX_EPOCH) :
    SoundAll s (createWrites r s.disk) := by
  obtain ⟨hraise, hbelow⟩ := sound_raiseWrites (s := s.write .ensureDir) rfl he
  have hmeta : SoundAll ((raiseWrites s.disk.epochFloor (r.hostEpoch + 1)).foldl State.write
      (s.write .ensureDir)) [.touchLog, .metaJson (Meta.fromRecord r)] := ⟨trivial, hbelow, trivial⟩
  have hdir : SoundAll s [.ensureDir] := ⟨trivial, trivial⟩
  unfold createWrites
  rw [append_assoc]
  refine Along.append (Along.append (Along.append hdir hraise) ?_) (sound_sidecars r _)
  rw [foldl_append]
  exact hmeta

theorem writeUpTo_above {ws : List FileWrite} (hs : Above s) (hws : SoundAll s ws)
    (crash : Option ℕ) :
    Above (s.writeUpTo crash ws) ∧ s.floor ≤ (s.writeUpTo crash ws).floor := by
  cases crash with
  | none => exact foldl_above hs hws
  | some k => exact foldl_above hs (hws.take k)

theorem step_above {op : Op} (hs : Above s) (hop : Bounded op) :
    Above (step s op) ∧ s.floor ≤ (step s op).floor := by
  cases op with
  | create r crash =>
    refine writeUpTo_above hs (sound_createWrites ?_) crash
    exact fun he => hop (congrArg some he)
  | bumpHostEpoch epoch crash =>
    refine writeUpTo_above hs (sound_bumpWrites ?_) crash
    exact fun he => hop (congrArg some he)
  | delete gone => cases gone <;> exact ⟨hs, UInt64.le_refl _⟩

theorem run_above {ops : List Op} (h : ∀ op ∈ ops, Bounded op) : Above (run ops) := by
  have hstep : ∀ s op, Above s → Bounded op → Above (step s op) := fun s op hs hop =>
    (step_above hs hop).1
  have hstart : Above .empty := by simp [Above, State.empty]
  exact (Along.of_mem h).invariant hstep hstart

theorem floor_le_foldl {ops : List Op} (hs : Above s) (h : ∀ op ∈ ops, Bounded op) :
    s.floor ≤ (ops.foldl step s).floor := by
  induction ops generalizing s with
  | nil => exact UInt64.le_refl _
  | cons op ops ih =>
    obtain ⟨habove, hle⟩ := step_above hs (h op mem_cons_self)
    exact UInt64.le_trans hle (ih habove fun o ho => h o (mem_cons_of_mem op ho))

theorem hostEpoch_of_host {id : SessionId} {call : HostCall} {session : Session}
    (h : (HostState.host id ⟨none, s.disk, []⟩ call).memory = some session) :
    session.hostEpoch = s.floor := by
  unfold HostState.host at h
  dsimp only [epochFloor] at h
  split at h
  · cases h
  · cases h
    rfl

/-- The floor is above every epoch written, unless that is the last one. -/
theorem floor_above_written (ops : List Op) (h : ∀ op ∈ ops, Bounded op) :
    (∀ e ∈ (run ops).written, e < (run ops).floor) ∧
      (∀ earlier later, ops = earlier ++ later → (run earlier).floor ≤ (run ops).floor) ∧
      ∀ id call session, (HostState.host id ⟨none, (run ops).disk, []⟩ call).memory = some session →
        session.hostEpoch ∉ (run ops).written := by
  have habove := run_above h
  refine ⟨habove, ?_, ?_⟩
  · rintro earlier later rfl
    have hearlier : Above (run earlier) := run_above fun op hop => h op (mem_append_left _ hop)
    have hle := floor_le_foldl hearlier fun op hop => h op (mem_append_right _ hop)
    rwa [run, run, foldl_append]
  · intro id call session hmem hused
    have hlt := habove _ hused
    rw [hostEpoch_of_host hmem] at hlt
    exact UInt64.lt_irrefl _ hlt

section Sample

/-- The record of a mirror that a join makes at the epoch of its ticket. -/
def mirrorAt (epoch : UInt64) : SessionRecord :=
  { Session.new Sample.session (Sample.peer 1) .Remote with hostEpoch := epoch }.record

/-- Two incarnations, and a crash between the floor and the meta of the second. -/
theorem floor_above_written_crash :
    (∀ e ∈ (run [.create (mirrorAt 4) none, .delete none, .create (mirrorAt 7) (some 2)]).written,
        e < (run [.create (mirrorAt 4) none, .delete none, .create (mirrorAt 7) (some 2)]).floor) ∧
      (run [.create (mirrorAt 4) none, .delete none, .create (mirrorAt 7) (some 2)]).written = [4] ∧
      (run [.create (mirrorAt 4) none, .delete none, .create (mirrorAt 7) (some 2)]).floor = 8 := by
  refine ⟨(floor_above_written _ ?_).1, by decide +kernel, by decide +kernel⟩
  intro op hop
  simp only [mem_cons, not_mem_nil, or_false] at hop
  rcases hop with rfl | rfl | rfl <;> decide

/-- The successor of the last epoch wraps to zero, below what was written. -/
theorem last_epoch_not_covered :
    (run [.create (mirrorAt MAX_EPOCH) none]).written = [MAX_EPOCH] ∧
      (run [.create (mirrorAt MAX_EPOCH) none]).floor = 0 ∧
      ∃ session ∈ (HostState.host Sample.session ⟨none, (run [.create (mirrorAt (MAX_EPOCH - 1)) none,
          .create (mirrorAt MAX_EPOCH) none, .delete none]).disk, []⟩ Sample.call).memory,
        session.hostEpoch ∈ (run [.create (mirrorAt (MAX_EPOCH - 1)) none,
          .create (mirrorAt MAX_EPOCH) none, .delete none]).written := by
  refine ⟨by decide +kernel, by decide +kernel, _, rfl, by decide +kernel⟩

end Sample

end Artel.EpochFloor
