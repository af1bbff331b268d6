import Artel.Registry.WatermarkOutline

namespace Artel.Watermark

open Store Registry

section Model

variable {ed : Ed25519} {d : Daemon ed} {id : SessionId} {blank : Session} {disk : Disk}
  {floor : UInt64}

def Survives (disk : Disk) (w : World × Marks) : Prop :=
  (storedMeta disk).map stamp = (storedMeta w.1.disk).map stamp

-- the options are searched, not the epochs
instance (epoch : Option UInt64) (disk disk' : Disk) : Decidable (Stands epoch disk disk') :=
  letI : Decidable (∃ e ∈ epoch, (storedMeta disk').map stamp = some (.Remote, e)) :=
    Option.decidableExistsMem epoch
  inferInstanceAs (Decidable (_ ∨ _))

instance (o : MirrorCall) (l : Label) (e : Env) (w : World × Marks) : Decidable (Guard o l e w) :=
  letI : Decidable (∀ epoch ∈ written o l, ∀ doc ∈ storedMeta w.1.disk, doc.hostEpoch ≤ epoch) :=
    Option.decidableForallMem (written o l)
  inferInstanceAs (Decidable (_ ∧ _ ∧ (_ → _)))

instance (disk : Disk) (w : World × Marks) : Decidable (Survives disk w) :=
  inferInstanceAs (Decidable (_ = _))

abbrev Ordered (floor : UInt64) : Pool MirrorCall (World × Marks) Env Label Outcome → Prop :=
  Pool.Suited (Inv floor) Guard (fun _ _ _ => True) View.idle

theorem inv_load (hremote : ∀ doc, storedMeta disk = some doc → doc.kind = .Remote)
    (hfloor : floor ≠ 0 → ∃ doc, storedMeta disk = some doc ∧ floor ≤ doc.hostEpoch) :
    Inv floor (Registry.load d id blank disk, Marks.none) fun _ => View.idle := by
  have hstamp := stamp_load ed id d.signingKey.isSome disk
  have hidle : ∀ s i, Knows floor s Marks.none i View.idle :=
    fun s i => ⟨nofun, nofun, nofun, nofun, nofun, nofun⟩
  have hstored : floor ≠ 0 → ∃ doc, storedMeta (Store.load ed id d.signingKey.isSome disk).2 =
      some doc ∧ floor ≤ doc.hostEpoch := by
    intro hne
    obtain ⟨doc, hdoc, hle⟩ := hfloor hne
    obtain ⟨doc', hdoc', hle'⟩ := raised_of_stamp hstamp doc hdoc
    exact ⟨doc', hdoc', UInt64.le_trans hle hle'⟩
  unfold Registry.load
  split
  · rename_i err disk' hload
    rw [hload] at hstamp hstored
    exact ⟨nofun, hstored, remote_of_stamp hstamp hremote, nofun, nofun, hidle _⟩
  rename_i r disk' hload
  have hr := load_stamp (congrArg Prod.fst hload)
  rw [hload] at hstamp hstored
  obtain ⟨doc, hdoc, heq⟩ := Option.map_eq_some_iff.mp (hstamp.trans hr)
  obtain ⟨hkind, hepoch⟩ := Prod.mk.inj heq
  refine ⟨?_, hstored, remote_of_stamp hstamp hremote, nofun, nofun, hidle _⟩
  rintro h ⟨⟩
  refine ⟨Nat.one_pos, ?_, ?_, doc, hdoc, ?_⟩
  · exact hkind.symm.trans (remote_of_stamp hstamp hremote doc hdoc)
  · by_cases hne : floor = 0
    · rw [hne]
      exact UInt64.zero_le
    · obtain ⟨doc', hdoc', hle⟩ := hstored hne
      obtain rfl := Option.some.inj (hdoc.symm.trans hdoc')
      have hloaded : floor ≤ r.hostEpoch := hepoch ▸ hle
      exact hloaded
  · have hloaded : r.hostEpoch ≤ doc.hostEpoch := hepoch ▸ UInt64.le_refl _
    exact hloaded

def Reaches (epoch : UInt64) (s : World) : Prop :=
  ∃ h, s.sessions = some h ∧ epoch ≤ (s.cells h).session.hostEpoch

variable {epoch : UInt64}

theorem Inv.reaches {w : World × Marks} {V : ℕ → View} (hI : Inv floor w V)
    (hreaches : Reaches epoch w.1) (j : ℕ) :
    Inv floor w (Function.update V j { View.idle with reached := some epoch }) := by
  refine hI.learn ⟨nofun, nofun, nofun, nofun, ?_, nofun⟩
  rintro e ⟨⟩
  exact hreaches

theorem Ordered.reaches {p : Pool MirrorCall (World × Marks) Env Label Outcome} (hp : Ordered floor p)
    {m : Move MirrorCall Env} (hm : p.Suits (fun _ => True) Guard Survives (.move m))
    (hreaches : Reaches epoch p.world.1) :
    Reaches epoch (p.move (MirrorCall.body d id) m).world.1 := by
  obtain ⟨V, j, hI, hj⟩ := Pool.Suited.onlooker (MirrorCall.body d id) hp hm
    fun V j hI => Inv.reaches hI hreaches j
  exact (hI.knows j).reached epoch (by rw [hj])

theorem Inv.crash {w : World × Marks} {V : ℕ → View} (hI : Inv floor w V) (hcrash : Survives disk w)
    (hepoch : epoch ≠ 0 → ∃ doc, storedMeta w.1.disk = some doc ∧ epoch ≤ doc.hostEpoch) :
    Inv epoch (Registry.load d id blank disk, Marks.none) fun _ => View.idle := by
  apply inv_load (remote_of_stamp hcrash hI.remote)
  intro hne
  obtain ⟨doc, hdoc, hle⟩ := hepoch hne
  obtain ⟨doc', hdoc', hle'⟩ := raised_of_stamp hcrash doc hdoc
  exact ⟨doc', hdoc', UInt64.le_trans hle hle'⟩

variable {p : Pool MirrorCall (World × Marks) Env Label Outcome} {hs : List MirrorEvent}

/-- The run from `p` keeps to `Guard`, and its crashes to `Survives`. -/
abbrev GuardedFrom (d : Daemon ed) (id : SessionId) (blank : Session)
    (p : Pool MirrorCall (World × Marks) Env Label Outcome) (hs : List MirrorEvent) : Prop :=
  Along (Pool.happen (MirrorCall.body d id) fun disk _ => (Registry.load d id blank disk, Marks.none))
    (Pool.Suits (fun _ => True) Guard Survives) p hs

abbrev runFrom (d : Daemon ed) (id : SessionId) (blank : Session)
    (p : Pool MirrorCall (World × Marks) Env Label Outcome) (hs : List MirrorEvent) :
    Pool MirrorCall (World × Marks) Env Label Outcome :=
  p.history (MirrorCall.body d id) (fun disk _ => (Registry.load d id blank disk, Marks.none)) hs

theorem Ordered.history (hp : Ordered floor p) (hhs : GuardedFrom d id blank p hs) :
    Ordered floor (runFrom d id blank p hs) :=
  Pool.suited_history (fun i o _ => outline_body d id i o)
    (fun _ _ _ hI hcrash => hI.crash hcrash hI.stored) hp hhs

theorem Ordered.mark_le (hp : Ordered floor p) (hreaches : Reaches epoch p.world.1)
    (hhs : GuardedFrom d id blank p hs) (hcrash : ∃ disk, .crash disk ∈ hs) {j : ℕ} {h : Handle}
    {mark : UInt64} (hj : (runFrom d id blank p hs).world.2.live j = some (h, mark)) :
    epoch ≤ mark := by
  induction hs generalizing p with
  | nil => exact absurd hcrash (by simp)
  | cons x hs ih =>
    cases x with
    | crash disk =>
      obtain ⟨V, hI, -⟩ := hp
      have hnext : Ordered epoch ⟨(Registry.load d id blank disk, Marks.none), []⟩ := by
        apply Pool.accounted_nil
        apply hI.crash hhs.1
        intro _
        obtain ⟨k, hk, hle⟩ := hreaches
        obtain ⟨-, -, -, doc, hdoc, hle'⟩ := hI.mirror k hk
        exact ⟨doc, hdoc, UInt64.le_trans hle hle'⟩
      obtain ⟨V', hI', -⟩ := hnext.history hhs.2
      exact (hI'.live j h mark hj).2.1
    | move m =>
      have hone : GuardedFrom d id blank p [.move m] := ⟨hhs.1, trivial⟩
      apply ih (hp.history hone) (hp.reaches hhs.1 hreaches) hhs.2 ?_ hj
      obtain ⟨disk, hmem⟩ := hcrash
      exact ⟨disk, (List.mem_cons.mp hmem).resolve_left nofun⟩

/-- Unless a join overwrites a later record, watermark, mirror and record ascend. -/
theorem watermarks_ordered (hdisk : ∀ doc, storedMeta disk = some doc → doc.kind = .Remote)
    (hhs : GuardedFrom d id blank ⟨(Registry.load d id blank disk, Marks.none), []⟩ hs) :
    (∀ j h mark, (runMirror d id blank disk hs).world.2.live j = some (h, mark) →
      (runMirror d id blank disk hs).world.1.sessions = some h ∧
        mark ≤ ((runMirror d id blank disk hs).world.1.cells h).session.hostEpoch) ∧
    (∀ h, (runMirror d id blank disk hs).world.1.sessions = some h →
      ∃ doc, storedMeta (runMirror d id blank disk hs).world.1.disk = some doc ∧
        ((runMirror d id blank disk hs).world.1.cells h).session.hostEpoch ≤ doc.hostEpoch) ∧
    ∀ hs₁ hs₂, hs = hs₁ ++ hs₂ → (∃ disk', .crash disk' ∈ hs₂) → ∀ j h mark j' h' mark',
      (runMirror d id blank disk hs₁).world.2.live j = some (h, mark) →
      (runMirror d id blank disk hs).world.2.live j' = some (h', mark') → mark ≤ mark' := by
  have hstart : Ordered 0 ⟨(Registry.load d id blank disk, Marks.none), []⟩ :=
    Pool.accounted_nil (inv_load hdisk fun h => absurd rfl h)
  have hrun := hstart.history hhs
  obtain ⟨V, hI, -⟩ := hrun
  refine ⟨fun j h mark hj => ?_, fun h hh => (hI.mirror h hh).2.2.2, ?_⟩
  · obtain ⟨hs, -, hle⟩ := hI.live j h mark hj
    exact ⟨hs, hle⟩
  · rintro hs₁ hs₂ rfl hcrash j h mark j' h' mark' hj hj'
    obtain ⟨hhs₁, hhs₂⟩ := hhs.split
    have hp := hstart.history hhs₁
    have hreaches : Reaches mark (runMirror d id blank disk hs₁).world.1 := by
      obtain ⟨V, hI, -⟩ := hp
      obtain ⟨hs, -, hle⟩ := hI.live j h mark hj
      exact ⟨h, hs, hle⟩
    apply hp.mark_le hreaches hhs₂ hcrash
    rwa [runMirror, Pool.history, List.foldl_append] at hj'

end Model

section Sample

open Sample

def turns (i n : ℕ) : List MirrorEvent := List.replicate n (.move (.step i calm))

/-- A beacon of the ticket's host, to the forwarder of the first call. -/
def beacon : MirrorCall :=
  .beacon 0 0 (peer 1) 1 (Signing.signCtrl .checksum (peer 1) session .beacon 1)

def restarted : List MirrorEvent :=
  let calls := .move (.call (.join remoteTicket (info 0))) :: turns 0 18 ++
    .move (.call beacon) :: turns 1 7
  calls ++ .crash (runMirror daemon session blank noDisk calls).world.1.disk ::
    .move (.call .resubscribe) :: turns 0 7

/-- The second join writes its record after a beacon has raised the epoch. -/
def raced : List MirrorEvent :=
  .move (.call (.join remoteTicket (info 0))) :: .move (.call (.join remoteTicket (info 0))) ::
    turns 1 2 ++ turns 0 18 ++ .move (.call beacon) :: turns 2 7 ++ turns 1 1

theorem watermarks_ordered_restarted :
    (runMirror daemon session blank noDisk (restarted.take 27)).world.2.live 0 = some (0, 1) ∧
      (runMirror daemon session blank noDisk restarted).world.2.live 0 = some (0, 1) ∧
      (∀ j h mark, (runMirror daemon session blank noDisk restarted).world.2.live j =
          some (h, mark) →
        (runMirror daemon session blank noDisk restarted).world.1.sessions = some h ∧
          mark ≤ ((runMirror daemon session blank noDisk restarted).world.1.cells h).session.hostEpoch) ∧
      (∀ h, (runMirror daemon session blank noDisk restarted).world.1.sessions = some h →
        ∃ doc, storedMeta (runMirror daemon session blank noDisk restarted).world.1.disk = some doc ∧
          ((runMirror daemon session blank noDisk restarted).world.1.cells h).session.hostEpoch ≤
            doc.hostEpoch) ∧
      ∀ hs₁ hs₂, restarted = hs₁ ++ hs₂ → (∃ disk', .crash disk' ∈ hs₂) → ∀ j h mark j' h' mark',
        (runMirror daemon session blank noDisk hs₁).world.2.live j = some (h, mark) →
        (runMirror daemon session blank noDisk restarted).world.2.live j' = some (h', mark') →
        mark ≤ mark' :=
  ⟨by decide +kernel, by decide +kernel, watermarks_ordered nofun (by decide +kernel)⟩

/-- Watermark and mirror are at epoch 1, and after a restart at 0. -/
theorem raced_record :
    (runMirror daemon session blank noDisk raced).world.2.live 0 = some (0, 1) ∧
      (runMirror daemon session blank noDisk raced).world.1.sessions = some 0 ∧
      ((runMirror daemon session blank noDisk raced).world.1.cells 0).session.hostEpoch = 1 ∧
      (storedMeta (runMirror daemon session blank noDisk raced).world.1.disk).map Meta.hostEpoch =
        some 0 ∧
      (runMirror daemon session blank noDisk
        (raced ++ .crash (runMirror daemon session blank noDisk raced).world.1.disk ::
          .move (.call .resubscribe) :: turns 0 7)).world.2.live 0 = some (0, 0) := by
  refine ⟨?_, ?_, ?_, ?_, ?_⟩ <;> decide +kernel

end Sample

end Artel.Watermark
