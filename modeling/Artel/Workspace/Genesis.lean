import Artel.Workspace.Feed

namespace Artel.Workspace

/-- The docs store of the host's node, whose commits come late. -/
structure Docs where
  /-- The namespaces below were on disk at the last commit, but for those lost before it. -/
  committed : Namespace
  lost : Finset Namespace

def Docs.Durable (docs : Docs) (ns : Namespace) : Prop := ns < docs.committed ∧ ns ∉ docs.lost

instance (docs : Docs) (ns : Namespace) : Decidable (docs.Durable ns) :=
  inferInstanceAs (Decidable (_ ∧ _))

structure Node where
  state : State
  docs : Docs

inductive NodeEvent
  | run (event : Event)
  /-- The batch of writes is committed. -/
  | commit
  /-- The process dies, and of the namespaces that were not committed some are gone. -/
  | crash (lost : Finset Namespace)

namespace Node

/-- `docs.open` of the namespace that the state directory names. -/
def opensCurrent (n : Node) : Bool :=
  match n.state.dir.docId with
  | none => true
  | some genesis => decide (n.state.dir.currentNamespace.getD genesis ∉ n.docs.lost)

def pending (n : Node) (ns : Namespace) : Bool :=
  decide (n.docs.committed ≤ ns) && decide (ns < n.state.nextNamespace)

def step (site : Site) (n : Node) : NodeEvent → Node
  -- a store that fails to open what it has is taken for one that lost it
  | .run (.advance opens) =>
    { n with state := n.state.step site (.advance (opens && n.opensCurrent)) }
  | .run event => { n with state := n.state.step site event }
  | .commit => { n with docs := { n.docs with committed := n.state.nextNamespace } }
  | .crash lost =>
    { state := n.state.step site .crash
      docs := ⟨n.state.nextNamespace, n.docs.lost ∪ lost.filter (n.pending ·)⟩ }

def initial : Node := ⟨.initial, ⟨0, ∅⟩⟩

def after (site : Site) (events : List NodeEvent) : Node := events.foldl (step site) initial

end Node

theorem Process.genesis_of_returned {process : Process} {doc : OpenedDoc}
    (h : process.returned = some doc) : process.genesis = some doc.genesis := by
  unfold Process.returned at h
  split at h <;> cases h <;> rfl

/-- A start that finds the genesis in the store also finds the namespace it is to open. -/
def FindsCurrent (n : Node) : NodeEvent → Prop
  | .run (.advance opens) => n.state.process.isStarting = true →
      ∀ genesis ∈ n.state.dir.docId, genesis ∉ n.docs.lost → (opens && n.opensCurrent) = true
  | _ => True

instance (n : Node) (event : NodeEvent) : Decidable (FindsCurrent n event) := by
  unfold FindsCurrent
  split <;> infer_instance

namespace State

inductive Dates (s : State) : Event → State → Prop
  | keeps {event : Event} {t : State} : t.dir.docId = s.dir.docId →
      (∀ g, t.process.genesis = some g → s.process.genesis = some g) →
      (∀ ns, t.process = .opening (.creating ns) → s.process = .opening (.creating ns)) →
      Dates s event t
  | reads {event : Event} {t : State} {g : Namespace} : t.dir.docId = s.dir.docId →
      s.dir.docId = some g → t.process.genesis = some g → Dates s event t
  | creates {opens : Bool} : s.process = .opening .start → (s.dir.docId = none ∨ opens = false) →
      Dates s (.advance opens) s.create
  | records {event : Event} {t : State} {ns : Namespace} : s.process = .opening (.creating ns) →
      t.dir.docId = some ns → t.process.genesis = some ns → Dates s event t

variable {site : Site} {s t : State}

theorem Dates.host {event : Event} {h h' : Host} (hup : s.process = .up h)
    (hdir : t.dir.docId = s.dir.docId) (hup' : t.process = .up h') (hgenesis : h'.genesis = h.genesis) :
    Dates s event t := by
  refine .keeps hdir (fun g hg => ?_) fun ns hns => ?_
  · rw [hup'] at hg
    rw [hup]
    exact (congrArg some hgenesis).symm.trans hg
  · rw [hup'] at hns
    cases hns

theorem Advances.dates {opens : Bool} (hspec : Advances site s opens t) :
    Dates s (.advance opens) t := by
  have hphase : ∀ {t : State} {g : Namespace}, t.dir.docId = s.dir.docId →
      s.process.genesis = some g → t.process.genesis = some g → Dates s (.advance opens) t := by
    intro t g hdir hs ht
    refine .keeps hdir (fun g' hg' => hs.trans (ht.symm.trans hg')) fun ns hns => ?_
    rw [hns] at ht
    cases ht
  have hdir : ∀ g, (s.hostSession g).dir.docId = s.dir.docId := fun g => by
    rw [(s.outside_hostSession g).dir]
  cases hspec with
  | stays => exact .keeps rfl (fun _ => id) fun _ => id
  | creates hprocess hwhy => exact .creates hprocess hwhy
  | reopens hprocess hdoc => exact .reads rfl hdoc rfl
  | records hprocess => exact .records hprocess rfl rfl
  | clears hprocess | recovers hprocess
  | resets hprocess => exact hphase rfl (by rw [hprocess]; rfl) rfl
  | registers hprocess => exact hphase (hdir _) (by rw [hprocess]; rfl) rfl
  | upgrades hprocess => exact hphase (hdir _) (by rw [hprocess]; rfl) rfl
  | fails => exact .keeps rfl nofun nofun
  | subscribes hprocess hr =>
    rw [bringUp, hr]
    exact hphase rfl (by rw [hprocess]; rfl) rfl

theorem step_dates (site : Site) (s : State) (event : Event) : Dates s event (step site s event) := by
  have hspec := s.step_spec site event
  generalize ht : step site s event = t at hspec
  cases hspec with
  | idles => exact .keeps rfl (fun _ => id) fun _ => id
  | outside hout =>
    have houtside := s.outside_step site hout
    obtain hsame | ⟨h, listener, hup, hup'⟩ := houtside.process
    · refine .keeps (by rw [houtside.dir]) (fun g hg => hsame ▸ hg) fun ns hns => hsame ▸ hns
    · exact .host hup (by rw [houtside.dir]) hup' rfl
  | starts => exact .keeps rfl nofun nofun
  | advances hspec => exact hspec.dates
  | receives hup hspec =>
    cases hspec with
    | stays => exact .keeps rfl (fun _ => id) fun _ => id
    | handles _ hhandled => exact .host hup rfl rfl hhandled.keeps.genesis
    | completes | joins | gaps => exact .host hup rfl rfl rfl
  | stops hup => exact .host hup rfl rfl rfl
  | runs hup hran => exact .host hup rfl rfl hran.keeps.genesis
  | rotates hup hspec =>
    obtain ⟨h', hwithin⟩ := hspec.within hup
    exact .host hup hwithin.docId hwithin.process hwithin.genesis
  | crashes => exact .keeps rfl nofun nofun

theorem genesis_step (h : ∀ g, s.process.genesis = some g → s.dir.docId = some g) (event : Event)
    (g : Namespace) (hg : (step site s event).process.genesis = some g) :
    (step site s event).dir.docId = some g := by
  have hspec := s.step_dates site event
  generalize step site s event = t at hg hspec
  cases hspec with
  | keeps hdir hgenesis => exact hdir.trans (h g (hgenesis g hg))
  | reads hdir hdoc hread => exact hdir.trans (hdoc.trans (hread.symm.trans hg))
  | creates => cases hg
  | records _ hdir hread => exact hdir.trans (hread.symm.trans hg)

theorem genesis_after (site : Site) (events : List Event) (g : Namespace)
    (hg : (after site events).process.genesis = some g) : (after site events).dir.docId = some g :=
  (Along.of_forall (C := fun _ _ => True) (fun _ _ => trivial) State.initial events).invariant
    (I := fun s : State => ∀ g, s.process.genesis = some g → s.dir.docId = some g)
    (fun _ event h _ => genesis_step h event) nofun g hg

theorem nextNamespace_le_step (site : Site) (s : State) (event : Event) :
    s.nextNamespace ≤ (step site s event).nextNamespace := by
  have hspec := s.step_spec site event
  generalize ht : step site s event = t at hspec
  cases hspec with
  | idles | starts | stops | runs | crashes => exact le_rfl
  | outside hout => exact (s.outside_step site hout).nextNamespace.ge
  | receives _ hspec => cases hspec <;> exact le_rfl
  | rotates hup hspec =>
    obtain ⟨h', hwithin⟩ := hspec.within hup
    exact hwithin.nextNamespace
  | advances hspec =>
    have hhosted : ∀ g, s.nextNamespace ≤ (s.hostSession g).nextNamespace := fun g =>
      (s.outside_hostSession g).nextNamespace.ge
    cases hspec with
    | creates => exact Nat.le_succ _
    | registers | upgrades => exact hhosted _
    | subscribes _ hr =>
      rw [bringUp, hr]
      exact le_rfl
    | stays | reopens | records | clears | recovers | resets | fails => exact le_rfl

end State

/-- A process goes by the recorded genesis, which is replaced only once it is lost. -/
structure Anchored (n : Node) : Prop where
  committed : n.docs.committed ≤ n.state.nextNamespace
  genesis : ∀ g, n.state.process.genesis = some g → n.state.dir.docId = some g
  healing : ∀ ns g, n.state.process = .opening (.creating ns) → n.state.dir.docId = some g →
    g ∈ n.docs.lost

namespace Anchored

variable {site : Site} {n : Node} {event : Event}

theorem initial : Anchored .initial := ⟨le_rfl, nofun, nofun⟩

theorem run (h : Anchored n)
    (hfinds : ∀ g, n.state.process = .opening .start → n.state.dir.docId = some g →
      event = .advance false → g ∈ n.docs.lost) :
    Anchored { n with state := n.state.step site event } := by
  refine ⟨h.committed.trans (n.state.nextNamespace_le_step site event),
    State.genesis_step h.genesis event, fun ns g hns hg => ?_⟩
  have hspec := n.state.step_dates site event
  generalize n.state.step site event = t at hns hg hspec
  cases hspec with
  | keeps hdir _ hcreating => exact h.healing ns g (hcreating ns hns) (hdir ▸ hg)
  | reads _ _ hread =>
    rw [hns] at hread
    cases hread
  | creates hprocess hwhy =>
    obtain hnone | rfl := hwhy
    · exact absurd (hnone.symm.trans hg) nofun
    · exact hfinds g hprocess hg rfl
  | records _ _ hread =>
    rw [hns] at hread
    cases hread

theorem step (h : Anchored n) {event : NodeEvent} (hfinds : FindsCurrent n event) :
    Anchored (n.step site event) := by
  cases event with
  | commit => exact ⟨le_rfl, h.genesis, h.healing⟩
  | crash lost => exact ⟨le_rfl, nofun, nofun⟩
  | run event =>
    cases event with
    | advance opens =>
      refine h.run fun g hprocess hdoc hopens => by_contra fun hlost => ?_
      have hfound := hfinds (by rw [hprocess]; rfl) g hdoc hlost
      cases (Event.advance.inj hopens).symm.trans hfound
    | _ => exact h.run nofun

theorem durable_step (h : Anchored n) {event : NodeEvent} {g : Namespace}
    (hdoc : n.state.dir.docId = some g) (hdurable : n.docs.Durable g) :
    (n.step site event).state.dir.docId = some g ∧ (n.step site event).docs.Durable g := by
  have hrun : ∀ event, (n.state.step site event).dir.docId = some g := by
    intro event
    have hspec := n.state.step_dates site event
    generalize n.state.step site event = t at hspec
    cases hspec with
    | keeps hdir => exact hdir.trans hdoc
    | reads hdir => exact hdir.trans hdoc
    | creates => exact hdoc
    | records hprocess => exact absurd (h.healing _ g hprocess hdoc) hdurable.2
  cases event with
  | commit => exact ⟨hdoc, hdurable.1.trans_le h.committed, hdurable.2⟩
  | crash lost =>
    have hkept : g ∉ n.docs.lost ∪ lost.filter (n.pending ·) := by
      simp [Node.pending, hdurable.2, hdurable.1]
    exact ⟨hrun .crash, hdurable.1.trans_le h.committed, hkept⟩
  | run event =>
    cases event with
    | advance opens => exact ⟨hrun _, hdurable⟩
    | _ => exact ⟨hrun _, hdurable⟩

end Anchored

/-- A durable genesis is kept while no start finds it lost. -/
theorem genesis_never_changes (site : Site) (before later : List NodeEvent) (g : Namespace)
    (hrun : Along (Node.step site) FindsCurrent .initial (before ++ later))
    (hdoc : (Node.after site before).state.dir.docId = some g)
    (hdurable : (Node.after site before).docs.Durable g) :
    (∀ doc ∈ (Node.after site (before ++ later)).state.process.returned, doc.genesis = g) ∧
    ∀ h, (Node.after site (before ++ later)).state.process = .up h →
      site.sessionIdFor h.genesis = site.sessionIdFor g := by
  obtain ⟨hbefore, hlater⟩ := hrun.split
  have hanchored : Anchored (Node.after site before) :=
    hbefore.invariant (I := Anchored) (fun _ _ h hfinds => h.step hfinds) .initial
  have hstable := hlater.invariant
    (I := fun n => Anchored n ∧ n.state.dir.docId = some g ∧ n.docs.Durable g)
    (fun _ _ h hfinds => ⟨h.1.step hfinds, h.1.durable_step h.2.1 h.2.2⟩)
    ⟨hanchored, hdoc, hdurable⟩
  rw [Node.after, List.foldl_append]
  obtain ⟨hend, hdocEnd, -⟩ := hstable
  have hsame : ∀ g', (later.foldl (Node.step site)
      (before.foldl (Node.step site) .initial)).state.process.genesis = some g' → g' = g :=
    fun g' hg' => Option.some.inj ((hend.genesis g' hg').symm.trans hdocEnd)
  refine ⟨fun doc hdoc => hsame _ (Process.genesis_of_returned hdoc), fun h hprocess => ?_⟩
  rw [hsame h.genesis (by rw [hprocess]; rfl)]

namespace Sample

open Artel.Sample

def committed : List NodeEvent := hosted.map .run ++ [.commit]

def rotatedCrash (lost : Finset Namespace) : List NodeEvent :=
  (Event.receive true :: (delivered (capability 0 1 (.revoke (peer 2))) ++
    List.replicate 10 (.rotate {}))).map .run ++ [.crash lost, .run .start] ++
    List.replicate 3 (.run (.advance true))

theorem genesis_never_changes_rotated :
    ∃ doc ∈ (Node.after site (committed ++ rotatedCrash ∅)).state.process.returned,
      doc.doc = 1 ∧ doc.genesis = 0 := by
  have hrun : Along (Node.step site) FindsCurrent .initial (committed ++ rotatedCrash ∅) := by
    decide +kernel
  have hreturned : ∃ doc ∈ (Node.after site (committed ++ rotatedCrash ∅)).state.process.returned,
      doc.doc = 1 := by
    decide +kernel
  obtain ⟨doc, hdoc, hcurrent⟩ := hreturned
  exact ⟨doc, hdoc, hcurrent, (genesis_never_changes site committed (rotatedCrash ∅) 0 hrun
    (by decide +kernel) (by decide +kernel)).1 doc hdoc⟩

/-- The crash takes the rotation's namespace; the next start makes a genesis. -/
theorem lost_rotation_changes_genesis :
    (Node.after site committed).state.dir.docId = some 0 ∧
    (Node.after site committed).docs.Durable 0 ∧
    (Node.after site (committed ++ rotatedCrash {1})).docs.Durable 0 ∧
    ∃ doc ∈ (Node.after site (committed ++ rotatedCrash {1})).state.process.returned,
      doc.genesis = 2 := by
  decide +kernel

end Sample

end Artel.Workspace
