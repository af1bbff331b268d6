import Artel.Workspace.Projection

namespace Artel.Workspace

open List

def since (genesis : Namespace) (trace : List Mark) : List Mark :=
  trace.foldl (fun marks mark => if mark = .created genesis then [] else marks ++ [mark]) []

/-- A rotation began after the message was applied, and one was completed after that. -/
def Settled (genesis : Namespace) (m : SessionMessage) (marks : List Mark) : Prop :=
  ∃ signal ns, [.applied genesis m, .began signal, .completed ns].Sublist marks

def Event.succeeds : Event → Bool
  | .rotate answer => !answer.fault
  | _ => true

def Host.handled (h : Host) : Bool :=
  h.caughtUp && h.peerMap.isReady && h.signals.isEmpty && decide (h.rotation = .idle)

def Rotation.begun : Rotation → Option RotationSignal
  | .collecting signal | .minted signal _ | .named signal _ => some signal
  | .idle | .waiting _ | .rotated _ _ | .marked _ | .reimported _ | .refreshed _
  | .distributing _ _ => none

def Process.mark : Process → Option Seq
  | .opening (.recovered _ mark) | .opening (.registered _ mark) | .opening (.upgraded _ mark) =>
    some mark
  | _ => none

section Since

variable {g : Namespace} {trace marks : List Mark}

theorem since_append (h : .created g ∉ marks) :
    since g (trace ++ marks) = since g trace ++ marks := by
  have hfold : ∀ acc : List Mark, marks.foldl
      (fun marks mark => if mark = .created g then [] else marks ++ [mark]) acc = acc ++ marks := by
    induction marks with
    | nil => simp
    | cons mark marks ih =>
      intro acc
      obtain ⟨hne, hrest⟩ : Mark.created g ≠ mark ∧ .created g ∉ marks := by simpa using h
      rw [foldl_cons, if_neg (Ne.symm hne), ih hrest, append_assoc, singleton_append]
  rw [since, foldl_append, hfold, since]

end Since

theorem Settled.append {g : Namespace} {m : SessionMessage} {marks : List Mark}
    (h : Settled g m marks) (more : List Mark) : Settled g m (marks ++ more) := by
  obtain ⟨signal, ns, hsub⟩ := h
  exact ⟨signal, ns, hsub.trans (sublist_append_left _ _)⟩

/-- Every capability message up to a mark is settled. -/
def Done (g : Namespace) (r : Record) (marks : List Mark) (seq : Seq) : Prop :=
  ∀ m ∈ r.log, m.kind = .capability → m.seq ≤ seq → Settled g m marks

theorem Done.grows {g : Namespace} {r r' : Record} {marks : List Mark} {seq : Seq}
    (h : Done g r marks seq) (hgrows : r.Grows r') (hseq : seq ≤ r.head) (more : List Mark) :
    Done g r' (marks ++ more) seq := by
  intro m hm hkind hle
  obtain hm | hlt := hgrows.mem hm
  · exact (h m hm hkind hle).append more
  · exact absurd (hle.trans hseq) (not_le.mpr hlt)

theorem Done.zero {g : Namespace} {r : Record} {marks : List Mark} (h : r.Numbered) :
    Done g r marks Seq.ZERO :=
  fun m hm _ hle => absurd hle (not_le.mpr (h.pos m hm))

structure Owing (h : Host) (r : Record) (marks : List Mark) : Prop where
  heard : ∀ m ∈ r.log, m.kind = .capability → m.seq ≤ h.seen → .applied h.genesis m ∈ marks
  signals : ∀ signal, signal ∈ h.signals ∨ h.rotation.signal = some signal →
    signal.revokeSeq ≤ h.seen
  rising : ∀ signal, h.rotation.signal = some signal → h.rotatedRevokeSeq < signal.revokeSeq
  begun : ∀ signal, h.rotation.begun = some signal → ∀ m ∈ r.log, m.kind = .capability →
    m.seq ≤ signal.revokeSeq → [.applied h.genesis m, .began signal].Sublist marks
  rotated : ∀ signal outcome, h.rotation = .rotated signal outcome →
    Done h.genesis r marks signal.revokeSeq
  done : Done h.genesis r marks h.rotatedRevokeSeq
  mark_le : h.rotatedRevokeSeq ≤ r.head
  owed : h.peerMap.readiness ≠ .closed → ∀ m ∈ r.log, m.seq ≤ h.seen →
    ∀ signal ∈ Host.evictions m,
      m.seq ≤ h.rotatedRevokeSeq ∨ signal ∈ h.signals ∨ h.rotation.signal = some signal

namespace Owing

variable {h h' : Host} {r r' : Record} {marks : List Mark} {signal : RotationSignal}

theorem begun_signal {rotation : Rotation}
    (h : rotation.begun = some signal) : rotation.signal = some signal := by
  cases rotation <;> simp [Rotation.begun, Rotation.signal] at h ⊢ <;> exact h

section

variable (howing : Owing h r marks)
include howing

theorem grows (hseen : h.seen ≤ r.head) (hgrows : r.Grows r')
    (more : List Mark) : Owing h r' (marks ++ more) := by
  have hmem : ∀ m ∈ r'.log, ∀ seq ≤ r.head, m.seq ≤ seq → m ∈ r.log := fun m hm seq hseq hle =>
    (hgrows.mem hm).resolve_right (not_lt.mpr (hle.trans hseq))
  refine ⟨fun m hm hkind hle => ?_, howing.signals, howing.rising,
    fun signal hsignal m hm hkind hle => ?_, fun signal outcome hrotation => ?_,
    howing.done.grows hgrows howing.mark_le more, howing.mark_le.trans hgrows.head_le,
    fun hopen m hm hle => howing.owed hopen m (hmem m hm _ hseen hle) hle⟩
  · exact mem_append_left _ (howing.heard m (hmem m hm _ hseen hle) hkind hle)
  · have hbound := (howing.signals signal (.inr (begun_signal hsignal))).trans hseen
    exact (howing.begun signal hsignal m (hmem m hm _ hbound hle) hkind hle).trans
      (sublist_append_left _ _)
  · have hbound : signal.revokeSeq ≤ r.head :=
      (howing.signals signal (.inr (by rw [hrotation]; rfl))).trans hseen
    exact (howing.rotated signal outcome hrotation).grows hgrows hbound more

theorem passes (hgenesis : h'.genesis = h.genesis)
    (hseen : h'.seen = h.seen) (hsignals : h'.signals = h.signals)
    (hmark : h'.rotatedRevokeSeq = h.rotatedRevokeSeq)
    (hopen : h'.peerMap.readiness ≠ .closed → h.peerMap.readiness ≠ .closed)
    (hsignal : h'.rotation.signal = h.rotation.signal)
    (hbegun : ∀ signal, h'.rotation.begun = some signal → h.rotation.begun = some signal)
    (hover : ∀ signal outcome, h'.rotation = .rotated signal outcome → h.rotation = h'.rotation) :
    Owing h' r marks := by
  obtain ⟨h1, h2, h3, h4, h5, h6, h7, h8⟩ := howing
  constructor
  · rw [hgenesis, hseen]
    exact h1
  · rw [hsignals, hsignal, hseen]
    exact h2
  · rw [hsignal, hmark]
    exact h3
  · rw [hgenesis]
    exact fun signal hin => h4 signal (hbegun signal hin)
  · rw [hgenesis]
    exact fun signal outcome heq => h5 signal outcome ((hover signal outcome heq).trans heq)
  · rw [hgenesis, hmark]
    exact h6
  · rw [hmark]
    exact h7
  · rw [hseen, hmark, hsignals, hsignal]
    exact fun hnot => h8 (hopen hnot)

theorem congr (hgenesis : h'.genesis = h.genesis)
    (hseen : h'.seen = h.seen) (hsignals : h'.signals = h.signals)
    (hrotation : h'.rotation = h.rotation) (hmark : h'.rotatedRevokeSeq = h.rotatedRevokeSeq)
    (hopen : h'.peerMap.readiness ≠ .closed → h.peerMap.readiness ≠ .closed) :
    Owing h' r marks :=
  howing.passes hgenesis hseen hsignals hmark hopen (congrArg _ hrotation)
    (fun _ hin => hrotation ▸ hin) fun _ _ _ => hrotation.symm

theorem append (hseen : h.seen ≤ r.head) (more : List Mark) :
    Owing h r (marks ++ more) :=
  howing.grows hseen (.refl r) more

theorem handles {site : Site} {m : SessionMessage}
    (hnumbered : r.Numbered) (hm : m ∈ r.log)
    (hnext : ∀ x ∈ r.log, h.seen < x.seq → m.seq ≤ x.seq) (hhandled : Host.Handled site h m h') :
    Owing h' r (marks ++ h.messageMarks m) := by
  have hkeeps := hhandled.keeps
  have hseen := hhandled.seen
  have hle : h.seen ≤ h'.seen := hseen ▸ le_max_left _ _
  -- what is newly seen is the message itself
  have hnew : ∀ x ∈ r.log, x.seq ≤ h'.seen → x.seq ≤ h.seen ∨ x = m := by
    intro x hx hxle
    by_cases hxseen : x.seq ≤ h.seen
    · exact .inl hxseen
    · have hge := hnext x hx (not_le.mp hxseen)
      rw [hseen] at hxle
      have hxm : x.seq ≤ m.seq := (le_max_iff.mp hxle).resolve_left hxseen
      exact .inr (hnumbered.ascending.eq_of_key_eq _ hx hm (le_antisymm hxm hge))
  have hmarks : ∀ {l : List Mark}, l.Sublist marks → l.Sublist (marks ++ h.messageMarks m) :=
    fun hsub => hsub.trans (sublist_append_left _ _)
  constructor
  · intro x hx hkind hxle
    rw [hkeeps.genesis]
    obtain hxle | rfl := hnew x hx hxle
    · exact mem_append_left _ (howing.heard x hx hkind hxle)
    · exact mem_append_right _ (by simp [Host.messageMarks, hkind])
  · intro signal hsignal
    rw [hhandled.signals, hkeeps.rotation, mem_append, or_assoc] at hsignal
    obtain hin | hin | hin := hsignal
    · exact (howing.signals signal (.inl hin)).trans hle
    · rw [← (Host.mem_evictions.mp hin).2.2, hseen]
      exact le_max_right _ _
    · exact (howing.signals signal (.inr hin)).trans hle
  · rw [hkeeps.rotation, hkeeps.rotatedRevokeSeq]
    exact howing.rising
  · rw [hkeeps.rotation, hkeeps.genesis]
    exact fun signal hsignal x hx hkind hxle => hmarks (howing.begun signal hsignal x hx hkind hxle)
  · rw [hkeeps.rotation, hkeeps.genesis]
    exact fun signal outcome hrotation x hx hkind hxle =>
      (howing.rotated signal outcome hrotation x hx hkind hxle).append _
  · rw [hkeeps.genesis, hkeeps.rotatedRevokeSeq]
    exact fun x hx hkind hxle => (howing.done x hx hkind hxle).append _
  · rw [hkeeps.rotatedRevokeSeq]
    exact howing.mark_le
  · intro hopen x hx hxle signal hsignal
    rw [hhandled.peerMap, PeerMap.observe_readiness] at hopen
    rw [hkeeps.rotatedRevokeSeq, hhandled.signals, hkeeps.rotation]
    obtain hxle | rfl := hnew x hx hxle
    · exact (howing.owed hopen x hx hxle signal hsignal).imp_right fun hrest =>
        hrest.imp_left (mem_append_left _)
    · exact .inr (.inl (mem_append_right _ hsignal))

theorem skips {rest : List RotationSignal}
    (hsignals : h.signals = signal :: rest) (hle : signal.revokeSeq ≤ h.rotatedRevokeSeq) :
    Owing { h with signals := rest } r marks := by
  refine ⟨howing.heard, fun other hin => howing.signals other ?_, howing.rising, howing.begun,
    howing.rotated, howing.done, howing.mark_le, fun hopen m hm hseen other hother => ?_⟩
  · exact hin.imp_left fun hin => hsignals ▸ mem_cons_of_mem _ hin
  · obtain hin | hin | hin := howing.owed hopen m hm hseen other hother
    · exact .inl hin
    · rw [hsignals] at hin
      obtain rfl | hin := mem_cons.mp hin
      · exact .inl ((Host.mem_evictions.mp hother).2.2 ▸ hle)
      · exact .inr (.inl hin)
    · exact .inr (.inr hin)

theorem takes {rest : List RotationSignal}
    (hrotation : h.rotation = .idle) (hsignals : h.signals = signal :: rest)
    (hlt : h.rotatedRevokeSeq < signal.revokeSeq) :
    Owing { h with signals := rest, rotation := .waiting signal } r marks := by
  refine ⟨howing.heard, fun other hin => howing.signals other (.inl ?_), fun other hin => ?_, nofun,
    nofun, howing.done, howing.mark_le, fun hopen m hm hseen other hother => ?_⟩
  · rw [hsignals]
    obtain hin | hin := hin
    · exact mem_cons_of_mem _ hin
    · cases hin
      exact mem_cons_self
  · cases hin
    exact hlt
  · obtain hin | hin | hin := howing.owed hopen m hm hseen other hother
    · exact .inl hin
    · rw [hsignals] at hin
      obtain rfl | hin := mem_cons.mp hin
      · exact .inr (.inr rfl)
      · exact .inr (.inl hin)
    · rw [hrotation] at hin
      cases hin

theorem abandons (hclosed : h.peerMap.readiness = .closed) :
    Owing { h with rotation := .idle } r marks :=
  ⟨howing.heard, fun signal hin => howing.signals signal (.inl (hin.resolve_right nofun)), nofun,
    nofun, nofun, howing.done, howing.mark_le, fun hopen => absurd hclosed hopen⟩

theorem begins (hseen : h.seen ≤ r.head)
    (hrotation : h.rotation = .waiting signal) :
    Owing { h with rotation := .collecting signal } r (marks ++ [.began signal]) := by
  have hsignal : h.rotation.signal = some signal := by rw [hrotation]; rfl
  obtain ⟨h1, h2, h3, h4, h5, h6, h7, h8⟩ := howing.append hseen [.began signal]
  refine ⟨h1, fun other hin => h2 other ?_, fun other hin => h3 other ?_,
    fun other hin m hm hkind hle => ?_, nofun, h6, h7, fun hopen m hm hle other hother => ?_⟩
  · rw [hsignal]
    exact hin
  · rw [hsignal]
    exact hin
  · obtain rfl : signal = other := by simpa [Rotation.begun] using hin
    have hheard := howing.heard m hm hkind (hle.trans (howing.signals signal (.inr hsignal)))
    exact (singleton_sublist.mpr hheard).append (.refl [Mark.began signal])
  · exact (h8 hopen m hm hle other hother).imp_right fun hrest =>
      hrest.imp_right hsignal.symm.trans

theorem completes (hseen : h.seen ≤ r.head)
    {ns : Namespace} (hrotation : h.rotation = .named signal ns) (outcome : RotationOutcome) :
    Owing { h with rotation := .rotated signal outcome } r (marks ++ [.completed ns]) := by
  have hsignal : h.rotation.signal = some signal := by rw [hrotation]; rfl
  obtain ⟨h1, h2, h3, h4, h5, h6, h7, h8⟩ := howing.append hseen [.completed ns]
  refine ⟨h1, fun other hin => h2 other ?_, fun other hin => h3 other ?_, nofun,
    fun other outcome' heq m hm hkind hle => ?_, h6, h7, fun hopen m hm hle other hother => ?_⟩
  · rw [hsignal]
    exact hin
  · rw [hsignal]
    exact hin
  · obtain ⟨rfl, -⟩ : signal = other ∧ outcome = outcome' := by simpa using heq
    have hbegun := howing.begun signal (by rw [hrotation]; rfl) m hm hkind hle
    exact ⟨signal, ns, hbegun.append (.refl [Mark.completed ns])⟩
  · exact (h8 hopen m hm hle other hother).imp_right fun hrest =>
      hrest.imp_right hsignal.symm.trans

theorem marked (hseen : h.seen ≤ r.head)
    {outcome : RotationOutcome} (hrotation : h.rotation = .rotated signal outcome) (epoch : ℕ) :
    Owing { h with
      namespaceEpoch := epoch
      rotatedRevokeSeq := signal.revokeSeq
      rotation := .marked outcome } r marks := by
  have hsignal : h.rotation.signal = some signal := by rw [hrotation]; rfl
  refine ⟨howing.heard, fun other hin => howing.signals other (.inl (hin.resolve_right nofun)), nofun,
    nofun, nofun, howing.rotated signal outcome hrotation,
    (howing.signals signal (.inr hsignal)).trans hseen, fun hopen m hm hle other hother => ?_⟩
  obtain hin | hin | hin := howing.owed hopen m hm hle other hother
  · exact .inl (hin.trans (howing.rising signal hsignal).le)
  · exact .inr (.inl hin)
  · obtain rfl : signal = other := Option.some.inj (hsignal.symm.trans hin)
    exact .inl (Host.mem_evictions.mp hother).2.2.le

end

theorem rotates {s t : State} {answer : RotateAnswer} (hok : answer.fault = false)
    (hspec : State.Rotates s h answer t) (howing : Owing h r (since h.genesis s.trace))
    (hseen : h.seen ≤ r.head) (hup : s.process = .up h) (hup' : t.process = .up h') :
    Owing h' r (since h.genesis t.trace) := by
  -- a rotation that has been marked has no signal left
  have hlate : ∀ {h' : Host}, h'.genesis = h.genesis → h'.seen = h.seen → h'.signals = h.signals →
      h'.rotatedRevokeSeq = h.rotatedRevokeSeq → h'.peerMap = h.peerMap →
      h.rotation.signal = none → h'.rotation.signal = none →
      Owing h' r (since h.genesis s.trace) := by
    intro h' hgenesis hseen' hsignals hmark hmap hnone hnone'
    refine howing.passes hgenesis hseen' hsignals hmark (hmap ▸ id) (hnone'.trans hnone.symm)
      (fun signal hin => ?_) fun signal outcome heq => ?_
    · rw [begun_signal hin] at hnone'
      cases hnone'
    · rw [heq] at hnone'
      cases hnone'
  cases hspec with
  | stays =>
    obtain rfl : h = h' := by simpa [hup] using hup'
    exact howing
  | skips _ hsignals hle =>
    cases hup'
    exact howing.skips hsignals hle
  | takes hrotation hsignals hlt =>
    cases hup'
    exact howing.takes hrotation hsignals hlt
  | abandons hclosed =>
    cases hup'
    exact howing.abandons hclosed
  | faults hfault => simp [hok] at hfault
  | begins hrotation =>
    cases hup'
    rw [State.trace_note, since_append (by simp)]
    exact howing.begins hseen hrotation
  | mints hrotation | names hrotation =>
    cases hup'
    exact howing.passes rfl rfl rfl rfl id (by rw [hrotation]; rfl)
      (fun signal hin => hrotation ▸ hin) nofun
  | completes hrotation =>
    cases hup'
    rw [State.trace_note, since_append (by simp)]
    exact howing.completes hseen hrotation _
  | marks hrotation =>
    cases hup'
    exact howing.marked hseen hrotation _
  | reimports hrotation | refreshes hrotation | retains hrotation | lists hrotation
  | ends hrotation =>
    cases hup'
    exact hlate rfl rfl rfl rfl rfl (by rw [hrotation]; rfl) rfl
  | hands hrotation =>
    cases hup'
    rw [State.trace_note, since_append (by split <;> simp)]
    refine Owing.append ?_ ?_ _
    · exact hlate rfl rfl rfl rfl rfl (by rw [hrotation]; rfl) rfl
    · exact hseen

end Owing

/-- The marks, on disk and in memory, are those of the current log. -/
structure Settling (s : State) : Prop where
  disk : ∀ g r, s.dir.docId = some g → s.sessions g = some r →
    s.dir.mark ≤ r.head ∧ Done g r (since g s.trace) s.dir.mark
  opening : ∀ mark, s.process.mark = some mark → mark = s.dir.mark
  host : ∀ h r, s.hosting = some (h, r) → Owing h r (since h.genesis s.trace)

namespace Settling

variable {site : Site} {s t : State}

theorem initial : Settling .initial :=
  ⟨nofun, nofun, fun host r hhosting => absurd hhosting (State.hosting_ne rfl host r)⟩

theorem disk_grows (h : Settling s) {g : Namespace} {r r' : Record} (hdoc : s.dir.docId = some g)
    (hr : s.sessions g = some r) (hgrows : r.Grows r') (more : List Mark)
    (hmore : .created g ∉ more) :
    s.dir.mark ≤ r'.head ∧ Done g r' (since g (s.trace ++ more)) s.dir.mark := by
  obtain ⟨hle, hdone⟩ := h.disk g r hdoc hr
  rw [since_append hmore]
  exact ⟨hle.trans hgrows.head_le, hdone.grows hgrows hle more⟩

theorem disk_created {g : Namespace} {channel : ℕ} (hmark : s.dir.mark = Seq.ZERO)
    (marks : List Mark) : s.dir.mark ≤ (Record.new channel).head ∧
      Done g (.new channel) marks s.dir.mark := by
  rw [hmark]
  exact ⟨Seq.zero_le _, .zero (.new channel)⟩

theorem outside (hkept : Kept s) (h : Settling s) {event : Event} (hout : event.outside = true)
    (hclean : Clean s event) : Settling (State.step site s event) := by
  have hspec := s.outside_step site hout
  refine ⟨fun g r' hdoc hr' => ?_, fun mark hmark => ?_, fun h' r' hhosting => ?_⟩
  · rw [hspec.dir] at hdoc ⊢
    obtain ⟨r, hr, hgrows⟩ | ⟨rfl, -, hnone, rfl, -⟩ := s.outside_sessions site hout hr'
    · obtain htrace | ⟨other, hother, htrace⟩ := hspec.trace
      · have hgrown := h.disk_grows hdoc hr hgrows [] (by simp)
        rwa [append_nil, ← htrace] at hgrown
      · rw [htrace]
        refine h.disk_grows hdoc hr hgrows _ ?_
        rintro hin
        obtain rfl : g = other := by simpa using hin
        simp [hr] at hother
    · exact disk_created (hclean g hdoc (by simp [hnone])).1 _
  · rw [hspec.dir]
    refine h.opening mark ?_
    obtain hsame | ⟨host, listener, hup, hup'⟩ := hspec.process
    · rwa [hsame] at hmark
    · rw [hup'] at hmark
      cases hmark
  · obtain ⟨host, listener, r, hhost, rfl, hgrows, -, htrace⟩ :=
      s.outside_hosting site hout hclean hhosting
    obtain ⟨hup, hr⟩ := State.hosting_eq_some.mp hhost
    have hseen := (hkept.wired host r hup hr).1
    have howing := h.host host r hhost
    have hgrown : Owing host r' (since host.genesis (State.step site s event).trace) := by
      obtain htrace | ⟨other, hother, htrace⟩ := htrace
      · have hnil := howing.grows hseen hgrows []
        rwa [append_nil, ← htrace] at hnil
      · rw [htrace, since_append (by simpa using Ne.symm hother)]
        exact howing.grows hseen hgrows _
    exact hgrown.congr rfl rfl rfl rfl rfl id

theorem disk_same (h : Settling s) (hdir : t.dir = s.dir) (hsessions : t.sessions = s.sessions)
    (htrace : t.trace = s.trace) (hup : t.process.isUp = false)
    (hmark : ∀ mark, t.process.mark = some mark → mark = s.dir.mark) : Settling t := by
  refine ⟨?_, ?_, fun host r hhosting => absurd hhosting (State.hosting_ne hup host r)⟩
  · rw [hdir, hsessions, htrace]
    exact h.disk
  · rw [hdir]
    exact hmark

/-- `host_with` takes its mark from the disk, and makes a record without one. -/
theorem advance (hkept : Kept s) (h : Settling s) {opens : Bool}
    (hspec : State.Advances site s opens t) (hclean : Clean s (.advance opens)) : Settling t := by
  have hhosted : ∀ {doc : OpenedDoc} {phase : Opening}, s.process.registering = some doc.genesis →
      (∀ mark, (Process.opening phase).mark = some mark → s.process.mark = some mark) →
      Settling ((s.hostSession doc.genesis).setOpening phase) := by
    intro doc phase hregistering hmark
    have hout := s.outside_hostSession doc.genesis
    refine ⟨fun g r hdoc hr => ?_, fun mark hin => ?_,
      fun host r hhosting => absurd hhosting (State.hosting_ne rfl host r)⟩
    · have hdoc : s.dir.docId = some g := hout.dir ▸ hdoc
      have hdir : ((s.hostSession doc.genesis).setOpening phase).dir = s.dir := hout.dir
      rw [hdir]
      obtain hr₀ | ⟨rfl, hnone, rfl, -⟩ := State.hostSession_sessions hr
      · obtain htrace | ⟨other, hother, htrace⟩ := hout.trace
        · have hgrown := h.disk_grows hdoc hr₀ (.refl r) [] (by simp)
          rw [append_nil] at hgrown
          exact htrace.symm ▸ hgrown
        · have hne : .created g ∉ [Mark.created other] := by
            intro hin
            obtain rfl : g = other := by simpa using hin
            simp [hr₀] at hother
          exact htrace.symm ▸ h.disk_grows hdoc hr₀ (.refl r) _ hne
      · exact disk_created (hclean _ hregistering (by simp [hnone])).1 _
    · exact (h.opening mark (hmark mark hin)).trans (congrArg StateDir.mark hout.dir.symm)
  cases hspec with
  | stays => exact h
  | creates | reopens | fails => exact h.disk_same rfl rfl rfl rfl nofun
  | @records ns hprocess =>
    refine ⟨fun g r hdoc hr => ?_, nofun,
      fun host r hhosting => absurd hhosting (State.hosting_ne rfl host r)⟩
    obtain rfl : ns = g := Option.some.inj hdoc
    have hnone := (hkept.creating ns hprocess).2.1
    exact absurd (hnone.symm.trans hr) nofun
  | clears =>
    exact ⟨h.disk, nofun, fun host r hhosting => absurd hhosting (State.hosting_ne rfl host r)⟩
  | recovers =>
    refine h.disk_same rfl rfl rfl rfl fun mark hmark => ?_
    cases hmark
    rfl
  | resets =>
    refine ⟨fun g r hdoc hr => ⟨Seq.zero_le _, .zero (hkept.records g r hr).1⟩, fun mark hmark => ?_,
      fun host r hhosting => absurd hhosting (State.hosting_ne rfl host r)⟩
    cases hmark
    rfl
  | registers hprocess | upgrades hprocess =>
    refine hhosted ?_ fun mark hmark => ?_
    · rw [hprocess]
      rfl
    · rw [hprocess]
      exact hmark
  | @subscribes doc mark r hprocess hr =>
    have hdoc : s.dir.docId = some doc.genesis := hkept.genesis _ (by rw [hprocess]; rfl)
    obtain rfl : mark = s.dir.mark := h.opening mark (by rw [hprocess]; rfl)
    obtain ⟨hle, hdone⟩ := h.disk doc.genesis r hdoc hr
    rw [State.bringUp_eq hr]
    refine ⟨h.disk, nofun, fun host r' hhosting => ?_⟩
    obtain ⟨hup, hr'⟩ := State.hosting_eq_some.mp hhosting
    cases hup
    obtain rfl : r = r' := Option.some.inj (hr.symm.trans hr')
    have hpos : ∀ m ∈ r.log, ¬m.seq ≤ Seq.ZERO := fun m hm =>
      not_le.mpr ((hkept.records _ r hr).1.pos m hm)
    exact ⟨fun m hm _ hseen => absurd hseen (hpos m hm), by simp [Rotation.signal], nofun, nofun,
      nofun, hdone, hle, fun _ m hm hseen => absurd hseen (hpos m hm)⟩

theorem of_host (h : Settling s) {host' : Host} (hdir : t.dir = s.dir)
    (hsessions : t.sessions = s.sessions) (more : List Mark) (htrace : t.trace = s.trace ++ more)
    (hmore : ∀ g, .created g ∉ more) (hup : t.process = .up host')
    (howing : ∀ r, t.sessions host'.genesis = some r → Owing host' r (since host'.genesis t.trace)) :
    Settling t := by
  refine ⟨fun g r hdoc hr => ?_, fun mark hmark => ?_, fun host r hhosting => ?_⟩
  · rw [hdir] at hdoc ⊢
    rw [htrace]
    exact h.disk_grows hdoc (hsessions ▸ hr) (.refl r) more (hmore g)
  · rw [hup] at hmark
    cases hmark
  · obtain ⟨hup', hr⟩ := State.hosting_eq_some.mp hhosting
    obtain rfl : host' = host := by simpa [hup] using hup'
    exact howing r hr

theorem created_messageMarks (host : Host) (m : SessionMessage) (g : Namespace) :
    .created g ∉ host.messageMarks m := by
  intro hin
  obtain heq | ⟨peer, heq⟩ | ⟨signal, -, heq⟩ := Host.mem_messageMarks hin <;> cases heq

theorem created_deliveries (host : Host) (task : Task) (g : Namespace) :
    .created g ∉ host.deliveries task := by
  cases task <;> simp only [Host.deliveries] <;> split <;> simp

theorem receive (hkept : Kept s) (h : Settling s) {host : Host} (hup : s.process = .up host)
    {cleaned : Bool} (hspec : State.Receives site s host cleaned t)
    (horder : NoOvertaking s (.receive cleaned)) : Settling t := by
  have hold : ∀ {r : Record}, s.sessions host.genesis = some r →
      Owing host r (since host.genesis s.trace) :=
    fun hr => h.host host _ (State.hosting_eq_some.mpr ⟨hup, hr⟩)
  have hquiet : ∀ {host' : Host}, host'.genesis = host.genesis → host'.seen = host.seen →
      host'.signals = host.signals → host'.rotation = host.rotation →
      host'.rotatedRevokeSeq = host.rotatedRevokeSeq →
      (host'.peerMap.readiness ≠ .closed → host.peerMap.readiness ≠ .closed) →
      Settling (s.setHost host') := by
    intro host' hgenesis hseen hsignals hrotation hmark hopen
    refine h.of_host rfl rfl [] (append_nil _).symm (by simp) rfl fun r hr => ?_
    rw [hgenesis] at hr ⊢
    exact (hold hr).congr hgenesis hseen hsignals hrotation hmark hopen
  cases hspec with
  | stays => exact h
  | @handles channel m rest host' hlistener hhandled =>
    refine h.of_host rfl rfl _ rfl (created_messageMarks host m) rfl fun r hr => ?_
    have hgenesis : host'.genesis = host.genesis := hhandled.keeps.genesis
    rw [hgenesis] at hr ⊢
    have hincoming : s.incoming = some m := by simp [State.incoming, hup, hlistener]
    have hhost : s.hosting = some (host, r) := State.hosting_eq_some.mpr ⟨hup, hr⟩
    have hm : m ∈ r.log :=
      ((hkept.wired host r hup hr).2 channel _ hlistener).logged m mem_cons_self
    have howing : Owing { host with listener := .streaming channel rest } r _ :=
      (hold hr).congr rfl rfl rfl rfl rfl id
    rw [State.trace_note, since_append (created_messageMarks host m _)]
    exact howing.handles (hkept.records _ r hr).1 hm (horder m hincoming _ hhost) hhandled
  | completes _ hmap =>
    refine hquiet rfl rfl rfl rfl rfl fun hopen => ?_
    obtain rfl | ⟨rfl, -⟩ := hmap
    · intro hclosed
      simp [PeerMap.finishReplay, hclosed] at hopen
    · exact absurd rfl hopen
  | joins => exact hquiet rfl rfl rfl rfl rfl id
  | gaps =>
    refine hquiet rfl rfl rfl rfl rfl fun hopen hclosed => ?_
    simp [PeerMap.beginReplay, hclosed] at hopen

theorem rotate (hkept : Kept s) (h : Settling s) {host : Host} (hup : s.process = .up host)
    {answer : RotateAnswer} (hspec : State.Rotates s host answer t) (hok : answer.fault = false) :
    Settling t := by
  obtain ⟨host', hwithin⟩ := hspec.within hup
  have howing : ∀ r, s.sessions host.genesis = some r →
      Owing host' r (since host'.genesis t.trace) := by
    intro r hr
    rw [hwithin.genesis]
    exact (h.host host r (State.hosting_eq_some.mpr ⟨hup, hr⟩)).rotates hok hspec
      (hkept.wired host r hup hr).1 hup hwithin.process
  obtain ⟨hmark, more, htrace, hmore⟩ := hspec.files
  refine ⟨fun g r hdoc hr => ?_, fun mark hin => ?_, fun host₀ r hhosting => ?_⟩
  · rw [hwithin.docId] at hdoc
    rw [hwithin.sessions] at hr
    rw [htrace]
    obtain hmark | ⟨signal, outcome, hrotation, hmark⟩ := hmark
    · rw [hmark]
      exact h.disk_grows hdoc hr (.refl r) more (hmore g)
    have hgenesis := hkept.genesis host.genesis (by rw [hup]; rfl)
    obtain rfl : g = host.genesis := Option.some.inj (hdoc.symm.trans hgenesis)
    have hold := h.host host r (State.hosting_eq_some.mpr ⟨hup, hr⟩)
    have hle : signal.revokeSeq ≤ r.head :=
      (hold.signals signal (.inr (by rw [hrotation]; rfl))).trans (hkept.wired host r hup hr).1
    rw [hmark, since_append (hmore _)]
    exact ⟨hle, (hold.rotated signal outcome hrotation).grows (.refl r) hle more⟩
  · rw [hwithin.process] at hin
    cases hin
  · obtain ⟨rfl, hhost⟩ := hwithin.hosting hup hhosting
    exact howing r (State.hosting_eq_some.mp hhost).2

theorem task (hkept : Kept s) (h : Settling s) {host host' : Host} (hup : s.process = .up host)
    {k : ℕ} {marks : List Mark} (hran : Host.Ran host k host' marks) :
    Settling ((s.setHost host').note marks) := by
  have hmarks : ∀ g, .created g ∉ marks := by
    intro g
    obtain ⟨-, rfl⟩ | ⟨task, -, -, ⟨-, rfl⟩ | ⟨-, rfl⟩⟩ := hran.tasks
    · simp
    · simp
    · exact created_deliveries host task g
  have hwithin := State.within_ran (s := s) hran
  refine h.of_host rfl rfl marks rfl hmarks rfl fun r hr => ?_
  have hgenesis : host'.genesis = host.genesis := hwithin.genesis
  rw [hgenesis] at hr ⊢
  have hold := h.host host r (State.hosting_eq_some.mpr ⟨hup, hr⟩)
  rw [State.trace_note, since_append (hmarks _)]
  refine (hold.append (hkept.wired host r hup hr).1 marks).congr hgenesis hwithin.seen hran.signals
    hran.keeps.rotation hran.keeps.rotatedRevokeSeq ?_
  rw [hran.peerMap]
  exact id

theorem step (hkept : Kept s) (h : Settling s) {event : Event} (hclean : Clean s event)
    (horder : NoOvertaking s event) (hok : event.succeeds = true) :
    Settling (State.step site s event) := by
  by_cases hout : event.outside = true
  · exact outside hkept h hout hclean
  have hspec := s.step_spec site event
  generalize State.step site s event = t at hspec
  cases hspec with
  | idles => exact h
  | outside hin => exact absurd hin hout
  | starts => exact h.disk_same rfl rfl rfl rfl nofun
  | advances hspec => exact advance hkept h hspec hclean
  | receives hup hspec => exact receive hkept h hup hspec horder
  | @stops host hup =>
    refine h.of_host rfl rfl [] (append_nil _).symm (by simp) rfl fun r hr => ?_
    exact (h.host host r (State.hosting_eq_some.mpr ⟨hup, hr⟩)).congr rfl rfl rfl rfl rfl
      (absurd rfl)
  | runs hup hran => exact task hkept h hup hran
  | rotates hup hspec => exact rotate hkept h hup hspec (by simpa [Event.succeeds] using hok)
  | crashes => exact h.disk_same rfl rfl rfl rfl nofun

end Settling

/-- In such a run every revoke of the log was followed by a rotation. -/
theorem revokes_settled (site : Site) (events : List Event)
    (hrun : Along (State.step site) (fun s event => Clean s event ∧ NoOvertaking s event) .initial
      events) (hok : ∀ event ∈ events, event.succeeds = true) (h : Host) (r : Record)
    (hhosting : (State.after site events).hosting = some (h, r))
    (hpending : (State.after site events).pending = []) (hhandled : h.handled = true)
    (m : SessionMessage) (hm : m ∈ r.log) (hkind : m.kind = .capability) (peer : PeerId)
    (hrevoke : CapabilityAction.decode m.payload = some (.revoke peer)) :
    Settled h.genesis m (since h.genesis (State.after site events).trace) := by
  obtain ⟨hkept, hsettling⟩ := (hrun.and_of_mem hok).invariant
    (I := fun s => Kept s ∧ Settling s) (fun _ _ hinv hcond =>
      ⟨hinv.1.step hcond.1.1, Settling.step hinv.1 hinv.2 hcond.1.1 hcond.1.2 hcond.2⟩)
    ⟨.initial, .initial⟩
  obtain ⟨hup, hr⟩ := State.hosting_eq_some.mp hhosting
  simp only [Host.handled, Bool.and_eq_true, List.isEmpty_iff, decide_eq_true_eq,
    PeerMap.isReady] at hhandled
  obtain ⟨⟨⟨hcaught, hready⟩, hsignals⟩, hidle⟩ := hhandled
  have howing := hsettling.host h r hhosting
  have hseen := hkept.seen_all hup hr hpending hcaught m hm
  have hsignal : (⟨peer, m.seq⟩ : RotationSignal) ∈ Host.evictions m :=
    Host.mem_evictions.mpr ⟨hkind, hrevoke, rfl⟩
  obtain hle | hin | hin := howing.owed (by simp [hready]) m hm hseen _ hsignal
  · exact howing.done m hm hkind hle
  · simp [hsignals] at hin
  · simp [hidle, Rotation.signal] at hin

namespace Sample

open Artel.Sample

def revokedOnce : List Event :=
  hosted ++ [.receive true] ++ delivered (capability 0 1 (.revoke (peer 2))) ++
    List.replicate 10 (.rotate {})

theorem revokes_settled_once :
    ∃ hosted ∈ (State.after site revokedOnce).hosting, hosted.1.handled = true ∧
      Settled hosted.1.genesis (capability 0 1 (.revoke (peer 2)))
        (since hosted.1.genesis (State.after site revokedOnce).trace) := by
  have hrun : Along (State.step site) (fun s event => Clean s event ∧ NoOvertaking s event) .initial
      revokedOnce := by
    decide +kernel
  have hok : ∀ event ∈ revokedOnce, event.succeeds = true := by decide +kernel
  have hpending : (State.after site revokedOnce).pending = [] := by decide +kernel
  have hhosting : ∃ hosted ∈ (State.after site revokedOnce).hosting, hosted.1.handled = true ∧
      capability 0 1 (.revoke (peer 2)) ∈ hosted.2.log := by
    decide +kernel
  obtain ⟨⟨h, r⟩, hin, hhandled, hlog⟩ := hhosting
  exact ⟨(h, r), hin, hhandled, revokes_settled site revokedOnce hrun hok h r hin hpending hhandled _
    hlog (by decide +kernel) (peer 2) (by decide +kernel)⟩

/-- The host leaves the session and hosts it again; the log starts anew, the mark does not. -/
def rehosted : List Event :=
  revokedOnce ++ [.leave 0, .crash, .start] ++ List.replicate 5 (.advance true) ++ [.receive true] ++
    delivered (capability 0 1 (.revoke (peer 3))) ++ [.rotate {}]

theorem rehosted_revoke_unsettled :
    (State.after site rehosted).pending = [] ∧
    (∃ hosted ∈ (State.after site rehosted).hosting, hosted.1.handled = true ∧
      hosted.1.genesis = 0 ∧ capability 0 1 (.revoke (peer 3)) ∈ hosted.2.log) ∧
    ¬Settled 0 (capability 0 1 (.revoke (peer 3))) (since 0 (State.after site rehosted).trace) := by
  refine ⟨by decide +kernel, by decide +kernel, ?_⟩
  have htrace : since 0 (State.after site rehosted).trace =
      [.applied 0 (capability 0 1 (.revoke (peer 3))), .peerRevoked (peer 3),
        .enqueued ⟨peer 3, ⟨1⟩⟩] := by
    decide +kernel
  rw [htrace]
  rintro ⟨signal, ns, hsub⟩
  have hcompleted := hsub.subset (mem_cons_of_mem _ (mem_cons_of_mem _ mem_cons_self))
  simp at hcompleted

end Sample

end Artel.Workspace
