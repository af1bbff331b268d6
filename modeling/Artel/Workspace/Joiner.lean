import Artel.Workspace.Machine

namespace Artel.Workspace

open List

inductive Signal
  | hostEvict (signal : RotationSignal)
  | survivorRotate (namespaceEpoch : ℕ) (docTicket : Namespace)
  deriving DecidableEq

namespace Signal

def epochOf : Signal → Option ℕ
  | .survivorRotate namespaceEpoch _ => some namespaceEpoch
  | .hostEvict _ => none

/-- The next signal of a batch, and a survivor's rotation still pending. -/
def queue (acc : List Signal × Option Signal) (signal : Signal) : List Signal × Option Signal :=
  match signal.epochOf with
  | some epoch =>
    if (acc.2.bind epochOf).elim true (· < epoch) then (acc.1, some signal) else acc
  | none => (acc.1 ++ acc.2.toList ++ [signal], none)

/-- Of consecutive rotations of a survivor only one with the highest epoch is acted on. -/
def coalesceRotationBatch (batch : List Signal) : List Signal :=
  let (out, pending) := batch.foldl queue ([], none)
  out ++ pending.toList

theorem mem_queue {acc : List Signal × Option Signal} {signal x : Signal}
    (hx : x ∈ (queue acc signal).1 ∨ (queue acc signal).2 = some x) :
    x = signal ∨ x ∈ acc.1 ∨ acc.2 = some x := by
  unfold queue at hx
  split at hx
  · split at hx
    · obtain hx | hx := hx
      · exact .inr (.inl hx)
      · exact .inl (Option.some.inj hx).symm
    · exact .inr hx
  · obtain hx | hx := hx
    · simp only [mem_append, Option.mem_toList, mem_singleton] at hx
      obtain (hx | hx) | hx := hx
      · exact .inr (.inl hx)
      · exact .inr (.inr hx)
      · exact .inl hx
    · cases hx

theorem mem_foldl_queue {batch : List Signal} {acc : List Signal × Option Signal} {x : Signal}
    (hx : x ∈ (batch.foldl queue acc).1 ∨ (batch.foldl queue acc).2 = some x) :
    x ∈ batch ∨ x ∈ acc.1 ∨ acc.2 = some x := by
  induction batch generalizing acc with
  | nil => exact .inr hx
  | cons signal batch ih =>
    obtain hx | hx := ih hx
    · exact .inl (mem_cons_of_mem signal hx)
    · obtain rfl | hx := mem_queue hx
      · exact .inl mem_cons_self
      · exact .inr hx

theorem mem_of_mem_coalesceRotationBatch {batch : List Signal} {x : Signal}
    (hx : x ∈ coalesceRotationBatch batch) : x ∈ batch := by
  simp only [coalesceRotationBatch, mem_append, Option.mem_toList] at hx
  obtain hx | hx := mem_foldl_queue hx
  · exact hx
  · simp at hx

end Signal

/-- The envelope of a `workspace.ticket`, as far as the namespace goes. -/
structure WorkspaceTicketEnvelope where
  docTicket : Namespace
  namespaceEpoch : ℕ

structure RotatePayload where
  targetPeer : PeerId
  namespaceEpoch : ℕ
  docTicket : Namespace

structure Joiner where
  doc : Namespace
  namespaceEpoch : ℕ
  signals : List Signal

inductive Reimport
  | fails
  /-- `current-namespace` is written, the epoch is not. -/
  | named
  | done

inductive JoinerEvent
  /-- `join_with`, given the ticket that the daemon replays. -/
  | join (envelope : WorkspaceTicketEnvelope)
  /-- The listener handles a rotation. -/
  | deliver (author : PeerId) (payload : RotatePayload)
  /-- The rotation task takes a batch from its channel. -/
  | handle (count : ℕ) (reimport : Reimport)
  /-- The workspace is shut down, or dies. -/
  | stop

structure JoinerSite where
  host : PeerId
  myPeerId : PeerId

/-- A joiner's state directory and workspace, and the namespaces it has been on. -/
structure JoinerState where
  dir : StateDir
  process : Option Joiner
  visited : List Namespace

namespace JoinerState

variable (site : JoinerSite)

/-- A workspace that has just joined counts from 0, whatever the envelope or the files say. -/
def join (s : JoinerState) (envelope : WorkspaceTicketEnvelope) : JoinerState :=
  match s.process with
  | none =>
    { s with
      process := some ⟨envelope.docTicket, 0, []⟩
      visited := s.visited ++ [envelope.docTicket] }
  | some _ => s

def deliver (s : JoinerState) (author : PeerId) (payload : RotatePayload) : JoinerState :=
  match s.process with
  | none => s
  | some j =>
    if author = site.host ∧ payload.targetPeer = site.myPeerId then
      let signal := .survivorRotate payload.namespaceEpoch payload.docTicket
      { s with process := some { j with signals := j.signals ++ [signal] } }
    else s

def reimportNamespace (s : JoinerState) (j : Joiner) (newNamespace : Namespace) (newEpoch : ℕ) :
    Reimport → JoinerState
  | .fails => s
  | .named => { s with dir := { s.dir with currentNamespace := some newNamespace } }
  | .done =>
    { dir := { s.dir with currentNamespace := some newNamespace, namespaceEpoch := some newEpoch }
      process := some { j with doc := newNamespace, namespaceEpoch := newEpoch }
      visited := s.visited ++ [newNamespace] }

def handleRotationSignal (reimport : Reimport) (s : JoinerState) (signal : Signal) : JoinerState :=
  match s.process, signal with
  | some j, .survivorRotate namespaceEpoch docTicket =>
    if namespaceEpoch ≤ j.namespaceEpoch then s
    else s.reimportNamespace j docTicket namespaceEpoch reimport
  -- the listener of a joiner queues no evictions
  | some _, .hostEvict _ => s
  | none, _ => s

def handle (s : JoinerState) (count : ℕ) (reimport : Reimport) : JoinerState :=
  match s.process with
  | none => s
  | some j =>
    let taken := { s with process := some { j with signals := j.signals.drop count } }
    (Signal.coalesceRotationBatch (j.signals.take count)).foldl (handleRotationSignal reimport) taken

def step (s : JoinerState) : JoinerEvent → JoinerState
  | .join envelope => s.join envelope
  | .deliver author payload => s.deliver site author payload
  | .handle count reimport => s.handle count reimport
  | .stop => { s with process := none }

def initial : JoinerState := ⟨⟨none, none, none, none⟩, none, []⟩

def after (events : List JoinerEvent) : JoinerState := events.foldl (step site) initial

end JoinerState

section

variable (site : JoinerSite) (minted : Namespace → ℕ)

/-- A rotation that the host delivers has the epoch at which the host minted the namespace. -/
def JoinerEvent.genuine : JoinerEvent → Bool
  | .deliver author payload =>
    decide (author ≠ site.host) || decide (payload.namespaceEpoch = minted payload.docTicket)
  | .join _ | .handle _ _ | .stop => true

/-- No join and no delivered rotation is behind the namespace it is on. -/
def InTime (s : JoinerState) : JoinerEvent → Prop
  | .join envelope => s.process.isNone = true →
      ∀ ns ∈ s.visited.getLast?, minted ns ≤ minted envelope.docTicket
  | .deliver author payload => author = site.host → ∀ j ∈ s.process,
      payload.namespaceEpoch ≤ j.namespaceEpoch ∨ minted j.doc ≤ payload.namespaceEpoch
  | .handle _ _ | .stop => True

instance (s : JoinerState) (event : JoinerEvent) : Decidable (InTime site minted s event) := by
  cases event <;> simp only [InTime] <;> infer_instance

def Signal.Forward (j : Joiner) : Signal → Prop
  | .survivorRotate namespaceEpoch docTicket => namespaceEpoch = minted docTicket ∧
      (namespaceEpoch ≤ j.namespaceEpoch ∨ minted j.doc ≤ namespaceEpoch)
  | .hostEvict _ => True

theorem Signal.Forward.of_counted {x : Signal} {j j' : Joiner} (hx : x.Forward minted j)
    (hcounted : j'.namespaceEpoch = minted j'.doc) : x.Forward minted j' := by
  cases x with
  | hostEvict => trivial
  | survivorRotate epoch ns => exact ⟨hx.1, hcounted ▸ le_total epoch j'.namespaceEpoch⟩

structure Joined (s : JoinerState) : Prop where
  sorted : (s.visited.map minted).Pairwise (· ≤ ·)
  latest : ∀ last ∈ s.visited.getLast?, ∀ ns ∈ s.visited, minted ns ≤ minted last
  on : ∀ j, s.process = some j → s.visited.getLast? = some j.doc
  signals : ∀ j, s.process = some j → ∀ signal ∈ j.signals, signal.Forward minted j

end

namespace Joined

variable {site : JoinerSite} {minted : Namespace → ℕ} {s t : JoinerState}

theorem initial : Joined minted .initial := ⟨.nil, nofun, nofun, nofun⟩

section

variable (h : Joined minted s)
include h

theorem stays (hvisited : t.visited = s.visited)
    (hprocess : ∀ j', t.process = some j' → ∃ j, s.process = some j ∧ j'.doc = j.doc ∧
      j'.namespaceEpoch = j.namespaceEpoch ∧ ∀ signal ∈ j'.signals, signal.Forward minted j) :
    Joined minted t := by
  refine ⟨hvisited ▸ h.sorted, hvisited ▸ h.latest, fun j' hj' => ?_,
    fun j' hj' signal hsignal => ?_⟩
  all_goals obtain ⟨j, hj, hdoc, hepoch, hsignals⟩ := hprocess j' hj'
  · rw [hvisited, hdoc]
    exact h.on j hj
  · have hforward := hsignals signal hsignal
    cases signal with
    | hostEvict => trivial
    | survivorRotate => simpa only [Signal.Forward, hdoc, hepoch] using hforward

theorem moves {j : Joiner} (hvisited : t.visited = s.visited ++ [j.doc])
    (hprocess : t.process = some j) (hnewer : ∀ ns ∈ s.visited.getLast?, minted ns ≤ minted j.doc)
    (hsignals : ∀ signal ∈ j.signals, signal.Forward minted j) : Joined minted t := by
  have hbelow : ∀ ns ∈ s.visited, minted ns ≤ minted j.doc := by
    intro ns hns
    cases hlast : s.visited.getLast? with
    | none => simp [getLast?_eq_none_iff.mp hlast] at hns
    | some last => exact (h.latest last hlast ns hns).trans (hnewer last hlast)
  have honly : ∀ j', t.process = some j' → j' = j := fun j' hj' =>
    Option.some.inj (hj'.symm.trans hprocess)
  refine ⟨?_, fun last hlast ns hns => ?_, fun j' hj' => ?_, fun j' hj' => ?_⟩
  · rw [hvisited, map_append, pairwise_append]
    refine ⟨h.sorted, pairwise_singleton _ _, fun e he e' he' => ?_⟩
    obtain ⟨ns, hns, rfl⟩ := mem_map.mp he
    obtain rfl : e' = minted j.doc := by simpa using he'
    exact hbelow ns hns
  · rw [hvisited] at hlast hns
    obtain rfl : j.doc = last := by simpa using hlast
    obtain hns | hns := mem_append.mp hns
    · exact hbelow ns hns
    · rw [mem_singleton.mp hns]
  · rw [honly j' hj', hvisited]
    simp
  · rw [honly j' hj']
    exact hsignals

theorem join {envelope : WorkspaceTicketEnvelope}
    (hintime : InTime site minted s (.join envelope)) : Joined minted (s.join envelope) := by
  unfold JoinerState.join
  split
  · rename_i hnone
    exact h.moves rfl rfl (hintime (by rw [hnone]; rfl)) nofun
  · exact h

theorem deliver {author : PeerId} {payload : RotatePayload}
    (hgenuine : (JoinerEvent.deliver author payload).genuine site minted = true)
    (hintime : InTime site minted s (.deliver author payload)) :
    Joined minted (s.deliver site author payload) := by
  unfold JoinerState.deliver
  split
  · exact h
  rename_i j hj
  split
  · rename_i haccepted
    refine h.stays rfl fun j' hj' => ⟨j, hj, ?_⟩
    cases hj'
    refine ⟨rfl, rfl, fun signal hsignal => ?_⟩
    obtain hsignal | hsignal := mem_append.mp hsignal
    · exact h.signals j hj signal hsignal
    · obtain rfl := mem_singleton.mp hsignal
      have hepoch : payload.namespaceEpoch = minted payload.docTicket := by
        simpa [JoinerEvent.genuine, haccepted.1] using hgenuine
      exact ⟨hepoch, hintime haccepted.1 j hj⟩
  · exact h

theorem handleRotationSignal {signal : Signal} (reimport : Reimport)
    (hforward : ∀ j, s.process = some j → signal.Forward minted j) :
    Joined minted (s.handleRotationSignal reimport signal) := by
  unfold JoinerState.handleRotationSignal
  split
  · rename_i j namespaceEpoch docTicket hj
    split
    · exact h
    rename_i hnewer
    obtain ⟨hepoch, hback⟩ := hforward j hj
    cases reimport with
    | fails => exact h
    | named => exact ⟨h.sorted, h.latest, h.on, h.signals⟩
    | done =>
      refine h.moves rfl rfl (fun ns hns => ?_) fun signal' hsignal' => ?_
      · obtain rfl : j.doc = ns := Option.some.inj ((h.on j hj).symm.trans hns)
        exact (hback.resolve_left hnewer).trans hepoch.le
      · exact (h.signals j hj signal' hsignal').of_counted minted hepoch
  · exact h
  · exact h

end

theorem forward_handleRotationSignal {x signal : Signal} (reimport : Reimport)
    (hsignal : ∀ j, s.process = some j → signal.Forward minted j)
    (hx : ∀ j, s.process = some j → x.Forward minted j) :
    ∀ j, (s.handleRotationSignal reimport signal).process = some j → x.Forward minted j := by
  unfold JoinerState.handleRotationSignal
  split
  · rename_i j namespaceEpoch docTicket hj
    split
    · exact hx
    cases reimport with
    | fails => exact hx
    | named => exact hx
    | done =>
      intro j' hj'
      cases hj'
      exact (hx j hj).of_counted minted (hsignal j hj).1
  · exact hx
  · exact hx

theorem foldl (h : Joined minted s) (reimport : Reimport) {batch : List Signal}
    (hforward : ∀ signal ∈ batch, ∀ j, s.process = some j → signal.Forward minted j) :
    Joined minted (batch.foldl (JoinerState.handleRotationSignal reimport) s) := by
  induction batch generalizing s with
  | nil => exact h
  | cons signal batch ih =>
    have hsignal := hforward signal mem_cons_self
    refine ih (h.handleRotationSignal reimport hsignal) fun x hx => ?_
    exact forward_handleRotationSignal reimport hsignal
      (hforward x (mem_cons_of_mem signal hx))

theorem handle (h : Joined minted s) (count : ℕ) (reimport : Reimport) :
    Joined minted (s.handle count reimport) := by
  unfold JoinerState.handle
  split
  · exact h
  rename_i j hj
  have htaken : Joined minted
      { s with process := some { j with signals := j.signals.drop count } } := by
    refine h.stays rfl fun j' hj' => ⟨j, hj, ?_⟩
    cases hj'
    exact ⟨rfl, rfl, fun signal hsignal => h.signals j hj signal (mem_of_mem_drop hsignal)⟩
  refine htaken.foldl reimport fun signal hsignal j' hj' => ?_
  cases hj'
  have hqueued := Signal.mem_of_mem_coalesceRotationBatch hsignal
  have hforward := h.signals j hj signal (mem_of_mem_take hqueued)
  cases signal with
  | hostEvict => trivial
  | survivorRotate => exact hforward

theorem step (h : Joined minted s) {event : JoinerEvent}
    (hevent : InTime site minted s event ∧ event.genuine site minted = true) :
    Joined minted (s.step site event) := by
  cases event with
  | join envelope => exact h.join hevent.1
  | deliver author payload => exact h.deliver hevent.2 hevent.1
  | handle count reimport => exact h.handle count reimport
  | stop => exact h.stays rfl nofun

end Joined

/-- With joins and deliveries in time, the epochs of the workspace never fall. -/
theorem joiner_epochs_never_fall (site : JoinerSite) (minted : Namespace → ℕ)
    (events : List JoinerEvent) (hgenuine : ∀ event ∈ events, event.genuine site minted = true)
    (hrun : Along (JoinerState.step site) (InTime site minted) .initial events) :
    ((JoinerState.after site events).visited.map minted).Pairwise (· ≤ ·) :=
  ((hrun.and_of_mem hgenuine).invariant (I := Joined minted) (fun _ _ h hevent => h.step hevent)
    .initial).sorted

/-- What the rotation task works on, and the evictions it has rotated for. -/
structure RotationState where
  doc : Namespace
  namespaceEpoch : ℕ
  rotatedRevokeSeq : Seq
  evicted : List RotationSignal

namespace RotationState

variable (mint : ℕ → Namespace)

/-- `handle_rotation_signal` where every step succeeds. -/
def handleRotationSignal (s : RotationState) : Signal → RotationState
  | .hostEvict signal =>
    if signal.revokeSeq ≤ s.rotatedRevokeSeq then s
    else
      { doc := mint s.evicted.length
        namespaceEpoch := s.namespaceEpoch + 1
        rotatedRevokeSeq := signal.revokeSeq
        evicted := s.evicted ++ [signal] }
  | .survivorRotate namespaceEpoch docTicket =>
    if namespaceEpoch ≤ s.namespaceEpoch then s
    else { s with doc := docTicket, namespaceEpoch := namespaceEpoch }

theorem rotate_rotate_of_lt (s : RotationState) {e e' : ℕ} {ns ns' : Namespace} (h : e' < e) :
    (s.handleRotationSignal mint (.survivorRotate e' ns')).handleRotationSignal mint
        (.survivorRotate e ns) = s.handleRotationSignal mint (.survivorRotate e ns) := by
  simp only [handleRotationSignal]
  split_ifs <;> dsimp only at * <;> first | rfl | omega

theorem rotate_rotate_of_le (s : RotationState) {e e' : ℕ} {ns ns' : Namespace} (h : e ≤ e') :
    (s.handleRotationSignal mint (.survivorRotate e' ns')).handleRotationSignal mint
        (.survivorRotate e ns) = s.handleRotationSignal mint (.survivorRotate e' ns') := by
  simp only [handleRotationSignal]
  split_ifs <;> first | rfl | omega

/-- What is pending is a survivor's; with it the batch equals one by one. -/
structure Queued (s : RotationState) (signals : List Signal) (acc : List Signal × Option Signal) :
    Prop where
  pending : ∀ signal, acc.2 = some signal → signal.epochOf.isSome = true
  agrees : (acc.1 ++ acc.2.toList).foldl (handleRotationSignal mint) s =
    signals.foldl (handleRotationSignal mint) s

theorem Queued.queue {s : RotationState} {signals : List Signal} {acc : List Signal × Option Signal}
    (h : Queued mint s signals acc) (signal : Signal) :
    Queued mint s (signals ++ [signal]) (Signal.queue acc signal) := by
  obtain ⟨hpending, hagrees⟩ := h
  obtain ⟨out, pending⟩ := acc
  refine ⟨fun next hnext => ?_, ?_⟩
  · grind [Signal.queue]
  have hlast : (signals ++ [signal]).foldl (handleRotationSignal mint) s =
      ((out ++ pending.toList).foldl (handleRotationSignal mint) s).handleRotationSignal mint
        signal := by
    rw [foldl_append, ← hagrees]
    rfl
  rw [hlast]
  cases signal with
  | hostEvict signal => simp [Signal.queue, Signal.epochOf]
  | survivorRotate e ns =>
    cases pending with
    | none => simp [Signal.queue, Signal.epochOf]
    | some pending =>
      cases pending with
      | hostEvict => exact absurd (hpending _ rfl) nofun
      | survivorRotate e' ns' =>
        by_cases hlt : e' < e
        · have hqueue : Signal.queue (out, some (.survivorRotate e' ns')) (.survivorRotate e ns) =
              (out, some (.survivorRotate e ns)) := if_pos (decide_eq_true hlt)
          simp [hqueue, foldl_append, rotate_rotate_of_lt mint _ hlt]
        · have hqueue : Signal.queue (out, some (.survivorRotate e' ns')) (.survivorRotate e ns) =
              (out, some (.survivorRotate e' ns')) := if_neg (by simpa [Signal.epochOf] using hlt)
          simp [hqueue, foldl_append, rotate_rotate_of_le mint _ (Nat.le_of_not_lt hlt)]

theorem Queued.foldl {s : RotationState} {signals : List Signal} {acc : List Signal × Option Signal}
    (h : Queued mint s signals acc) (batch : List Signal) :
    Queued mint s (signals ++ batch) (batch.foldl Signal.queue acc) := by
  induction batch generalizing signals acc with
  | nil => rwa [append_nil]
  | cons signal batch ih =>
    rw [append_cons]
    exact ih (h.queue mint signal)

/-- However signals are split into batches, coalescing them changes nothing. -/
theorem coalesced_batches_agree (s : RotationState) (batches : List (List Signal)) :
    (batches.flatMap Signal.coalesceRotationBatch).foldl (handleRotationSignal mint) s =
      batches.flatten.foldl (handleRotationSignal mint) s := by
  induction batches generalizing s with
  | nil => rfl
  | cons batch batches ih =>
    have hempty : Queued mint s [] ([], none) := ⟨nofun, rfl⟩
    have hbatch : (Signal.coalesceRotationBatch batch).foldl (handleRotationSignal mint) s =
        batch.foldl (handleRotationSignal mint) s := (hempty.foldl mint batch).agrees
    rw [flatMap_cons, flatten_cons, foldl_append, foldl_append, hbatch, ih]

end RotationState

namespace Sample

open Artel.Sample

def joinerSite : JoinerSite := ⟨peer 0, peer 1⟩

/-- The host delivers the rotation of an epoch, and the rotation task takes it. -/
def rotatedTo (epoch : ℕ) : List JoinerEvent :=
  [.deliver (peer 0) ⟨peer 1, epoch, epoch⟩, .handle 1 .done]

/-- Two rotations and a restart, and both are delivered again. -/
theorem joiner_epochs_never_fall_restarted :
    (JoinerState.after joinerSite ([.join ⟨0, 0⟩] ++ rotatedTo 1 ++ rotatedTo 2 ++ rotatedTo 1 ++
      [.stop, .join ⟨2, 2⟩] ++ rotatedTo 2)).visited = [0, 1, 2, 2, 2] ∧
    (([0, 1, 2, 2, 2] : List ℕ).map id).Pairwise (· ≤ ·) := by
  have hvisited : (JoinerState.after joinerSite ([.join ⟨0, 0⟩] ++ rotatedTo 1 ++ rotatedTo 2 ++
      rotatedTo 1 ++ [.stop, .join ⟨2, 2⟩] ++ rotatedTo 2)).visited = [0, 1, 2, 2, 2] := by
    decide +kernel
  refine ⟨hvisited, hvisited ▸ joiner_epochs_never_fall joinerSite id _ (by decide +kernel) ?_⟩
  decide +kernel

/-- A rotation that is older than the envelope, and a restart with an envelope from before. -/
theorem joiner_moves_back :
    (∀ event ∈ JoinerEvent.join ⟨2, 2⟩ :: rotatedTo 1,
      event.genuine joinerSite id = true) ∧
    (JoinerState.after joinerSite (.join ⟨2, 2⟩ :: rotatedTo 1)).visited = [2, 1] ∧
    (∀ event ∈ JoinerEvent.join ⟨0, 0⟩ :: rotatedTo 1 ++ [.stop, .join ⟨0, 0⟩],
      event.genuine joinerSite id = true) ∧
    (JoinerState.after joinerSite (.join ⟨0, 0⟩ :: rotatedTo 1 ++
      [.stop, .join ⟨0, 0⟩])).visited = [0, 1, 0] := by
  decide +kernel

end Sample

end Artel.Workspace
