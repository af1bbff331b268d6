import Artel.Lib.History
import Artel.Registry.Fanout

namespace Artel

def EVENT_CHANNEL_CAPACITY : ℕ := 256

inductive Frame
  | event (e : Event)
  | replayComplete
  | gap
  deriving DecidableEq

structure Forwarder where
  handle : Handle
  /-- What is left of the replay. -/
  replay : List SessionMessage
  /-- `ReplayComplete` was sent. -/
  live : Bool
  /-- Where its receiver is in the channel. -/
  next : ℕ

/-- One frame of the forwarder's loop; `none` while it waits for an event. -/
def Forwarder.turn (f : Forwarder) (feed : List Event) : Option (Frame × Forwarder) :=
  match f.replay with
  | m :: rest => some (.event (.message m), { f with replay := rest })
  | [] =>
    if f.live = false then some (.replayComplete, { f with live := true })
    else if EVENT_CHANNEL_CAPACITY < feed.length - f.next then
      -- `Lagged`: the receiver goes on with the oldest event that the channel still has
      some (.gap, { f with next := feed.length - EVENT_CHANNEL_CAPACITY })
    else feed[f.next]?.map fun e => (.event e, { f with next := f.next + 1 })

/-- A client that subscribes again from the last seq it has seen at each gap. -/
structure Client where
  /-- What its first subscription asks for. -/
  since : Option Seq
  /-- The messages it has received. -/
  seen : List SessionMessage
  /-- The frames on their way to it. -/
  wire : List Frame
  /-- The `Subscribe` requests on their way to the daemon. -/
  requests : List (Option Seq)
  /-- The call that works on a request of this connection. -/
  serving : Option ℕ
  /-- The session's forwarder; behind it are those it replaced, which may still finish. -/
  forwarders : List Forwarder

namespace Client

def start (since : Option Seq) : Client := ⟨since, [], [], [since], none, []⟩

def lastSeen (c : Client) : Option Seq :=
  c.seen.foldl (fun last m => if last.getD Seq.ZERO < m.seq then some m.seq else last) c.since

def receive (c : Client) : Client :=
  match c.wire with
  | [] => c
  | .event (.message m) :: rest => { c with wire := rest, seen := c.seen ++ [m] }
  | .gap :: rest => { c with wire := rest, requests := c.requests ++ [c.lastSeen] }
  | _ :: rest => { c with wire := rest }

def forward (c : Client) (k : ℕ) (feed : Handle → List Event) : Client :=
  match c.forwarders[k]? with
  | none => c
  | some f =>
    match f.turn (feed f.handle) with
    | none => c
    | some (frame, f') =>
      { c with wire := c.wire ++ [frame], forwarders := c.forwarders.set k f' }

def install (c : Client) (f : Forwarder) : Client :=
  { c with serving := none, forwarders := f :: c.forwarders }

/-- Nothing is on its way in either direction and the forwarder has sent all there is. -/
def Drained (c : Client) (feed : Handle → List Event) : Prop :=
  c.wire = [] ∧ c.requests = [] ∧ c.serving = none ∧
    ∃ f ∈ c.forwarders.head?, f.replay = [] ∧ (feed f.handle).length ≤ f.next

instance (c : Client) (feed : Handle → List Event) : Decidable (c.Drained feed) :=
  inferInstanceAs (Decidable (_ ∧ _ ∧ _ ∧ ∃ f ∈ c.forwarders.head?, _))

end Client

namespace Registry

open Artel.Fiber

variable {ed : Ed25519} (d : Daemon ed) (id : SessionId)

/-- The next `Subscribe` request; no other is taken before its forwarder runs. -/
def serveSubscribe (me : ℕ) : Fiber (World × Client) Env Label Unit := do
  let since ← waitFor .claim (fun _ s => s.2.serving.isNone && !s.2.requests.isEmpty) fun _ s =>
    (s.2.requests.headD none,
      (s.1, { s.2 with requests := s.2.requests.tail, serving := some me }))
  match ← (subscribe id me since).observe fun _ _ _ _ c => c with
  | .ok (.subscription h replay start) =>
    once .spawn fun _ s => ((), (s.1, s.2.install ⟨h, replay, false, start⟩))
  | _ => once .spawn fun _ s => ((), (s.1, { s.2 with serving := none }))

end Registry

/-- What goes on around a subscriber: the calls of the registry, and its own connection. -/
inductive ClientCall
  | plain (call : Call)
  | serve
  | forward (k : ℕ)
  | receive

def ClientCall.body {ed : Ed25519} (d : Daemon ed) (id : SessionId) (me : ℕ) :
    ClientCall → Fiber (World × Client) Env Label Unit
  | .plain call => ((call.body d id me).observe fun _ _ _ _ c => c).bind fun _ => .ret ()
  | .serve => Registry.serveSubscribe id me
  | .forward k => Fiber.once .publish fun _ s =>
      ((), (s.1, s.2.forward k fun h => (s.1.cells h).feed))
  | .receive => Fiber.once .publish fun _ s => ((), (s.1, s.2.receive))

/-- The connection lives no longer than the daemon, so there are no crashes. -/
abbrev ClientEvent := Happening ClientCall Env Empty

/-- A session in the map; a mirror is fed by its forwarder of gossip frames. -/
def attached (session : Session) (disk : Store.Disk) : World :=
  { Fanout.hosting session disk with forwarders := if session.kind = .Remote then [0] else [] }

abbrev runClient {ed : Ed25519} (d : Daemon ed) (id : SessionId) (session : Session)
    (disk : Store.Disk) (since : Option Seq) (hs : List ClientEvent) :
    Pool ClientCall (World × Client) Env Label Unit :=
  Pool.history (ClientCall.body d id) (fun k => Empty.elim k)
    ⟨(attached session disk, Client.start since), []⟩ hs

end Artel
