import Artel.Bridge.SendRemote
import Artel.Session.Mirror
import Artel.Session.Host

namespace Artel

open Store Function

/-- Names one `Arc<Mutex<Session>>`; a handle stays valid after the map has dropped it. -/
abbrev Handle := ℕ

inductive Event
  | message (m : SessionMessage)
  | peerJoined (peer : PeerInfo)
  | peerLeft (peer : PeerId)
  | sessionClosed
  deriving DecidableEq

/-- A session behind its lock, with all that its broadcast channel has carried. -/
structure Cell where
  session : Session
  holder : Option ℕ
  feed : List Event

/-- A slot of the bridge. A live joiner's forwarder feeds a mirror, a host's none. -/
inductive Slot
  | reserved (generation : ℕ)
  | live (feeds : Option Handle)
  deriving DecidableEq

/-- What the registry, the store and the bridge hold for one session id. -/
structure World where
  sessions : Option Handle
  /-- The call that holds the map's write lock over more than one action. -/
  writer : Option ℕ
  cells : Handle → Cell
  nextHandle : Handle
  disk : Disk
  /-- The mirror whose claim is registered as in flight. -/
  pendingRemoteJoins : Option Handle
  /-- The outcome channel that the claim of a mirror made. -/
  watches : Handle → Option Bool
  /-- How the bridge's `join_session` for a mirror ended; nothing reads it. -/
  joins : List (Handle × Bool)
  slot : Option Slot
  nextSlotGeneration : ℕ
  /-- The mirrors that a running forwarder feeds. -/
  forwarders : List Handle
  /-- The messages broadcast over gossip. -/
  published : List SessionMessage

/-- The clock, the store's faults, the gossip's answer and `send_remote`'s. -/
structure Env where
  nowMs : UInt64
  fault : Option (IoError × Disk)
  subscribeError : Option String
  ack : Except BridgeError SessionMessage

inductive Label
  | lookup
  | joinLookup
  | lock (h : Handle)
  | update (h : Handle)
  | unlock (h : Handle)
  | emit (h : Handle) (event : Event)
  | listen (h : Handle)
  | floor
  | create
  | write (h : Handle)
  | rollbackDelete (h : Handle)
  | writeMap
  | insert
  | releaseMap
  | claim
  | unpublish (h : Handle)
  | rollback (h : Handle)
  | adopt (h : Handle)
  | outcome (h : Handle)
  | post (h : Handle)
  | clearPending (h : Handle)
  | reserve (h : Handle)
  | gossip
  | spawn
  | finalize
  | releaseSlot
  | forget (h : Handle)
  | conclude (h : Handle)
  | clock
  | publish
  | forward
  | deliver (h : Handle)
  deriving DecidableEq

abbrev Async (α : Type) := Fiber World Env Label α

namespace World

def empty (blank : Session) (disk : Disk) : World where
  sessions := none
  writer := none
  cells _ := ⟨blank, none, []⟩
  nextHandle := 0
  disk := disk
  pendingRemoteJoins := none
  watches _ := none
  joins := []
  slot := none
  nextSlotGeneration := 0
  forwarders := []
  published := []

def modify (s : World) (h : Handle) (f : Cell → Cell) : World :=
  { s with cells := update s.cells h (f (s.cells h)) }

def insert (s : World) (session : Session) : World :=
  { s with
    sessions := some s.nextHandle
    cells := update s.cells s.nextHandle ⟨session, none, []⟩
    nextHandle := s.nextHandle + 1 }

@[simp] theorem modify_cells_self (s : World) (h : Handle) (f : Cell → Cell) :
    (s.modify h f).cells h = f (s.cells h) :=
  update_self ..

theorem modify_cells_of_ne (s : World) {h k : Handle} (f : Cell → Cell) (hk : k ≠ h) :
    (s.modify h f).cells k = s.cells k :=
  update_of_ne hk ..

@[simp] theorem insert_cells_self (s : World) (session : Session) :
    (s.insert session).cells s.nextHandle = ⟨session, none, []⟩ :=
  update_self ..

theorem insert_cells_of_lt (s : World) (session : Session) {h : Handle} (hh : h < s.nextHandle) :
    (s.insert session).cells h = s.cells h :=
  update_of_ne (Nat.ne_of_lt hh) ..

end World

namespace Registry

open Artel.Fiber

/-- `sessions.read().await.get(&id).cloned()`. -/
def lookupAs (l : Label) : Async (Option Handle) :=
  waitFor l (fun _ s => s.writer.isNone) fun _ s => (s.sessions, s)

def lookup : Async (Option Handle) := lookupAs .lookup

def lock (me : ℕ) (h : Handle) : Async Session :=
  waitFor (.lock h) (fun _ s => (s.cells h).holder.isNone) fun _ s =>
    ((s.cells h).session, s.modify h fun c => { c with holder := some me })

def update (h : Handle) (f : Session → Session) : Async Unit :=
  once (.update h) fun _ s => ((), s.modify h fun c => { c with session := f c.session })

def unlock (h : Handle) : Async Unit :=
  once (.unlock h) fun _ s => ((), s.modify h fun c => { c with holder := none })

def emit (h : Handle) (event : Event) : Async Unit :=
  once (.emit h event) fun _ s => ((), s.modify h fun c => { c with feed := c.feed ++ [event] })

/-- `events_tx.subscribe()`: the position the receiver starts at. -/
def listen (h : Handle) : Async ℕ := once (.listen h) fun _ s => ((s.cells h).feed.length, s)

def store {α : Type} (l : Label) (op : Disk → IoResult α) : Async (Except IoError α) :=
  once l fun e s =>
    match e.fault with
    | some (err, disk) => (.error err, { s with disk := disk })
    | none => ((op s.disk).1, { s with disk := (op s.disk).2 })

def clock : Async UInt64 := once .clock fun e s => (e.nowMs, s)

def writeMap (me : ℕ) : Async (Option Handle) :=
  waitFor .writeMap (fun _ s => s.writer.isNone) fun _ s => (s.sessions, { s with writer := some me })

def releaseMap : Async Unit := once .releaseMap fun _ s => ((), { s with writer := none })

/-- The insert under a write lock that is already held, and its release. -/
def insert (session : Session) : Async Handle :=
  once .insert fun _ s => (s.nextHandle, { s.insert session with writer := none })

/-- `sessions.write().await.remove(&id)`, whatever is there. -/
def unpublishAs (l : Label) : Async Unit :=
  waitFor l (fun _ s => s.writer.isNone) fun _ s => ((), { s with sessions := none })

def publish (m : SessionMessage) : Async Unit :=
  once .publish fun _ s => ((), { s with published := s.published ++ [m] })

end Registry

end Artel
