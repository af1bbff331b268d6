import Artel.Protocol.Ctrl
import Artel.Registry.Authority
import Artel.Store.Recorded

namespace Artel

open Store

/-- The forwarders' close watermarks, by the call that started each. -/
structure Marks where
  seeds : ℕ → Option (Handle × UInt64)
  /-- The mirror that the forwarder feeds, and its watermark. -/
  live : ℕ → Option (Handle × UInt64)

namespace Marks

def none : Marks := ⟨fun _ => .none, fun _ => .none⟩

def raise (m : Marks) (forwarder : ℕ) (hostEpoch : UInt64) : Marks :=
  { m with
    live := Function.update m.live forwarder
      ((m.live forwarder).map fun x => (x.1, max x.2 hostEpoch)) }

def note (me : ℕ) : Label → Env → World → World → Marks → Marks
  | .lock h, _, s, _, m =>
    { m with seeds := Function.update m.seeds me (some (h, (s.cells h).session.hostEpoch)) }
  | .spawn, _, _, _, m => { m with live := Function.update m.live me (m.seeds me) }
  | _, _, _, _, m => m

end Marks

namespace Registry

open Artel.Fiber

variable (ed : Ed25519) (id : SessionId)

/-- A mirror that was loaded from the store gets a forwarder again. -/
def resubscribeRemoteMirror (me : ℕ) : Async Outcome := do
  match ← lookup with
  | none => return .error (.unknownSession id)
  | some h =>
    let _ ← lock me h
    unlock h
    match ← subscribeInner h (some h) with
    | some err => return .error (.internal err)
    | none => return .ok .done

/-- The `EpochBeacon` arm: stored before the watermark moves, or only logged. -/
def epochBeacon (me : ℕ) (mirror : Handle) (forwarder : ℕ) (host : PeerId) (hostEpoch : UInt64)
    (hostSig : SigBytes) : Fiber (World × Marks) Env Label Outcome := do
  match Signing.verifyCtrl ed host id .beacon hostEpoch hostSig with
  | .error _ => return .ok .done
  | .ok _ =>
    let watermark ← waitFor (.deliver mirror)
      (fun _ s => (s.2.live forwarder).any fun x => x.1 = mirror) fun _ s =>
        ((s.2.live forwarder).elim 0 Prod.snd, s)
    if hostEpoch ≤ watermark then return .ok .done
    else
      match ← (advanceHostEpochWatermark me hostEpoch).observe (Marks.note me) with
      | .error _ => return .ok .done
      | .ok _ =>
        once (.deliver mirror) fun _ s => ((), (s.1, s.2.raise forwarder hostEpoch))
        return .ok .done

end Registry

inductive MirrorCall
  | join (ticket : SessionTicket) (peer : PeerInfo)
  | inbound (mirror : Handle) (m : SessionMessage)
  | resubscribe
  | beacon (mirror : Handle) (forwarder : ℕ) (host : PeerId) (hostEpoch : UInt64) (hostSig : SigBytes)
  deriving DecidableEq

def MirrorCall.body {ed : Ed25519} (d : Daemon ed) (id : SessionId) (me : ℕ) :
    MirrorCall → Fiber (World × Marks) Env Label Outcome
  | .join ticket peer => (Registry.join d id me ticket peer).observe (Marks.note me)
  | .inbound mirror m => (Registry.inbound ed me mirror m).observe (Marks.note me)
  | .resubscribe => (Registry.resubscribeRemoteMirror id me).observe (Marks.note me)
  | .beacon mirror forwarder host hostEpoch hostSig =>
    Registry.epochBeacon ed id me mirror forwarder host hostEpoch hostSig

abbrev MirrorEvent := Happening MirrorCall Env Disk

/-- After a crash the daemon starts with what the store gives back, and no forwarder runs. -/
abbrev runMirror {ed : Ed25519} (d : Daemon ed) (id : SessionId) (blank : Session) (disk : Disk)
    (hs : List MirrorEvent) : Pool MirrorCall (World × Marks) Env Label Outcome :=
  Pool.history (MirrorCall.body d id) (fun disk _ => (Registry.load d id blank disk, Marks.none))
    ⟨(Registry.load d id blank disk, Marks.none), []⟩ hs

end Artel
