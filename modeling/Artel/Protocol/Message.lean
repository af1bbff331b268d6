import Mathlib.Order.Basic
import Artel.Lib.Wire

namespace Artel

structure SessionId where
  bytes : FixedBytes 16
  deriving DecidableEq

structure TicketId where
  bytes : FixedBytes 16
  deriving DecidableEq

structure PeerId where
  bytes : FixedBytes 32
  deriving DecidableEq

structure Seq where
  get : UInt64
  deriving DecidableEq

namespace Seq

def toNat (s : Seq) : ℕ := s.get.toNat

theorem toNat_injective : Function.Injective toNat := by
  rintro ⟨a⟩ ⟨b⟩ h
  exact congrArg Seq.mk (UInt64.toNat_inj.mp h)

instance : LinearOrder Seq := LinearOrder.lift' toNat toNat_injective

theorem lt_iff (a b : Seq) : a < b ↔ a.toNat < b.toNat := Iff.rfl

theorem le_iff (a b : Seq) : a ≤ b ↔ a.toNat ≤ b.toNat := Iff.rfl

def ZERO : Seq := ⟨0⟩

/-- `checked_add(1)`: the last sequence number has no successor. -/
def next (s : Seq) : Option Seq :=
  if s.toNat + 1 < 2 ^ 64 then some ⟨s.get + 1⟩ else none

theorem zero_le (s : Seq) : ZERO ≤ s := Nat.zero_le _

theorem toNat_next (s t : Seq) (h : s.next = some t) : t.toNat = s.toNat + 1 := by
  unfold next at h
  split at h
  · rename_i hs
    cases h
    simp only [toNat, UInt64.toNat_add, UInt64.toNat_one] at hs ⊢
    omega
  · cases h

theorem lt_next_iff (s t u : Seq) (h : s.next = some t) : u < t ↔ u ≤ s := by
  rw [lt_iff, le_iff, toNat_next s t h]
  omega

end Seq

structure PeerInfo where
  id : PeerId
  /-- Advisory, never authenticated. -/
  displayName : String
  deriving DecidableEq

inductive MessageKind
  | chat
  | tool
  | system
  | capability
  deriving DecidableEq

abbrev SigBytes := FixedBytes 64

def SIGNATURE_UNSIGNED : SigBytes := ⟨List.replicate 64 0, by simp⟩

def MESSAGE_FORMAT : UInt8 := 3

def UPGRADE_ACTION : String := "workspace.upgrade"

def DOWNGRADE_ACTION : String := "workspace.downgrade"

def ROTATE_ACTION : String := "workspace.rotate"

def TICKET_ACTION : String := "workspace.ticket"

structure SessionMessage where
  version : UInt8
  seq : Seq
  timestampMs : UInt64
  peer : PeerInfo
  kind : MessageKind
  action : String
  payload : Bytes
  signature : SigBytes
  hostSig : SigBytes
  deriving DecidableEq

namespace MessageKind

def index : MessageKind → ℕ
  | chat => 0
  | tool => 1
  | system => 2
  | capability => 3

def ofIndex : ℕ → Option MessageKind
  | 0 => some chat
  | 1 => some tool
  | 2 => some system
  | 3 => some capability
  | _ => none

theorem ofIndex_index (k : MessageKind) : ofIndex k.index = some k := by
  cases k <;> rfl

end MessageKind

namespace Wire

def peerId : Wire PeerId := (fixed 32).map PeerId.bytes (fun b => some ⟨b⟩) (fun _ => rfl)

def uuid : Wire (FixedBytes 16) := fixed 16

def seq : Wire Seq := varint64.map Seq.get (fun n => some ⟨n⟩) (fun _ => rfl)

def messageKind : Wire MessageKind :=
  variant.map MessageKind.index MessageKind.ofIndex MessageKind.ofIndex_index

def peerInfo : Wire PeerInfo :=
  (peerId.pair text).map (fun p => (p.id, p.displayName)) (fun x => some ⟨x.1, x.2⟩)
    (fun _ => rfl)

def sessionMessage : Wire SessionMessage :=
  (byte.pair (seq.pair (varint64.pair (peerInfo.pair (messageKind.pair (text.pair
    (bytes.pair ((fixed 64).pair (fixed 64))))))))).map
    (fun m => (m.version, m.seq, m.timestampMs, m.peer, m.kind, m.action, m.payload,
      m.signature, m.hostSig))
    (fun x => some ⟨x.1, x.2.1, x.2.2.1, x.2.2.2.1, x.2.2.2.2.1, x.2.2.2.2.2.1,
      x.2.2.2.2.2.2.1, x.2.2.2.2.2.2.2.1, x.2.2.2.2.2.2.2.2⟩)
    (fun _ => rfl)

theorem sessionMessage_fits (m : SessionMessage) (h : (sessionMessage.put m).length < 2 ^ 64) :
    sessionMessage.fits m := by
  have hkind : m.kind.index < 2 ^ 32 := by cases m.kind <;> decide
  have hid : m.peer.id.bytes.val.length = 32 := m.peer.id.bytes.property
  have hsig : m.signature.val.length = 64 := m.signature.property
  have hhost : m.hostSig.val.length = 64 := m.hostSig.property
  -- every field of variable length is shorter than the whole encoding
  simp only [sessionMessage, map, pair, peerInfo, peerId, fixed, text, bytes, seq,
    List.length_append] at h
  simp only [sessionMessage, map, pair, peerInfo, peerId, fixed, text, bytes, seq, byte,
    varint64, messageKind, variant]
  refine ⟨trivial, trivial, trivial, ⟨?_, ?_⟩, hkind, ?_, ?_, ?_, ?_⟩ <;> omega

end Wire

end Artel
