import Artel.Registry.World

namespace Artel.Registry

open Artel.Fiber

/-- Claims the slot if it is free. The generation counter moves either way. -/
def reserve (h : Handle) : Async (Option ℕ) :=
  once (.reserve h) fun _ s =>
    match s.slot with
    | some _ => (none, { s with nextSlotGeneration := s.nextSlotGeneration + 1 })
    | none =>
      (some s.nextSlotGeneration,
        { s with
          slot := some (.reserved s.nextSlotGeneration)
          nextSlotGeneration := s.nextSlotGeneration + 1 })

/-- The topic subscribe and a joiner's wait for a neighbour. -/
def gossip : Async (Option String) := once .gossip fun e s => (e.subscribeError, s)

def spawn (feeds : Option Handle) : Async Unit :=
  once .spawn fun _ s => ((), { s with forwarders := s.forwarders ++ feeds.toList })

def abort (feeds : Option Handle) (s : World) : World :=
  match feeds with
  | none => s
  | some h => { s with forwarders := s.forwarders.erase h }

/-- Installs the live slot if the reservation still stands, else aborts the forwarder. -/
def finalize (generation : ℕ) (feeds : Option Handle) : Async Unit :=
  once .finalize fun _ s =>
    ((), if s.slot = some (.reserved generation) then { s with slot := some (.live feeds) }
      else abort feeds s)

def releaseSlot (generation : ℕ) : Async Unit :=
  once .releaseSlot fun _ s =>
    ((), if s.slot = some (.reserved generation) then { s with slot := none } else s)

/-- `forget_session`: removes the slot, and aborts a live one's forwarder. -/
def forget (h : Handle) : Async Unit :=
  once (.forget h) fun _ s =>
    ((), match s.slot with
      | some (.live feeds) => abort feeds { s with slot := none }
      | _ => { s with slot := none })

/-- The common subscribe path. A slot that is taken counts as success. -/
def subscribeInner (h : Handle) (feeds : Option Handle) : Async (Option String) := do
  match ← reserve h with
  | none => return none
  | some generation =>
    match ← gossip with
    | some err =>
      releaseSlot generation
      return some err
    | none =>
      spawn feeds
      finalize generation feeds
      return none

def hostSession (h : Handle) : Async (Option String) := subscribeInner h none

/-- The joiner's subscribe; the forwarder feeds the mirror of the call that asks for it. -/
def joinSession (h : Handle) : Async (Option String) := do
  let result ← subscribeInner h (some h)
  once (.conclude h) fun _ s => (result, { s with joins := s.joins ++ [(h, result.isNone)] })

end Artel.Registry
