import Artel.Bridge.Announce
import Artel.Bridge.SessionSlots
import Artel.Client.Reader
import Artel.Daemon.PidFile
import Artel.Fs.CatchUp
import Artel.Fs.LocalEdits
import Artel.Fs.Returning
import Artel.Fs.Rules
import Artel.Fs.StateDir
import Artel.Fs.TombstoneRace
import Artel.Fs.Transferring
import Artel.Protocol.Meanings
import Artel.Registry.CapsProjection
import Artel.Registry.CrashRecovery
import Artel.Registry.FailedCalls
import Artel.Registry.GapRecovery
import Artel.Registry.HostRace
import Artel.Registry.JoinOutcome
import Artel.Registry.LedgerGate
import Artel.Registry.Orphans
import Artel.Registry.ReadTier
import Artel.Registry.Reserved
import Artel.Registry.RevokedPeer
import Artel.Registry.SendOnce
import Artel.Registry.SlotAgreement
import Artel.Registry.StaleDelivery
import Artel.Registry.StoreAgreement
import Artel.Registry.WatermarkOrder
import Artel.Session.Backfill
import Artel.Session.CloseReplay
import Artel.Session.EpochFloor
import Artel.Session.Incarnation
import Artel.Session.Retry
import Artel.Store.Durability
import Artel.Store.Reference
import Artel.Workspace.Consistency
import Artel.Workspace.Distribution
import Artel.Workspace.Evictions
import Artel.Workspace.Joiner
import Artel.Workspace.NodeIds
import Artel.Workspace.Secrecy
