import Autopeer.ProgramTree
import Autopeer.TransitionRuns
import Autopeer.ProgramRuns
import Autopeer.ProgramPool
import Autopeer.ProgramEmbedding
import Autopeer.ProgramUnwinding
import Autopeer.Ipv6
import Autopeer.PeerData
import Autopeer.RequestParsing
import Autopeer.Template
import Autopeer.BirdGeneration
import Autopeer.ManagerWorld
import Autopeer.ManagerPrograms
import Autopeer.ManagerSystem
import Autopeer.ManagerFootprints
import Autopeer.ManagerEffects
import Autopeer.ManagerRules
import Autopeer.TableIdentity
import Autopeer.TableDiscipline
import Autopeer.TableInvariant
import Autopeer.InterfaceEffects
import Autopeer.Recovery
import Autopeer.RecoveryIsolation
import Autopeer.LineText
import Autopeer.SignedMessage
import Autopeer.ChallengeSystem
import Autopeer.SingleUse
import Autopeer.BirdReload
import Autopeer.PortSearch
import Autopeer.RunFailures
import Autopeer.OperationEffects
import Autopeer.UpdateAtomicity
import Autopeer.DeleteRestoration
import Autopeer.CreateCompensation
import Autopeer.LocalAddress
import Autopeer.ChangeQueue
import Autopeer.InterleavedRuns
import Autopeer.ChangeDelivery
import Autopeer.Ipv6Text
import Autopeer.SignedAddresses
import Autopeer.LockOrder
import Autopeer.LinkedDirectories
import Autopeer.LinkPublication
import Autopeer.BirdCalls
import Autopeer.CurrentLink
import Autopeer.BirdControl
import Autopeer.BirdReply
import Autopeer.Base64
import Autopeer.WireguardKeys
import Autopeer.PeerRows
import Autopeer.StoredPeers
import Autopeer.TextSlices
import Autopeer.RegistryCheck
import Autopeer.RegistryAnswers
import Autopeer.FragmentLines
import Autopeer.NftBatch
import Autopeer.CreationTest
import Autopeer.ProgramTriples
import Autopeer.BirdTriples
import Autopeer.BirdImage
import Autopeer.GenerationReading
import Autopeer.BirdCallRefinement
import Autopeer.BirdAgreement
import Autopeer.StatusView
import Autopeer.DisabledPeer
import Autopeer.SnapshotWriters
import Autopeer.SnapshotConvergence
import Autopeer.FirewallConvergence
import Autopeer.BirdConvergence
import Autopeer.InterfaceTurns
import Autopeer.NamedInterfaces
import Autopeer.InterfaceTending
import Autopeer.InterfaceConvergence
import Autopeer.TableProvenance
import Autopeer.HttpHandlers
import Autopeer.ServiceSystem
import Autopeer.ServiceClearance
import Autopeer.DroppedHandlers
import Autopeer.ServiceLedger
import Autopeer.ServiceAuthority
