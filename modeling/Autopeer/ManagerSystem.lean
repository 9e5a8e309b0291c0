import Autopeer.ManagerPrograms
import Autopeer.ProgramPool
import Autopeer.TransitionRuns

/-! The running service: requests, the peer-change listener and the nft reconciler as tasks on one
world, with statements of an administrator, new tasks and restarts between their calls. No task has to
go on. A handler that is dropped because its client is gone has no step of its own: `DroppedHandlers`
adds these drops to the whole service, and shows that they lead to no new state. -/
namespace Autopeer.ManagerSystem
open Ipv6 PeerData ProgramTree ProgramPool TransitionRuns ManagerWorld ManagerPrograms

/-- What a task was started for. -/
inductive Op
  | createPeer (asn : UInt32) (peerName : String) (pubkey : WgPubKey) (endpoint : Option String)
      (linkLocal : Option (Ipv6Addr × Ipv6Addr)) (mtu : Option UInt16)
  | updatePeer (asn : UInt32) (peerName : String) (pubkey : WgPubKey)
      (endpoint : Option (Option String)) (linkLocal : Option (Ipv6Addr × Ipv6Addr))
      (mtu : Option (Option UInt16))
  | deletePeer (asn : UInt32) (peerName : String)
  /-- One pass of the peer-change listener. -/
  | syncPendingPeerChanges
  /-- One pass of the nft reconciler. -/
  | syncNftPorts
  | recover
  deriving DecidableEq

/-- The peer of a request that ends well; the other tasks return nothing. -/
abbrev Reply := Except PeerError (Option Peer)

def answerPeer (request : Manager Peer) : Program Call Answer Reply :=
  request.run >>= fun result => .done (result.map some)

def answerNone (job : Manager Unit) : Program Call Answer Reply :=
  job.run >>= fun result => .done (result.map fun _ => none)

variable (cfg : Config)

def program : Op → Program Call Answer Reply
  | .createPeer asn peerName pubkey endpoint linkLocal mtu =>
    answerPeer (createPeer cfg asn peerName pubkey endpoint linkLocal mtu)
  | .updatePeer asn peerName pubkey endpoint linkLocal mtu =>
    answerPeer (updatePeer cfg asn peerName pubkey endpoint linkLocal mtu)
  | .deletePeer asn peerName => answerPeer (deletePeer asn peerName)
  | .syncPendingPeerChanges => answerNone syncPendingPeerChanges
  | .syncNftPorts => answerNone syncNftPorts
  | .recover => answerNone recover

abbrev System := Pool World Op Call Answer Reply

def inFlight (task : Op × Program Call Answer Reply) : Bool :=
  match task.2 with
  | .done _ => false
  | .call .. => true

/-- No task is in flight. -/
def System.quiet (s : System) : Prop := ∀ task ∈ s.tasks, inFlight task = false

/-- Startup has ended well, so requests and background jobs run. -/
def System.serving (s : System) : Bool :=
  s.tasks.all fun task =>
    match task with
    | (.recover, .done (.ok _)) => true
    | (.recover, _) => false
    | _ => true

/-- There is one listener and one reconciler, and recovery runs at startup only. -/
def System.admits (s : System) : Op → Bool
  | .recover => false
  | .syncPendingPeerChanges =>
    s.tasks.all fun task => task.1 ≠ .syncPendingPeerChanges || !inFlight task
  | .syncNftPorts => s.tasks.all fun task => task.1 ≠ .syncNftPorts || !inFlight task
  | _ => true

inductive Label
  /-- A task makes its next call. -/
  | task (index : ℕ) (outcome : Outcome)
  | start (op : Op)
  /-- An administrator sets the status of a row. -/
  | sqlStatus (peerId : UInt32) (status : PeerStatus)
  /-- An administrator deletes a row. -/
  | sqlDelete (peerId : UInt32)
  /-- The process ends, with its tasks and locks, and starts again with recovery. -/
  | restart

def step : Label → System → Option System
  | .task index outcome, s => s.stepTask (exec cfg) index outcome
  | .start op, s => if s.serving && s.admits op then some (s.spawn op (program cfg op)) else none
  | .sqlStatus peerId status, s =>
    some { s with
      world := s.world.withTables (s.world.updateRow peerId fun row => { row with status }).2 }
  | .sqlDelete peerId, s =>
    some { s with world := s.world.withTables (s.world.deleteRow peerId).2 }
  | .restart, s =>
    some { world := { s.world with locks := [] }
           tasks := [(.recover, program cfg .recover)] }

/-- The service is down: no task runs and no lock is held. -/
def System.stopped (w : World) : System := ⟨w, []⟩

/-- The database before the first start. -/
def emptyWorld (ifaces : List Iface) (nft : List UInt16) (bird : Bird) : World :=
  { peers := [], born := [], peerSeq := 1, events := [], nextEvent := 1, locks := [],
    ifaces, nft, bird }

section Sample

/-- A service with an AS number of its own and names in byte order. -/
def sampleConfig : Config := ⟨4242420000, fun a b => decide (a ≤ b)⟩

/-- Task `index` makes `n` calls that all work. -/
def runs (index n : ℕ) : List Label := List.replicate n (.task index .ok)

end Sample

end Autopeer.ManagerSystem
