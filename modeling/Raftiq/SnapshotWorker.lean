import Raftiq.ServiceRuns

namespace Raftiq

open Kv

/-! The snapshot workers of a cluster's servers, and what becomes of their snapshots. -/

/-- Where `maybeCreateSnapshot` is: it has read the index of the present snapshot, or it has also captured
the applied state. -/
inductive SnapshotStage where
  | idle
  | loaded (lastIncludedIndex : ℕ)
  | captured (index : ℕ) (data : Bytes)
deriving DecidableEq

structure SnapshotServers where
  service : Service
  stage : NodeID → SnapshotStage

inductive SnapshotAction where
  | service (action : ServiceAction)
  | load (v : NodeID)
  | capture (v : NodeID)
  | create (v : NodeID) (saveFault compactFault : Fault)
deriving DecidableEq

/-- Only the snapshot worker calls `CreateSnapshot`. -/
def ServiceAction.createsSnapshot : ServiceAction → Bool
  | .server _ (.raft (.createSnapshot _ _ _ _)) => true
  | _ => false

def Kv.Applier.snapshot (codec : Codec) (applier : Applier) : Bytes × ℕ :=
  (applier.store.snapshot codec.store, applier.lastApplied)

/-- What `maybeCreateSnapshot` makes of the applied state. -/
def SnapshotStage.capture (threshold lastIncludedIndex : ℕ) : Bytes × ℕ → SnapshotStage
  | (data, appliedIndex) =>
      if appliedIndex = 0 then .idle
      else if appliedIndex ≤ lastIncludedIndex then .idle
      else if appliedIndex - lastIncludedIndex < threshold then .idle
      else .captured appliedIndex data

namespace SnapshotServers

def initial (cluster : Cluster) : SnapshotServers where
  service := .initial cluster
  stage _ := .idle

def withStage (servers : SnapshotServers) (v : NodeID) (stage : SnapshotStage) : SnapshotServers :=
  { servers with stage := Function.update servers.stage v stage }

/-- The worker of a node that goes down is gone. -/
def moveTo (servers : SnapshotServers) (service : Service) : SnapshotServers where
  service := service
  stage v := if (service.replica v).isSome then servers.stage v else .idle

def step (cluster : Cluster) (codec : Codec) (threshold : ℕ) (servers : SnapshotServers) :
    SnapshotAction → Option SnapshotServers
  | .service action =>
      if action.createsSnapshot then none
      else (servers.service.step cluster codec action).map servers.moveTo
  | .load v =>
      match servers.service.replica v, servers.stage v with
      | some replica, .idle =>
          some (servers.withStage v
            (.loaded replica.process.node.storage.contents.loadSnapshot.lastIncludedIndex))
      | _, _ => none
  | .capture v =>
      match servers.service.replica v, servers.stage v with
      | some replica, .loaded lastIncludedIndex =>
          some (servers.withStage v
            (.capture threshold lastIncludedIndex (replica.consumer.applier.snapshot codec)))
      | _, _ => none
  | .create v saveFault compactFault =>
      match servers.stage v with
      | .captured index data =>
          (servers.service.step cluster codec
            (.server v (.raft (.createSnapshot index data saveFault compactFault)))).map
              (servers.withStage v .idle).moveTo
      | _ => none

end SnapshotServers

/-- The section of a server that an action consists of. -/
def SnapshotAction.own (servers : SnapshotServers) : SnapshotAction → Option ServiceAction
  | .service action => some action
  | .create v saveFault compactFault =>
      match servers.stage v with
      | .captured index data => some (.server v (.raft (.createSnapshot index data saveFault compactFault)))
      | .idle | .loaded _ => none
  | .load _ | .capture _ => none

namespace SnapshotServers

variable {cluster : Cluster} {codec : Codec} {threshold : ℕ} {servers after : SnapshotServers}
  {action : SnapshotAction}

/-- What an action does, and what it requires. -/
inductive Steps (cluster : Cluster) (codec : Codec) (threshold : ℕ) (servers : SnapshotServers) :
    SnapshotAction → SnapshotServers → Prop where
  | service {action : ServiceAction} {service : Service} (quiet : action.createsSnapshot = false)
      (moved : servers.service.step cluster codec action = some service) :
      Steps cluster codec threshold servers (.service action) (servers.moveTo service)
  | load {v : NodeID} (lastIncludedIndex : ℕ) :
      Steps cluster codec threshold servers (.load v) (servers.withStage v (.loaded lastIncludedIndex))
  | capture {v : NodeID} {replica : Replica} {lastIncludedIndex : ℕ}
      (up : servers.service.replica v = some replica) :
      Steps cluster codec threshold servers (.capture v)
        (servers.withStage v (.capture threshold lastIncludedIndex (replica.consumer.applier.snapshot codec)))
  | create {v : NodeID} {saveFault compactFault : Fault} {index : ℕ} {data : Bytes} {service : Service}
      (captured : servers.stage v = .captured index data)
      (moved : servers.service.step cluster codec
        (.server v (.raft (.createSnapshot index data saveFault compactFault))) = some service) :
      Steps cluster codec threshold servers (.create v saveFault compactFault)
        ((servers.withStage v .idle).moveTo service)

theorem step_steps (stepped : step cluster codec threshold servers action = some after) :
    Steps cluster codec threshold servers action after := by
  cases action with
  | service own =>
      simp only [step] at stepped
      split at stepped
      · cases stepped
      · rename_i quiet
        obtain ⟨service, moved, rfl⟩ := Option.map_eq_some_iff.mp stepped
        exact .service (Bool.eq_false_iff.mpr quiet) moved
  | load v =>
      simp only [step] at stepped
      split at stepped
      · cases stepped
        exact .load _
      · cases stepped
  | capture v =>
      simp only [step] at stepped
      split at stepped
      · rename_i up loaded
        cases stepped
        exact .capture up
      · cases stepped
  | create v saveFault compactFault =>
      simp only [step] at stepped
      split at stepped
      · rename_i captured
        obtain ⟨service, moved, rfl⟩ := Option.map_eq_some_iff.mp stepped
        exact .create captured moved
      · cases stepped

end SnapshotServers

end Raftiq
