import Raftiq.AcknowledgedWrites
import Raftiq.AppliedState
import Raftiq.CommittedLog

namespace Raftiq

open Kv

/-! What one action of a service does to its cluster, and to the stores that it leaves alone. -/

namespace Service

variable {cluster : Cluster} {codec : Codec} {service after : Service} {action : ServiceAction}

/-- The first nodes are started on disks without a snapshot. -/
theorem initial_starts {v : NodeID} {replica : Replica} (codec : Codec)
    (up : (initial cluster).replica v = some replica) :
    replica.Starts codec ∧ replica.process.node.storage.contents.snapshot = none := by
  obtain ⟨host, consumer⟩ := replica_some.mp up
  have process := Host.up.inj host
  have booted : cluster.boot v (cluster.bootstrapped v) = .ok replica.process := by
    rw [← process]
    rfl
  have unsaved : replica.process.node.storage.contents.snapshot = none := by
    rw [← process]
    rfl
  refine ⟨⟨cluster, v, _, [], [], booted, ?_⟩, unsaved⟩
  simp only [Replica.start, Consumer.start, Contents.loadSnapshot, unsaved]
  exact congrArg some (congrArg (Replica.mk replica.process) consumer)

/-- A node that comes up has been started. -/
theorem step_starts {v : NodeID} {next : Replica} (stepped : step cluster codec service action = some after)
    (down : service.replica v = none) (up : after.replica v = some next) : next.Starts codec := by
  have served : ∀ {w event middle}, service.serverStep cluster codec w event = some middle →
      middle.replica v = some next → next.Starts codec := by
    intro w event middle moved there
    obtain ⟨before, running, elsewhere, _⟩ := serverStep_some moved
    by_cases same : v = w
    · subst same
      cases down.symm.trans running
    · cases (down.symm.trans (elsewhere v same).symm).trans there
  cases action with
  | server w event => exact served stepped up
  | crash w =>
      obtain ⟨world, crashed, rfl⟩ := Option.map_eq_some_iff.mp stepped
      obtain ⟨process, _, rfl⟩ := Cluster.step_crash crashed
      by_cases same : v = w
      · subst same
        simp [replica, moveTo, Host.process] at up
      · cases (down.symm.trans (replica_moveTo (Function.update_of_ne same _ _) rfl).symm).trans up
  | restart w keep lockOrder jobOrder =>
      obtain ⟨process, wal, reopened, consumer, _, booted, began, rfl⟩ := restart_some stepped
      by_cases same : v = w
      · subst same
        have now : some ⟨process, consumer⟩ = some next :=
          (replica_some.mpr ⟨World.update_host_self _ _ _ _, Function.update_self _ _ _⟩).symm.trans up
        cases now
        exact ⟨cluster, v, reopened, lockOrder, jobOrder, booted, by simp [Replica.start, began]⟩
      · cases (down.symm.trans (replica_moveTo (Function.update_of_ne same _ _)
          (Function.update_of_ne same _ _)).symm).trans up
  | call w request fault =>
      obtain ⟨middle, before, _, moved, world, consumer, _⟩ := call_some stepped
      refine served moved ?_
      rw [← up, replica, replica, world, consumer]
  | answer call =>
      obtain rfl := answer_some stepped
      have host := (replica_some.mp up).1
      simp only [replica, Option.map_eq_none_iff] at down
      rw [show service.world.host v = .up next.process from host] at down
      cases down
  | cancel call =>
      obtain rfl := cancel_some stepped
      cases down.symm.trans up

end Service

theorem Request.answer_store (request : Request) (applier : Applier) (index : ℕ) :
    (request.answer applier index).1.store = applier.store := by
  have waits : (applier.waitResult index).1.store = applier.store := by
    unfold Applier.waitResult
    split
    · rfl
    · split
      · rfl
      · rfl
  unfold answer
  split
  · split
    · rename_i waited
      rwa [waited] at waits
    · rename_i waited
      rwa [waited] at waits
    · rename_i waited
      rw [waited] at waits
      split
      · exact waits
      · exact waits
  · split
    · rfl
    · rfl
    · rfl

theorem Replica.Follows.answered {codec : Codec} {committed : List LogEntry} {replica : Replica}
    (follows : replica.Follows codec committed) (request : Request) (index : ℕ) :
    Replica.Follows codec committed { replica with consumer := { replica.consumer with
      applier := (request.answer replica.consumer.applier index).1 } } := by
  have same := (request.answer_applier replica.consumer.applier index).1
  have store := request.answer_store replica.consumer.applier index
  refine ⟨?_, ?_, ?_, ?_⟩
  · dsimp only
    rw [store, same]
    exact follows.store
  · dsimp only
    rw [same]
    exact follows.pending
  · dsimp only
    rw [same]
    exact follows.picked
  · dsimp only
    rw [same]
    exact follows.restored

end Raftiq
