import Raftiq.CommitSafety
import Raftiq.Raft.Observed

namespace Raftiq

open Consensus

/-- The `AppendEntries` call that a message is. -/
def Message.call : Message → Option AppendEntriesArgs
  | .appendEntries _ args | .probe _ _ args => some args
  | _ => none

theorem Process.step_records {process next : Process} {event : Event} {observations : List Observation}
    (stepped : process.step event = some (.running next observations)) {message : Message}
    {args : AppendEntriesArgs} (sent : .sent message ∈ observations) (carries : message.call = some args) :
    .builtFrom args process.node.log ∈ observations := by
  have shown := step_shows stepped _ sent
  cases message with
  | appendEntries target call =>
      cases carries
      exact shown.2.2
  | probe read target call =>
      cases carries
      exact shown.2.2
  | _ => cases carries

/-- The log of the leader that has sent a call is on record. -/
def World.RecordsCalls (world : World) : Prop :=
  ∀ v message args, (v, .sent message) ∈ world.trace → message.call = some args →
    ∃ log, (v, .builtFrom args log) ∈ world.trace

theorem Cluster.reaches_recordsCalls {cluster : Cluster} {allowed : World → Action → Prop} {world : World}
    (reached : Reaches cluster.step allowed cluster.initial world) : world.RecordsCalls := by
  apply reached.invariant World.RecordsCalls
  · intro v message args sent
    simp [Cluster.initial] at sent
  · intro before action after records _ stepped v message args sent carries
    obtain ⟨w, host, observations, rfl, quiet | ⟨event, process, next, _, _, _, ran⟩⟩ := step_update stepped
    · subst quiet
      rw [World.update, List.map_nil, List.append_nil] at sent ⊢
      exact records v message args sent carries
    · rcases World.mem_update_trace.mp sent with earlier | ⟨origin, now⟩
      · obtain ⟨log, built⟩ := records v message args earlier carries
        exact ⟨log, World.mem_update_trace.mpr (Or.inl built)⟩
      · exact ⟨process.node.log, World.mem_update_trace.mpr (Or.inr ⟨origin, Process.step_records ran now carries⟩)⟩

namespace RaftNode

variable {node after : RaftNode} {args : AppendEntriesArgs} {reply : AppendEntriesReply}

theorem enterTerm_log {term : ℕ} {fault : Fault} {durable : Bool}
    (entered : node.enterTerm term fault = .done after durable) :
    after.log = node.log ∧ after.commitIndex = node.commitIndex := by
  unfold enterTerm persistState at entered
  cases written : node.storage.writeSync (WALStorage.saveState (node.persistent.enterTerm term)) fault with
  | ok wal =>
      rw [written] at entered
      cases entered
      exact ⟨rfl, rfl⟩
  | failed error wal =>
      rw [written] at entered
      cases entered
      exact ⟨rfl, rfl⟩
  | crashed wal =>
      rw [written] at entered
      cases entered

/-- A call without entries, once accepted, changes the commit index and nothing of the log. -/
theorem acceptEntries_empty {fault : Fault} (empty : args.entries = [])
    (accepted : node.acceptEntries args fault = .done after reply) (success : reply.success) :
    after.commitIndex = (node.followCommit args.leaderCommit).commitIndex := by
  unfold acceptEntries at accepted
  split at accepted
  · cases accepted
    simp [appendReply] at success
  · rw [empty] at accepted
    cases accepted
    rfl

theorem appendEntries_empty {termFault logFault : Fault} (empty : args.entries = [])
    (accepted : node.appendEntries args termFault logFault = .done after reply) (success : reply.success) :
    after.commitIndex = (node.followCommit args.leaderCommit).commitIndex := by
  unfold appendEntries at accepted
  split at accepted
  · cases accepted
    simp [appendReply] at success
  · split at accepted
    · cases entered : node.enterTerm args.term termFault with
      | crashed wal =>
          rw [entered] at accepted
          cases accepted
      | done middle durable =>
          rw [entered, Outcome.andThen_done] at accepted
          obtain ⟨log, commit⟩ := enterTerm_log entered
          split at accepted
          · rw [acceptEntries_empty empty accepted success]
            unfold followCommit
            rw [log, commit]
          · cases accepted
            simp [appendReply] at success
    · exact acceptEntries_empty empty accepted success

/-- The commit index after a call without entries shows whether the call fitted. -/
theorem fits_of_bounded (empty : args.entries = [])
    (bounded : (node.followCommit args.leaderCommit).commitIndex ≤
      max node.commitIndex (args.prevLogIndex + args.entries.length)) (regime : Regime) :
    node.Fits regime args := by
  intro _
  have moved := node.followCommit_cases args.leaderCommit
  rcases Nat.lt_or_ge (max node.commitIndex (args.prevLogIndex + args.entries.length)) args.leaderCommit with
    beyond | within
  · refine Or.inr ⟨empty, ?_⟩
    unfold followCommit at bounded
    dsimp only at bounded
    rw [if_pos (by omega)] at bounded
    split at bounded
    · omega
    · exact bounded
  · exact Or.inl within

end RaftNode

namespace Cluster

variable {cluster : Cluster} {h : History} {v : NodeID} {node after : RaftNode} {args : AppendEntriesArgs}
  {termFault logFault : Fault} {reply : AppendEntriesReply}

/-- A call that fits is followed up to where the follower agrees with the leader. -/
theorem accepted_agrees (tracks : node.Tracks cluster .replicating h v) (valid : cluster.Valid h)
    (sound : args.Sound cluster .replicating h) (fits : node.Fits .replicating args)
    (works : termFault.Works) (worksToo : logFault.Works)
    (accepted : node.appendEntries args termFault logFault = .done after reply) (success : reply.success) :
    after.commitIndex ≤ max node.commitIndex (args.prevLogIndex + args.entries.length) ∧
      ∀ sender log, (Observation.builtFrom args log).Sound cluster .replicating h sender →
        ∀ i, node.commitIndex < i → i ≤ after.commitIndex →
          ∃ entry, after.log.get i = some entry ∧ log.get i = some entry := by
  have follows := RaftNode.appendEntries_follows tracks valid sound fits works worksToo
  rw [accepted] at follows
  obtain ⟨later, moves, _, running, taken⟩ := follows
  have known := taken success
  have bounded := known.bounded rfl
  refine ⟨bounded, fun sender log built i above below => ?_⟩
  obtain ⟨full, shows, inside, reaches⟩ := built
  have within : i ≤ args.prevLogIndex + args.entries.length := by omega
  have length := (sound.mono moves.keeps).length_incoming
  obtain ⟨entry, found⟩ : ∃ entry, full[i - 1]? = some entry := ⟨_, List.getElem?_eq_getElem (by omega)⟩
  have leader : (later.led args.term).take i = full.take i :=
    take_eq_of_front (inside.trans (moves.keeps.led_front _)) (by omega)
  have follower : (later.log v).take i = full.take i := by
    rw [take_eq_of_front known.held (by omega), AppendEntriesArgs.incoming, List.take_take,
      Nat.min_eq_left within, leader]
  exact ⟨entry, shows_get running.shows (by omega) follower found, shows_get shows (by omega) rfl found⟩

end Cluster

/-- A call was accepted and has moved the commit index to this entry. -/
def Outcome.CommitsTo (entry : LogEntry) : Outcome AppendEntriesReply → Prop
  | .crashed _ => False
  | .done after reply => reply.success ∧ after.commitIndex = entry.index ∧
      after.log.get entry.index = some entry

instance (entry : LogEntry) : DecidablePred (Outcome.CommitsTo entry)
  | .crashed _ => .isFalse id
  | .done _ _ => inferInstanceAs (Decidable (_ ∧ _ ∧ _))

def Host.Accepts (args : AppendEntriesArgs) (before : ℕ) (entry : LogEntry) : Host → Prop
  | .down _ => False
  | .up process => process.node.commitIndex = before ∧
      (process.node.appendEntries args .none .none).CommitsTo entry

instance (args : AppendEntriesArgs) (before : ℕ) (entry : LogEntry) :
    DecidablePred (Host.Accepts args before entry)
  | .down _ => .isFalse id
  | .up _ => inferInstanceAs (Decidable (_ ∧ _))

theorem Host.Accepts.up {args : AppendEntriesArgs} {before : ℕ} {entry : LogEntry} {host : Host}
    (accepts : host.Accepts args before entry) :
    ∃ process after reply, host = .up process ∧ process.node.commitIndex = before ∧
      process.node.appendEntries args .none .none = .done after reply ∧ reply.success ∧
      after.commitIndex = entry.index ∧ after.log.get entry.index = some entry := by
  cases host with
  | down wal => exact accepts.elim
  | up process =>
      obtain ⟨commit, outcome⟩ := accepts
      cases accepted : process.node.appendEntries args .none .none with
      | crashed wal =>
          rw [accepted] at outcome
          exact outcome.elim
      | done after reply =>
          rw [accepted] at outcome
          exact ⟨process, after, reply, rfl, commit, accepted, outcome⟩

namespace Cluster

end Cluster

end Raftiq
