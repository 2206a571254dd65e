import Raftiq.CommitSafety
import Raftiq.Raft.Applying
import Raftiq.Raft.Provenance
import Raftiq.Raft.Restart
import Raftiq.Raft.Shown
import Raftiq.Refinement.Leader

namespace Raftiq

/-! What nodes hold, send and apply has been proposed on a leader, and their snapshots have been created. -/

variable {origin : Origin}

def Observation.From (origin : Origin) : Observation → Prop
  | .sent (.appendEntries _ args) | .sent (.probe _ _ args) => ∀ entry ∈ args.entries, origin.entry entry
  | .sent (.installSnapshot _ args) => origin.snapshot args.snapshot
  | .builtFrom _ log | .elected _ log | .committed _ _ log => ∀ entry ∈ log.entries, origin.entry entry
  | .applied entry => origin.entry entry
  | _ => True

structure Process.From (origin : Origin) (process : Process) : Prop where
  node : process.node.From origin
  boundary : process.node.log.lastIncludedIndex ≤ process.node.lastApplied
  picked : ∀ index entry, process.applying = .picked index entry → origin.entry entry
  installs : ∀ install ∈ process.installs, origin.snapshot install.args.snapshot

/-- What a section adds: the entry that a leader writes for a proposal, the snapshot that is created, and the boundary
of a log where it is sent in place of an entry. -/
def Process.Offers (origin : Origin) (process : Process) : Event → Prop
  | .propose data fault => ∀ entry ∈ process.node.writes data fault, origin.entry entry
  | .createSnapshot index data _ _ => ∀ entry ∈ (process.node.validateSnapshotRequestLocked index).toOption,
      origin.snapshot ⟨index, entry.term, data⟩
  | .replicateTo peerID => process.node.sendsBoundary peerID →
      origin.entry ⟨1, process.node.log.lastIncludedTerm, []⟩
  | _ => True

/-- What a section receives. -/
def Event.Brings (origin : Origin) : Event → Prop
  | .receiveAppendEntries args _ _ _ => ∀ entry ∈ args.entries, origin.entry entry
  | .receiveInstallSnapshot args _ _ => origin.snapshot args.snapshot
  | _ => True

theorem Process.effect_from (process : Process) {event : Event} (known : process.node.From origin)
    (installs : ∀ install fault, event = .finishInstall install fault → origin.snapshot install.args.snapshot)
    (offers : process.Offers origin event) (brings : event.Brings origin) :
    (process.effect event).Ensures (fun after _ => process.node.Inherits origin after) (·.From origin) := by
  have saves : ∀ quiet : event.writesLog = false, (process.effect event).Ensures
      (fun after _ => process.node.Inherits origin after) (·.From origin) := fun quiet =>
    (process.effect_saves quiet).mono (fun _ _ saves => saves.inherits known) fun _ saves => saves.from known.storage
  cases event with
  | propose data fault => exact (RaftNode.propose_from known offers).forget
  | receiveAppendEntries args purpose termFault logFault =>
      exact (RaftNode.appendEntries_from known brings termFault logFault).forget
  | createSnapshot index data saveFault compactFault =>
      refine (RaftNode.createSnapshot_from known (fun entry accepted => ?_) saveFault compactFault).forget
      exact offers entry (by rw [accepted]; rfl)
  | receiveInstallSnapshot args termFault saveFault =>
      exact ((RaftNode.installSnapshot_from known brings termFault saveFault).mono (fun _ _ held => held.1)
        fun _ held => held).forget
  | finishInstall install fault =>
      exact (RaftNode.finishInstall_from known (installs install fault rfl) fault).forget
  | _ => exact saves rfl

namespace RaftNode

variable {node : RaftNode} {peerID : NodeID}

theorem collectEntries_get {log : Log} {indexes : List ℕ} {entries : List LogEntry}
    (collected : collectEntries log indexes = some entries) :
    (∀ index ∈ indexes, (log.get index).isSome) ∧
      ∀ entry ∈ entries, ∃ index ∈ indexes, log.get index = some entry := by
  induction indexes generalizing entries with
  | nil =>
      cases collected
      exact ⟨fun _ none => (by cases none), fun _ none => (by cases none)⟩
  | cons index rest ih =>
      unfold collectEntries at collected
      split at collected
      · cases collected
      · rename_i found
        obtain ⟨others, behind, rfl⟩ := Option.map_eq_some_iff.mp collected
        obtain ⟨every, origins⟩ := ih behind
        refine ⟨List.forall_mem_cons.mpr ⟨by rw [found]; rfl, every⟩, List.forall_mem_cons.mpr ⟨?_, ?_⟩⟩
        · exact ⟨index, List.mem_cons_self, found⟩
        · intro entry member
          obtain ⟨place, inside, looked⟩ := origins entry member
          exact ⟨place, List.mem_cons_of_mem _ inside, looked⟩

/-- A leader sends entries of its log, or the boundary in place of the first one. -/
theorem buildAppendEntries_from {args : AppendEntriesArgs} (built : node.buildAppendEntries peerID = some args) :
    ∀ entry ∈ args.entries, entry ∈ node.log.entries ∨
      node.sendsBoundary peerID ∧ entry = ⟨1, node.log.lastIncludedTerm, []⟩ := by
  unfold buildAppendEntries at built
  split at built
  · cases built
  · split at built
    · cases built
    · rename_i nextIndex next
      split at built
      · cases built
      · rename_i previous
        split at built
        · cases built
        · rename_i entries collected
          cases built
          obtain ⟨every, origins⟩ := collectEntries_get collected
          intro entry member
          obtain ⟨index, inside, found⟩ := origins entry member
          unfold Log.get at found
          split at found
          · rename_i boundary
            have first := every nextIndex (List.mem_range'_1.mpr (by rw [List.mem_range'_1] at inside; omega))
            obtain ⟨held, lowest⟩ := Option.isSome_iff_exists.mp first
            have reached := Log.boundary_le_of_get lowest
            rw [List.mem_range'_1] at inside
            have one : nextIndex = 1 := by
              rcases Nat.lt_or_ge 1 nextIndex with far | near
              · unfold previousEntry at previous
                rw [if_pos far] at previous
                obtain ⟨before, looked, _⟩ := Option.map_eq_some_iff.mp previous
                have below := Log.boundary_le_of_get looked
                omega
              · omega
            cases found
            have single : node.log.lastIncludedIndex = 1 := by omega
            exact Or.inr ⟨⟨one ▸ next, single⟩, by rw [boundary.1, single]⟩
          · exact Or.inl (List.mem_of_find?_eq_some found)

theorem probeReadIndex_empty {read : PendingRead} {args : AppendEntriesArgs}
    (built : node.probeReadIndex read peerID = some args) : args.entries = [] := by
  unfold probeReadIndex at built
  split at built
  · cases built
  · split at built
    · cases built
    · split at built
      · cases built
      · cases built
        rfl

theorem buildInstallSnapshot_from (known : node.From origin) {args : InstallSnapshotArgs}
    (built : node.buildInstallSnapshot peerID = some args) : origin.snapshot args.snapshot := by
  unfold buildInstallSnapshot at built
  split at built
  · cases built
  · split at built
    · cases built
    · dsimp only at built
      split at built
      · cases built
      · rename_i nonzero
        split at built
        · cases built
        · cases built
          cases saved : node.storage.contents.snapshot with
          | none => simp [Contents.loadSnapshot, saved] at nonzero
          | some snapshot =>
              simp only [Contents.loadSnapshot, saved, Option.getD_some]
              exact known.storage.contents.snapshot snapshot saved

/-- The entry that is applied next is one of the log. -/
theorem nextCommitted_mem {entry : LogEntry} (boundary : node.log.lastIncludedIndex ≤ node.lastApplied)
    (next : node.nextCommitted = some entry) : entry ∈ node.log.entries := by
  obtain ⟨found, _⟩ := nextCommitted_index next
  unfold Log.get at found
  rw [if_neg (by omega)] at found
  exact List.mem_of_find?_eq_some found

end RaftNode

namespace Process

variable {process next : Process} {event : Event} {observations : List Observation}

/-- What is seen of a section has the origin of what it has found and what it leaves. -/
theorem step_seen_from (known : process.From origin) (offers : process.Offers origin event)
    (after : next.node.From origin) (stepped : process.step event = some (.running next observations)) :
    ∀ observation ∈ observations, observation.From origin := by
  intro observation member
  have shown := step_shows stepped observation member
  cases observation with
  | sent message =>
      cases message with
      | appendEntries target args =>
          obtain ⟨rfl, built, _⟩ := shown
          intro entry carried
          rcases RaftNode.buildAppendEntries_from built entry carried with own | ⟨sends, rfl⟩
          · exact known.node.log entry own
          · exact offers sends
      | probe read target args =>
          obtain ⟨_, ⟨pending, _, built⟩, _⟩ := shown
          intro entry carried
          rw [RaftNode.probeReadIndex_empty built] at carried
          cases carried
      | installSnapshot target args => exact RaftNode.buildInstallSnapshot_from known.node shown.2
      | _ => trivial
  | builtFrom args log =>
      intro entry held
      rw [show log = process.node.log from shown] at held
      exact known.node.log entry held
  | elected term log =>
      obtain ⟨_, _, rfl⟩ := shown
      exact after.log
  | committed term index log =>
      obtain ⟨_, _, _, rfl⟩ := shown
      exact after.log
  | applied entry =>
      obtain ⟨index, picked⟩ := shown
      exact known.picked index entry picked
  | _ => trivial

theorem step_installs_from (known : process.From origin) (brings : event.Brings origin)
    (stepped : process.step event = some (.running next observations)) :
    ∀ install ∈ next.installs, origin.snapshot install.args.snapshot := by
  rcases (step_calls stepped).1 with same | ⟨args, termFault, saveFault, rfl⟩ | ⟨install, succeeds, rfl⟩ |
    ⟨install, fault, rfl⟩
  · exact same ▸ known.installs
  · simp only [step, settleInstall, Option.some.injEq] at stepped
    split at stepped
    · cases stepped
      exact known.installs
    · rename_i node install outcome
      have pending := RaftNode.installSnapshot_from known.node brings termFault saveFault
      rw [outcome] at pending
      cases stepped
      refine List.forall_mem_cons.mpr ⟨?_, known.installs⟩
      rw [pending.2 install rfl]
      exact brings
    · cases stepped
  · simp only [step] at stepped
    split at stepped
    · rename_i waits
      have others : ∀ other ∈ process.installs.erase install, origin.snapshot other.args.snapshot :=
        fun other member => known.installs other (List.mem_of_mem_erase member)
      split at stepped
      · cases stepped
        exact List.forall_mem_cons.mpr ⟨known.installs install waits.1, others⟩
      · cases stepped
        exact others
    · cases stepped
  · simp only [step] at stepped
    split at stepped
    · obtain ⟨_, _, same, _⟩ := settle_running (Option.some.inj stepped)
      rw [same]
      exact fun other member => known.installs other (List.mem_of_mem_erase member)
    · cases stepped

theorem step_picked_from (known : process.From origin)
    (stepped : process.step event = some (.running next observations)) {index : ℕ} {entry : LogEntry}
    (picked : next.applying = .picked index entry) : origin.entry entry := by
  cases step_appliesBy stepped with
  | quiet silent applied membership applying => exact known.picked index entry (applying ▸ picked)
  | pick idle took =>
      rw [picked] at took
      exact known.node.log entry (RaftNode.nextCommitted_mem known.boundary (RaftNode.pickCommitted_hands took))
  | send held same =>
      rw [same] at picked
      cases picked
  | mark sent same =>
      rw [same] at picked
      cases picked
  | install finished applying => exact known.picked index entry (applying ▸ picked)

theorem step_finishes {install : PendingInstall} {fault : Fault} {result : Result}
    (stepped : process.step (.finishInstall install fault) = some result) : install ∈ process.installs := by
  simp only [step] at stepped
  split at stepped
  · rename_i waits
    exact waits.1
  · cases stepped

theorem step_effect_from (known : process.From origin) (offers : process.Offers origin event)
    (brings : event.Brings origin) {result : Result} (stepped : process.step event = some result) :
    (process.effect event).Ensures (fun after _ => process.node.Inherits origin after) (·.From origin) := by
  refine process.effect_from known.node (fun install fault finishes => ?_) offers brings
  rw [finishes] at stepped
  exact known.installs install (step_finishes stepped)

/-- A section brings nothing that was neither held, received nor offered. -/
theorem step_from (known : process.From origin) (offers : process.Offers origin event)
    (brings : event.Brings origin) (stepped : process.step event = some (.running next observations)) :
    next.From origin ∧ ∀ observation ∈ observations, observation.From origin := by
  have inherits := step_ensures stepped (step_effect_from known offers brings stepped)
  have applied := step_ensures stepped (process.effect_applied event)
  refine ⟨⟨inherits.toFrom, ?_, fun _ _ => step_picked_from known stepped,
    step_installs_from known brings stepped⟩, step_seen_from known offers inherits.toFrom stepped⟩
  rcases inherits.boundary with same | within
  · rw [same]
    exact known.boundary.trans applied
  · exact within

end Process

def Host.From (origin : Origin) : Host → Prop
  | .up process => process.From origin
  | .down wal => wal.From origin

def Host.Offers (origin : Origin) (event : Event) : Host → Prop
  | .up process => process.Offers origin event
  | .down _ => True

section Decisions

variable (origin : Origin) [DecidablePred origin.entry] [DecidablePred origin.snapshot]

instance (process : Process) : DecidablePred (process.Offers origin)
  | .propose _ _ => inferInstanceAs (Decidable (∀ _ ∈ RaftNode.writes _ _ _, _))
  | .replicateTo _ => inferInstanceAs (Decidable (_ → _))
  | .createSnapshot _ _ _ _ => inferInstanceAs (Decidable (∀ _ ∈ Except.toOption _, _))
  | .startElection _ | .requestVotes | .receiveRequestVote _ _ _ | .receiveVoteReply _ _ _
  | .tryBecomeLeader | .receiveAppendEntries _ _ _ _ | .receiveAppendReply _ _ _ _ | .pickCommitted _ _
  | .sendApplied | .markApplied | .sendInstallSnapshot _ | .receiveInstallSnapshot _ _ _
  | .restoreSnapshot _ _ | .finishInstall _ _ | .receiveInstallReply _ _ _ _ | .beginRead _
  | .probeRead _ _ | .receiveProbeResult _ _ _ _ | .cancelRead _ => .isTrue trivial

instance (event : Event) : DecidablePred (Host.Offers origin event)
  | .up process => inferInstanceAs (Decidable (process.Offers origin event))
  | .down _ => .isTrue trivial

end Decisions

namespace World

structure From (origin : Origin) (world : World) : Prop where
  host : ∀ v, (world.host v).From origin
  trace : ∀ entry ∈ world.trace, entry.2.From origin

/-- What an action adds. -/
def Offers (origin : Origin) (world : World) : Action → Prop
  | .act v event => (world.host v).Offers origin event
  | .crash _ | .restart _ _ => True

instance (origin : Origin) [DecidablePred origin.entry] [DecidablePred origin.snapshot] (world : World) :
    DecidablePred (world.Offers origin)
  | .act v event => inferInstanceAs (Decidable ((world.host v).Offers origin event))
  | .crash _ | .restart _ _ => .isTrue trivial

variable {world : World} {v : NodeID}

theorem From.mono {wider : Origin} (known : world.From origin)
    (entries : ∀ entry, origin.entry entry → wider.entry entry)
    (snapshots : ∀ snapshot, origin.snapshot snapshot → wider.snapshot snapshot) : world.From wider := by
  have stored : ∀ wal : WALStorage, wal.From origin → wal.From wider := by
    intro wal known record member
    have written := known record member
    cases record with
    | state state => trivial
    | entries added | replaceSuffix start added => exact fun entry inside => entries entry (written entry inside)
    | snapshot saved => exact snapshots saved written
  refine ⟨fun v => ?_, fun entry member => ?_⟩
  · have hosted := known.host v
    cases there : world.host v with
    | down wal =>
        rw [there] at hosted
        exact stored wal hosted
    | up process =>
        rw [there] at hosted
        exact ⟨⟨fun entry held => entries entry (hosted.node.log entry held), stored _ hosted.node.storage⟩,
          hosted.boundary, fun index entry picked => entries entry (hosted.picked index entry picked),
          fun install waits => snapshots _ (hosted.installs install waits)⟩
  · have seen := known.trace entry member
    obtain ⟨w, observation⟩ := entry
    cases observation with
    | sent message =>
        cases message with
        | appendEntries target args | probe read target args =>
            exact fun entry held => entries entry (seen entry held)
        | installSnapshot target args => exact snapshots _ seen
        | _ => trivial
    | builtFrom args log | elected term log | committed term index log =>
        exact fun entry held => entries entry (seen entry held)
    | applied entry => exact entries entry seen
    | _ => trivial

theorem From.brings (known : world.From origin) {event : Event} (arrives : world.Arrives v event) :
    event.Brings origin := by
  have sent : ∀ message, world.WasSent message → (Observation.sent message).From origin := by
    rintro message ⟨entry, member, same⟩
    exact same ▸ known.trace entry member
  cases event with
  | receiveAppendEntries args purpose termFault logFault =>
      cases purpose with
      | replication => exact sent _ arrives
      | probe read => exact sent _ arrives
  | receiveInstallSnapshot args termFault saveFault => exact sent _ arrives
  | _ => trivial

theorem forall_host_update (holds : NodeID → Host → Prop) {host : Host} {observations : List Observation}
    (before : ∀ w, holds w (world.host w)) (placed : holds v host) :
    ∀ w, holds w ((world.update v host observations).host w) := by
  intro w
  by_cases same : w = v
  · subst same
    rwa [update_host_self]
  · have elsewhere : (world.update v host observations).host w = world.host w := Function.update_of_ne same _ _
    rw [elsewhere]
    exact before w

theorem forall_trace_update {holds : Observation → Prop} {host : Host} {observations : List Observation}
    (before : ∀ entry ∈ world.trace, holds entry.2) (seen : ∀ observation ∈ observations, holds observation) :
    ∀ entry ∈ (world.update v host observations).trace, holds entry.2 := by
  intro entry member
  rcases mem_update_trace.mp member with old | ⟨_, new⟩
  · exact before entry old
  · exact seen _ new

theorem From.update (known : world.From origin) {host : Host} {observations : List Observation}
    (placed : host.From origin) (seen : ∀ observation ∈ observations, observation.From origin) :
    (world.update v host observations).From origin where
  host := forall_host_update (fun _ host => host.From origin) known.host placed
  trace := forall_trace_update known.trace seen

end World

namespace Cluster

variable {cluster : Cluster} {world after : World} {action : Action} {v : NodeID}

theorem boot_from {wal : WALStorage} {process : Process} (known : wal.From origin)
    (booted : cluster.boot v wal = .ok process) : process.From origin := by
  obtain ⟨log, restored, rfl⟩ := boot_ok booted
  obtain ⟨boundary, entries⟩ := RaftNode.restoreLog_entries restored
  have subset : log.entries ⊆ wal.contents.entries := by
    rcases entries with ⟨same, _⟩ | ⟨none, _⟩
    · rw [same]
      exact List.drop_subset _ _
    · rw [none]
      exact List.nil_subset _
  exact ⟨⟨fun entry member => known.contents.entries entry (subset member), known⟩, boundary.le,
    fun _ _ picked => (by cases picked), fun _ none => (by cases none)⟩

theorem initial_from (cluster : Cluster) : cluster.initial.From origin where
  host v := by
    have empty : (cluster.bootstrapped v).From origin := List.forall_mem_singleton.mpr trivial
    exact boot_from empty (show cluster.boot v (cluster.bootstrapped v) = .ok _ from rfl)
  trace _ none := by cases none

theorem step_from (known : world.From origin) (offers : world.Offers origin action)
    (stepped : cluster.step world action = some after) : after.From origin := by
  cases action with
  | act v event =>
      obtain ⟨process, up, arrives, ran⟩ := step_act stepped
      have running := known.host v
      have offered : (world.host v).Offers origin event := offers
      rw [up] at running offered
      rcases ran with ⟨next, observations, ran, rfl⟩ | ⟨wal, crashed, rfl⟩
      · obtain ⟨placed, seen⟩ := Process.step_from running offered (known.brings arrives) ran
        exact known.update placed seen
      · have lost := Process.step_effect_from running offered (known.brings arrives) crashed
        exact known.update (Process.step_crash_ensures crashed lost) fun _ none => (by cases none)
  | crash v =>
      obtain ⟨process, up, rfl⟩ := step_crash stepped
      have running := known.host v
      rw [up] at running
      exact known.update running.node.storage fun _ none => (by cases none)
  | restart v keep =>
      obtain ⟨wal, reopened, process, down, opened, booted, rfl⟩ := step_restart stepped
      have stored := known.host v
      rw [down] at stored
      exact known.update (boot_from (WALStorage.From.reopen stored opened) booted) fun _ none => (by cases none)

theorem reaches_from (reached : Reaches cluster.step (World.Offers origin) cluster.initial world) :
    world.From origin :=
  reached.invariant (World.From origin) cluster.initial_from
    fun _ _ _ known offers stepped => step_from known offers stepped

/-- No entry comes out of nothing: whatever happens, an entry that a node holds or applies has been
proposed on a leader of the entry's term, at its index, unless it is a boundary that was sent as an entry. -/
theorem entries_were_proposed (cluster : Cluster) {proposed : LogEntry → Prop} {world : World}
    (reached : Reaches cluster.step (World.Offers ⟨proposed, fun _ => True⟩) cluster.initial world) :
    (∀ v entry, (v, .applied entry) ∈ world.trace → proposed entry) ∧
      ∀ v process, world.host v = .up process → ∀ entry ∈ process.node.log.entries, proposed entry := by
  have known := reaches_from reached
  refine ⟨fun v entry applied => known.trace _ applied, fun v process up => ?_⟩
  have running := known.host v
  rw [up] at running
  exact running.node.log

/-- `A` of three proposes a command and applies it. -/
theorem command_was_proposed : ∃ world : World, ("A", .applied ⟨1, 1, [7]⟩) ∈ world.trace ∧
    ∀ v entry, (v, .applied entry) ∈ world.trace → entry = ⟨1, 1, [7]⟩ := by
  have run : ∃ world, Reaches trio.step (World.Offers ⟨(· = ⟨1, 1, [7]⟩), fun _ => True⟩) trio.initial world ∧
      ("A", .applied ⟨1, 1, [7]⟩) ∈ world.trace :=
    Reaches.of_leadsTo (fun world action => decide (world.Offers ⟨(· = ⟨1, 1, [7]⟩), fun _ => True⟩ action))
      (fun _ _ => of_decide_eq_true)
      (commitOne ++ ([.act "A" (.pickCommitted .none .none), .act "A" .sendApplied] : List Action))
      (by decide +kernel)
  obtain ⟨world, reached, applied⟩ := run
  exact ⟨world, applied, (entries_were_proposed trio reached).1⟩

end Cluster

end Raftiq
