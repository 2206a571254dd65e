import Raftiq.CommitSafety
import Raftiq.Raft.Reign

namespace Raftiq

open Consensus

/-- The runs without snapshots in which reads may send probes. -/
def Regime.reading : Regime where
  compacts := false
  commits := false

/-- No read takes its higher-term step-down branch. -/
def Process.ReadsOn (process : Process) : Event → Prop
  | .receiveProbeResult read _ (.answered reply) _ =>
      ∀ pending ∈ process.reads read, ¬ pending.term < reply.term
  | _ => True

instance (process : Process) : DecidablePred process.ReadsOn
  | .receiveProbeResult read _ (.answered reply) _ =>
      inferInstanceAs (Decidable (∀ pending ∈ process.reads read, ¬ pending.term < reply.term))
  | .receiveProbeResult _ _ .failed _ | .startElection _ | .requestVotes | .receiveRequestVote _ _ _
  | .receiveVoteReply _ _ _ | .tryBecomeLeader | .propose _ _ | .replicateTo _
  | .receiveAppendEntries _ _ _ _ | .receiveAppendReply _ _ _ _ | .pickCommitted _ _ | .sendApplied
  | .markApplied | .createSnapshot _ _ _ _ | .sendInstallSnapshot _ | .receiveInstallSnapshot _ _ _
  | .restoreSnapshot _ _ | .finishInstall _ _ | .receiveInstallReply _ _ _ _ | .beginRead _
  | .probeRead _ _ | .cancelRead _ => .isTrue trivial

def Host.ReadsOn (event : Event) : Host → Prop
  | .up process => process.ReadsOn event
  | .down _ => True

instance (event : Event) : DecidablePred (Host.ReadsOn event)
  | .up process => inferInstanceAs (Decidable (process.ReadsOn event))
  | .down _ => .isTrue trivial

namespace World

def ReadsOn (world : World) : Action → Prop
  | .act v event => (world.host v).ReadsOn event
  | .crash _ | .restart _ _ => True

instance (world : World) : DecidablePred world.ReadsOn
  | .act v event => inferInstanceAs (Decidable ((world.host v).ReadsOn event))
  | .crash _ | .restart _ _ => .isTrue trivial

theorem allows_of_readsOn {world : World} {action : Action} (uncompacted : action.uncompacted)
    (synced : world.RestartsSynced action) (readsOn : world.ReadsOn action) : world.Allows .reading action := by
  cases action with
  | crash v => trivial
  | restart v keep => exact ⟨synced, fun compacts => absurd compacts (by decide)⟩
  | act v event =>
      simp only [Action.uncompacted, Action.regular, Bool.and_eq_true, decide_eq_true_eq,
        Bool.not_eq_true'] at uncompacted
      obtain ⟨⟨works, command⟩, whole⟩ := uncompacted
      refine ⟨works, ?_⟩
      change (world.host v).ReadsOn event at readsOn
      cases hosted : world.host v with
      | down wal => trivial
      | up process =>
          rw [hosted] at readsOn
          cases event with
          | propose data fault => exact Bool.eq_false_iff.mp command
          | replicateTo peerID =>
              intro compacts
              cases compacts
          | receiveAppendEntries args purpose termFault logFault =>
              cases purpose with
              | replication => trivial
              | probe read =>
                  intro commits
                  cases commits
          | createSnapshot index data saveFault compactFault => simp [Event.snapshots] at whole
          | receiveProbeResult read peerID result fault =>
              cases result with
              | failed => trivial
              | answered reply => exact fun pending waits ahead => absurd ahead (readsOn pending waits)
          | _ => trivial

/-- Something happened before the read began. -/
def Before (world : World) (read : ℕ) (entry : NodeID × Observation) : Prop :=
  ∃ pre reader post, world.trace = pre ++ (reader, .readBegan read) :: post ∧ entry ∈ pre

def Began (world : World) (read : ℕ) : Prop :=
  ∃ reader, (reader, .readBegan read) ∈ world.trace

/-- A leader of term `t` had raised its commit index to `c` before the read began. -/
def CommittedBefore (world : World) (read t c : ℕ) : Prop :=
  ∃ w log, world.Before read (w, .committed t c log)

variable {world : World} {v : NodeID} {host : Host} {observations : List Observation} {read : ℕ}
  {entry : NodeID × Observation}

theorem Before.mem (before : world.Before read entry) : entry ∈ world.trace := by
  obtain ⟨pre, reader, post, split, member⟩ := before
  rw [split]
  exact List.mem_append_left _ member

theorem Before.began (before : world.Before read entry) : world.Began read := by
  obtain ⟨pre, reader, post, split, _⟩ := before
  exact ⟨reader, by simp [split]⟩

/-- What a step adds to the trace lies before no read that has begun. -/
theorem before_update (before : (world.update v host observations).Before read entry) :
    world.Before read entry ∨ .readBegan read ∈ observations ∧
      (entry ∈ world.trace ∨ entry.1 = v ∧ entry.2 ∈ observations) := by
  have member := mem_update_trace.mp before.mem
  obtain ⟨pre, reader, post, split, inside⟩ := before
  rcases List.append_eq_append_iff.mp split with ⟨added, rfl, late⟩ | ⟨rest, same, early⟩
  · have now : (reader, .readBegan read) ∈ observations.map (v, ·) := by simp [late]
    obtain ⟨observation, observed, equal⟩ := List.mem_map.mp now
    cases equal
    exact Or.inr ⟨observed, member⟩
  · cases rest with
    | nil =>
        have now : (reader, .readBegan read) ∈ observations.map (v, ·) := by
          rw [List.nil_append] at early
          simp [← early]
        obtain ⟨observation, observed, equal⟩ := List.mem_map.mp now
        cases equal
        exact Or.inr ⟨observed, member⟩
    | cons first rest =>
        cases early
        exact Or.inl ⟨pre, reader, rest, same, inside⟩

theorem Began.update (began : world.Began read) (v : NodeID) (host : Host) (observations : List Observation) :
    (world.update v host observations).Began read := by
  obtain ⟨reader, member⟩ := began
  exact ⟨reader, mem_update_trace.mpr (Or.inl member)⟩

theorem CommittedBefore.of_update {t c : ℕ}
    (before : (world.update v host observations).CommittedBefore read t c)
    (earlier : .readBegan read ∉ observations) : world.CommittedBefore read t c := by
  obtain ⟨w, log, before⟩ := before
  rcases before_update before with old | ⟨now, _⟩
  · exact ⟨w, log, old⟩
  · exact absurd now earlier

end World

theorem Process.step_beginRead {process next : Process} {observations : List Observation} {read : ℕ}
    (stepped : process.step (.beginRead read) = some (.running next observations)) :
    .readBegan read ∈ observations := by
  simp only [step] at stepped
  split at stepped
  · cases stepped
  · cases stepped
    exact List.mem_cons_self

namespace RaftNode

variable {node after : RaftNode} {read pending : PendingRead} {peerID : NodeID} {result : ProbeResult}
  {fault : Fault}

/-- Only an answer of the read's own term counts. -/
theorem handleReadResult_waiting
    (handled : node.handleReadResult read peerID result fault = .done after (.waiting pending)) :
    after = node ∧ pending.term = read.term ∧ pending.commitIndex = read.commitIndex ∧
      pending.membership = read.membership ∧
      ∀ acker ∈ pending.acks, acker ∈ read.acks ∨
        acker = peerID ∧ ∃ reply, result = .answered reply ∧ reply.term = read.term := by
  unfold handleReadResult at handled
  cases result with
  | failed =>
      obtain ⟨rfl, waits⟩ := Outcome.done.inj handled
      rw [nextRound_waiting waits]
      exact ⟨rfl, rfl, rfl, rfl, fun _ => Or.inl⟩
  | answered reply =>
      dsimp only at handled
      split at handled
      · cases entered : node.becomeFollowerLocked reply.term fault with
        | crashed wal => simp [entered] at handled
        | done middle durable => simp [entered] at handled
      · split at handled
        · obtain ⟨rfl, waits⟩ := Outcome.done.inj handled
          rw [nextRound_waiting waits]
          exact ⟨rfl, rfl, rfl, rfl, fun _ => Or.inl⟩
        · rename_i counts
          split at handled
          · obtain ⟨rfl, waits⟩ := Outcome.done.inj handled
            rw [nextRound_waiting waits]
            refine ⟨rfl, rfl, rfl, rfl, fun acker member => ?_⟩
            rcases List.mem_cons.mp member with same | earlier
            · exact Or.inr ⟨same, reply, rfl, by simpa using (not_or.mp counts).1⟩
            · exact Or.inl earlier
          · unfold confirmRead at handled
            split at handled
            · simp at handled
            · simp at handled

end RaftNode

/-- A read waits at an index that covers everything committed up to its term, and nobody
who has answered it helped to elect a later leader that had committed before. -/
structure PendingRead.Fresh (cluster : Cluster) (h : History) (world : World) (v : NodeID) (read : ℕ)
    (node : RaftNode) (pending : PendingRead) : Prop where
  began : world.Began read
  leader : h.leader pending.term = some v
  membership : pending.membership = cluster.view v
  covers : ∀ t c, world.CommittedBefore read t c → t ≤ pending.term → c ≤ pending.commitIndex
  acks : ∀ peerID ∈ pending.acks, ∀ t c, world.CommittedBefore read t c → peerID ∈ h.electors t →
    t ≤ pending.term
  kept : node.role = .leader → node.persistent.currentTerm = pending.term →
    pending.commitIndex ≤ node.commitIndex

structure Process.Fresh (cluster : Cluster) (h : History) (world : World) (v : NodeID) (process : Process) :
    Prop where
  commits : process.node.role = .leader → ∀ w c log,
    (w, .committed process.node.persistent.currentTerm c log) ∈ world.trace → c ≤ process.node.commitIndex
  reads : ∀ read pending, process.reads read = some pending →
    pending.Fresh cluster h world v read process.node

/-- Reads, and what was ever sent or returned for them. -/
structure World.Fresh (cluster : Cluster) (h : History) (world : World) : Prop where
  probed : ∀ v read peerID args, (v, .sent (.probe read peerID args)) ∈ world.trace → world.Began read
  answered : ∀ v read peerID reply, (v, .sent (.probeReply read peerID reply)) ∈ world.trace →
    world.Began read ∧ ∀ t c, world.CommittedBefore read t c → peerID ∈ h.electors t → t ≤ reply.term
  returned : ∀ v read index, (v, .readReturned read (.ok index)) ∈ world.trace →
    world.Began read ∧ ∀ t c, world.CommittedBefore read t c → c ≤ index
  host : ∀ v process, world.host v = .up process → process.Fresh cluster h world v

namespace Cluster

variable {cluster : Cluster} {h later : History} {world : World} {v : NodeID}

theorem committedBefore_leader (tracks : world.Tracks cluster .reading h) {read t c : ℕ}
    (before : world.CommittedBefore read t c) : (h.leader t).isSome := by
  obtain ⟨w, log, before⟩ := before
  simp [(tracks.trace _ before.mem).1]

/-- Who has elected a leader has reached its term. -/
theorem elector_reached (valid : cluster.Valid h) {t : ℕ} (leads : (h.leader t).isSome)
    (elector : v ∈ h.electors t) : t ≤ h.term v := by
  obtain ⟨c, leader⟩ := Option.isSome_iff_exists.mp leads
  exact valid.sound.voted_bounded v t c (valid.sound.electors_voted t c leader v elector)

/-- A leader that has committed in its own term has committed all that earlier leaders had. -/
theorem committed_covered (tracks : world.Tracks cluster .reading h) {node : RaftNode}
    (running : node.Tracks cluster .reading h v) (leads : node.role = .leader)
    (current : node.hasCommittedInCurrentTerm) {w : NodeID} {t c : ℕ} {log : Log}
    (committed : (w, .committed t c log) ∈ world.trace) (earlier : t < node.persistent.currentTerm) :
    c ≤ node.commitIndex := by
  by_contra beyond
  obtain ⟨_, full, _, inside, _, j, below, secured⟩ := tracks.trace _ committed
  have leading := (running.leads leads).leads
  rw [running.term] at earlier
  have carries := tracks.valid.sound.later_leader_carries cluster.quorum_intersects secured earlier
    (by simp [tracks.valid.sound.leads_leader v leading])
  rw [Ledger.Carries, ← tracks.valid.sound.leads_log v leading] at carries
  simp only [RaftNode.hasCommittedInCurrentTerm, decide_eq_true_eq, Option.any_eq_true] at current
  obtain ⟨positive, entry, found, own⟩ := current
  have zero : node.log.lastIncludedIndex = 0 := running.shows.2.resolve_left fun compacts => nomatch compacts
  rw [running.log.get_above (by omega)] at found
  -- the entry at the commit index lies in what the earlier leader has committed
  have short : node.commitIndex - 1 < ((h.led t).take j).length := by
    rw [List.length_take, Nat.min_eq_left secured.1.length_le]
    omega
  have taken : ((h.led t).take j)[node.commitIndex - 1]? = some entry := by
    obtain ⟨back, split⟩ := carries
    rw [← split, List.getElem?_append_left short] at found
    exact found
  have old := tracks.valid.sound.led_bounded t entry (List.mem_of_mem_take (List.mem_of_getElem? taken))
  rw [stamp_eq_term, own, running.term] at old
  omega

theorem commits_covered (tracks : world.Tracks cluster .reading h) {process : Process}
    (running : process.node.Tracks cluster .reading h v) (fresh : process.Fresh cluster h world v)
    (leads : process.node.role = .leader) (current : process.node.hasCommittedInCurrentTerm)
    {w : NodeID} {t c : ℕ} {log : Log} (committed : (w, .committed t c log) ∈ world.trace)
    (reached : t ≤ process.node.persistent.currentTerm) : c ≤ process.node.commitIndex := by
  rcases Nat.lt_or_eq_of_le reached with earlier | rfl
  · exact committed_covered tracks running leads current committed earlier
  · exact fresh.commits leads w c log committed

theorem quorum_of_view {votes : List NodeID} (enough : membershipHasQuorum (cluster.view v) votes) :
    cluster.Quorum { w | w ∈ votes } := by
  rw [(cluster.view_same v).hasQuorum_eq] at enough
  exact ⟨votes, enough, fun _ member => member⟩

/-- A quorum that elected no later leader leaves no later commit. -/
theorem covered_of_quorum (tracks : world.Tracks cluster .reading h) {votes : List NodeID} {read term : ℕ}
    (enough : membershipHasQuorum (cluster.view v) votes)
    (acks : ∀ peerID ∈ votes, ∀ t c, world.CommittedBefore read t c → peerID ∈ h.electors t → t ≤ term)
    {t c : ℕ} (before : world.CommittedBefore read t c) : t ≤ term := by
  have elected := tracks.valid.sound.electors_quorum t (committedBefore_leader tracks before)
  obtain ⟨w, elector, ack⟩ := cluster.quorum_intersects _ _ elected (quorum_of_view enough)
  exact acks w ack t c before elector

section Update

variable {host : Host} {observations : List Observation}

theorem fresh_pending {w : NodeID} {read : ℕ} {node after : RaftNode} {pending : PendingRead}
    (tracks : world.Tracks cluster .reading h) (keeps : h.Extends later)
    (unbegun : ∀ read, world.Began read → .readBegan read ∉ observations)
    (fresh : pending.Fresh cluster h world w read node)
    (kept : after.role = .leader → after.persistent.currentTerm = pending.term →
      pending.commitIndex ≤ after.commitIndex) :
    pending.Fresh cluster later (world.update v host observations) w read after where
  began := fresh.began.update v host observations
  leader := keeps.leader _ _ fresh.leader
  membership := fresh.membership
  covers t c before := fresh.covers t c (before.of_update (unbegun read fresh.began))
  acks peerID ack t c before elector := by
    have earlier := before.of_update (unbegun read fresh.began)
    rw [keeps.electors t (committedBefore_leader tracks earlier)] at elector
    exact fresh.acks peerID ack t c earlier elector
  kept := kept

/-- What a step adds to the trace has to be accounted for, and the new state of one host. -/
theorem fresh_update (fresh : world.Fresh cluster h) (tracks : world.Tracks cluster .reading h)
    (keeps : h.Extends later) (tracksAfter : (world.update v host observations).Tracks cluster .reading later)
    (unbegun : ∀ read, world.Began read → .readBegan read ∉ observations)
    (probed : ∀ read peerID args, .sent (.probe read peerID args) ∈ observations → world.Began read)
    (answered : ∀ read peerID reply, .sent (.probeReply read peerID reply) ∈ observations →
      world.Began read ∧ ∀ t, (later.leader t).isSome → peerID ∈ later.electors t → t ≤ reply.term)
    (returned : ∀ read index, .readReturned read (.ok index) ∈ observations →
      (world.update v host observations).Began read ∧
        ∀ t c, (world.update v host observations).CommittedBefore read t c → c ≤ index)
    (hosted : ∀ process, host = .up process →
      process.Fresh cluster later (world.update v host observations) v) :
    (world.update v host observations).Fresh cluster later where
  probed w read peerID args sent := by
    rcases World.mem_update_trace.mp sent with earlier | ⟨_, now⟩
    · exact (fresh.probed w read peerID args earlier).update v host observations
    · exact (probed read peerID args now).update v host observations
  answered w read peerID reply sent := by
    rcases World.mem_update_trace.mp sent with earlier | ⟨_, now⟩
    · obtain ⟨began, bounded⟩ := fresh.answered w read peerID reply earlier
      refine ⟨began.update v host observations, fun t c before elector => ?_⟩
      have committed := before.of_update (unbegun read began)
      rw [keeps.electors t (committedBefore_leader tracks committed)] at elector
      exact bounded t c committed elector
    · obtain ⟨began, bounded⟩ := answered read peerID reply now
      exact ⟨began.update v host observations,
        fun t c before => bounded t (committedBefore_leader tracksAfter before)⟩
  returned w read index done := by
    rcases World.mem_update_trace.mp done with earlier | ⟨_, now⟩
    · obtain ⟨began, covers⟩ := fresh.returned w read index earlier
      exact ⟨began.update v host observations,
        fun t c before => covers t c (before.of_update (unbegun read began))⟩
    · exact returned read index now
  host w process up := by
    by_cases same : w = v
    · subst same
      exact hosted process ((Function.update_self _ _ _).symm.trans up)
    · have unchanged : world.host w = .up process := (Function.update_of_ne same _ _).symm.trans up
      have running := tracksAfter.host w
      rw [up] at running
      have before := fresh.host w process unchanged
      refine ⟨fun leads x c log committed => ?_, fun read pending waits => ?_⟩
      · rcases World.mem_update_trace.mp committed with earlier | ⟨origin, now⟩
        · exact before.commits leads x c log earlier
        · -- a term has one leader
          have leading := (running.node.leads leads).leads
          have other := (tracksAfter.trace _ committed).1
          rw [running.node.term, tracksAfter.valid.sound.leads_leader w leading] at other
          exact absurd ((Option.some.inj other).trans origin) same
      · have waiting := before.reads read pending waits
        exact fresh_pending tracks keeps unbegun waiting waiting.kept

end Update

section Act

variable {process next : Process} {event : Event} {observations : List Observation}

/-- What was committed when a read begins, the reader has committed. -/
theorem begin_covers (tracks : world.Tracks cluster .reading h)
    (running : process.Tracks cluster .reading h v) (fresh : process.Fresh cluster h world v)
    (ran : process.step event = some (.running next observations)) (same : next.node = process.node)
    (leads : process.node.role = .leader) (current : process.node.hasCommittedInCurrentTerm)
    {read t c : ℕ} (before : (world.update v (.up next) observations).CommittedBefore read t c)
    (reached : t ≤ process.node.persistent.currentTerm) : c ≤ process.node.commitIndex := by
  obtain ⟨w, log, before⟩ := before
  rcases World.mem_update_trace.mp before.mem with earlier | ⟨_, now⟩
  · exact commits_covered tracks running.node fresh leads current earlier reached
  · obtain ⟨_, _, rfl, _⟩ := Process.step_shows ran _ now
    exact (congrArg _ same).le

variable (tracks : world.Tracks cluster .reading h) (fresh : world.Fresh cluster h) (keeps : h.Extends later)
  (up : world.host v = .up process) (arrives : world.Arrives v event)
  (ran : process.step event = some (.running next observations))
  (tracksAfter : (world.update v (.up next) observations).Tracks cluster .reading later)

include tracks fresh keeps up arrives ran tracksAfter

theorem act_fresh_pending {read : ℕ} {pending : PendingRead} (waits : next.reads read = some pending)
    (unbegun : ∀ read, world.Began read → .readBegan read ∉ observations) :
    pending.Fresh cluster later (world.update v (.up next) observations) v read next.node := by
  have onward := tracksAfter.host v
  rw [World.update_host_self] at onward
  have running := tracks.host v
  rw [up] at running
  have before := fresh.host v process up
  have kept : ∀ earlier : PendingRead, earlier.Fresh cluster h world v read process.node →
      next.node.role = .leader → next.node.persistent.currentTerm = earlier.term →
      earlier.commitIndex ≤ next.node.commitIndex := by
    intro earlier waited leads term
    obtain ⟨active, sameTerm, commit⟩ := Process.step_leader ran leads
    cases role : process.node.role with
    | follower => exact absurd role active
    | leader => exact (waited.kept role (sameTerm.symm.trans term)).trans commit
    | candidate =>
        -- whoever stands in a term has not led it
        refine absurd ?_ (running.node.stands role).vacant
        rw [← running.node.term, ← sameTerm, term]
        exact waited.leader
  rcases Process.step_waiting ran waits with waited | ⟨rfl, same, begins⟩ |
    ⟨earlier, peerID, result, fault, rfl, waited, handled⟩
  · have waiting := before.reads read pending waited
    exact fresh_pending tracks keeps unbegun waiting (kept pending waiting)
  · rcases process.node.beginReadIndex_cases with ⟨error, failed⟩ | ⟨leads, current, ⟨done, _⟩ | started⟩
    · simp [failed] at begins
    · simp [done] at begins
    · rw [started] at begins
      cases begins
      refine
        { began := ⟨v, World.mem_update_trace.mpr (Or.inr ⟨rfl, Process.step_beginRead ran⟩)⟩
          leader := ?_
          membership := running.node.membership
          covers := fun _ _ => begin_covers tracks running before ran same leads current
          acks := ?_
          kept := fun _ _ => by rw [same] }
      · rw [running.node.term]
        exact keeps.leader _ _ (tracks.valid.sound.leads_leader v (running.node.leads leads).leads)
      · intro peerID own t c before elector
        rw [List.mem_singleton.mp own, running.node.id] at elector
        rw [← same, onward.node.term]
        exact elector_reached tracksAfter.valid (committedBefore_leader tracksAfter before) elector
  · have waiting := before.reads read earlier waited
    obtain ⟨same, term, commit, membership, acks⟩ := RaftNode.handleReadResult_waiting handled
    have moved : earlier.Fresh cluster later (world.update v (.up next) observations) v read next.node :=
      fresh_pending tracks keeps unbegun waiting (kept earlier waiting)
    refine
      { began := moved.began
        leader := term ▸ moved.leader
        membership := membership.trans moved.membership
        covers := by rw [term, commit]; exact moved.covers
        acks := ?_
        kept := by rw [term, commit]; exact moved.kept }
    rw [term]
    intro acker member t c committed elector
    rcases acks acker member with known | ⟨rfl, reply, rfl, current⟩
    · exact moved.acks acker known t c committed elector
    · obtain ⟨entry, sent, message⟩ := arrives
      have answer : (entry.1, .sent (.probeReply read acker reply)) ∈ world.trace := by
        rw [← message]
        exact sent
      obtain ⟨began, bounded⟩ := fresh.answered _ _ _ _ answer
      have earlierCommit := committed.of_update (unbegun read began)
      rw [keeps.electors t (committedBefore_leader tracks earlierCommit)] at elector
      exact current ▸ bounded t c earlierCommit elector

omit keeps in
theorem act_fresh_returned {read index : ℕ} (returned : .readReturned read (.ok index) ∈ observations)
    (unbegun : ∀ read, world.Began read → .readBegan read ∉ observations) :
    (world.update v (.up next) observations).Began read ∧
      ∀ t c, (world.update v (.up next) observations).CommittedBefore read t c → c ≤ index := by
  have onward := tracksAfter.host v
  rw [World.update_host_self] at onward
  have running := tracks.host v
  rw [up] at running
  have before := fresh.host v process up
  rcases Process.step_shows ran _ returned with ⟨rfl, same, begins⟩ |
    ⟨earlier, peerID, result, fault, rfl, waited, handled⟩
  · rcases process.node.beginReadIndex_cases with ⟨error, failed⟩ | ⟨leads, current, ⟨done, alone⟩ | started⟩
    · simp [failed] at begins
    · rw [done] at begins
      cases begins
      refine ⟨⟨v, World.mem_update_trace.mpr (Or.inr ⟨rfl, Process.step_beginRead ran⟩)⟩, ?_⟩
      intro t c committed
      rw [running.node.membership, running.node.id] at alone
      refine begin_covers tracks running before ran same leads current committed ?_
      refine covered_of_quorum tracksAfter alone (fun w own t c known elector => ?_) committed
      rw [List.mem_singleton.mp own] at elector
      rw [← same, onward.node.term]
      exact elector_reached tracksAfter.valid (committedBefore_leader tracksAfter known) elector
    · simp [started] at begins
  · have waiting := before.reads read earlier waited
    obtain ⟨leads, term, rfl, enough, reply, rfl, current⟩ := RaftNode.handleReadResult_ok handled
    refine ⟨waiting.began.update v _ _, fun t c committed => ?_⟩
    have known := committed.of_update (unbegun read waiting.began)
    rw [waiting.membership] at enough
    have reached : t ≤ earlier.term := by
      refine covered_of_quorum tracks enough (fun acker ack t c known elector => ?_) known
      rcases List.mem_cons.mp ack with rfl | counted
      · obtain ⟨entry, sent, message⟩ := arrives
        have answer : (entry.1, .sent (.probeReply read acker reply)) ∈ world.trace := by
          rw [← message]
          exact sent
        exact current ▸ (fresh.answered _ _ _ _ answer).2 t c known elector
      · exact waiting.acks acker counted t c known elector
    exact le_min ((waiting.covers t c known reached).trans (waiting.kept leads term))
      (waiting.covers t c known reached)

theorem act_fresh : (world.update v (.up next) observations).Fresh cluster later := by
  have onward := tracksAfter.host v
  rw [World.update_host_self] at onward
  have running := tracks.host v
  rw [up] at running
  have before := fresh.host v process up
  have shows := Process.step_shows ran
  have unbegun : ∀ read, world.Began read → .readBegan read ∉ observations := by
    rintro read ⟨reader, began⟩ now
    cases shows _ now
    exact arrives _ began rfl
  apply fresh_update fresh tracks keeps tracksAfter unbegun
  · intro read peerID args sent
    obtain ⟨_, ⟨pending, waits, _⟩, _⟩ := shows _ sent
    exact (before.reads read pending waits).began
  · intro read peerID reply sent
    obtain ⟨rfl, args, termFault, logFault, rfl, handled⟩ := shows _ sent
    have term := process.node.appendEntries_term args termFault logFault
    rw [handled] at term
    obtain ⟨entry, probed, message⟩ := arrives
    have probe : (entry.1, .sent (.probe read v args)) ∈ world.trace := by
      rw [← message]
      exact probed
    refine ⟨fresh.probed _ _ _ _ probe, fun t leads elector => ?_⟩
    rw [onward.node.id] at elector
    rw [show reply.term = _ from term, onward.node.term]
    exact elector_reached tracksAfter.valid leads elector
  · exact fun read index returned =>
      act_fresh_returned tracks fresh up arrives ran tracksAfter returned unbegun
  · intro other same
    cases same
    refine ⟨fun leads w c log committed => ?_, fun read pending waits =>
      act_fresh_pending tracks fresh keeps up arrives ran tracksAfter waits unbegun⟩
    rcases World.mem_update_trace.mp committed with earlier | ⟨_, now⟩
    · obtain ⟨active, sameTerm, commit⟩ := Process.step_leader ran leads
      rw [sameTerm] at earlier
      cases role : process.node.role with
      | follower => exact absurd role active
      | leader => exact (before.commits role w c log earlier).trans commit
      | candidate =>
          have leader := (tracks.trace _ earlier).1
          have own := (tracksAfter.trace _ committed).1
          rw [onward.node.term, tracksAfter.valid.sound.leads_leader v (onward.node.leads leads).leads] at own
          rw [running.node.term, ← Option.some.inj own] at leader
          exact absurd leader (running.node.stands role).vacant
    · obtain ⟨_, _, rfl, _⟩ := shows _ now
      exact le_rfl

end Act

theorem step_fresh {action : Action} {after : World} (tracks : world.Tracks cluster .reading h)
    (fresh : world.Fresh cluster h) (allowed : world.Allows .reading action)
    (stepped : cluster.step world action = some after) :
    ∃ later : History, after.Tracks cluster .reading later ∧ after.Fresh cluster later := by
  obtain ⟨later, keeps, tracksAfter⟩ := step_tracks tracks allowed stepped
  refine ⟨later, tracksAfter, ?_⟩
  have quiet : ∀ w host, after = world.update w host [] →
      (∀ process, host = .up process → process.node.role = .follower ∧ process.reads = fun _ => none) →
      after.Fresh cluster later := by
    rintro w host rfl idle
    refine fresh_update fresh tracks keeps tracksAfter (by simp) (by simp) (by simp) (by simp) ?_
    intro process up
    obtain ⟨follower, none⟩ := idle process up
    refine ⟨fun leads => ?_, fun read pending waits => ?_⟩
    · simp [follower] at leads
    · simp [none] at waits
  cases action with
  | act v event =>
      obtain ⟨process, up, arrives, ⟨next, observations, ran, rfl⟩ | ⟨wal, _, same⟩⟩ := step_act stepped
      · exact act_fresh tracks fresh keeps up arrives ran tracksAfter
      · exact quiet v (.down wal) same (by simp)
  | crash v =>
      obtain ⟨process, _, same⟩ := step_crash stepped
      exact quiet v _ same (by simp)
  | restart v keep =>
      obtain ⟨_, _, process, _, _, booted, same⟩ := step_restart stepped
      obtain ⟨log, _, rfl⟩ := boot_ok booted
      refine quiet v _ same ?_
      intro process up
      cases up
      exact ⟨rfl, rfl⟩

theorem initial_fresh (cluster : Cluster) : cluster.initial.Fresh cluster Ledger.empty where
  probed v read peerID args sent := by simp [initial] at sent
  answered v read peerID reply sent := by simp [initial] at sent
  returned v read index returned := by simp [initial] at returned
  host v process up := by
    have booted : cluster.boot v (cluster.bootstrapped v) = .ok process := by
      cases up
      rfl
    obtain ⟨log, _, rfl⟩ := boot_ok booted
    exact ⟨fun leads => (by cases leads), fun read pending waits => (by cases waits)⟩

/-- Read freshness: a read returns at least every index to which a leader had raised its
commit index before the read began. -/
theorem read_freshness (cluster : Cluster) {world : World}
    (reached : Reaches cluster.step
      (fun world action => action.uncompacted ∧ world.RestartsSynced action ∧ world.ReadsOn action)
      cluster.initial world)
    {pre post : List (NodeID × Observation)} {reader v w : NodeID} {read t c index : ℕ} {log : Log}
    (began : world.trace = pre ++ (reader, .readBegan read) :: post)
    (raised : (w, .committed t c log) ∈ pre)
    (returned : (v, .readReturned read (.ok index)) ∈ world.trace) : c ≤ index := by
  have fresh : ∃ h : History, world.Tracks cluster .reading h ∧ world.Fresh cluster h := by
    refine reached.invariant (fun world => ∃ h : History, world.Tracks cluster .reading h ∧
      world.Fresh cluster h) ⟨_, cluster.initial_tracks .reading, cluster.initial_fresh⟩ ?_
    rintro before action after ⟨h, tracks, fresh⟩ ⟨uncompacted, synced, readsOn⟩ stepped
    exact step_fresh tracks fresh (World.allows_of_readsOn uncompacted synced readsOn) stepped
  obtain ⟨h, _, fresh⟩ := fresh
  exact (fresh.returned v read index returned).2 t c ⟨w, log, pre, reader, post, began, raised⟩

/-- `A` commits a command, then reads with the help of `B`. -/
theorem read_freshness_trio : ∃ (world : World) (pre post : List (NodeID × Observation)) (log : Log)
    (c index : ℕ), world.trace = pre ++ ("A", .readBegan 0) :: post ∧ ("A", .committed 1 c log) ∈ pre ∧
      ("A", .readReturned 0 (.ok index)) ∈ world.trace ∧ c ≤ index := by
  have run : ∃ world, Reaches trio.step
      (fun world action => action.uncompacted ∧ world.RestartsSynced action ∧ world.ReadsOn action)
      trio.initial world ∧
        (("A", .committed 1 1 (.single ⟨1, 1, [7]⟩ rfl)) ∈
            world.trace.takeWhile (fun entry => entry.2 ≠ .readBegan 0) ∧
          (world.trace.dropWhile fun entry => entry.2 ≠ .readBegan 0).head? = some ("A", .readBegan 0) ∧
          ("A", .readReturned 0 (.ok 1)) ∈ world.trace) :=
    Reaches.of_leadsTo
      (fun world action => decide (action.uncompacted ∧ world.RestartsSynced action ∧ world.ReadsOn action))
      (fun _ _ => of_decide_eq_true)
      (commitOne ++ ([.act "A" (.beginRead 0), .act "A" (.probeRead 0 "B"),
        .act "B" (.receiveAppendEntries ⟨1, "A", 1, 1, [], 1⟩ (.probe 0) .none .none),
        .act "A" (.receiveProbeResult 0 "B" (.answered ⟨1, "B", true⟩) .none)] : List Action))
      (by decide +kernel)
  obtain ⟨world, reached, raised, first, returned⟩ := run
  obtain ⟨post, rest⟩ := List.head?_eq_some_iff.mp first
  have began := (List.takeWhile_append_dropWhile (p := fun entry : NodeID × Observation =>
    decide (entry.2 ≠ .readBegan 0)) (l := world.trace)).symm
  rw [rest] at began
  exact ⟨world, _, post, _, 1, 1, began, raised, returned, read_freshness trio reached began raised returned⟩

end Cluster

end Raftiq
