import Raftiq.Refinement.History
import Raftiq.Storage.Survivors

namespace Raftiq

open Consensus

/-- What the runs at hand may do: whether snapshots are taken, and whether commit indexes
have to be trusted on followers. -/
structure Regime where
  compacts : Bool
  commits : Bool

def voteOf (votedFor : NodeID) : Option NodeID :=
  if votedFor = "" then none else some votedFor

section Soundness

variable (cluster : Cluster) (h : History)

/-- An index that a leader of a term up to the bound has committed. -/
def CommitSound (bound index : ℕ) : Prop :=
  index = 0 ∨ ∃ t i, h.Committed cluster.Quorum t i ∧ t ≤ bound ∧ index ≤ i

/-- A snapshot that ends where a committed prefix does. -/
def SnapshotSound (bound index term : ℕ) : Prop :=
  ∃ front, h.Secured cluster.Quorum bound front ∧ 0 < index ∧ front.length = index ∧
    termAt front index = term

/-- An entry that was committed by a leader. -/
def EntrySound (entry : LogEntry) : Prop :=
  ∃ t i, h.Committed cluster.Quorum t i ∧ entry ∈ (h.led t).take i

variable {cluster h} {later : History} {bound wider index term : ℕ} {entry : LogEntry}

theorem CommitSound.mono (sound : CommitSound cluster h bound index) (keeps : h.Extends later)
    (reached : bound ≤ wider) : CommitSound cluster later wider index := by
  cases sound with
  | inl zero => exact Or.inl zero
  | inr committed =>
      obtain ⟨t, i, committed, early, short⟩ := committed
      exact Or.inr ⟨t, i, keeps.committed committed, early.trans reached, short⟩

/-- The log of a leader is secured up to every index that its calls call committed. -/
theorem CommitSound.secured (sound : CommitSound cluster h bound index) (valid : cluster.Valid h)
    (leads : (h.leader bound).isSome) {front : List LogEntry} (inside : front <+: h.led bound)
    (short : front.length ≤ index) : h.Secured cluster.Quorum bound front := by
  cases sound with
  | inl zero => exact Or.inl (List.eq_nil_of_length_eq_zero (by omega))
  | inr committed =>
      obtain ⟨t, i, committed, early, reached⟩ := committed
      have carries := valid.sound.committed_carries cluster.quorum_intersects committed early leads
      have length : ((h.led t).take i).length = i := by
        rw [List.length_take, Nat.min_eq_left committed.1.length_le]
      refine Or.inr ⟨t, i, committed, early, by omega, ?_⟩
      apply (List.prefix_of_prefix_length_le inside carries (by omega)).trans
      exact List.take_prefix _ _

theorem SnapshotSound.mono (sound : SnapshotSound cluster h bound index term)
    (keeps : h.Extends later) (reached : bound ≤ wider) :
    SnapshotSound cluster later wider index term := by
  obtain ⟨front, secured, positive, length, last⟩ := sound
  exact ⟨front, secured.mono keeps reached, positive, length, last⟩

theorem EntrySound.mono (sound : EntrySound cluster h entry) (keeps : h.Extends later) :
    EntrySound cluster later entry := by
  obtain ⟨t, i, committed, member⟩ := sound
  refine ⟨t, i, keeps.committed committed, ?_⟩
  rw [keeps.take_eq committed.1.length_le]
  exact member

end Soundness

/-- What is left of the log in storage: all of it, its part above the boundary, or, once
the log has been forgotten up to the boundary, entries that block every further append. -/
inductive EntriesKept (h : History) (term : ℕ) (log : List LogEntry) (boundary : ℕ)
    (entries : List LogEntry) : Prop where
  | whole (same : entries = log)
  | tight (above : entries = log.drop boundary)
  | stuck (length : log.length = boundary) (positive : 0 < boundary)
      (blocked : ∃ last, entries.getLast? = some last ∧ 0 < last.index ∧ last.index ≠ boundary)
      (recoverable : Numbered 0 entries → entries.length < boundary ∨
        h.Rooted entries ∧ (∀ entry ∈ entries, entry.term ≤ term) ∧ log <+: entries)

/-- Storage from which a node with this term, vote and log would restart. -/
structure Stored (cluster : Cluster) (regime : Regime) (h : History) (v : NodeID) (term : ℕ)
    (vote : Option NodeID) (log : List LogEntry) (boundary : ℕ) (contents : Contents) : Prop where
  sameTerm : contents.state.currentTerm = term
  sameVote : voteOf contents.state.votedFor = vote
  membership : contents.state.membership = cluster.view v
  missing : contents.snapshot = none → boundary = 0
  snapshot : ∀ snapshot, contents.snapshot = some snapshot →
    regime.compacts ∧ boundary ≤ snapshot.lastIncludedIndex ∧
      SnapshotSound cluster h term snapshot.lastIncludedIndex snapshot.lastIncludedTerm
  entries : EntriesKept h term log boundary contents.entries

/-- A step that a crashed node may find done when it restarts. -/
inductive Promise (h : History) (v : NodeID) : ℕ → Option NodeID → List LogEntry → Prop where
  | nothing : Promise h v (h.term v) (h.voted v (h.term v)) (h.log v)
  | enter (t : ℕ) (ahead : h.term v < t) : Promise h v t none (h.log v)
  | stand : Promise h v (h.term v + 1) (some v) (h.log v)
  | vote (c : NodeID) (log : List LogEntry) (fresh : h.voted v (h.term v) = none)
      (advertised : h.Advertised c (h.term v) log) (upToDate : position (h.log v) ≤ position log) :
      Promise h v (h.term v) (some c) (h.log v)
  | propose (entry : LogEntry) (leads : h.leads v) (own : entry.term = h.term v)
      (next : entry.index = (h.log v).length + 1) (command : ¬ isConfigurationEntry entry.data) :
      Promise h v (h.term v) (h.voted v (h.term v)) (h.log v ++ [entry])
  | accept (m : ℕ) (leads : (h.leader (h.term v)).isSome) (short : m ≤ (h.led (h.term v)).length) :
      Promise h v (h.term v) (h.voted v (h.term v)) (Ledger.merge (h.log v) ((h.led (h.term v)).take m))

/-- Whatever survives a crash is the node's state or that state after a promised step. -/
def WALStorage.Tracks (cluster : Cluster) (regime : Regime) (h : History) (v : NodeID)
    (wal : WALStorage) : Prop :=
  ∀ contents, wal.Survives contents → ∃ term vote log boundary,
    Promise h v term vote log ∧ Stored cluster regime h v term vote log boundary contents

/-- A candidate has the votes it counts. -/
structure RaftNode.Stands (h : History) (v : NodeID) (node : RaftNode) : Prop where
  stands : h.stands v
  vacant : h.leader (h.term v) ≠ some v
  votes : ∀ voter ∈ node.votesReceived, h.voted voter (h.term v) = some v

/-- A leader knows what its peers have stored. -/
structure RaftNode.Leads (cluster : Cluster) (h : History) (v : NodeID) (node : RaftNode) : Prop where
  leads : h.leads v
  own : ∀ i, h.Marks (h.term v) i → h.acked v (h.term v) i
  bounded : ∀ peerID ∈ node.peerIDs, node.matchIndex peerID ≤ (h.log v).length
  matched : ∀ peerID ∈ node.peerIDs, ∀ i, i ≤ node.matchIndex peerID → h.Marks (h.term v) i →
    h.acked peerID (h.term v) i ∨ ∃ j, i ≤ j ∧ h.Committed cluster.Quorum (h.term v) j

/-- The node is where the history says that `v` is. -/
structure RaftNode.Tracks (cluster : Cluster) (regime : Regime) (h : History) (v : NodeID)
    (node : RaftNode) : Prop where
  id : node.id = v
  term : node.persistent.currentTerm = h.term v
  vote : voteOf node.persistent.votedFor = h.voted v (h.term v)
  membership : node.persistent.membership = cluster.view v
  log : node.log.Views (h.log v)
  stands : node.role = .candidate → node.Stands h v
  leads : node.role = .leader → node.Leads cluster h v
  boundary : h.Secured cluster.Quorum (h.term v) ((h.log v).take node.log.lastIncludedIndex)
  applied : node.log.lastIncludedIndex ≤ node.lastApplied
  committed : node.log.lastIncludedIndex ≤ node.commitIndex
  commit : regime.commits → node.commitIndex ≤ (h.log v).length ∧
    h.Secured cluster.Quorum (h.term v) ((h.log v).take node.commitIndex)
  synced : node.storage.synced = node.storage.file.length
  stored : Stored cluster regime h v (h.term v) (h.voted v (h.term v)) (h.log v)
    node.log.lastIncludedIndex node.storage.contents

/-- A call carries a part of the leader's log. -/
structure AppendEntriesArgs.Sound (cluster : Cluster) (regime : Regime) (h : History)
    (args : AppendEntriesArgs) : Prop where
  leader : h.leader args.term = some args.leaderID
  within : args.prevLogIndex + args.entries.length ≤ (h.led args.term).length
  entries : args.entries =
    ((h.led args.term).take (args.prevLogIndex + args.entries.length)).drop args.prevLogIndex
  previous : args.prevLogTerm = termAt (h.led args.term) args.prevLogIndex
  commit : regime.commits → CommitSound cluster h args.term args.leaderCommit

def InstallSnapshotArgs.Sound (cluster : Cluster) (regime : Regime) (h : History)
    (args : InstallSnapshotArgs) : Prop :=
  regime.compacts ∧ SnapshotSound cluster h args.term args.lastIncludedIndex args.lastIncludedTerm

def Message.Sound (cluster : Cluster) (regime : Regime) (h : History) : Message → Prop
  | .requestVote _ args => ∃ log, h.Advertised args.candidateID args.term log ∧
      position log = toLex (args.lastLogTerm, args.lastLogIndex)
  | .voteReply args reply => reply.voteGranted → h.voted reply.voterID reply.term = some args.candidateID
  | .appendEntries _ args => args.Sound cluster regime h ∧
      (regime.commits → args.leaderCommit ≤ args.prevLogIndex + args.entries.length)
  | .appendReply peerID args reply => args.Sound cluster regime h ∧
      (reply.success → ∀ i, i ≤ args.prevLogIndex + args.entries.length → h.acked peerID args.term i)
  | .probe _ _ args => args.Sound cluster regime h ∧ args.entries = []
  | .probeReply _ _ _ => True
  | .installSnapshot _ args | .installReply _ args _ => args.Sound cluster regime h

/-- A log that was noted shows a full one, and all of it where nothing is compacted. -/
def Log.Shows (regime : Regime) (log : Log) (full : List LogEntry) : Prop :=
  log.Views full ∧ (regime.compacts ∨ log.lastIncludedIndex = 0)

def Observation.Sound (cluster : Cluster) (regime : Regime) (h : History) (v : NodeID) :
    Observation → Prop
  | .sent message => message.Sound cluster regime h
  | .builtFrom args log => ∃ full, log.Shows regime full ∧ full <+: h.led args.term ∧
      args.prevLogIndex + args.entries.length ≤ full.length
  | .elected term log => h.leader term = some v ∧ ∃ full own, log.Shows regime full ∧
      h.led term = full ++ own ∧ ∀ entry ∈ own, entry.term = term
  | .committed term index log => h.leader term = some v ∧ ∃ full, log.Shows regime full ∧
      full <+: h.led term ∧ index ≤ full.length ∧ ∃ j, index ≤ j ∧ h.Committed cluster.Quorum term j
  | .applied entry => regime.commits → EntrySound cluster h entry
  | .proposed _ | .readBegan _ | .readReturned _ _ => True

/-- An install that waits was received in a term the node no longer stands in. -/
def PendingInstall.Sound (cluster : Cluster) (regime : Regime) (h : History) (v : NodeID)
    (install : PendingInstall) : Prop :=
  install.args.Sound cluster regime h ∧ install.args.term ≤ h.term v ∧
    (h.stands v → install.args.term < h.term v)

structure Process.Tracks (cluster : Cluster) (regime : Regime) (h : History) (v : NodeID)
    (process : Process) : Prop where
  node : process.node.Tracks cluster regime h v
  picked : regime.commits → ∀ index entry, process.applying = .picked index entry →
    EntrySound cluster h entry
  installs : ∀ install ∈ process.installs, install.Sound cluster regime h v
  reads : regime.commits → ∀ read pending, process.reads read = some pending →
    CommitSound cluster h pending.term pending.commitIndex

def Host.Tracks (cluster : Cluster) (regime : Regime) (h : History) (v : NodeID) : Host → Prop
  | .up process => process.Tracks cluster regime h v
  | .down wal => wal.Tracks cluster regime h v

def Result.Tracks (cluster : Cluster) (regime : Regime) (h : History) (v : NodeID) : Result → Prop
  | .running process observations => process.Tracks cluster regime h v ∧
      ∀ observation ∈ observations, observation.Sound cluster regime h v
  | .crashed wal => wal.Tracks cluster regime h v

structure World.Tracks (cluster : Cluster) (regime : Regime) (h : History) (world : World) : Prop where
  valid : cluster.Valid h
  host : ∀ v, (world.host v).Tracks cluster regime h v
  trace : ∀ entry ∈ world.trace, entry.2.Sound cluster regime h entry.1

end Raftiq
