import Raftiq.Raft.Node

namespace Raftiq

inductive ProposeError where
  | notLeader (id : NodeID)
  | persist (error : StorageError)
  | diskFull
  | appendToLog (error : LogError)
deriving DecidableEq, Repr

inductive ReconcileError where
  | storage (error : StorageError)
  | appendToLog (error : LogError)
deriving DecidableEq, Repr

namespace RaftNode

def logTerm (node : RaftNode) (index : ℕ) : ℕ :=
  match node.log.get index with
  | none => 0
  | some entry => entry.term

def replicatedOn (node : RaftNode) (index : ℕ) : List NodeID :=
  node.id :: node.peerIDs.filter (fun peerID => index ≤ node.matchIndex peerID)

/-- An index counts only if its entry is of the leader's own term. -/
def canCommit (node : RaftNode) (index : ℕ) : Bool :=
  node.logTerm index = node.persistent.currentTerm ∧
    membershipHasQuorum node.persistent.membership (node.replicatedOn index)

def advanceCommitIndexLocked (node : RaftNode) : RaftNode :=
  { node with
    commitIndex :=
      if node.role ≠ .leader then node.commitIndex
      else
        (List.range' (node.commitIndex + 1) (node.log.lastIndex - node.commitIndex)).foldl
          (fun commitIndex index => if node.canCommit index then index else commitIndex)
          node.commitIndex }

/-- The scan keeps the old commit index or ends at an index that can be committed. -/
theorem advanceCommitIndexLocked_cases (node : RaftNode) :
    node.advanceCommitIndexLocked.commitIndex = node.commitIndex ∨
      node.role = .leader ∧ node.commitIndex < node.advanceCommitIndexLocked.commitIndex ∧
        node.advanceCommitIndexLocked.commitIndex ≤ node.log.lastIndex ∧
        node.canCommit node.advanceCommitIndexLocked.commitIndex := by
  have scanned : ∀ (indexes : List ℕ) (start : ℕ),
      let final := indexes.foldl
        (fun commitIndex index => if node.canCommit index then index else commitIndex) start
      final = start ∨ final ∈ indexes ∧ node.canCommit final := by
    intro indexes
    induction indexes with
    | nil => exact fun start => Or.inl rfl
    | cons index rest ih =>
        intro start
        simp only [List.foldl_cons]
        rcases ih (if node.canCommit index then index else start) with same | ⟨member, can⟩
        · rw [same]
          split
          · rename_i can
            exact Or.inr ⟨by simp, can⟩
          · exact Or.inl rfl
        · exact Or.inr ⟨List.mem_cons_of_mem _ member, can⟩
  unfold advanceCommitIndexLocked
  dsimp only
  split
  · exact Or.inl rfl
  · rename_i leader
    rcases scanned (List.range' (node.commitIndex + 1) (node.log.lastIndex - node.commitIndex))
      node.commitIndex with same | ⟨member, can⟩
    · exact Or.inl same
    · rw [List.mem_range'_1] at member
      exact Or.inr ⟨not_not.mp leader, by omega, by omega, can⟩

/-- `Propose` up to the point where it releases the lock; applying and replicating the
entry are steps of their own. -/
def propose (node : RaftNode) (data : Bytes) (fault : Fault) : Outcome (Except ProposeError ℕ) :=
  if node.role ≠ .leader then .done node (.error (.notLeader node.id))
  else
    let entry : LogEntry :=
      { index := node.log.lastIndex + 1, term := node.persistent.currentTerm, data := data }
    match node.storage.writeSync (WALStorage.appendEntries [entry]) fault with
    | .crashed wal => .crashed wal
    | .failed .diskFull wal =>
        .done { node with storage := wal }.stepDownForStorageFailureLocked (.error .diskFull)
    | .failed error wal => .done { node with storage := wal } (.error (.persist error))
    | .ok wal =>
        match node.log.append entry with
        | .error error => .done { node with storage := wal } (.error (.appendToLog error))
        | .ok log =>
            .done { node with storage := wal, log := log }.advanceCommitIndexLocked (.ok entry.index)

/-- The entries from one index to the end of the log, one lookup at a time. -/
def collectEntries (log : Log) : List ℕ → Option (List LogEntry)
  | [] => some []
  | index :: rest =>
      match log.get index with
      | none => none
      | some entry => (collectEntries log rest).map (entry :: ·)

/-- The entry before `nextIndex`, as index and term; the log begins with `(0, 0)`. -/
def previousEntry (log : Log) (nextIndex : ℕ) : Option (ℕ × ℕ) :=
  if nextIndex > 1 then (log.get (nextIndex - 1)).map fun entry => (nextIndex - 1, entry.term)
  else some (0, 0)

def buildAppendEntries (node : RaftNode) (peerID : NodeID) : Option AppendEntriesArgs :=
  if node.role ≠ .leader then none
  else
    match node.nextIndex peerID with
    | none => none
    | some nextIndex =>
        match previousEntry node.log nextIndex with
        | none => none
        | some (prevLogIndex, prevLogTerm) =>
            match collectEntries node.log
                (List.range' nextIndex (node.log.lastIndex + 1 - nextIndex)) with
            | none => none
            | some entries =>
                some {
                  term := node.persistent.currentTerm
                  leaderID := node.id
                  prevLogIndex := prevLogIndex
                  prevLogTerm := prevLogTerm
                  entries := entries
                  leaderCommit := node.commitIndex }

inductive FirstNew where
  | nothing
  | missing (entries : List LogEntry)
  | conflict (start : ℕ) (entries : List LogEntry)
deriving DecidableEq

/-- The first entry that the log lacks or holds with another term, and what follows it. -/
def firstNew (log : Log) : List LogEntry → FirstNew
  | [] => .nothing
  | entry :: rest =>
      match log.get entry.index with
      | none => .missing (entry :: rest)
      | some existing =>
          if existing.term ≠ entry.term then .conflict entry.index (entry :: rest)
          else firstNew log rest

theorem firstNew_missing {log : Log} {entries new : List LogEntry} (found : firstNew log entries = .missing new) :
    ∃ first rest, new = first :: rest ∧ log.get first.index = none := by
  induction entries with
  | nil => simp [firstNew] at found
  | cons entry rest ih =>
      unfold firstNew at found
      split at found
      · rename_i missing
        cases found
        exact ⟨entry, rest, rfl, missing⟩
      · split at found
        · cases found
        · exact ih found

theorem firstNew_conflict {log : Log} {entries new : List LogEntry} {start : ℕ}
    (found : firstNew log entries = .conflict start new) :
    ∃ first rest existing, new = first :: rest ∧ first ∈ entries ∧ first.index = start ∧
      log.get start = some existing ∧ existing.term ≠ first.term := by
  induction entries with
  | nil => simp [firstNew] at found
  | cons entry rest ih =>
      unfold firstNew at found
      split at found
      · cases found
      · rename_i existing held
        split at found
        · rename_i differ
          cases found
          exact ⟨entry, rest, existing, rfl, List.mem_cons_self, rfl, held, differ⟩
        · obtain ⟨first, following, existing, same, member, conflict⟩ := ih found
          exact ⟨first, following, existing, same, List.mem_cons_of_mem _ member, conflict⟩

/-- Entries appended before a failure stay in the log. -/
def appendEach (log : Log) : List LogEntry → Log × Except LogError Unit
  | [] => (log, .ok ())
  | entry :: rest =>
      match log.append entry with
      | .error error => (log, .error error)
      | .ok appended => appendEach appended rest

/-- Entries that follow the log are all taken. -/
theorem appendEach_numbered {log : Log} {entries : List LogEntry} (numbered : Numbered log.lastIndex entries) :
    ∃ after, appendEach log entries = (after, .ok ()) ∧ after.entries = log.entries ++ entries ∧
      after.lastIncludedIndex = log.lastIncludedIndex := by
  induction entries generalizing log with
  | nil => exact ⟨log, rfl, (List.append_nil _).symm, rfl⟩
  | cons entry rest ih =>
      obtain ⟨index, following⟩ := numbered
      rcases log.append_cases entry with ⟨next, appended, _, grown, same, _, last⟩ | ⟨other, _⟩
      · obtain ⟨after, each, all, boundary⟩ := @ih next (last ▸ following)
        refine ⟨after, ?_, ?_, boundary.trans same⟩
        · simp only [appendEach, appended, each]
        · rw [all, grown, List.append_assoc, List.singleton_append]
      · exact absurd index other

/-- An entry that does not continue the log ends the loop at once. -/
theorem appendEach_refused (log : Log) {entry : LogEntry} (rest : List LogEntry)
    (gap : entry.index ≠ log.lastIndex + 1) :
    ∃ error, appendEach log (entry :: rest) = (log, .error error) := by
  rcases log.append_cases entry with ⟨after, _, next, _⟩ | ⟨_, refused⟩
  · exact absurd next gap
  · exact ⟨.invalidIndex entry.index (log.lastIndex + 1), by simp only [appendEach, refused]⟩

/-- Entries that are already durable are added to a log that has room for them. -/
def publishEntries (node : RaftNode) (log : Log) (entries : List LogEntry) :
    Outcome (Except ReconcileError Unit) :=
  match appendEach log entries with
  | (log, .ok ()) => .done { node with log := log } (.ok ())
  | (log, .error error) => .done { node with log := log } (.error (.appendToLog error))

def reconcileReplicatedEntriesLocked (node : RaftNode) (entries : List LogEntry) (fault : Fault) :
    Outcome (Except ReconcileError Unit) :=
  match firstNew node.log entries with
  | .nothing => .done node (.ok ())
  | .missing newEntries =>
      match node.storage.writeSync (WALStorage.appendEntries newEntries) fault with
      | .crashed wal => .crashed wal
      | .failed error wal => .done { node with storage := wal } (.error (.storage error))
      | .ok wal => { node with storage := wal }.publishEntries node.log newEntries
  | .conflict replaceFrom newEntries =>
      match node.storage.writeSync (WALStorage.replaceSuffix replaceFrom newEntries) fault with
      | .crashed wal => .crashed wal
      | .failed error wal => .done { node with storage := wal } (.error (.storage error))
      | .ok wal => { node with storage := wal }.publishEntries (node.log.truncateFrom replaceFrom) newEntries

def appendReply (node : RaftNode) (success : Bool) : AppendEntriesReply :=
  { term := node.persistent.currentTerm, followerID := node.id, success := success }

/-- The commit index is bounded by the follower's own last index. -/
def followCommit (node : RaftNode) (leaderCommit : ℕ) : RaftNode :=
  { node with
    commitIndex :=
      if leaderCommit > node.commitIndex then
        if leaderCommit < node.log.lastIndex then leaderCommit else node.log.lastIndex
      else node.commitIndex }

def matchesPrevious (node : RaftNode) (args : AppendEntriesArgs) : Bool :=
  args.prevLogIndex = 0 ∨ (node.log.get args.prevLogIndex).any (·.term = args.prevLogTerm)

/-- `AppendEntries` once the terms agree. -/
def acceptEntries (node : RaftNode) (args : AppendEntriesArgs) (fault : Fault) :
    Outcome AppendEntriesReply :=
  if ¬ node.matchesPrevious args then .done node (node.appendReply false)
  else
    ({ node with role := .follower, leaderID := args.leaderID }.reconcileReplicatedEntriesLocked
      args.entries fault).andThen fun node reconciled =>
        match reconciled with
        | .error _ => .done node (node.appendReply false)
        | .ok () => .done (node.followCommit args.leaderCommit) (node.appendReply true)

def appendEntries (node : RaftNode) (args : AppendEntriesArgs) (termFault logFault : Fault) :
    Outcome AppendEntriesReply :=
  if args.term < node.persistent.currentTerm then .done node (node.appendReply false)
  else if args.term > node.persistent.currentTerm then
    (node.enterTerm args.term termFault).andThen fun node durable =>
      if durable then node.acceptEntries args logFault else .done node (node.appendReply false)
  else node.acceptEntries args logFault

def backOff (node : RaftNode) (peerID : NodeID) : RaftNode :=
  { node with
    nextIndex :=
      match node.nextIndex peerID with
      | none => node.nextIndex
      | some nextIndex =>
          if nextIndex > 1 then Function.update node.nextIndex peerID (some (nextIndex - 1))
          else node.nextIndex }

def recordMatch (node : RaftNode) (peerID : NodeID) (lastReplicated : ℕ) : RaftNode :=
  { node with
    matchIndex :=
      if lastReplicated > node.matchIndex peerID then
        Function.update node.matchIndex peerID lastReplicated
      else node.matchIndex
    nextIndex :=
      if lastReplicated > node.matchIndex peerID then
        Function.update node.nextIndex peerID (some (lastReplicated + 1))
      else node.nextIndex }

def handleAppendEntriesReply (node : RaftNode) (peerID : NodeID) (args : AppendEntriesArgs)
    (reply : AppendEntriesReply) (fault : Fault) : Outcome Unit :=
  if reply.term > node.persistent.currentTerm then
    (node.enterTerm reply.term fault).andThen fun node _ => .done node ()
  else if node.role ≠ .leader then .done node ()
  else if args.term ≠ node.persistent.currentTerm then .done node ()
  else if ¬ reply.success then .done (node.backOff peerID) ()
  else
    match args.entries.getLast? with
    | none => .done node ()
    | some last => .done (node.recordMatch peerID last.index).advanceCommitIndexLocked ()

end RaftNode

end Raftiq
