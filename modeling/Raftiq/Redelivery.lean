import Raftiq.LogMatching
import Raftiq.Raft.Merge

namespace Raftiq

/-- The log holds the entry, or has compacted it away. -/
def Log.Knows (log : Log) (entry : LogEntry) : Prop :=
  log.Holds entry ∨ entry.index < log.lastIncludedIndex

/-- The index of the last stored entry, and 0 where none is stored. -/
def Contents.lastIndex (contents : Contents) : ℕ :=
  (contents.entries.getLast?.map (·.index)).getD 0

/-- Entries that begin at index 1 are taken if and only if nothing is stored. -/
theorem Contents.takes_first_iff (contents : Contents) {first : LogEntry} (rest : List LogEntry)
    (index : first.index = 1) :
    validateAppend contents.entries (first :: rest) = .ok () ↔ contents.lastIndex = 0 := by
  unfold lastIndex
  cases ends : contents.entries.getLast? with
  | none =>
      rw [List.getLast?_eq_none_iff.mp ends]
      exact ⟨fun _ => rfl, fun _ => validateAppend_nil _⟩
  | some last =>
      rw [validateAppend_cons ends]
      simp only [Option.map_some, Option.getD_some]
      omega

namespace RaftNode

/-- The call begins at index 1, which the log has compacted away, and the storage holds no entries. -/
def Readmits (node : RaftNode) (args : AppendEntriesArgs) : Prop :=
  args.prevLogIndex = 0 ∧ args.entries ≠ [] ∧ 1 < node.log.lastIncludedIndex ∧
    node.storage.contents.lastIndex = 0

instance (node : RaftNode) (args : AppendEntriesArgs) : Decidable (node.Readmits args) :=
  inferInstanceAs (Decidable (_ ∧ _ ∧ _ ∧ _))

/-- The log and the stored entries stay, and no counter falls. -/
structure Unharmed (node after : RaftNode) : Prop where
  log : after.log = node.log
  entries : after.storage.contents.entries = node.storage.contents.entries
  commit : node.commitIndex ≤ after.commitIndex
  applied : node.lastApplied ≤ after.lastApplied

variable {node : RaftNode} {args : AppendEntriesArgs}

theorem followCommit_le (ordered : node.commitIndex ≤ node.log.lastIndex) (leaderCommit : ℕ) :
    node.commitIndex ≤ (node.followCommit leaderCommit).commitIndex := by
  simp only [followCommit]
  split
  · split
    · omega
    · exact ordered
  · exact le_rfl

theorem acceptEntries_held (ordered : node.commitIndex ≤ node.log.lastIndex)
    (held : ∀ entry ∈ args.entries, node.log.Holds entry) (fault : Fault) :
    ∃ after reply, node.acceptEntries args fault = .done after reply ∧ node.Unharmed after := by
  unfold acceptEntries
  split
  · exact ⟨_, _, rfl, rfl, rfl, le_rfl, le_rfl⟩
  · rw [reconcileReplicatedEntriesLocked, firstNew_nothing held]
    have commit := @followCommit_le { node with role := .follower, leaderID := args.leaderID } ordered
      args.leaderCommit
    exact ⟨_, _, rfl, rfl, rfl, commit, le_rfl⟩

/-- A call with an entry below the boundary gets past the check only if it begins at index 1. -/
theorem first_of_below (numbered : Numbered args.prevLogIndex args.entries) (agrees : node.matchesPrevious args)
    {entry : LogEntry} (member : entry ∈ args.entries) (below : entry.index < node.log.lastIncludedIndex) :
    args.prevLogIndex = 0 ∧ ∃ first rest, args.entries = first :: rest ∧ first.index = 1 ∧
      1 < node.log.lastIncludedIndex ∧ firstNew node.log args.entries = .missing (first :: rest) := by
  have above := (numbered.mem_index member).1
  have start : args.prevLogIndex = 0 := by
    simp only [matchesPrevious, Bool.decide_or, Bool.or_eq_true, decide_eq_true_eq,
      Option.any_eq_true] at agrees
    rcases agrees with start | ⟨existing, found, _⟩
    · exact start
    · have reached := Log.boundary_le_of_get found
      omega
  obtain ⟨first, rest, split⟩ := List.exists_cons_of_ne_nil (List.ne_nil_of_mem member)
  rw [start] at above numbered
  rw [split] at numbered ⊢
  have index : first.index = 1 := numbered.1
  have missing : node.log.get first.index = none := Log.Views.get_below (by omega)
  exact ⟨start, first, rest, rfl, index, by omega, by rw [firstNew, missing]⟩

/-- Entries below the boundary are refused by a storage that holds entries. -/
theorem acceptEntries_refused (numbered : Numbered args.prevLogIndex args.entries)
    (unread : ¬ node.Readmits args) {entry : LogEntry} (member : entry ∈ args.entries)
    (below : entry.index < node.log.lastIncludedIndex) (fault : Fault) :
    ∃ after reply, node.acceptEntries args fault = .done after reply ∧ node.Unharmed after := by
  unfold acceptEntries
  split
  · exact ⟨_, _, rfl, rfl, rfl, le_rfl, le_rfl⟩
  · rename_i agrees
    obtain ⟨start, first, rest, split, index, beyond, found⟩ :=
      first_of_below numbered (not_not.mp agrees) member below
    have stored : node.storage.contents.lastIndex ≠ 0 :=
      fun zero => unread ⟨start, by simp [split], beyond, zero⟩
    have refused := mt (node.storage.contents.takes_first_iff rest index).mp stored
    have failed : ∃ error, WALStorage.appendEntries (first :: rest) node.storage = .error error := by
      cases tried : WALStorage.appendEntries (first :: rest) node.storage with
      | error error => exact ⟨error, rfl⟩
      | ok written => exact absurd ((WALStorage.appendEntries_iff (List.cons_ne_nil _ _)).mp tried).2.2 refused
    obtain ⟨error, failed⟩ := failed
    simp only [reconcileReplicatedEntriesLocked, found, WALStorage.writeSync, failed]
    exact ⟨_, _, rfl, rfl, rfl, le_rfl, le_rfl⟩

/-- The storage takes what the log has forgotten, and the log does not. -/
theorem appendEntries_readmitted (numbered : Numbered args.prevLogIndex args.entries)
    (current : args.term = node.persistent.currentTerm) (readmits : node.Readmits args) (termFault : Fault) :
    ∃ after reply, node.appendEntries args termFault .none = .done after reply ∧ after.log = node.log ∧
      after.storage.contents.entries = node.storage.contents.entries ++ args.entries := by
  obtain ⟨start, some, beyond, empty⟩ := readmits
  obtain ⟨first, rest, split⟩ := List.exists_cons_of_ne_nil some
  have index : first.index = 1 := by
    rw [start, split] at numbered
    exact numbered.1
  have agrees : node.matchesPrevious args := by simp [matchesPrevious, start]
  obtain ⟨_, _, _, same, _, _, found⟩ := first_of_below numbered agrees (split ▸ List.mem_cons_self)
    (index.trans_lt beyond)
  rw [← same] at found
  have accepted := (WALStorage.appendEntries_iff some).mpr ⟨rfl, numbered.validates,
    split ▸ (node.storage.contents.takes_first_iff rest index).mpr empty⟩
  obtain ⟨error, refused⟩ := appendEach_refused node.log rest (by
    rw [node.log.lastIndex_eq]
    omega : first.index ≠ node.log.lastIndex + 1)
  rw [← split] at refused
  simp only [appendEntries, current, lt_irrefl, if_false, acceptEntries, agrees, not_true_eq_false,
    reconcileReplicatedEntriesLocked, found, WALStorage.writeSync, accepted, publishEntries, refused]
  exact ⟨_, _, rfl, rfl, rfl⟩

/-- A call whose entries the node knows changes nothing but in one case. -/
theorem appendEntries_unharmed_iff (current : args.term = node.persistent.currentTerm)
    (ordered : node.commitIndex ≤ node.log.lastIndex) (numbered : Numbered args.prevLogIndex args.entries)
    (known : ∀ entry ∈ args.entries, node.log.Knows entry) :
    (∀ termFault logFault, ∃ after reply, node.appendEntries args termFault logFault = .done after reply ∧
      node.Unharmed after) ↔ ¬ node.Readmits args := by
  constructor
  · intro unharmed readmits
    obtain ⟨after, _, handled, same⟩ := unharmed .none .none
    obtain ⟨_, _, handledToo, _, grown⟩ := appendEntries_readmitted numbered current readmits .none
    cases handled.symm.trans handledToo
    rw [same.entries] at grown
    exact readmits.2.1 (List.append_right_eq_self.mp grown.symm)
  · intro unread termFault logFault
    have reduced : node.appendEntries args termFault logFault = node.acceptEntries args logFault := by
      rw [appendEntries, if_neg (by omega), if_neg (by omega)]
    rw [reduced]
    by_cases held : ∀ entry ∈ args.entries, node.log.Holds entry
    · exact acceptEntries_held ordered held logFault
    · push Not at held
      obtain ⟨entry, member, lost⟩ := held
      exact acceptEntries_refused numbered unread member ((known entry member).resolve_left lost) logFault

end RaftNode

open Consensus

variable {cluster : Cluster} {regime : Regime} {h : History} {world : World} {v : NodeID}

theorem AppendEntriesArgs.Sound.numbered {args : AppendEntriesArgs} (sound : args.Sound cluster regime h)
    (valid : cluster.Valid h) : Numbered args.prevLogIndex args.entries := by
  have whole := valid.numbered_incoming args
  have length : (args.incoming h).length = args.prevLogIndex + args.entries.length := by
    rw [AppendEntriesArgs.incoming, List.length_take, Nat.min_eq_left sound.within]
  have rest := whole.drop args.prevLogIndex (by omega)
  rw [Nat.zero_add, AppendEntriesArgs.incoming, ← sound.entries] at rest
  exact rest

/-- A log that begins with what the leader has sent knows all of it. -/
theorem Log.Views.knows {log : Log} {full : List LogEntry} {args : AppendEntriesArgs} (views : log.Views full)
    (sound : args.Sound cluster regime h) (valid : cluster.Valid h)
    (carries : h.Carries full args.term (args.prevLogIndex + args.entries.length)) {entry : LogEntry}
    (member : entry ∈ args.entries) : log.Knows entry := by
  obtain ⟨position, found⟩ := List.getElem?_of_mem member
  have index := (sound.numbered valid).getElem?_index found
  have inside : full[entry.index - 1]? = some entry := by
    rw [sound.entries, List.getElem?_drop] at found
    obtain ⟨back, rfl⟩ := carries
    obtain ⟨short, _⟩ := List.getElem?_eq_some_iff.mp found
    rw [show entry.index - 1 = args.prevLogIndex + position by omega, List.getElem?_append_left short]
    exact found
  rcases Nat.lt_trichotomy entry.index log.lastIncludedIndex with below | same | above
  · exact Or.inr below
  · have term := termAt_eq_of_getElem? inside
    rw [show entry.index - 1 + 1 = log.lastIncludedIndex by omega] at term
    refine Or.inl ⟨⟨log.lastIncludedIndex, termAt full log.lastIncludedIndex, []⟩, ?_, term⟩
    rw [same]
    exact views.get_boundary (by omega)
  · exact Or.inl ⟨entry, (views.get_above above).trans inside, rfl⟩

namespace Cluster

theorem reaches_abides
    (reached : Reaches cluster.step (fun world action => world.Allows regime action) cluster.initial world) :
    ∃ h : History, world.Tracks cluster regime h ∧ h.Abides := by
  refine reached.invariant (fun world => ∃ h : History, world.Tracks cluster regime h ∧ h.Abides)
    ⟨_, cluster.initial_tracks regime, Ledger.empty_abides⟩ ?_
  rintro before action after ⟨h, tracks, abides⟩ allowed stepped
  obtain ⟨_, later, moves, tracksAfter⟩ := step_moves tracks allowed stepped
  exact ⟨later, tracksAfter, moves.abides abides⟩

/-- What a node has accepted in its term it knows for as long as the term lasts. -/
theorem accepted_known
    (reached : Reaches cluster.step (fun world action => world.Allows .compacting action) cluster.initial world)
    {process : Process} (up : world.host v = .up process) {args : AppendEntriesArgs}
    {reply : AppendEntriesReply} (answered : world.WasSent (.appendReply v args reply)) (success : reply.success)
    (current : args.term = process.node.persistent.currentTerm) :
    process.node.commitIndex ≤ process.node.log.lastIndex ∧ Numbered args.prevLogIndex args.entries ∧
      ∀ entry ∈ args.entries, process.node.log.Knows entry := by
  obtain ⟨h, tracks, abides⟩ := reaches_abides reached
  have running : process.Tracks cluster .compacting h v := by
    have host := tracks.host v
    rw [up] at host
    exact host
  obtain ⟨sound, acked⟩ := tracks.sent answered
  have carries := (abides v args.term _ (acked success _ le_rfl)).2.2 (current.trans running.node.term)
  refine ⟨?_, sound.numbered tracks.valid,
    fun entry member => running.node.log.knows sound tracks.valid carries member⟩
  rw [running.node.log.lastIndex]
  exact (running.node.commit rfl).1

/-- Handling a call once more whose entries the node knows changes neither the log nor the stored entries
and lowers no counter, if and only if it is not a call that begins at index 1, is below a compaction boundary
above 1 and meets an empty storage.  What a node of a running cluster has accepted it knows. -/
theorem redelivery_harmless_iff (args : AppendEntriesArgs) :
    (∀ node : RaftNode, args.term = node.persistent.currentTerm → node.commitIndex ≤ node.log.lastIndex →
      Numbered args.prevLogIndex args.entries → (∀ entry ∈ args.entries, node.log.Knows entry) →
      ((∀ termFault logFault, ∃ after reply, node.appendEntries args termFault logFault = .done after reply ∧
        node.Unharmed after) ↔ ¬ node.Readmits args)) ∧
    ∀ (cluster : Cluster) (world : World),
      Reaches cluster.step (fun world action => world.Allows .compacting action) cluster.initial world →
      ∀ v process reply, world.host v = .up process → world.WasSent (.appendReply v args reply) →
        reply.success → args.term = process.node.persistent.currentTerm →
        ((∀ termFault logFault, ∃ after again,
          process.node.appendEntries args termFault logFault = .done after again ∧
            process.node.Unharmed after) ↔ ¬ process.node.Readmits args) := by
  refine ⟨fun node current ordered numbered known =>
    RaftNode.appendEntries_unharmed_iff current ordered numbered known, ?_⟩
  intro cluster world reached v process reply up answered success current
  obtain ⟨ordered, numbered, known⟩ := accepted_known reached up answered success current
  exact RaftNode.appendEntries_unharmed_iff current ordered numbered known

/-- The call with entry 1. -/
def firstCall : AppendEntriesArgs :=
  ⟨1, "A", 0, 0, [⟨1, 1, [7]⟩], 0⟩

/-- `A` commits two entries with `B`. -/
def commitTwo : List Action :=
  commitOne ++
    ([.act "A" (.propose [8] .none), .act "A" (.replicateTo "B"),
      .act "B" (.receiveAppendEntries ⟨1, "A", 1, 1, [⟨2, 1, [8]⟩], 1⟩ .replication .none .none),
      .act "A" (.receiveAppendReply "B" ⟨1, "A", 1, 1, [⟨2, 1, [8]⟩], 1⟩ ⟨1, "B", true⟩ .none)] : List Action)

/-- `B` applies two entries and compacts them. -/
def compactsTwo : List Action :=
  [.act "B" (.pickCommitted .none .none), .act "B" .sendApplied, .act "B" .markApplied,
    .act "B" (.pickCommitted .none .none), .act "B" .sendApplied, .act "B" .markApplied,
    .act "B" (.createSnapshot 2 [5] .none .none)]

/-- `B` has accepted entry 1, has compacted it with entry 2, and has entry 3: the call with entry 1 may
come again. -/
theorem redelivery_refused : ∃ (world : World) (process : Process),
    Reaches trio.step (fun world action => world.Allows .compacting action) trio.initial world ∧
      world.host "B" = .up process ∧ process.node.log.lastIncludedIndex = 2 ∧
      ∃ after reply, process.node.appendEntries firstCall .none .none = .done after reply ∧
        process.node.Unharmed after := by
  have run : ∃ world,
      Reaches trio.step (fun world action => world.Allows .compacting action) trio.initial world ∧
      world.WasSent (.appendReply "B" firstCall ⟨1, "B", true⟩) ∧
      (world.host "B").process.any (fun process => process.node.persistent.currentTerm = 1 ∧
        process.node.log.lastIncludedIndex = 2 ∧ ¬ process.node.Readmits firstCall) :=
    Reaches.of_leadsTo (fun world action => decide (world.Allows .compacting action))
      (fun _ _ => of_decide_eq_true)
      (commitTwo ++
        ([.act "A" (.propose [9] .none), .act "A" (.replicateTo "B"),
          .act "B" (.receiveAppendEntries ⟨1, "A", 2, 1, [⟨3, 1, [9]⟩], 2⟩ .replication .none .none)] :
            List Action) ++ compactsTwo)
      (by decide +kernel)
  obtain ⟨world, reached, answered, found⟩ := run
  obtain ⟨process, running, holds⟩ := (Option.any_eq_true _ _).mp found
  obtain ⟨term, boundary, unread⟩ := of_decide_eq_true holds
  have up := Host.process_eq_some.mp running
  have harmless := (redelivery_harmless_iff firstCall).2 trio world reached "B" process ⟨1, "B", true⟩ up
    answered rfl term.symm
  exact ⟨world, process, reached, up, boundary, harmless.mpr unread .none .none⟩

/-- Without entry 3, the storage of `B` takes entry 1 again. -/
theorem redelivery_readmits_compacted : ∃ (world : World) (process after : Process),
    Reaches trio.step (fun world action => world.Allows .compacting action) trio.initial world ∧
      world.WasSent (.appendReply "B" firstCall ⟨1, "B", true⟩) ∧
      world.host "B" = .up process ∧ process.node.role = .follower ∧ process.node.persistent.currentTerm = 1 ∧
      process.advance (.receiveAppendEntries firstCall .replication .none .none) = some after ∧
      process.node.storage.contents.entries = [] ∧ after.node.storage.contents.entries = [⟨1, 1, [7]⟩] := by
  have run : ∃ world,
      Reaches trio.step (fun world action => world.Allows .compacting action) trio.initial world ∧
      world.WasSent (.appendReply "B" firstCall ⟨1, "B", true⟩) ∧
      (world.host "B").process.any (fun process => process.node.role = .follower ∧
        process.node.persistent.currentTerm = 1 ∧ process.node.storage.contents.entries = [] ∧
        (process.advance (.receiveAppendEntries firstCall .replication .none .none)).any fun after =>
          after.node.storage.contents.entries = [⟨1, 1, [7]⟩]) :=
    Reaches.of_leadsTo (fun world action => decide (world.Allows .compacting action))
      (fun _ _ => of_decide_eq_true)
      (commitTwo ++
        ([.act "A" (.replicateTo "B"),
          .act "B" (.receiveAppendEntries ⟨1, "A", 2, 1, [], 2⟩ .replication .none .none)] : List Action) ++
        compactsTwo)
      (by decide +kernel)
  obtain ⟨world, reached, answered, found⟩ := run
  obtain ⟨process, running, holds⟩ := (Option.any_eq_true _ _).mp found
  obtain ⟨follower, term, empty, readmitted⟩ := of_decide_eq_true holds
  obtain ⟨after, advanced, entries⟩ := (Option.any_eq_true _ _).mp readmitted
  exact ⟨world, process, after, reached, answered, Host.process_eq_some.mp running, follower, term, advanced,
    empty, of_decide_eq_true entries⟩

end Cluster

end Raftiq
