import Raftiq.Refinement.Step

namespace Raftiq

open Consensus

/-- A log with one entry. -/
def Log.single (entry : LogEntry) (first : entry.index = 1) : Log where
  entries := [entry]
  lastIncludedIndex := 0
  lastIncludedTerm := 0
  numbered := ⟨first, trivial⟩
  boundary := Log.new.boundary

def Regime.replicating : Regime where
  compacts := false
  commits := true

theorem Process.allows_of_replicates (process : Process) {event : Event} (command : ¬ event.configures)
    (whole : ¬ event.snapshots) (silent : ¬ event.reads) : process.Allows .replicating event := by
  unfold Allows
  split
  · exact command
  · exact fun compacts => nomatch compacts
  · simp [Event.reads] at silent
  · simp [Event.snapshots] at whole
  · simp [Event.reads] at silent
  · trivial

theorem World.allows_of_replicates {world : World} {action : Action} (replicates : action.replicates)
    (synced : world.RestartsSynced action) : world.Allows .replicating action := by
  cases action with
  | crash v => trivial
  | restart v keep => exact ⟨synced, fun compacts => nomatch compacts⟩
  | act v event =>
      simp only [Action.replicates, Action.uncompacted, Action.regular, Bool.and_eq_true, decide_eq_true_eq,
        Bool.not_eq_true'] at replicates
      obtain ⟨⟨⟨works, command⟩, whole⟩, silent⟩ := replicates
      refine ⟨works, ?_⟩
      cases world.host v with
      | down wal => trivial
      | up process => exact process.allows_of_replicates (by simp [command]) (by simp [whole]) (by simp [silent])

namespace Cluster

variable {cluster : Cluster} {h : History} {world : World}

theorem reaches_replicating
    (reached : Reaches cluster.step (fun world action => action.replicates ∧ world.RestartsSynced action)
      cluster.initial world) :
    ∃ h : History, world.Tracks cluster .replicating h := by
  obtain ⟨h, _, tracks⟩ := reaches_tracks
    (reached.mono fun _ _ allowed => World.allows_of_replicates allowed.1 allowed.2) (cluster.initial_tracks .replicating)
  exact ⟨h, tracks⟩

theorem Valid.committed_entry (valid : cluster.Valid h) {entry : LogEntry} {t i : ℕ}
    (member : entry ∈ (h.led t).take i) :
    0 < entry.index ∧ entry.index ≤ i ∧ (h.led t)[entry.index - 1]? = some entry := by
  obtain ⟨position, found⟩ := List.getElem?_of_mem member
  have short : position < i := by
    have bound := (List.getElem?_eq_some_iff.mp found).1
    rw [List.length_take] at bound
    omega
  rw [List.getElem?_take_of_lt short] at found
  have index := (valid.numbered t).getElem?_index found
  refine ⟨by omega, by omega, ?_⟩
  rw [index, Nat.zero_add, Nat.add_sub_cancel]
  exact found

/-- Committed entries of one index are one entry. -/
theorem Valid.entrySound_unique (valid : cluster.Valid h) {entry other : LogEntry}
    (sound : EntrySound cluster h entry) (soundToo : EntrySound cluster h other)
    (same : entry.index = other.index) : entry = other := by
  obtain ⟨t, i, committed, member⟩ := sound
  obtain ⟨u, j, committedToo, memberToo⟩ := soundToo
  obtain ⟨positive, short, found⟩ := valid.committed_entry member
  obtain ⟨_, shortToo, foundToo⟩ := valid.committed_entry memberToo
  have agree := valid.sound.committed_agree cluster.quorum_intersects committed committedToo short
    (same ▸ shortToo)
  rw [← List.getElem?_take_of_lt (by omega : entry.index - 1 < entry.index), agree,
    List.getElem?_take_of_lt (by omega), same, foundToo] at found
  exact (Option.some.inj found).symm

/-- State machine safety: whatever nodes ever apply at one index is one entry, if none of them
restarts with records that are not synced. -/
theorem state_machine_safety (cluster : Cluster) {world : World}
    (reached : Reaches cluster.step (fun world action => action.replicates ∧ world.RestartsSynced action)
      cluster.initial world)
    {v w : NodeID} {entry other : LogEntry} (applied : (v, .applied entry) ∈ world.trace)
    (appliedToo : (w, .applied other) ∈ world.trace) (same : entry.index = other.index) :
    entry = other := by
  obtain ⟨h, tracks⟩ := reaches_replicating reached
  exact tracks.valid.entrySound_unique (tracks.trace _ applied rfl) (tracks.trace _ appliedToo rfl)
    same

/-- `A` of three is elected and commits a command with the help of `B`. -/
def commitOne : List Action :=
  [.act "A" (.startElection .none), .act "A" .requestVotes,
    .act "B" (.receiveRequestVote ⟨1, "A", 0, 0⟩ .none .none),
    .act "A" (.receiveVoteReply ⟨1, "A", 0, 0⟩ ⟨1, "B", true⟩ .none), .act "A" .tryBecomeLeader,
    .act "A" (.propose [7] .none), .act "A" (.replicateTo "B"),
    .act "B" (.receiveAppendEntries ⟨1, "A", 0, 0, [⟨1, 1, [7]⟩], 0⟩ .replication .none .none),
    .act "A" (.receiveAppendReply "B" ⟨1, "A", 0, 0, [⟨1, 1, [7]⟩], 0⟩ ⟨1, "B", true⟩ .none)]

/-- Both nodes apply the command. -/
theorem state_machine_safety_trio : ∃ (world : World) (entry other : LogEntry),
    ("A", .applied entry) ∈ world.trace ∧ ("B", .applied other) ∈ world.trace ∧
      entry.index = other.index ∧ entry = other := by
  have run : ∃ world, Reaches trio.step (fun world action => action.replicates ∧ world.RestartsSynced action)
      trio.initial world ∧
      ("A", .applied ⟨1, 1, [7]⟩) ∈ world.trace ∧ ("B", .applied ⟨1, 1, [7]⟩) ∈ world.trace :=
    Reaches.of_leadsTo (fun world action => decide (action.replicates ∧ world.RestartsSynced action))
      (fun _ _ => of_decide_eq_true)
      (commitOne ++
        ([.act "A" (.pickCommitted .none .none), .act "A" .sendApplied, .act "A" (.replicateTo "B"),
          .act "B" (.receiveAppendEntries ⟨1, "A", 1, 1, [], 1⟩ .replication .none .none),
          .act "B" (.pickCommitted .none .none), .act "B" .sendApplied] : List Action))
      (by decide +kernel)
  obtain ⟨world, reached, applied, appliedToo⟩ := run
  exact ⟨world, _, _, applied, appliedToo, rfl, state_machine_safety trio reached applied appliedToo rfl⟩

/-- `B` crashes while it stores the command of `A`, and reads it back.  It acknowledges the command
when it comes again, and nothing syncs it: the next crash loses what `A` has committed and applied. -/
def acknowledgeUnsynced : List Action :=
  let call : AppendEntriesArgs := ⟨1, "A", 0, 0, [⟨1, 1, [7]⟩], 0⟩
  [.act "A" (.startElection .none), .act "A" .requestVotes,
    .act "B" (.receiveRequestVote ⟨1, "A", 0, 0⟩ .none .none),
    .act "A" (.receiveVoteReply ⟨1, "A", 0, 0⟩ ⟨1, "B", true⟩ .none), .act "A" .tryBecomeLeader,
    .act "A" (.propose [7] .none), .act "A" (.replicateTo "B"),
    .act "B" (.receiveAppendEntries call .replication .none .crash), .restart "B" 4,
    .act "B" (.receiveAppendEntries call .replication .none .none),
    .act "A" (.receiveAppendReply "B" call ⟨1, "B", true⟩ .none), .act "A" (.pickCommitted .none .none),
    .act "A" .sendApplied, .crash "B", .restart "B" 0]

/-- `C` is then elected by `B`, and commits and applies another command at the same index. -/
theorem unsynced_restart_splits_applied : ∃ (world : World) (entry other : LogEntry),
    Reaches trio.step (fun _ action => action.replicates) trio.initial world ∧
      ("A", .applied entry) ∈ world.trace ∧ ("C", .applied other) ∈ world.trace ∧
      entry.index = other.index ∧ entry ≠ other := by
  have run : ∃ world, Reaches trio.step (fun _ action => action.replicates) trio.initial world ∧
      ("A", .applied ⟨1, 1, [7]⟩) ∈ world.trace ∧ ("C", .applied ⟨1, 2, [8]⟩) ∈ world.trace :=
    Reaches.of_leadsTo (fun _ action => action.replicates) (fun _ _ replicates => replicates)
      (acknowledgeUnsynced ++
        ([.act "C" (.startElection .none), .act "C" (.startElection .none), .act "C" .requestVotes,
          .act "B" (.receiveRequestVote ⟨2, "C", 0, 0⟩ .none .none),
          .act "C" (.receiveVoteReply ⟨2, "C", 0, 0⟩ ⟨2, "B", true⟩ .none), .act "C" .tryBecomeLeader,
          .act "C" (.propose [8] .none), .act "C" (.replicateTo "B"),
          .act "B" (.receiveAppendEntries ⟨2, "C", 0, 0, [⟨1, 2, [8]⟩], 0⟩ .replication .none .none),
          .act "C" (.receiveAppendReply "B" ⟨2, "C", 0, 0, [⟨1, 2, [8]⟩], 0⟩ ⟨2, "B", true⟩ .none),
          .act "C" (.pickCommitted .none .none), .act "C" .sendApplied] : List Action))
      (by decide +kernel)
  obtain ⟨world, reached, applied, appliedToo⟩ := run
  exact ⟨world, _, _, reached, applied, appliedToo, rfl, by decide⟩

theorem shows_get {log : Log} {full led : List LogEntry} {i : ℕ} {entry : LogEntry}
    (shows : log.Shows .replicating full) (positive : 0 < i) (same : full.take i = led.take i)
    (found : led[i - 1]? = some entry) : log.get i = some entry := by
  have zero : log.lastIncludedIndex = 0 := shows.2.resolve_left fun compacts => nomatch compacts
  have inside : i - 1 < i := by omega
  rw [shows.1.get_above (by omega), ← List.getElem?_take_of_lt inside, same,
    List.getElem?_take_of_lt inside, found]

/-- Leader completeness: what a leader of term `t` has committed, every leader of a later
term holds when it is elected. -/
theorem leader_completeness (cluster : Cluster) {world : World}
    (reached : Reaches cluster.step (fun world action => action.replicates ∧ world.RestartsSynced action)
      cluster.initial world)
    {v w : NodeID} {t u index i : ℕ} {log later : Log}
    (committed : (v, .committed t index log) ∈ world.trace) (elected : (w, .elected u later) ∈ world.trace)
    (after : t < u) (positive : 0 < i) (short : i ≤ index) :
    ∃ entry, log.get i = some entry ∧ later.get i = some entry := by
  obtain ⟨h, tracks⟩ := reaches_replicating reached
  obtain ⟨_, full, shows, inside, within, j, beyond, secured⟩ := tracks.trace _ committed
  obtain ⟨leads, start, own, showsLater, led, stamped⟩ := tracks.trace _ elected
  have long : i ≤ full.length := by omega
  have taken : (h.led t).take i = full.take i := take_eq_of_front inside long
  obtain ⟨entry, found⟩ : ∃ entry, full[i - 1]? = some entry := ⟨_, List.getElem?_eq_getElem (by omega)⟩
  have carries : full.take i <+: start ++ own := by
    rw [← taken, ← led]
    exact (List.take_prefix_take_left (short.trans beyond)).trans
      (tracks.valid.sound.later_leader_carries cluster.quorum_intersects secured after (by simp [leads]))
  have same : full.take i = (start ++ own).take i := by
    rw [List.prefix_iff_eq_take, List.length_take, Nat.min_eq_left long] at carries
    exact carries
  -- the new leader did not create the entry itself: it is older than its term
  have held : i ≤ start.length := by
    by_contra beyondStart
    have foundToo : (start ++ own)[i - 1]? = some entry := by
      rw [← List.getElem?_take_of_lt (by omega : i - 1 < i), ← same, List.getElem?_take_of_lt (by omega), found]
    rw [List.getElem?_append_right (by omega)] at foundToo
    have new := stamped entry (List.mem_of_getElem? foundToo)
    have old := tracks.valid.sound.led_bounded t entry (inside.subset (List.mem_of_getElem? found))
    rw [stamp_eq_term] at old
    omega
  rw [List.take_append_of_le_length held] at same
  exact ⟨entry, shows_get shows positive rfl found, shows_get showsLater positive same.symm found⟩

/-- After `A` has committed a command, `B` is elected with the vote of `C`. -/
theorem leader_completeness_trio : ∃ (world : World) (log later : Log),
    ("A", .committed 1 1 log) ∈ world.trace ∧ ("B", .elected 2 later) ∈ world.trace ∧
      ∃ entry, log.get 1 = some entry ∧ later.get 1 = some entry := by
  have run : ∃ world, Reaches trio.step (fun world action => action.replicates ∧ world.RestartsSynced action)
      trio.initial world ∧
      ("A", .committed 1 1 (.single ⟨1, 1, [7]⟩ rfl)) ∈ world.trace ∧
        ("B", .elected 2 (.single ⟨1, 1, [7]⟩ rfl)) ∈ world.trace :=
    Reaches.of_leadsTo (fun world action => decide (action.replicates ∧ world.RestartsSynced action))
      (fun _ _ => of_decide_eq_true)
      (commitOne ++
        ([.act "B" (.startElection .none), .act "B" .requestVotes,
          .act "C" (.receiveRequestVote ⟨2, "B", 1, 1⟩ .none .none),
          .act "B" (.receiveVoteReply ⟨2, "B", 1, 1⟩ ⟨2, "C", true⟩ .none), .act "B" .tryBecomeLeader] :
            List Action))
      (by decide +kernel)
  obtain ⟨world, reached, committed, elected⟩ := run
  exact ⟨world, _, _, committed, elected,
    leader_completeness trio reached committed elected (by decide) (by decide) le_rfl⟩

end Cluster

end Raftiq
