import Raftiq.Raft.ReplicateTo
import Raftiq.Raft.StoredLog
import Raftiq.Refinement.Reconcile

namespace Raftiq

namespace RaftNode

/-- The stored snapshot ends at the log's boundary. -/
def StoresBoundary (node : RaftNode) : Prop :=
  node.storage.contents.loadSnapshot.lastIncludedIndex = node.log.lastIncludedIndex ∧
    node.storage.contents.loadSnapshot.lastIncludedTerm = node.log.lastIncludedTerm

/-- A leader with its full log, and a follower at its term. -/
structure Serves (leader follower : RaftNode) (led : List LogEntry) : Prop where
  leads : leader.role = .leader
  term : follower.persistent.currentTerm = leader.persistent.currentTerm
  views : leader.log.Views led
  boundary : leader.StoresBoundary

/-- The full log of the follower agrees with the leader's up to a committed index.  Both may be
compacted up to it, and behind it the follower holds what other leaders have sent. -/
structure Replicating (leader follower : RaftNode) (led kept : List LogEntry) (committed : ℕ) : Prop extends
    Serves leader follower led where
  restores : follower.canRestore = true
  viewsToo : follower.log.Views kept
  boundaryToo : follower.StoresBoundary
  stores : follower.StoresLog
  compacted : leader.log.lastIncludedIndex ≤ committed
  compactedToo : follower.log.lastIncludedIndex ≤ committed
  within : committed ≤ led.length
  agree : kept.take committed <+: led
  matching : TermsMatch kept led

/-- The loop of `replicateTo` ends, and then the follower's log begins with the leader's. -/
def Converges (peerID : NodeID) (leader follower : RaftNode) (led : List LogEntry) : Prop :=
  ∃ rounds leader' follower' held, replicateTo peerID rounds leader follower = some (leader', follower') ∧
    leader'.log = leader.log ∧ follower'.log.Views held ∧ led <+: held

variable {leader follower leader' follower' : RaftNode} {led kept held : List LogEntry} {committed n : ℕ}
  {peerID : NodeID}

/-- What the leader sends from a given index on. -/
def entriesFrom (leader : RaftNode) (led : List LogEntry) (n : ℕ) : AppendEntriesArgs where
  term := leader.persistent.currentTerm
  leaderID := leader.id
  prevLogIndex := n - 1
  prevLogTerm := termAt led (n - 1)
  entries := led.drop (n - 1)
  leaderCommit := leader.commitIndex

/-- The snapshot that the leader sends. -/
def snapshotCall (leader : RaftNode) : InstallSnapshotArgs where
  term := leader.persistent.currentTerm
  leaderID := leader.id
  lastIncludedIndex := leader.storage.contents.loadSnapshot.lastIncludedIndex
  lastIncludedTerm := leader.storage.contents.loadSnapshot.lastIncludedTerm
  data := leader.storage.contents.loadSnapshot.data

theorem previousEntry_eq {log : Log} {full : List LogEntry} (views : log.Views full)
    (above : log.lastIncludedIndex < n) (inside : n ≤ full.length + 1) :
    previousEntry log n = some (n - 1, termAt full (n - 1)) := by
  unfold previousEntry
  split
  · cases found : log.get (n - 1) with
    | none =>
        rcases views.get_eq_none found with zero | below | beyond
        · omega
        · omega
        · omega
    | some entry =>
        obtain ⟨_, _, _, _, term⟩ := views.get_some found
        rw [← term]
        rfl
  · rw [show n - 1 = 0 by omega]
    rfl

namespace Serves

variable (serves : Serves leader follower led) (next : leader.nextIndex peerID = some n)

include serves next

theorem buildAppendEntries_eq (above : leader.log.lastIncludedIndex < n) (inside : n ≤ led.length + 1) :
    leader.buildAppendEntries peerID = some (leader.entriesFrom led n) := by
  unfold buildAppendEntries
  rw [if_neg (not_not.mpr serves.leads), next]
  dsimp only
  rw [previousEntry_eq serves.views above inside]
  dsimp only
  rw [serves.views.lastIndex, collectEntries_eq serves.views above inside]
  rfl

theorem buildInstallSnapshot_eq :
    leader.buildInstallSnapshot peerID =
      if 0 < leader.log.lastIncludedIndex ∧ n ≤ leader.log.lastIncludedIndex then some leader.snapshotCall
      else none := by
  have same := serves.boundary.1
  unfold buildInstallSnapshot
  rw [if_neg (not_not.mpr serves.leads), next]
  dsimp only
  rw [same]
  by_cases zero : leader.log.lastIncludedIndex = 0
  · rw [if_pos zero, if_neg (by omega)]
  · rw [if_neg zero]
    by_cases further : n > leader.log.lastIncludedIndex
    · rw [if_pos further, if_neg (by omega)]
    · rw [if_neg further, if_pos (by omega), ← same]
      rfl

/-- Above the boundary no snapshot is sent, and the round is one `AppendEntries` call. -/
theorem round_above (above : leader.log.lastIncludedIndex < n) (inside : n ≤ led.length + 1)
    {reply : AppendEntriesReply}
    (answered : follower.acceptEntries (leader.entriesFrom led n) .none = .done follower' reply)
    (handled : leader.handleAppendEntriesReply peerID (leader.entriesFrom led n) reply .none = .done leader' ()) :
    replicateRound peerID leader follower = some
      (if reply.success ∨ leader'.role ≠ .leader then .returned leader' follower' else .again leader' follower') := by
  have served : follower.appendEntries (leader.entriesFrom led n) .none .none = .done follower' reply := by
    have same : (leader.entriesFrom led n).term = follower.persistent.currentTerm := serves.term.symm
    rw [appendEntries, if_neg (by omega), if_neg (by omega), answered]
  unfold replicateRound sendInstallSnapshot
  rw [serves.buildInstallSnapshot_eq next, if_neg (by omega)]
  dsimp only
  rw [serves.buildAppendEntries_eq next above inside]
  dsimp only
  rw [served]
  dsimp only [Outcome.finished]
  rw [handled]
  dsimp only
  cases reply.success with
  | false =>
      by_cases leads : leader'.role = .leader
      · simp [leads]
      · simp [leads]
  | true => simp

/-- A rejected call is tried again one index earlier. -/
theorem round_rejected (above : leader.log.lastIncludedIndex < n) (inside : n ≤ led.length + 1)
    {reply : AppendEntriesReply}
    (answered : follower.acceptEntries (leader.entriesFrom led n) .none = .done follower' reply)
    (current : reply.term = leader.persistent.currentTerm) (rejected : reply.success = false) :
    replicateRound peerID leader follower = some (.again (leader.backOff peerID) follower') := by
  have handled : leader.handleAppendEntriesReply peerID (leader.entriesFrom led n) reply .none =
      .done (leader.backOff peerID) () := by
    have own : (leader.entriesFrom led n).term = leader.persistent.currentTerm := rfl
    simp [handleAppendEntriesReply, current, serves.leads, own, rejected]
  have leads : (leader.backOff peerID).role = .leader := serves.leads
  rw [serves.round_above next above inside answered handled, if_neg (by simp [rejected, leads])]

/-- An accepted call ends the loop. -/
theorem round_accepted (above : leader.log.lastIncludedIndex < n) (inside : n ≤ led.length + 1)
    {reply : AppendEntriesReply}
    (answered : follower.acceptEntries (leader.entriesFrom led n) .none = .done follower' reply)
    (current : reply.term = leader.persistent.currentTerm) (accepted : reply.success = true) :
    ∃ leader', replicateRound peerID leader follower = some (.returned leader' follower') ∧
      leader'.log = leader.log := by
  obtain ⟨leader', handled, same⟩ : ∃ leader',
      leader.handleAppendEntriesReply peerID (leader.entriesFrom led n) reply .none = .done leader' () ∧
        leader'.log = leader.log := by
    have own : (leader.entriesFrom led n).term = leader.persistent.currentTerm := rfl
    simp only [handleAppendEntriesReply, current, serves.leads, own, accepted]
    cases (leader.entriesFrom led n).entries.getLast? with
    | none => exact ⟨leader, by simp, rfl⟩
    | some last => exact ⟨(leader.recordMatch peerID last.index).advanceCommitIndexLocked, by simp, rfl⟩
  refine ⟨leader', ?_, same⟩
  rw [serves.round_above next above inside answered handled, if_pos (Or.inl accepted)]

/-- A follower that answers with success has the snapshot counted. -/
theorem round_below (below : n ≤ leader.log.lastIncludedIndex) (positive : 0 < leader.log.lastIncludedIndex)
    {reply : InstallSnapshotReply}
    (answered : follower.serveInstallSnapshot leader.snapshotCall = some (follower', reply))
    (current : reply.term = leader.persistent.currentTerm) (accepted : reply.success = true) :
    replicateRound peerID leader follower = some (.again
      (leader.recordInstalled peerID leader.log.lastIncludedIndex).advanceCommitIndexLocked follower') := by
  have handled : leader.handleInstallSnapshotReply peerID leader.snapshotCall reply .none =
      .done (leader.recordInstalled peerID leader.log.lastIncludedIndex).advanceCommitIndexLocked () := by
    have own : leader.snapshotCall.term = leader.persistent.currentTerm := rfl
    have index : leader.snapshotCall.lastIncludedIndex = leader.log.lastIncludedIndex := serves.boundary.1
    simp [handleInstallSnapshotReply, current, serves.leads, own, accepted, index]
  unfold replicateRound sendInstallSnapshot
  rw [serves.buildInstallSnapshot_eq next, if_pos ⟨positive, below⟩]
  dsimp only
  rw [answered]
  dsimp only
  rw [handled]
  dsimp only [Outcome.finished]
  rw [accepted]

end Serves

theorem backOff_nextIndex (next : leader.nextIndex peerID = some n) (further : 1 < n) :
    (leader.backOff peerID).nextIndex peerID = some (n - 1) := by
  simp [backOff, next, further]

theorem recordInstalled_nextIndex {index : ℕ} (next : leader.nextIndex peerID = some n) (below : n ≤ index) :
    (leader.recordInstalled peerID index).advanceCommitIndexLocked.nextIndex peerID = some (index + 1) := by
  simp [recordInstalled, advanceCommitIndexLocked, next, Nat.lt_succ_of_le below]

/-- The loop goes on from a smaller index. -/
theorem Serves.backOff (serves : Serves leader follower led) (peerID : NodeID) :
    Serves (leader.backOff peerID) follower led :=
  ⟨serves.leads, serves.term, serves.views, serves.boundary⟩

theorem Serves.recordInstalled (serves : Serves leader follower led) (peerID : NodeID) (index : ℕ) :
    Serves (leader.recordInstalled peerID index).advanceCommitIndexLocked follower led :=
  ⟨serves.leads, serves.term, serves.views, serves.boundary⟩

theorem matchesPrevious_iff (viewsToo : follower.log.Views kept) :
    follower.matchesPrevious (leader.entriesFrom led n) ↔ n - 1 = 0 ∨
      follower.log.lastIncludedIndex ≤ n - 1 ∧ n - 1 ≤ kept.length ∧ termAt kept (n - 1) = termAt led (n - 1) := by
  rw [matchesPrevious, decide_eq_true_iff]
  change n - 1 = 0 ∨ (follower.log.get (n - 1)).any (·.term = termAt led (n - 1)) = true ↔ _
  by_cases start : n - 1 = 0
  · simp [start]
  · cases found : follower.log.get (n - 1) with
    | none =>
        rcases viewsToo.get_eq_none found with zero | below | beyond
        · exact absurd zero start
        · simp [start, not_le.mpr below]
        · simp [start, not_le.mpr beyond]
    | some entry =>
        obtain ⟨_, above, within, _, term⟩ := viewsToo.get_some found
        simp [start, above, within, term]

/-- A follower that has compacted at least as far as the snapshot takes it as known. -/
theorem serveInstallSnapshot_stale {args : InstallSnapshotArgs}
    (current : args.term = follower.persistent.currentTerm)
    (stale : args.lastIncludedIndex ≤ follower.log.lastIncludedIndex) :
    follower.serveInstallSnapshot args =
      some ({ follower with role := .follower, leaderID := args.leaderID }, follower.installReply true) := by
  simp [serveInstallSnapshot, installSnapshot, persistInstall, current, stale, Outcome.finished, installReply]

theorem compact_saved (wal : WALStorage) {snapshot : Snapshot} (nonzero : 0 < snapshot.lastIncludedIndex) :
    ∃ compacted, (wal.appendRecord (.snapshot snapshot)).sync.compactDurably snapshot .none = .ok compacted ∧
      compacted.contents.snapshot = some snapshot ∧
      compacted.contents.entries = wal.contents.entries.filter (snapshot.lastIncludedIndex < ·.index) := by
  have stored : (wal.appendRecord (.snapshot snapshot)).sync.contents.snapshot = some snapshot := rfl
  simp only [WALStorage.compactDurably, WALStorage.compact, if_neg (Nat.pos_iff_ne_zero.mp nonzero), stored,
    ne_eq, not_true_eq_false, if_false]
  exact ⟨_, rfl, rfl, rfl⟩

/-- Any other follower installs it. -/
theorem serveInstallSnapshot_ahead {args : InstallSnapshotArgs}
    (current : args.term = follower.persistent.currentTerm) (restores : follower.canRestore = true)
    (ahead : follower.log.lastIncludedIndex < args.lastIncludedIndex) :
    ∃ after reply, follower.serveInstallSnapshot args = some (after, reply) ∧ reply.success = true ∧
      reply.term = follower.persistent.currentTerm ∧
      after.persistent = follower.persistent ∧ after.canRestore = true ∧
      follower.log.restoreSnapshot args.snapshot = .ok after.log ∧
      after.storage.contents.snapshot = some args.snapshot ∧
      after.storage.contents.entries =
        follower.storage.contents.entries.filter (args.lastIncludedIndex < ·.index) := by
  have reaches : follower.log.lastIncludedIndex < args.snapshot.lastIncludedIndex := ahead
  obtain ⟨compacted, done, snapshot, entries⟩ :=
    @compact_saved follower.storage args.snapshot (Nat.zero_lt_of_lt reaches)
  obtain ⟨log, restored⟩ : ∃ log, follower.log.restoreSnapshot args.snapshot = .ok log :=
    ⟨_, Log.restoreSnapshot_ok reaches⟩
  simp only [serveInstallSnapshot, installSnapshot, current, lt_irrefl, if_false, persistInstall,
    if_neg (not_le.mpr ahead), restores, not_true_eq_false, WALStorage.writeSync, WALStorage.saveSnapshot,
    Outcome.finished, finishInstall, done, restored]
  exact ⟨_, _, rfl, rfl, rfl, rfl, rfl, rfl, snapshot, entries⟩

theorem StoresBoundary.stored {node : RaftNode} (boundary : node.StoresBoundary) {snapshot : Snapshot}
    (stored : node.storage.contents.snapshot = some snapshot) :
    snapshot.lastIncludedIndex = node.log.lastIncludedIndex := by
  have same := boundary.1
  rwa [Contents.loadSnapshot, stored] at same

/-- Log and storage take what follows the last entry on which the logs agree. -/
theorem reconcile_agreed {node : RaftNode} {entries : List LogEntry} (views : node.log.Views kept)
    (boundary : node.StoresBoundary) (stores : node.StoresLog) (numbered : Numbered 0 led)
    (finds : (firstNew node.log entries).Finds node.log kept led) :
    ∃ wal log held, node.reconcileReplicatedEntriesLocked entries .none =
        .done { node with storage := wal, log := log } (.ok ()) ∧ log.Views held ∧ led <+: held := by
  unfold reconcileReplicatedEntriesLocked
  cases found : firstNew node.log entries with
  | nothing =>
      rw [found] at finds
      exact ⟨node.storage, node.log, kept, rfl, views, finds⟩
  | missing rest =>
      rw [found] at finds
      obtain ⟨below, shorter, rfl⟩ := finds
      have some : led.drop kept.length ≠ [] := fun none => absurd (List.drop_eq_nil_iff.mp none) (by omega)
      have following : Numbered kept.length (led.drop kept.length) := by
        simpa using numbered.drop kept.length shorter.le
      obtain ⟨log, each, grown, _⟩ := appendEach_ok views following
      have takes := stores.takes (views.lastIndex ▸ following) some
      refine ⟨(node.storage.appendRecord (.entries (led.drop kept.length))).sync, log, _, ?_, grown, ?_⟩
      · simp only [WALStorage.writeSync, takes, publishEntries, each]
      · obtain ⟨back, rfl⟩ := below
        simp
  | conflict start rest =>
      rw [found] at finds
      obtain ⟨above, within, reached, agree, rfl, _⟩ := finds
      have following : Numbered (start - 1) (led.drop (start - 1)) := by
        simpa using numbered.drop (start - 1) (by omega)
      have takes : WALStorage.replaceSuffix start (led.drop (start - 1)) node.storage =
          .ok (node.storage.appendRecord (.replaceSuffix start (led.drop (start - 1)))) := by
        rw [WALStorage.replaceSuffix_iff, validateReplaceSuffix_iff]
        refine ⟨rfl, by omega, fun snapshot stored => ?_, following.validates, fun first head => ?_⟩
        · rw [boundary.stored stored]
          exact above
        · obtain ⟨rest, split⟩ := List.head?_eq_some_iff.mp head
          rw [split] at following
          have index := following.1
          omega
      obtain ⟨front, _⟩ := views.truncateFrom above
      have length : (kept.take (start - 1)).length = start - 1 := by
        rw [List.length_take]
        omega
      have followingFront : Numbered (kept.take (start - 1)).length (led.drop (start - 1)) := by
        rw [length]
        exact following
      obtain ⟨log, each, grown, _⟩ := appendEach_ok front followingFront
      refine ⟨(node.storage.appendRecord (.replaceSuffix start (led.drop (start - 1)))).sync, log, _, ?_, grown, ?_⟩
      · simp only [WALStorage.writeSync, takes, publishEntries, each]
      · rw [agree, List.take_append_drop]

theorem Converges.of_again (round : replicateRound peerID leader follower = some (.again leader' follower'))
    (same : leader'.log = leader.log) (converges : Converges peerID leader' follower' led) :
    Converges peerID leader follower led := by
  obtain ⟨rounds, last, caught, held, ended, kept, views, front⟩ := converges
  exact ⟨rounds + 1, last, caught, held, (replicateTo_again round).trans ended, kept.trans same, views, front⟩

namespace Replicating

variable (pair : Replicating leader follower led kept committed)

include pair

theorem take_eq {index : ℕ} (below : index ≤ committed) (reached : index ≤ kept.length) :
    kept.take index = led.take index := by
  have front : kept.take index <+: led := by
    refine List.IsPrefix.trans ?_ pair.agree
    exact List.take_prefix_take_left below
  rw [List.prefix_iff_eq_take, List.length_take, Nat.min_eq_left reached] at front
  exact front

/-- The follower agrees with the leader at its own boundary. -/
theorem matches_boundary :
    kept.take follower.log.lastIncludedIndex = led.take follower.log.lastIncludedIndex :=
  pair.take_eq pair.compactedToo pair.viewsToo.inside

/-- A call that continues where the logs agree is accepted and brings the follower's log up to the
leader's. -/
theorem accepts (agreed : kept.take (n - 1) = led.take (n - 1)) (reached : n - 1 ≤ kept.length)
    (inside : n ≤ led.length + 1)
    (above : follower.log.lastIncludedIndex ≤ n - 1 ∨ n - 1 = 0 ∧ follower.log.lastIncludedIndex = 1) :
    ∃ after reply held, follower.acceptEntries (leader.entriesFrom led n) .none = .done after reply ∧
      reply.success = true ∧ reply.term = leader.persistent.currentTerm ∧ after.log.Views held ∧ led <+: held := by
  have same : termAt kept (n - 1) = termAt led (n - 1) := by
    rw [← termAt_take le_rfl, agreed, termAt_take le_rfl]
  have matched : follower.matchesPrevious (leader.entriesFrom led n) := by
    rw [matchesPrevious_iff pair.viewsToo]
    rcases above with above | ⟨start, _⟩
    · exact Or.inr ⟨above, reached, same⟩
    · exact Or.inl start
  have finds : (firstNew follower.log (led.drop (n - 1))).Finds follower.log kept led := by
    rcases above with above | ⟨start, boundary⟩
    · exact firstNew_finds pair.viewsToo pair.views.numbered pair.matching above reached agreed
    · have below := pair.compactedToo.trans pair.within
      obtain ⟨first, rest, rfl⟩ : ∃ first rest, led = first :: rest := by
        cases led with
        | nil => simp [boundary] at below
        | cons first rest => exact ⟨first, rest, rfl⟩
      have finds := firstNew_finds pair.viewsToo pair.views.numbered pair.matching le_rfl pair.viewsToo.inside
        pair.matches_boundary
      have term : termAt kept 1 = first.term := by
        rw [← termAt_take le_rfl, ← boundary, pair.matches_boundary, boundary]
        rfl
      rw [boundary] at finds
      rw [start, List.drop_zero, firstNew_at_boundary pair.viewsToo boundary pair.views.numbered.1, if_pos term]
      exact finds
  obtain ⟨wal, log, held, reconciled, views, front⟩ :=
    @reconcile_agreed _ _ { follower with role := .follower, leaderID := leader.id } _ pair.viewsToo pair.boundaryToo
      pair.stores pair.views.numbered finds
  have accepted : follower.acceptEntries (leader.entriesFrom led n) .none =
      .done ({ follower with role := .follower, leaderID := leader.id, storage := wal, log := log }.followCommit
        leader.commitIndex) (follower.appendReply true) := by
    rw [acceptEntries, if_neg (not_not.mpr matched)]
    change (reconcileReplicatedEntriesLocked _ (led.drop (n - 1)) .none).andThen _ = _
    simp only [reconciled, entriesFrom, Outcome.andThen_done]
    rfl
  exact ⟨_, _, held, accepted, rfl, pair.term, views, front⟩

/-- A snapshot of the leader leaves the follower with a log that begins like the leader's. -/
theorem restores_log {snapshot : Snapshot} {log : Log}
    (index : snapshot.lastIncludedIndex = leader.log.lastIncludedIndex)
    (term : snapshot.lastIncludedTerm = leader.log.lastIncludedTerm)
    (restored : follower.log.restoreSnapshot snapshot = .ok log) :
    log.lastIncludedIndex = leader.log.lastIncludedIndex ∧ log.lastIncludedTerm = leader.log.lastIncludedTerm ∧
      log.entries = kept.drop leader.log.lastIncludedIndex ∧ ∃ held, log.Views held ∧
        held.take committed <+: led ∧ TermsMatch held led := by
  have length : (led.take leader.log.lastIncludedIndex).length = leader.log.lastIncludedIndex := by
    rw [List.length_take, Nat.min_eq_left (pair.compacted.trans pair.within)]
  have boundaryTerm : termAt (led.take leader.log.lastIncludedIndex) leader.log.lastIncludedIndex =
      leader.log.lastIncludedTerm := by
    rw [termAt_take le_rfl, ← pair.views.term]
  obtain ⟨moved, _, which⟩ := pair.viewsToo.restoreSnapshot (pair.views.numbered.take leader.log.lastIncludedIndex)
    (length.trans index.symm) (by rw [length, boundaryTerm, term]) restored
  rw [index, term] at which
  rw [index] at moved
  rcases which with ⟨views, _, same⟩ | ⟨views, none, outside⟩
  · exact ⟨moved, by rw [views.term, moved, same], by rw [views.entries, moved], kept, views, pair.agree,
      pair.matching⟩
  · have short : kept.length ≤ leader.log.lastIncludedIndex := by
      rcases outside with below | differs
      · exact below.le
      · by_contra long
        rw [← termAt_take le_rfl, pair.take_eq pair.compacted (not_le.mp long).le] at differs
        exact differs boundaryTerm
    refine ⟨moved, by rw [views.term, moved, boundaryTerm], ?_, _, views, ?_, ?_⟩
    · rw [none, List.drop_eq_nil_iff.mpr short]
    · exact (List.take_prefix _ _).trans (List.take_prefix _ _)
    · intro index inside _ _
      rw [length] at inside
      rw [List.take_take, Nat.min_eq_left inside]

/-- A follower that has not compacted further than the leader takes the snapshot. -/
theorem installs (behind : follower.log.lastIncludedIndex ≤ leader.log.lastIncludedIndex) :
    ∃ after reply held, follower.serveInstallSnapshot leader.snapshotCall = some (after, reply) ∧
      reply.success = true ∧ reply.term = leader.persistent.currentTerm ∧
      Replicating leader after led held committed ∧
      after.log.lastIncludedIndex = leader.log.lastIncludedIndex := by
  have index : leader.snapshotCall.lastIncludedIndex = leader.log.lastIncludedIndex := pair.boundary.1
  have current : leader.snapshotCall.term = follower.persistent.currentTerm := pair.term.symm
  rcases behind.eq_or_lt with same | further
  · refine ⟨_, _, kept, serveInstallSnapshot_stale current (same.ge.trans' index.le), rfl, pair.term, ?_, same⟩
    exact ⟨⟨pair.leads, pair.term, pair.views, pair.boundary⟩, pair.restores, pair.viewsToo, pair.boundaryToo,
      pair.stores, pair.compacted, pair.compactedToo, pair.within, pair.agree, pair.matching⟩
  · obtain ⟨after, reply, served, success, replyTerm, persistent, restores, restored, snapshot, entries⟩ :=
      serveInstallSnapshot_ahead current pair.restores (further.trans_eq index.symm)
    obtain ⟨moved, term, dropped, held, views, agree, matching⟩ := pair.restores_log index pair.boundary.2 restored
    refine ⟨after, reply, held, served, success, replyTerm.trans pair.term, ?_, moved⟩
    refine ⟨⟨pair.leads, persistent ▸ pair.term, pair.views, pair.boundary⟩, restores, views, ?_, ?_, pair.compacted,
      moved.trans_le pair.compacted, pair.within, agree, matching⟩
    · rw [StoresBoundary, Contents.loadSnapshot, snapshot, moved, term]
      exact pair.boundary
    · have stores : follower.storage.contents.entries = follower.log.entries := pair.stores
      rw [StoresLog, entries, index, dropped, stores, follower.log.numbered.filter_index, pair.viewsToo.entries,
        List.drop_drop, Nat.add_sub_cancel' further.le]

theorem converges_agreed (next : leader.nextIndex peerID = some n) (above : leader.log.lastIncludedIndex < n)
    (inside : n ≤ led.length + 1) (agreed : kept.take (n - 1) = led.take (n - 1)) (reached : n - 1 ≤ kept.length)
    (aboveToo : follower.log.lastIncludedIndex ≤ n - 1 ∨ n - 1 = 0 ∧ follower.log.lastIncludedIndex = 1) :
    Converges peerID leader follower led := by
  obtain ⟨after, reply, held, answered, accepted, current, views, front⟩ :=
    pair.accepts agreed reached inside aboveToo
  obtain ⟨last, round, same⟩ := pair.round_accepted next above inside answered current accepted
  exact ⟨1, last, after, held, replicateTo_returned round, same, views, front⟩

/-- The snapshot goes first, and then the rest of the leader's log. -/
theorem converges_below (next : leader.nextIndex peerID = some n) (positive : 1 ≤ n)
    (below : n ≤ leader.log.lastIncludedIndex)
    (behind : follower.log.lastIncludedIndex ≤ leader.log.lastIncludedIndex) :
    Converges peerID leader follower led := by
  obtain ⟨after, reply, held, answered, accepted, current, installed, moved⟩ := pair.installs behind
  have round := pair.round_below next below (by omega) answered current accepted
  refine .of_again round rfl ?_
  have reached := installed.viewsToo.inside
  have agreed := installed.matches_boundary
  have within := pair.compacted.trans pair.within
  rw [moved] at agreed reached
  have recorded : Replicating (leader.recordInstalled peerID leader.log.lastIncludedIndex).advanceCommitIndexLocked
      after led held committed := { installed with toServes := installed.toServes.recordInstalled _ _ }
  exact recorded.converges_agreed (recordInstalled_nextIndex next below) (Nat.lt_succ_self _) (by omega) agreed
    reached (Or.inl moved.le)

/-- A call is accepted at the latest where it continues the follower's boundary. -/
theorem converges_above (next : leader.nextIndex peerID = some n) (above : leader.log.lastIncludedIndex < n)
    (inside : n ≤ led.length + 1)
    (catches : follower.log.lastIncludedIndex ≤ max leader.log.lastIncludedIndex 1 ∨
      follower.log.lastIncludedIndex < n) : Converges peerID leader follower led := by
  induction n generalizing leader with
  | zero => omega
  | succ previous ih =>
      by_cases matched : follower.matchesPrevious (leader.entriesFrom led (previous + 1))
      · rw [matchesPrevious_iff pair.viewsToo, Nat.add_sub_cancel] at matched
        rcases matched with start | ⟨aboveToo, reached, same⟩
        · subst start
          exact pair.converges_agreed next above inside rfl (Nat.zero_le _) (by omega)
        · exact pair.converges_agreed next above inside
            (pair.matching previous reached (Nat.le_of_succ_le_succ inside) same) reached (Or.inl aboveToo)
      · have rejected : follower.acceptEntries (leader.entriesFrom led (previous + 1)) .none =
            .done follower (follower.appendReply false) := if_pos matched
        have round := pair.round_rejected next above inside rejected pair.term rfl
        rw [matchesPrevious_iff pair.viewsToo, Nat.add_sub_cancel] at matched
        have elsewhere : follower.log.lastIncludedIndex ≠ previous := by
          rintro rfl
          refine matched (Or.inr ⟨le_rfl, pair.viewsToo.inside, ?_⟩)
          rw [← termAt_take le_rfl, pair.matches_boundary, termAt_take le_rfl]
        have backed : Replicating (leader.backOff peerID) follower led kept committed :=
          { pair with toServes := pair.toServes.backOff peerID }
        have again := backOff_nextIndex next (by omega)
        refine .of_again round rfl ?_
        rcases Nat.lt_or_ge leader.log.lastIncludedIndex previous with still | reached
        · exact ih backed again still (by omega) (by omega)
        · exact backed.converges_below again (by omega) reached (show _ ≤ leader.log.lastIncludedIndex by omega)

end Replicating

/-- Below its boundary a follower has nothing to compare with, unless nothing comes before the entries. -/
theorem acceptEntries_below (further : 1 < n) (behind : n ≤ follower.log.lastIncludedIndex) :
    follower.acceptEntries (leader.entriesFrom led n) .none = .done follower (follower.appendReply false) := by
  have missing : follower.log.get (n - 1) = none := Log.Views.get_below (by omega)
  refine if_pos ?_
  rw [matchesPrevious, decide_eq_true_iff]
  change ¬ (n - 1 = 0 ∨ (follower.log.get (n - 1)).any _ = true)
  rw [missing]
  simp
  omega

/-- The follower has compacted further than the leader, and the leader sends what it no longer has. -/
structure Chases (peerID : NodeID) (leader follower : RaftNode) (led : List LogEntry) : Prop extends
    Serves leader follower led where
  ahead : leader.log.lastIncludedIndex < follower.log.lastIncludedIndex
  further : 1 < follower.log.lastIncludedIndex
  reached : follower.log.lastIncludedIndex ≤ led.length
  behind : ∃ n, leader.nextIndex peerID = some n ∧ 1 ≤ n ∧ n ≤ follower.log.lastIncludedIndex

namespace Chases

variable (chase : Chases peerID leader follower led)

include chase

/-- The first entry is missing below the boundary and cannot be appended behind it. -/
theorem rejects_first : ∃ wal, follower.acceptEntries (leader.entriesFrom led 1) .none =
    .done { follower with role := .follower, leaderID := leader.id, storage := wal }
      (follower.appendReply false) := by
  have further := chase.further
  obtain ⟨first, rest, rfl⟩ : ∃ first rest, led = first :: rest := by
    cases led with
    | nil => exact absurd chase.reached (not_le.mpr (Nat.zero_lt_of_lt further))
    | cons first rest => exact ⟨first, rest, rfl⟩
  have one : first.index = 1 := chase.views.numbered.1
  have missing : firstNew follower.log (first :: rest) = .missing (first :: rest) := by
    have none : follower.log.get first.index = none := Log.Views.get_below (one.trans_lt further)
    rw [firstNew, none]
  have gap : first.index ≠ follower.log.lastIndex + 1 := by
    rw [follower.log.lastIndex_eq]
    omega
  obtain ⟨error, refused⟩ := appendEach_refused follower.log rest gap
  have matched : ¬ ¬ follower.matchesPrevious (leader.entriesFrom (first :: rest) 1) := by
    rw [not_not, matchesPrevious, decide_eq_true_iff]
    exact Or.inl rfl
  rw [acceptEntries, if_neg matched]
  simp only [entriesFrom, Nat.sub_self, List.drop_zero, reconcileReplicatedEntriesLocked, missing]
  cases tried : WALStorage.appendEntries (first :: rest) follower.storage with
  | error error =>
      refine ⟨follower.storage, ?_⟩
      simp only [WALStorage.writeSync, tried, Outcome.andThen_done]
      rfl
  | ok written =>
      refine ⟨written.sync, ?_⟩
      simp only [WALStorage.writeSync, tried, publishEntries, refused, Outcome.andThen_done]
      rfl

/-- A stale snapshot moves the index forwards, a rejection moves it backwards, and it never passes the
follower's boundary. -/
theorem round : ∃ leader' follower', replicateRound peerID leader follower = some (.again leader' follower') ∧
    Chases peerID leader' follower' led := by
  obtain ⟨n, next, positive, behind⟩ := chase.behind
  have ahead := chase.ahead
  have reached := chase.reached
  rcases Nat.lt_or_ge leader.log.lastIncludedIndex n with above | below
  · rcases positive.eq_or_lt with rfl | further
    · obtain ⟨wal, rejected⟩ := chase.rejects_first
      refine ⟨_, _, chase.round_rejected next above (by omega) rejected chase.term rfl, ?_⟩
      refine ⟨⟨chase.leads, chase.term, chase.views, chase.boundary⟩, ahead, chase.further, reached, 1, ?_, le_rfl,
        behind⟩
      simp [backOff, next]
    · refine ⟨_, _,
        chase.round_rejected next above (by omega) (acceptEntries_below further behind) chase.term rfl, ?_⟩
      exact ⟨chase.toServes.backOff peerID, ahead, chase.further, reached, n - 1,
        backOff_nextIndex next further, by omega, by omega⟩
  · have index : leader.snapshotCall.lastIncludedIndex = leader.log.lastIncludedIndex := chase.boundary.1
    have answered := @serveInstallSnapshot_stale follower leader.snapshotCall chase.term.symm (by omega)
    refine ⟨_, _, chase.round_below next below (by omega) answered chase.term rfl, ?_⟩
    exact ⟨⟨chase.leads, chase.term, chase.views, chase.boundary⟩, ahead, chase.further, reached,
      leader.log.lastIncludedIndex + 1, recordInstalled_nextIndex next below, by omega, ahead⟩

theorem never_returns (rounds : ℕ) : replicateTo peerID rounds leader follower = none := by
  induction rounds generalizing leader follower with
  | zero => rfl
  | succ rounds ih =>
      obtain ⟨_, _, round, chases⟩ := chase.round
      rw [replicateTo_again round, ih chases]

end Chases

/-- The loop ends with the follower caught up if and only if the follower has not compacted further than
the leader, or no further than its first entry, or the leader starts behind the follower's boundary. -/
theorem replicateTo_converges_iff (pair : Replicating leader follower led kept committed)
    (next : leader.nextIndex peerID = some n) (positive : 1 ≤ n) (inside : n ≤ leader.log.lastIndex + 1) :
    Converges peerID leader follower led ↔
      follower.log.lastIncludedIndex ≤ max leader.log.lastIncludedIndex 1 ∨ follower.log.lastIncludedIndex < n := by
  rw [pair.views.lastIndex] at inside
  constructor
  · rintro ⟨rounds, _, _, _, ended, _⟩
    by_contra apart
    have chase : Chases peerID leader follower led := ⟨pair.toServes, by omega, by omega,
      pair.compactedToo.trans pair.within, n, next, positive, by omega⟩
    rw [chase.never_returns rounds] at ended
    cases ended
  · intro catches
    rcases Nat.lt_or_ge leader.log.lastIncludedIndex n with above | below
    · exact pair.converges_above next above inside catches
    · exact pair.converges_below next positive below (by omega)

/-- A node of term 2 with a snapshot and what follows it, in its log and in its storage.  As a leader it
sends to every peer from the first index on, as it does to a new member. -/
def holding (id : NodeID) (role : Role) (snapshot : Snapshot) (entries : List LogEntry)
    (numbered : Numbered snapshot.lastIncludedIndex entries)
    (boundary : snapshot.lastIncludedIndex = 0 → snapshot.lastIncludedTerm = 0) : RaftNode where
  id := id
  persistent := { Contents.empty.state with currentTerm := 2 }
  commitIndex := snapshot.lastIncludedIndex
  lastApplied := snapshot.lastIncludedIndex
  nextIndex := fun _ => some 1
  matchIndex := fun _ => 0
  votesReceived := []
  role := role
  leaderID := ""
  log := ⟨entries, snapshot.lastIncludedIndex, snapshot.lastIncludedTerm, numbered, boundary⟩
  storage := ((WALStorage.openEmpty.appendRecord (.snapshot snapshot)).appendRecord (.entries entries)).sync
  peerIDs := []
  canRestore := true
  storageWriteBlocked := false

def leaderLog : List LogEntry := [⟨1, 1, [7]⟩, ⟨2, 1, [8]⟩, ⟨3, 2, [9]⟩]

/-- A log of another leader, of which two entries were committed. -/
def divergentLog : List LogEntry := [⟨1, 1, [7]⟩, ⟨2, 1, [8]⟩, ⟨3, 1, [5]⟩, ⟨4, 1, [6]⟩]

/-- A leader that has compacted what is committed overwrites a follower that has compacted nothing. -/
theorem divergent_follower_converges : ∃ leader follower : RaftNode, leader.log.lastIncludedIndex = 2 ∧
    leader.nextIndex "B" = some 1 ∧ follower.log.entries = divergentLog ∧
    Converges "B" leader follower leaderLog := by
  have pair : Replicating (holding "A" .leader ⟨2, 1, []⟩ [⟨3, 2, [9]⟩] (by decide) (by decide))
      (holding "B" .follower ⟨0, 0, []⟩ divergentLog (by decide) (by decide)) leaderLog divergentLog 2 :=
    ⟨⟨rfl, rfl, ⟨by decide, by decide, rfl, rfl⟩, rfl, rfl⟩, rfl, ⟨by decide, by decide, rfl, rfl⟩, ⟨rfl, rfl⟩, rfl,
      by decide, by decide, by decide, by decide, by decide⟩
  exact ⟨_, _, rfl, rfl, rfl, (replicateTo_converges_iff pair rfl le_rfl (by decide)).mpr (Or.inl (by decide))⟩

/-- The leader has compacted one entry, the follower two: the snapshot is stale, the entry behind it is
rejected, and then the snapshot is sent again. -/
theorem compacted_follower_chased : ∃ leader follower : RaftNode,
    Replicating leader follower leaderLog (leaderLog.take 2) 2 ∧ leader.log.lastIncludedIndex = 1 ∧
      follower.log.lastIncludedIndex = 2 ∧ leader.nextIndex "B" = some 1 ∧
      ∀ rounds, replicateTo "B" rounds leader follower = none := by
  have pair : Replicating (holding "A" .leader ⟨1, 1, []⟩ [⟨2, 1, [8]⟩, ⟨3, 2, [9]⟩] (by decide) (by decide))
      (holding "B" .follower ⟨2, 1, []⟩ [] (by decide) (by decide)) leaderLog (leaderLog.take 2) 2 :=
    ⟨⟨rfl, rfl, ⟨by decide, by decide, rfl, rfl⟩, rfl, rfl⟩, rfl, ⟨by decide, by decide, rfl, rfl⟩, ⟨rfl, rfl⟩, rfl,
      by decide, by decide, by decide, by decide, by decide⟩
  have chase : Chases "B" (holding "A" .leader ⟨1, 1, []⟩ [⟨2, 1, [8]⟩, ⟨3, 2, [9]⟩] (by decide) (by decide))
      (holding "B" .follower ⟨2, 1, []⟩ [] (by decide) (by decide)) leaderLog :=
    ⟨pair.toServes, by decide, by decide, by decide, 1, rfl, by decide, by decide⟩
  exact ⟨_, _, pair, rfl, rfl, rfl, chase.never_returns⟩

end RaftNode

end Raftiq
