import Raftiq.Refinement.Election
import Raftiq.Refinement.Reconcile
import Raftiq.Refinement.Storage

namespace Raftiq

open Consensus

variable {cluster : Cluster} {regime : Regime} {h : History} {v : NodeID} {node after : RaftNode}
  {fault : Fault} {args : AppendEntriesArgs}

namespace AppendEntriesArgs

/-- The leader's log up to the last entry of a call. -/
def incoming (args : AppendEntriesArgs) (h : History) : List LogEntry :=
  (h.led args.term).take (args.prevLogIndex + args.entries.length)

variable (sound : args.Sound cluster regime h)

include sound

theorem Sound.length_incoming : (args.incoming h).length = args.prevLogIndex + args.entries.length := by
  rw [incoming, List.length_take, Nat.min_eq_left sound.within]

theorem Sound.entries_eq : args.entries = (args.incoming h).drop args.prevLogIndex :=
  sound.entries

theorem Sound.termAt_incoming : termAt (args.incoming h) args.prevLogIndex = args.prevLogTerm := by
  rw [sound.previous, incoming, termAt_take (by omega)]

theorem Sound.isSome : (h.leader args.term).isSome := by
  rw [sound.leader]
  rfl

end AppendEntriesArgs

namespace Cluster.Valid

variable (valid : cluster.Valid h)

include valid

theorem numbered_incoming (args : AppendEntriesArgs) : Numbered 0 (args.incoming h) :=
  (valid.numbered _).take _

theorem rooted_incoming (args : AppendEntriesArgs) : h.Rooted (args.incoming h) :=
  (valid.sound.led_rooted _).of_front (List.take_prefix _ _)

theorem bounded_incoming (args : AppendEntriesArgs) : ∀ entry ∈ args.incoming h, entry.term ≤ args.term :=
  fun entry member => valid.sound.led_bounded _ entry (List.take_subset _ _ member)

/-- A secured part of a log survives what a leader of its term sends. -/
theorem take_merge {log : List LogEntry} {c t : ℕ} (within : c ≤ log.length)
    (secured : h.Secured cluster.Quorum t (log.take c)) (leads : (h.leader t).isSome) (m : ℕ) :
    (Ledger.merge log ((h.led t).take m)).take c = log.take c ∧
      c ≤ (Ledger.merge log ((h.led t).take m)).length := by
  have kept : log.take c <+: Ledger.merge log ((h.led t).take m) :=
    secured.prefix_merge valid.sound cluster.quorum_intersects (List.take_prefix _ _) le_rfl leads
  have length := kept.length_le
  rw [List.length_take, Nat.min_eq_left within] at length
  rw [List.prefix_iff_eq_take, List.length_take, Nat.min_eq_left within] at kept
  exact ⟨kept.symm, length⟩

end Cluster.Valid

namespace RaftNode

/-- How far the commit index of a follower may go when a call has been accepted. -/
def Fits (regime : Regime) (node : RaftNode) (args : AppendEntriesArgs) : Prop :=
  regime.commits →
    args.leaderCommit ≤ max node.commitIndex (args.prevLogIndex + args.entries.length) ∨
      args.entries = [] ∧
        node.log.lastIndex ≤ max node.commitIndex (args.prevLogIndex + args.entries.length)

instance (regime : Regime) (node : RaftNode) (args : AppendEntriesArgs) : Decidable (node.Fits regime args) :=
  inferInstanceAs (Decidable (_ → _ ∨ _))

/-- How the entries of a call end up in the log and in storage: merged into both, refused
by one of them, or cut short by a crash. -/
inductive Reconciled (h : History) (v : NodeID) (node : RaftNode) (merged : List LogEntry) :
    Outcome (Except ReconcileError Unit) → Prop where
  | merged {wal : WALStorage} {log : Log} {entries : List LogEntry}
      (views : log.Views merged) (boundary : log.lastIncludedIndex = node.log.lastIncludedIndex)
      (synced : wal.synced = wal.file.length)
      (contents : wal.contents = { node.storage.contents with entries := entries })
      (kept : EntriesKept h (h.term v) merged node.log.lastIncludedIndex entries) :
      Reconciled h v node merged (.done { node with storage := wal, log := log } (.ok ()))
  | refused {wal : WALStorage} {entries : List LogEntry} (error : ReconcileError)
      (synced : wal.synced = wal.file.length)
      (contents : wal.contents = { node.storage.contents with entries := entries })
      (kept : EntriesKept h (h.term v) (h.log v) node.log.lastIncludedIndex entries) :
      Reconciled h v node merged (.done { node with storage := wal } (.error error))
  | crashed {record : Record} {entries log : List LogEntry}
      (contents : record.effect node.storage.contents = { node.storage.contents with entries := entries })
      (either : log = merged ∨ log = h.log v)
      (kept : EntriesKept h (h.term v) log node.log.lastIncludedIndex entries) :
      Reconciled h v node merged (.crashed (node.storage.appendRecord record))

/-- Calls that carry no entries find the log as it is. -/
theorem reconcile_empty {after : RaftNode} {result : Except ReconcileError Unit}
    (reconciled : node.reconcileReplicatedEntriesLocked args.entries fault = .done after result)
    (empty : args.entries = []) : after.log = node.log := by
  rw [empty] at reconciled
  cases reconciled
  rfl

/-- Where a follower's commit index goes. -/
theorem followCommit_cases (node : RaftNode) (leaderCommit : ℕ) :
    (node.followCommit leaderCommit).commitIndex = node.commitIndex ∨
      node.commitIndex < leaderCommit ∧ (node.followCommit leaderCommit).commitIndex ≤ leaderCommit ∧
        ((node.followCommit leaderCommit).commitIndex = leaderCommit ∧ leaderCommit < node.log.lastIndex ∨
          (node.followCommit leaderCommit).commitIndex = node.log.lastIndex) := by
  unfold followCommit
  dsimp only
  split
  · split
    · exact Or.inr ⟨by omega, le_rfl, Or.inl ⟨rfl, by omega⟩⟩
    · exact Or.inr ⟨by omega, by omega, Or.inr rfl⟩
  · exact Or.inl rfl

variable (tracks : node.Tracks cluster regime h v)

include tracks

theorem Reconciled.unchanged (merged : List LogEntry) (error : ReconcileError) :
    Reconciled h v node merged (.done node (.error error)) :=
  .refused error tracks.synced rfl tracks.stored.entries

/-- The entries are searched from an index up to which the logs agree. -/
theorem reconciled_of_finds {incoming entries : List LogEntry} (numbered : Numbered 0 incoming)
    (finds : (firstNew node.log entries).Finds node.log (h.log v) incoming) (works : fault.Works) :
    Reconciled h v node (Ledger.merge (h.log v) incoming)
      (node.reconcileReplicatedEntriesLocked entries fault) := by
  have views := tracks.log
  unfold reconcileReplicatedEntriesLocked
  cases found : firstNew node.log entries with
  | nothing =>
      rw [found] at finds
      rw [Ledger.merge_of_front finds]
      exact .merged views rfl tracks.synced rfl tracks.stored.entries
  | missing rest =>
      rw [found] at finds
      obtain ⟨below, shorter, tail⟩ := finds
      have longer : Ledger.merge (h.log v) incoming = h.log v ++ rest := by
        obtain ⟨back, whole⟩ := below
        rw [Ledger.merge_of_not_front fun above => by have := above.length_le; omega, tail, ← whole]
        simp
      have nonempty : rest ≠ [] := by
        rw [tail]
        exact fun nil => absurd (List.drop_eq_nil_iff.mp nil) (by omega)
      have restNumbered : Numbered (h.log v).length rest := by
        have dropped := numbered.drop (h.log v).length shorter.le
        rw [tail]
        simpa using dropped
      obtain ⟨first, others, split⟩ := List.exists_cons_of_ne_nil nonempty
      have next : first.index = (h.log v).length + 1 := by
        rw [split] at restNumbered
        exact restNumbered.1
      dsimp only
      rw [longer]
      rcases WALStorage.appendEntries_works works nonempty with ⟨error, failed⟩ | ⟨fits, saved | crashed⟩
      · rw [failed]
        exact .unchanged tracks _ _
      · obtain ⟨log, each, viewsAfter, boundary⟩ := appendEach_ok views restNumbered
        rw [saved]
        unfold publishEntries
        rw [each]
        exact .merged viewsAfter boundary rfl rfl
          (tracks.stored.entries.append views.inside (by rw [split]; rfl) next fits)
      · rw [crashed]
        exact .crashed rfl (Or.inl rfl)
          (tracks.stored.entries.append views.inside (by rw [split]; rfl) next fits)
  | conflict start rest =>
      rw [found] at finds
      obtain ⟨above, within, reached, agree, tail, outside⟩ := finds
      have replaced : Ledger.merge (h.log v) incoming = (h.log v).take (start - 1) ++ rest := by
        rw [Ledger.merge_of_not_front outside, agree, tail, List.take_append_drop]
      have restNumbered : Numbered ((h.log v).take (start - 1)).length rest := by
        have dropped := numbered.drop (start - 1) (by omega)
        rw [tail, List.length_take, Nat.min_eq_left (by omega)]
        simpa using dropped
      dsimp only
      rw [replaced]
      rcases WALStorage.replaceSuffix_works works with ⟨error, failed⟩ | ⟨_, saved | crashed⟩
      · rw [failed]
        exact .unchanged tracks _ _
      · obtain ⟨viewsFront, sameFront⟩ := views.truncateFrom above
        obtain ⟨log, each, viewsAfter, boundary⟩ := appendEach_ok viewsFront restNumbered
        rw [saved]
        unfold publishEntries
        rw [each]
        exact .merged viewsAfter (boundary.trans sameFront) rfl rfl
          (tracks.stored.entries.replace views.numbered above within)
      · rw [crashed]
        exact .crashed rfl (Or.inl rfl) (tracks.stored.entries.replace views.numbered above within)

/-- Entries from the beginning arrive at a node that has compacted more than one entry. -/
theorem reconciled_of_rewind (valid : cluster.Valid h) (current : args.term = h.term v)
    (sound : args.Sound cluster regime h) (start : args.prevLogIndex = 0)
    (compacted : 1 < node.log.lastIncludedIndex) {first : LogEntry} {rest : List LogEntry}
    (entries : args.entries = first :: rest) (works : fault.Works) (merged : List LogEntry) :
    Reconciled h v node merged (node.reconcileReplicatedEntriesLocked args.entries fault) := by
  have incoming : args.entries = args.incoming h := by
    rw [sound.entries_eq, start, List.drop_zero]
  have numbered := valid.numbered_incoming args
  rw [← incoming] at numbered
  have one : first.index = 1 := by
    rw [entries] at numbered
    exact numbered.1
  have missing : firstNew node.log args.entries = .missing args.entries := by
    rw [entries, firstNew, one, Log.Views.get_below compacted]
  have kept : validateAppend node.storage.contents.entries args.entries = .ok () →
      EntriesKept h (h.term v) (h.log v) node.log.lastIncludedIndex
        (node.storage.contents.entries ++ args.entries) := by
    intro fits
    apply tracks.stored.entries.rewind tracks.log.numbered tracks.log.inside (by omega) numbered
      (by simp [entries])
    · rw [incoming]
      exact valid.rooted_incoming args
    · rw [incoming, ← current]
      exact valid.bounded_incoming args
    · have leads : (h.leader (h.term v)).isSome := current ▸ sound.isSome
      have inside := tracks.boundary.inside_led valid.sound cluster.quorum_intersects le_rfl leads
      rw [incoming]
      apply List.prefix_or_prefix_of_prefix inside
      rw [← current]
      exact List.take_prefix _ _
    · exact fits
  unfold reconcileReplicatedEntriesLocked
  rw [missing]
  dsimp only
  have nonempty : args.entries ≠ [] := by simp [entries]
  rcases WALStorage.appendEntries_works works nonempty with ⟨error, failed⟩ | ⟨fits, saved | crashed⟩
  · rw [failed]
    exact .unchanged tracks _ _
  · have last := tracks.log.lastIndex
    have inside := tracks.log.inside
    obtain ⟨error, refused⟩ := appendEach_refused node.log rest
      (show first.index ≠ node.log.lastIndex + 1 by omega)
    rw [saved]
    unfold publishEntries
    rw [entries, refused]
    rw [entries] at kept fits
    exact .refused _ rfl rfl (kept fits)
  · rw [crashed]
    exact .crashed rfl (Or.inr rfl) (kept fits)

/-- The first entry arrives at a node that has compacted just this one: it is compared
with the boundary, and the storage lets nobody replace it. -/
theorem reconciled_at_boundary (valid : cluster.Valid h) (sound : args.Sound cluster regime h)
    (start : args.prevLogIndex = 0) (single : node.log.lastIncludedIndex = 1) {first : LogEntry}
    {rest : List LogEntry} (entries : args.entries = first :: rest)
    (agreed : ∀ p, node.log.lastIncludedIndex ≤ p → p ≤ (h.log v).length →
      p ≤ (args.incoming h).length → termAt (h.log v) p = termAt (args.incoming h) p →
      (firstNew node.log ((args.incoming h).drop p)).Finds node.log (h.log v) (args.incoming h))
    (works : fault.Works) :
    Reconciled h v node (Ledger.merge (h.log v) (args.incoming h))
      (node.reconcileReplicatedEntriesLocked args.entries fault) := by
  have views := tracks.log
  have inside := views.inside
  have numbered := valid.numbered_incoming args
  have incoming : args.incoming h = first :: rest := by
    rw [← entries, sound.entries_eq, start, List.drop_zero]
  have one : first.index = 1 := by
    rw [incoming] at numbered
    exact numbered.1
  have found : firstNew node.log args.entries = _ := entries ▸ firstNew_at_boundary views single one
  have firstTerm : termAt (args.incoming h) 1 = first.term := by
    rw [incoming]
    rfl
  by_cases same : termAt (h.log v) 1 = first.term
  · have skips : firstNew node.log args.entries = firstNew node.log ((args.incoming h).drop 1) := by
      rw [found, if_pos same, incoming]
      rfl
    have finds := agreed 1 (by omega) (by omega) (by simp [incoming]) (by rw [same, firstTerm])
    rw [← skips] at finds
    exact reconciled_of_finds tracks numbered finds works
  · have conflict : firstNew node.log args.entries = .conflict 1 args.entries := by
      rw [found, if_neg same, entries]
    unfold reconcileReplicatedEntriesLocked
    rw [conflict]
    dsimp only
    rcases WALStorage.replaceSuffix_works works with ⟨error, failed⟩ | ⟨free, _⟩
    · rw [failed]
      exact .unchanged tracks _ _
    · cases stored : node.storage.contents.snapshot with
      | none =>
          have zero := tracks.stored.missing stored
          omega
      | some snapshot =>
          have below := free snapshot stored
          have above := (tracks.stored.snapshot snapshot stored).2.1
          omega

theorem reconcile_reconciled (valid : cluster.Valid h) (current : args.term = h.term v)
    (sound : args.Sound cluster regime h) (matched : node.matchesPrevious args) (works : fault.Works) :
    Reconciled h v node (Ledger.merge (h.log v) (args.incoming h))
      (node.reconcileReplicatedEntriesLocked args.entries fault) := by
  have views := tracks.log
  have rooted := valid.sound.log_rooted v
  have rootedToo := valid.rooted_incoming args
  have numbered := valid.numbered_incoming args
  have length := sound.length_incoming
  have agreed : ∀ p, node.log.lastIncludedIndex ≤ p → p ≤ (h.log v).length → p ≤ (args.incoming h).length →
      termAt (h.log v) p = termAt (args.incoming h) p →
      (firstNew node.log ((args.incoming h).drop p)).Finds node.log (h.log v) (args.incoming h) :=
    fun p above inside short same => firstNew_finds views numbered (termsMatch_of_rooted rooted rootedToo)
      above inside (take_eq_of_termAt rooted rootedToo inside short same)
  simp only [matchesPrevious, decide_eq_true_eq] at matched
  rcases matched with start | found
  · cases entries : args.entries with
    | nil =>
        have none : args.incoming h = [] := by
          apply List.eq_nil_of_length_eq_zero
          simp [length, start, entries]
        refine reconciled_of_finds tracks numbered ?_ works
        rw [none]
        exact List.nil_prefix
    | cons first rest =>
        rw [← entries]
        rcases Nat.lt_or_ge 1 node.log.lastIncludedIndex with compacted | short
        · exact reconciled_of_rewind tracks valid current sound start compacted entries works _
        · rcases Nat.eq_zero_or_pos node.log.lastIncludedIndex with uncompacted | positive
          · have finds := agreed 0 (by omega) (by omega) (by omega) rfl
            rw [← start, ← sound.entries_eq] at finds
            exact reconciled_of_finds tracks numbered finds works
          · exact reconciled_at_boundary tracks valid sound start (by omega) entries agreed works
  · cases previous : node.log.get args.prevLogIndex with
    | none => simp [previous] at found
    | some entry =>
        obtain ⟨_, above, inside, _, term⟩ := views.get_some previous
        simp only [previous, Option.any_some, decide_eq_true_eq] at found
        have finds := agreed args.prevLogIndex above inside (by omega)
          (by rw [← term, found, sound.termAt_incoming])
        rw [← sound.entries_eq] at finds
        exact reconciled_of_finds tracks numbered finds works

/-- The node has taken over what the leader of its term has sent. -/
structure Accepts (h : History) (v : NodeID) (args : AppendEntriesArgs) (node after : RaftNode) : Prop where
  id : after.id = node.id
  persistent : after.persistent = node.persistent
  role : after.role = .follower
  applied : after.lastApplied = node.lastApplied
  views : after.log.Views (Ledger.merge (h.log v) (args.incoming h))
  boundary : after.log.lastIncludedIndex = node.log.lastIncludedIndex
  synced : after.storage.synced = after.storage.file.length
  contents : ∃ entries, after.storage.contents = { node.storage.contents with entries := entries } ∧
    EntriesKept h (h.term v) (Ledger.merge (h.log v) (args.incoming h)) node.log.lastIncludedIndex entries
  committed : after.log.lastIncludedIndex ≤ after.commitIndex

theorem Tracks.accept (valid : cluster.Valid h) (current : args.term = h.term v)
    (sound : args.Sound cluster regime h) (accepts : Accepts h v args node after)
    (commit : regime.commits → after.commitIndex = node.commitIndex ∨
      after.commitIndex ≤ args.leaderCommit ∧
        after.commitIndex ≤ args.prevLogIndex + args.entries.length) :
    after.Tracks cluster regime (h.accept v args.term (args.prevLogIndex + args.entries.length)) v := by
  have leads := sound.isSome
  have moves : h.Moves v (h.accept v args.term (args.prevLogIndex + args.entries.length)) :=
    Ledger.accept_moves current.ge sound.within
  have merged : (h.accept v args.term (args.prevLogIndex + args.entries.length)).log v =
      Ledger.merge (h.log v) (args.incoming h) := by
    simp [AppendEntriesArgs.incoming]
  have term : (h.accept v args.term (args.prevLogIndex + args.entries.length)).term v = h.term v := by
    simp [current]
  have kept : ∀ c, c ≤ (h.log v).length → h.Secured cluster.Quorum (h.term v) ((h.log v).take c) →
      (Ledger.merge (h.log v) (args.incoming h)).take c = (h.log v).take c ∧
        c ≤ (Ledger.merge (h.log v) (args.incoming h)).length := by
    intro c within secured
    rw [← current] at secured
    exact valid.take_merge within secured leads _
  have inside : args.incoming h <+: Ledger.merge (h.log v) (args.incoming h) := Ledger.prefix_merge _ _
  refine { id := accepts.id.trans tracks.id, term := ?_, vote := ?_,
           membership := accepts.persistent ▸ tracks.membership, log := merged ▸ accepts.views,
           stands := ?_, leads := ?_, boundary := ?_, applied := ?_, committed := ?_, commit := ?_,
           synced := accepts.synced, stored := ?_ }
  · rw [accepts.persistent, term]
    exact tracks.term
  · rw [accepts.persistent, term]
    exact tracks.vote
  · simp [accepts.role]
  · simp [accepts.role]
  · rw [merged, term, accepts.boundary, (kept _ tracks.log.inside tracks.boundary).1]
    exact tracks.boundary.mono moves.keeps le_rfl
  · rw [accepts.boundary, accepts.applied]
    exact tracks.applied
  · exact accepts.committed
  · intro commits
    obtain ⟨within, secured⟩ := tracks.commit commits
    rw [merged, term]
    rcases commit commits with same | ⟨committed, short⟩
    · rw [same, (kept _ within secured).1]
      exact ⟨(kept _ within secured).2, secured.mono moves.keeps le_rfl⟩
    · have length := inside.length_le
      rw [sound.length_incoming] at length
      refine ⟨short.trans length, Ledger.Secured.mono ?_ moves.keeps le_rfl⟩
      rw [take_eq_of_front inside (by rw [sound.length_incoming]; exact short), ← current]
      apply (sound.commit commits).secured valid leads
      · exact (List.take_prefix _ _).trans (List.take_prefix _ _)
      · rw [List.length_take]
        omega
  · obtain ⟨entries, contents, keptEntries⟩ := accepts.contents
    rw [merged, term, accepts.boundary, contents]
    exact (tracks.stored.withEntries keptEntries).mono moves.keeps

theorem Accepts.followCommit (valid : cluster.Valid h) (current : args.term = h.term v)
    (sound : args.Sound cluster regime h) (accepts : Accepts h v args node after)
    (same : after.commitIndex = node.commitIndex) (unchanged : args.entries = [] → after.log = node.log)
    (fits : node.Fits regime args) :
    Accepts h v args node (after.followCommit args.leaderCommit) ∧
      (regime.commits → (after.followCommit args.leaderCommit).commitIndex = node.commitIndex ∨
        (after.followCommit args.leaderCommit).commitIndex ≤ args.leaderCommit ∧
          (after.followCommit args.leaderCommit).commitIndex ≤
            args.prevLogIndex + args.entries.length) := by
  have last := accepts.views.lastIndex
  have inside := accepts.views.inside
  have committed := accepts.committed
  have moved := after.followCommit_cases args.leaderCommit
  refine ⟨{ accepts with committed := ?_ }, ?_⟩
  · change after.log.lastIncludedIndex ≤ (after.followCommit args.leaderCommit).commitIndex
    omega
  · intro commits
    obtain ⟨within, secured⟩ := tracks.commit commits
    rw [← current] at secured
    have kept := (valid.take_merge within secured sound.isSome
      (args.prevLogIndex + args.entries.length)).2
    rw [← AppendEntriesArgs.incoming] at kept
    rcases fits commits with close | ⟨empty, short⟩
    · omega
    · rw [unchanged empty] at moved last
      omega

/-- What an accepted call has done: the entries it covers are stored and agree with the
leader's, and the commit index does not go beyond them. -/
structure Accepted (regime : Regime) (later : History) (v : NodeID) (args : AppendEntriesArgs)
    (node after : RaftNode) : Prop where
  acked : ∀ i, i ≤ args.prevLogIndex + args.entries.length → later.acked v args.term i
  held : args.incoming later <+: later.log v
  bounded : regime.commits →
    after.commitIndex ≤ max node.commitIndex (args.prevLogIndex + args.entries.length)

theorem acceptEntries_follows (valid : cluster.Valid h) (current : args.term = h.term v)
    (sound : args.Sound cluster regime h) (fits : node.Fits regime args) (works : fault.Works) :
    (node.acceptEntries args fault).Follows cluster regime h v
      (fun later after reply => reply.success → Accepted regime later v args node after) := by
  unfold acceptEntries
  split
  · exact Outcome.follows_done valid tracks fun success => by simp [appendReply] at success
  · rename_i matched
    have follower : RaftNode.Tracks cluster regime h v
        { node with role := .follower, leaderID := args.leaderID } :=
      { tracks with
        stands := fun candidate => nomatch (candidate : Role.follower = .candidate)
        leads := fun leader => nomatch (leader : Role.follower = .leader) }
    have reconciled := reconcile_reconciled follower valid current sound (not_not.mp matched) works
    generalize outcome : { node with role := .follower, leaderID := args.leaderID
      }.reconcileReplicatedEntriesLocked args.entries fault = result at reconciled ⊢
    cases reconciled with
    | refused error synced contents kept =>
        refine Outcome.follows_done valid (follower.withStorage synced ?_)
          fun success => by simp [appendReply] at success
        rw [contents]
        exact tracks.stored.withEntries kept
    | crashed contents either kept =>
        refine ⟨h, .refl h v, valid, ?_⟩
        have stored := tracks.stored.withEntries kept
        rw [← contents] at stored
        rcases either with rfl | rfl
        · have short := sound.within
          rw [current] at short
          have promise : Promise h v _ _ _ := .accept _ (current ▸ sound.isSome) short
          rw [AppendEntriesArgs.incoming, current] at stored
          exact tracks.unsynced promise stored
        · exact tracks.unsynced .nothing stored
    | @merged wal log entries views boundary synced contents kept =>
        have moves : h.Moves v (h.accept v args.term (args.prevLogIndex + args.entries.length)) :=
          Ledger.accept_moves current.ge sound.within
        have unchanged := reconcile_empty outcome
        have accepts : Accepts h v args node
            { node with role := .follower, leaderID := args.leaderID, storage := wal, log := log } :=
          ⟨rfl, rfl, rfl, rfl, views, boundary, synced, ⟨entries, contents, kept⟩,
            boundary.trans_le tracks.committed⟩
        obtain ⟨followed, commit⟩ := accepts.followCommit tracks valid current sound rfl unchanged fits
        refine ⟨_, moves, valid.accept sound.isSome current.ge sound.within,
          tracks.accept valid current sound followed commit, fun _ => ⟨?_, ?_, ?_⟩⟩
        · exact fun i short => Or.inr ⟨rfl, rfl, short⟩
        · rw [Ledger.accept_log, Function.update_self]
          exact Ledger.prefix_merge _ _
        · intro commits
          rcases commit commits with same | ⟨_, short⟩
          · exact same.trans_le (Nat.le_max_left _ _)
          · exact short.trans (Nat.le_max_right _ _)

theorem appendEntries_follows {termFault logFault : Fault} (valid : cluster.Valid h)
    (sound : args.Sound cluster regime h) (fits : node.Fits regime args) (works : termFault.Works)
    (worksToo : logFault.Works) :
    (node.appendEntries args termFault logFault).Follows cluster regime h v
      (fun later after reply => reply.success → Accepted regime later v args node after) := by
  have term := tracks.term
  unfold appendEntries
  split
  · exact Outcome.follows_done valid tracks fun success => by simp [appendReply] at success
  · split
    · rename_i ahead
      apply (enterTerm_follows tracks valid (Or.inl ahead) works).andThen
      intro later after durable moves validLater tracksLater entered
      obtain ⟨durable, entered, _, _, log, commit⟩ := entered
      rw [if_pos durable]
      have fitsLater : after.Fits regime args := by
        unfold Fits
        rw [log, commit]
        exact fits
      have follows := acceptEntries_follows tracksLater validLater entered.symm (sound.mono moves.keeps)
        fitsLater worksToo
      apply follows.mono
      · intro final reply reached
        obtain ⟨last, further, validLast, tracksLast, accepted⟩ := reached
        refine ⟨last, further, validLast, tracksLast, fun success => ?_⟩
        have known := accepted success
        exact { known with bounded := commit ▸ known.bounded }
      · exact fun _ lost => lost
    · exact acceptEntries_follows tracks valid (by omega) sound fits worksToo

end RaftNode

end Raftiq
