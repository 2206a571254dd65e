import Raftiq.Refinement.Relation

namespace Raftiq

open Consensus

variable {cluster : Cluster} {regime : Regime} {h later : History} {u v : NodeID}

/-! What was sound stays sound while the history grows, and a node's own part of it is
only changed by that node. -/

theorem AppendEntriesArgs.Sound.mono {args : AppendEntriesArgs} (sound : args.Sound cluster regime h)
    (keeps : h.Extends later) : args.Sound cluster regime later where
  leader := keeps.leader _ _ sound.leader
  within := sound.within.trans (keeps.led_front args.term).length_le
  entries := by
    rw [keeps.take_eq sound.within]
    exact sound.entries
  previous := by
    have within := sound.within
    rw [sound.previous]
    exact termAt_of_front (keeps.led_front args.term) (by omega)
  commit commits := (sound.commit commits).mono keeps le_rfl

theorem InstallSnapshotArgs.Sound.mono {args : InstallSnapshotArgs}
    (sound : args.Sound cluster regime h) (keeps : h.Extends later) : args.Sound cluster regime later :=
  ⟨sound.1, sound.2.mono keeps le_rfl⟩

theorem Message.Sound.mono {message : Message} (sound : message.Sound cluster regime h)
    (keeps : h.Extends later) : message.Sound cluster regime later := by
  cases message with
  | requestVote target args =>
      obtain ⟨log, advertised, position⟩ := sound
      exact ⟨log, keeps.advertised _ _ _ advertised, position⟩
  | voteReply args reply => exact fun granted => keeps.voted _ _ _ (sound granted)
  | appendEntries target args => exact ⟨sound.1.mono keeps, sound.2⟩
  | appendReply peerID args reply =>
      exact ⟨sound.1.mono keeps, fun success i short => keeps.acked _ _ _ (sound.2 success i short)⟩
  | probe read target args => exact ⟨sound.1.mono keeps, sound.2⟩
  | probeReply read peerID reply => trivial
  | installSnapshot target args => exact InstallSnapshotArgs.Sound.mono sound keeps
  | installReply peerID args reply => exact InstallSnapshotArgs.Sound.mono sound keeps

theorem Observation.Sound.mono {observation : Observation} (sound : observation.Sound cluster regime h v)
    (keeps : h.Extends later) : observation.Sound cluster regime later v := by
  cases observation with
  | sent message => exact Message.Sound.mono sound keeps
  | builtFrom args log =>
      obtain ⟨full, views, inside, short⟩ := sound
      exact ⟨full, views, inside.trans (keeps.led_front _), short⟩
  | elected term log =>
      obtain ⟨leader, full, own, views, led, stamped⟩ := sound
      obtain ⟨added, grown, stampedToo⟩ := keeps.led_added term (by simp [leader])
      refine ⟨keeps.leader _ _ leader, full, own ++ added, views, ?_, ?_⟩
      · rw [grown, led, List.append_assoc]
      · intro entry member
        rcases List.mem_append.mp member with old | new
        · exact stamped entry old
        · exact stampedToo entry new
  | committed term index log =>
      obtain ⟨leader, full, views, inside, short, j, reached, committed⟩ := sound
      exact ⟨keeps.leader _ _ leader, full, views, inside.trans (keeps.led_front _), short, j, reached,
        keeps.committed committed⟩
  | applied entry => exact fun commits => (sound commits).mono keeps
  | proposed entry => trivial
  | readBegan read => trivial
  | readReturned read result => trivial

variable {term wider boundary : ℕ} {vote : Option NodeID} {log : List LogEntry} {contents : Contents}

theorem EntriesKept.mono {entries : List LogEntry} (kept : EntriesKept h term log boundary entries)
    (keeps : h.Extends later) (reached : term ≤ wider) : EntriesKept later wider log boundary entries := by
  cases kept with
  | whole same => exact .whole same
  | tight above => exact .tight above
  | stuck length positive blocked recoverable =>
      refine .stuck length positive blocked fun numbered => ?_
      rcases recoverable numbered with short | ⟨rooted, bounded, inside⟩
      · exact Or.inl short
      · exact Or.inr ⟨keeps.rooted rooted, fun entry member => (bounded entry member).trans reached, inside⟩

theorem Stored.mono (stored : Stored cluster regime h v term vote log boundary contents)
    (keeps : h.Extends later) : Stored cluster regime later v term vote log boundary contents where
  sameTerm := stored.sameTerm
  sameVote := stored.sameVote
  membership := stored.membership
  missing := stored.missing
  snapshot snapshot found := by
    obtain ⟨compacts, below, sound⟩ := stored.snapshot snapshot found
    exact ⟨compacts, below, sound.mono keeps le_rfl⟩
  entries := stored.entries.mono keeps le_rfl

section Foreign

variable (moves : h.Moves v later) (other : u ≠ v)

include moves other

theorem Promise.foreign (promise : Promise h u term vote log) : Promise later u term vote log := by
  have sameTerm := moves.term u other
  have sameLog := moves.log u other
  have sameVote := moves.voted u other
  cases promise with
  | nothing =>
      rw [← sameTerm, ← sameLog, ← sameVote]
      exact .nothing
  | enter t ahead =>
      rw [← sameLog]
      exact .enter _ (sameTerm ▸ ahead)
  | stand =>
      rw [← sameTerm, ← sameLog]
      exact .stand
  | vote c shown fresh advertised upToDate =>
      rw [← sameTerm, ← sameLog] at *
      rw [← sameVote] at fresh
      exact .vote c shown fresh (moves.keeps.advertised _ _ _ advertised) upToDate
  | propose entry leads own next command =>
      rw [← sameTerm, ← sameLog] at *
      rw [← sameVote]
      rw [← moves.leads u other] at leads
      exact .propose entry leads own next command
  | accept m leads short =>
      rw [← moves.keeps.take_eq short, ← sameTerm, ← sameLog, ← sameVote]
      rw [← sameTerm] at leads short
      exact .accept m (moves.keeps.leader_isSome leads)
        (short.trans (moves.keeps.led_front _).length_le)

theorem WALStorage.Tracks.foreign {wal : WALStorage} (tracks : wal.Tracks cluster regime h u) :
    wal.Tracks cluster regime later u := by
  intro contents survives
  obtain ⟨term, vote, log, boundary, promise, stored⟩ := tracks contents survives
  exact ⟨term, vote, log, boundary, promise.foreign moves other, stored.mono moves.keeps⟩

variable (valid : cluster.Valid h) (validLater : cluster.Valid later)

include valid validLater

/-- Nobody else adds to the log of a leader. -/
theorem marks_foreign (leads : h.leads u) {i : ℕ} (marks : later.Marks (later.term u) i) :
    h.Marks (h.term u) i := by
  have leadsLater : later.leads u := moves.leads u other ▸ leads
  have same : later.led (later.term u) = h.led (h.term u) := by
    rw [← validLater.sound.leads_log u leadsLater, moves.log u other, valid.sound.leads_log u leads]
  obtain ⟨front, last, inside, length, own⟩ := marks
  rw [same] at inside
  rw [moves.term u other] at own
  exact ⟨front, last, inside, length, own⟩

theorem RaftNode.Leads.foreign {node : RaftNode} (leads : node.Leads cluster h u) :
    node.Leads cluster later u where
  leads := moves.leads u other ▸ leads.leads
  own i marks := by
    have acked := leads.own i (marks_foreign moves other valid validLater leads.leads marks)
    rw [moves.term u other]
    exact moves.keeps.acked _ _ _ acked
  bounded := moves.log u other ▸ leads.bounded
  matched peerID peer i reached marks := by
    have known := leads.matched peerID peer i reached
      (marks_foreign moves other valid validLater leads.leads marks)
    rw [moves.term u other]
    rcases known with acked | ⟨j, beyond, committed⟩
    · exact Or.inl (moves.keeps.acked _ _ _ acked)
    · exact Or.inr ⟨j, beyond, moves.keeps.committed committed⟩

theorem RaftNode.Tracks.foreign {node : RaftNode} (tracks : node.Tracks cluster regime h u) :
    node.Tracks cluster regime later u where
  id := tracks.id
  term := tracks.term.trans (moves.term u other).symm
  vote := by
    rw [moves.term u other, moves.voted u other]
    exact tracks.vote
  membership := tracks.membership
  log := by
    rw [moves.log u other]
    exact tracks.log
  stands candidate := by
    have standing := tracks.stands candidate
    refine ⟨moves.stands u other ▸ standing.stands, ?_, ?_⟩
    · rw [moves.term u other]
      intro leads
      rcases moves.leader _ _ leads with already | own
      · exact standing.vacant already
      · exact other own
    · rw [moves.term u other]
      exact fun voter member => moves.keeps.voted _ _ _ (standing.votes voter member)
  leads leader := (tracks.leads leader).foreign moves other valid validLater
  boundary := by
    rw [moves.log u other, moves.term u other]
    exact tracks.boundary.mono moves.keeps le_rfl
  applied := tracks.applied
  committed := tracks.committed
  commit commits := by
    obtain ⟨within, secured⟩ := tracks.commit commits
    rw [moves.log u other, moves.term u other]
    exact ⟨within, secured.mono moves.keeps le_rfl⟩
  synced := tracks.synced
  stored := by
    rw [moves.log u other, moves.term u other, moves.voted u other]
    exact tracks.stored.mono moves.keeps

theorem Host.Tracks.foreign {host : Host} (tracks : host.Tracks cluster regime h u) :
    host.Tracks cluster regime later u := by
  cases host with
  | down wal => exact WALStorage.Tracks.foreign moves other tracks
  | up process =>
      have running : process.Tracks cluster regime h u := tracks
      refine ⟨running.node.foreign moves other valid validLater, ?_, ?_, ?_⟩
      · exact fun commits index entry picked => (running.picked commits index entry picked).mono moves.keeps
      · intro install member
        obtain ⟨sound, reached, behind⟩ := running.installs install member
        refine ⟨sound.mono moves.keeps, ?_, ?_⟩
        · rw [moves.term u other]
          exact reached
        · rw [moves.term u other, moves.stands u other]
          exact behind
      · exact fun commits read pending found => (running.reads commits read pending found).mono moves.keeps le_rfl

end Foreign

namespace World

variable {world : World} {host : Host} {observations : List Observation}

theorem Tracks.update (tracks : world.Tracks cluster regime h) (moves : h.Moves v later)
    (valid : cluster.Valid later) (own : host.Tracks cluster regime later v)
    (seen : ∀ observation ∈ observations, observation.Sound cluster regime later v) :
    (world.update v host observations).Tracks cluster regime later where
  valid := valid
  host w := by
    by_cases same : w = v
    · subst same
      simpa [World.update] using own
    · simpa [World.update, same] using (tracks.host w).foreign moves same tracks.valid valid
  trace entry member := by
    rcases mem_update_trace.mp member with earlier | ⟨origin, now⟩
    · exact (tracks.trace entry earlier).mono moves.keeps
    · exact origin ▸ seen _ now

end World

end Raftiq
