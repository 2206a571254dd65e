import Raftiq.Raft.MemberCall
import Raftiq.Raft.Observed
import Raftiq.Replica

namespace Raftiq

open Kv

/-- Work of the node itself does not lead beyond an index. -/
structure Process.Covers (process : Process) (bound : ℕ) : Prop where
  applied : process.node.lastApplied ≤ bound
  sent : ∀ index, process.applying = .sent index → index ≤ bound
  restored : ∀ install, process.RestoredInstall install → install.args.lastIncludedIndex ≤ bound

namespace Replica

/-- `applyCommitted` has nothing to do, and `Run` waits for more. -/
structure Quiescent (replica : Replica) : Prop where
  applied : replica.process.node.lastApplied = replica.process.node.commitIndex
  idle : replica.process.applying = .idle
  empty : replica.consumer.applyCh = []
  waiting : replica.consumer.received = none
  running : replica.consumer.running = true

/-- A node restores no snapshot that is older than what its store has, and the installation of a restored
snapshot succeeds. -/
def KeepsUp (replica : Replica) : ServerEvent → Prop
  | .raft (.finishInstall install fault) =>
      (replica.process.node.finishInstall install fault).Ensures (fun _ reply => reply.success = true) fun _ => True
  | .restore install _ _ => replica.consumer.applier.lastApplied ≤ install.args.lastIncludedIndex
  | _ => True

/-- The node is ahead of what reaches the store by configuration entries only. -/
structure CatchesUp (committed : List LogEntry) (replica : Replica) : Prop where
  picked : ∀ index entry, replica.process.applying = .picked index entry → entry.index = index
  sent : ∀ index, replica.process.applying = .sent index → index ≤ replica.consumer.reach
  restored : ∀ install, replica.process.RestoredInstall install →
    install.args.lastIncludedIndex ≤ replica.consumer.reach
  configured : ∀ index, replica.consumer.reach < index → index ≤ replica.process.node.lastApplied →
    ∃ entry ∈ committed, entry.index = index ∧ isConfigurationEntry entry.data
  covered : ∀ bound, replica.process.Covers bound → replica.consumer.reach ≤ bound
  healthy : replica.consumer.running = true ∨ replica.consumer.received ≠ none →
    replica.consumer.applier.applyErr = none

variable {codec : Codec} {committed : List LogEntry} {replica after : Replica} {event : ServerEvent}

/-- A section of the node that leaves the channel and the applier alone. -/
theorem CatchesUp.of_node (catches : replica.CatchesUp committed) (consumer : after.consumer = replica.consumer)
    (picked : ∀ index entry, after.process.applying = .picked index entry → entry.index = index)
    (sent : ∀ index, after.process.applying = .sent index → replica.process.applying = .sent index)
    (restored : ∀ install, after.process.RestoredInstall install → replica.process.RestoredInstall install)
    (configured : ∀ index, replica.consumer.reach < index → index ≤ after.process.node.lastApplied →
      index ≤ replica.process.node.lastApplied ∨
        ∃ entry ∈ committed, entry.index = index ∧ isConfigurationEntry entry.data)
    (covers : ∀ bound, after.process.Covers bound → replica.process.Covers bound) :
    after.CatchesUp committed where
  picked := picked
  sent index working := consumer ▸ catches.sent index (sent index working)
  restored install pending := consumer ▸ catches.restored install (restored install pending)
  configured index above reached := by
    rw [consumer] at above
    exact (configured index above reached).elim (catches.configured index above) id
  covered bound covered := consumer ▸ catches.covered bound (covers bound covered)
  healthy := consumer ▸ catches.healthy

/-- `Run` takes and applies what is on its way. -/
theorem CatchesUp.of_consumer (catches : replica.CatchesUp committed) {consumer : Consumer}
    (reach : consumer.reach = replica.consumer.reach)
    (healthy : consumer.running = true ∨ consumer.received ≠ none → consumer.applier.applyErr = none) :
    CatchesUp committed { replica with consumer := consumer } where
  picked := catches.picked
  sent index working := reach ▸ catches.sent index working
  restored install pending := reach ▸ catches.restored install pending
  configured index above reached := catches.configured index (reach ▸ above) reached
  covered bound covers := reach ▸ catches.covered bound covers
  healthy := healthy

theorem CatchesUp.step (catches : replica.CatchesUp committed) (picks : replica.Picks committed event)
    (keepsUp : replica.KeepsUp event) (stepped : replica.step codec event = some after) :
    after.CatchesUp committed := by
  cases step_moves stepped with
  | quiet consumer applied applying restored =>
      refine catches.of_node consumer (applying ▸ catches.picked) (fun _ => applying ▸ id)
        (fun install => (restored install).mp) (fun _ _ reached => Or.inl (applied ▸ reached)) fun bound covers => ?_
      exact ⟨applied ▸ covers.applied, applying ▸ covers.sent,
        fun install pending => covers.restored install ((restored install).mpr pending)⟩
  | pick consumer idle next command node applying restored =>
      refine catches.of_node consumer (fun index entry picked => ?_) (fun index sent => ?_)
        (fun install => (restored install).mp) (fun _ _ reached => Or.inl (node ▸ reached)) fun bound covers => ?_
      · cases applying.symm.trans picked
        exact (RaftNode.nextCommitted_index next).2
      · cases applying.symm.trans sent
      · exact ⟨node ▸ covers.applied, (fun _ sent => nomatch idle.symm.trans sent),
          fun install pending => covers.restored install ((restored install).mpr pending)⟩
  | configure consumer idle next configuration applied applying restored =>
      refine catches.of_node consumer (fun index entry picked => ?_) (fun index sent => ?_)
        (fun install => (restored install).mp) (fun index _ reached => ?_) fun bound covers => ?_
      · cases applying.symm.trans picked
      · cases applying.symm.trans sent
      · rw [applied] at reached
        rcases Nat.lt_or_ge replica.process.node.lastApplied index with last | earlier
        · exact Or.inr ⟨_, picks _ next, by rw [(RaftNode.nextCommitted_index next).2]; omega, configuration⟩
        · exact Or.inl earlier
      · have counted := covers.applied
        exact ⟨by omega, (fun _ sent => nomatch idle.symm.trans sent),
          fun install pending => covers.restored install ((restored install).mpr pending)⟩
  | @send index entry picked same =>
      subst same
      have indexed := catches.picked _ _ picked
      have reach : Consumer.reach { replica.consumer with applyCh := replica.consumer.applyCh ++ [entry] } =
          max replica.consumer.reach index := indexed ▸ Consumer.reach_send entry
      exact {
        picked := fun _ _ sent => nomatch sent
        sent := fun other sent => by
          cases sent
          exact reach ▸ le_max_right _ _
        restored := fun install pending => reach ▸ (catches.restored install pending).trans (le_max_left _ _)
        configured := fun other above reached =>
          catches.configured other ((le_max_left _ _).trans_lt (reach ▸ above)) reached
        covered := fun bound covers => by
          have before : replica.process.Covers bound :=
            ⟨covers.applied, (fun _ sent => nomatch picked.symm.trans sent), covers.restored⟩
          exact reach ▸ max_le (catches.covered bound before) (covers.sent index rfl)
        healthy := catches.healthy }
  | @mark index sent same =>
      subst same
      have below := catches.sent index sent
      refine catches.of_node rfl (fun _ _ picked => nomatch picked) (fun _ sent => nomatch sent)
        (fun _ => id) (fun other above reached => ?_) fun bound covers => ?_
      · rw [RaftNode.markApplied_lastApplied] at reached
        omega
      · have counted := covers.applied
        rw [RaftNode.markApplied_lastApplied] at counted
        refine ⟨by omega, fun other working => ?_, covers.restored⟩
        cases sent.symm.trans working
        omega
  | @finish install fault reply pending consumer finished applying restored kept =>
      have below := catches.restored install pending
      have raises := replica.process.node.finishInstall_raises install fault
      rw [finished] at raises
      have succeeds : reply.success = true := by
        have succeeds := keepsUp
        simp only [KeepsUp, finished] at succeeds
        exact succeeds
      have applied : after.process.node.lastApplied =
          max replica.process.node.lastApplied install.args.lastIncludedIndex := by
        simpa [succeeds] using raises.2
      refine catches.of_node consumer (applying ▸ catches.picked) (fun _ => applying ▸ id) restored
        (fun other above reached => ?_) fun bound covers => ?_
      · omega
      · have counted := covers.applied
        refine ⟨by omega, applying ▸ covers.sent, fun other pending => ?_⟩
        rcases kept other pending with still | rfl
        · exact covers.restored other still
        · omega
  | @restore install lockOrder jobOrder applier restores consumer node applying restored kept done =>
      obtain ⟨last, healthy, _, _⟩ := Applier.restoreSnapshot_some restores
      have forward : replica.consumer.applier.lastApplied ≤ applier.lastApplied := last ▸ keepsUp
      have reach : after.consumer.reach = max install.args.lastIncludedIndex replica.consumer.reach := by
        rw [consumer, Consumer.reach_restore forward, last]
        rfl
      have higher : replica.consumer.reach ≤ after.consumer.reach := reach ▸ le_max_right _ _
      exact {
        picked := applying ▸ catches.picked
        sent := fun index sent => (catches.sent index (applying ▸ sent)).trans higher
        restored := fun other pending => by
          rcases restored other pending with before | rfl
          · exact (catches.restored other before).trans higher
          · exact reach ▸ le_max_left _ _
        configured := fun index above reached => catches.configured index (higher.trans_lt above) (node ▸ reached)
        covered := fun bound covers => by
          have before : replica.process.Covers bound :=
            ⟨node ▸ covers.applied, applying ▸ covers.sent,
              fun other pending => covers.restored other (kept other pending)⟩
          exact reach ▸ max_le (covers.restored { install with restored := true } done)
            (catches.covered bound before)
        healthy := fun _ => consumer ▸ healthy }
  | receive running free queued same =>
      subst same
      exact catches.of_consumer (Consumer.reach_receive free queued) fun _ => catches.healthy (Or.inl running)
  | apply received same =>
      subst same
      refine catches.of_consumer (Consumer.reach_apply received) fun working => ?_
      have goesOn := working.resolve_right (fun taken => taken rfl)
      exact (Applier.applyEntry_healthy goesOn).trans (catches.healthy (Or.inr (by simp [received])))
  | stop same =>
      subst same
      exact catches.of_consumer rfl fun working =>
        catches.healthy (Or.inr (working.resolve_left Bool.false_ne_true))

theorem Starts.catchesUp (starts : replica.Starts codec) : replica.CatchesUp committed := by
  obtain ⟨snapshot, lockOrder, jobOrder, _, began, applied, idle, installs⟩ := starts.fresh
  obtain ⟨fresh, last, healthy, _, _⟩ := Consumer.start_some began
  have reach : replica.consumer.reach = replica.process.node.lastApplied := by
    rw [fresh, applied]
    exact last
  exact {
    picked := fun _ _ picked => nomatch idle.symm.trans picked
    sent := fun _ sent => nomatch idle.symm.trans sent
    restored := fun _ restored => by simp [Process.RestoredInstall, installs] at restored
    configured := fun index above reached => absurd reached (not_le.mpr (reach ▸ above))
    covered := fun bound covers => reach ▸ covers.applied
    healthy := fun _ => healthy }

theorem CatchesUp.level (catches : replica.CatchesUp committed) (quiescent : replica.Quiescent)
    (settled : ∀ install ∈ replica.process.installs, install.restored = false)
    (command : ∀ entry ∈ committed, entry.index = replica.process.node.lastApplied →
      ¬ isConfigurationEntry entry.data) :
    replica.consumer.applier.lastApplied = replica.process.node.lastApplied := by
  have reach : replica.consumer.reach = replica.consumer.applier.lastApplied := by
    simp [Consumer.reach, Consumer.pending, quiescent.empty, quiescent.waiting]
  refine le_antisymm ?_ ?_
  · rw [← reach]
    refine catches.covered _
      ⟨le_rfl, fun _ sent => (by cases quiescent.idle.symm.trans sent), fun install pending => ?_⟩
    exact absurd pending.2 (by simp [settled install pending.1])
  · by_contra behind
    obtain ⟨entry, member, index, configuration⟩ :=
      catches.configured _ (reach ▸ not_le.mp behind) le_rfl
    exact command entry member index configuration

/-- In every run of a node whose restores do not go back and whose installations succeed: where nothing is
left to apply and no installation is under way, the applier is where the node is, unless the last entry that
was applied is a configuration entry; and then it is done with every index that `ReadIndex` returns. -/
theorem applier_catches_up {first : Replica} (starts : first.Starts codec)
    (reached : Reaches (step codec) (fun replica event => replica.Picks committed event ∧ replica.KeepsUp event)
      first replica) (quiescent : replica.Quiescent)
    (settled : ∀ install ∈ replica.process.installs, install.restored = false)
    (command : ∀ entry ∈ committed, entry.index = replica.process.node.lastApplied →
      ¬ isConfigurationEntry entry.data) :
    replica.consumer.applier.lastApplied = replica.process.node.lastApplied ∧
      ∀ (event : Event) (next : Process) (observations : List Observation) (read index : ℕ),
        replica.process.step event = some (.running next observations) →
        .readReturned read (.ok index) ∈ observations →
        replica.consumer.applier.waitApplied index = some (.ok ()) := by
  have catches : replica.CatchesUp committed :=
    reached.invariant (CatchesUp committed) starts.catchesUp
      fun before event after catches allowed stepped => catches.step allowed.1 allowed.2 stepped
  have level := catches.level quiescent settled command
  refine ⟨level, fun event next observations read index stepped returned => ?_⟩
  have below := Process.step_readReturned stepped returned
  rw [← quiescent.applied, ← level] at below
  rw [Applier.waitApplied, catches.healthy (Or.inl quiescent.running)]
  exact if_pos below

/-- The condition, evaluated. -/
def checksProgress (replica : Replica) : ServerEvent → Bool
  | .raft (.finishInstall install fault) =>
      match replica.process.node.finishInstall install fault with
      | .done _ reply => reply.success
      | .crashed _ => true
  | .restore install _ _ => replica.consumer.applier.lastApplied ≤ install.args.lastIncludedIndex
  | _ => true

theorem checksProgress_sound {event : ServerEvent} (checked : checksProgress replica event) :
    replica.KeepsUp event := by
  cases event with
  | raft event =>
      cases event with
      | finishInstall install fault =>
          simp only [checksProgress] at checked
          simp only [KeepsUp]
          cases outcome : replica.process.node.finishInstall install fault with
          | done node reply =>
              rw [outcome] at checked
              exact checked
          | crashed wal => trivial
      | _ => trivial
  | restore install lockOrder jobOrder =>
      simp only [checksProgress, decide_eq_true_eq] at checked
      exact checked
  | receive | apply | stop => trivial

/-- A new node gets to a state that is written out in a run that meets the condition. -/
theorem fresh_keepsUp {goal : Replica → Prop} [DecidablePred goal] (events : List ServerEvent)
    (leads : fresh.any fun first => leadsTo (step .register)
      (fun replica event => checksPicks committed replica event && checksProgress replica event) goal first events) :
    ∃ first replica, fresh = some first ∧
      Reaches (step .register) (fun replica event => replica.Picks committed event ∧ replica.KeepsUp event)
        first replica ∧ goal replica :=
  fresh_leadsTo _ (fun _ _ checked => (Bool.and_eq_true_iff.mp checked).imp checksPicks_sound checksProgress_sound)
    events leads

/-- The node rests at an index, its applier at another one, and an answer of `B` makes `ReadIndex` return
the first. -/
def RestsAt (replica : Replica) (index store : ℕ) : Prop :=
  replica.process.node.lastApplied = index ∧ replica.process.node.commitIndex = index ∧
    replica.process.applying = .idle ∧ replica.process.installs = [] ∧ replica.consumer.applyCh = [] ∧
    replica.consumer.received = none ∧ replica.consumer.running = true ∧
    replica.consumer.applier.lastApplied = store ∧
    (replica.process.step (.receiveProbeResult 0 "B" (.answered ⟨1, "B", true⟩) .none)).any fun
      | .running _ observations => .readReturned 0 (.ok index) ∈ observations
      | .crashed _ => false

instance (replica : Replica) (index store : ℕ) : Decidable (replica.RestsAt index store) :=
  inferInstanceAs (Decidable (_ ∧ _))

theorem RestsAt.quiescent {index store : ℕ} (rests : replica.RestsAt index store) : replica.Quiescent := by
  obtain ⟨applied, commit, idle, _, empty, waiting, running, _⟩ := rests
  exact ⟨applied.trans commit.symm, idle, empty, waiting, running⟩

theorem RestsAt.reads {index store : ℕ} (rests : replica.RestsAt index store) :
    ∃ event next observations, replica.process.step event = some (.running next observations) ∧
      .readReturned 0 (.ok index) ∈ observations := by
  obtain ⟨_, _, _, _, _, _, _, _, returns⟩ := rests
  obtain ⟨result, stepped, returned⟩ := (Option.any_eq_true _ _).mp returns
  cases result with
  | running next observations => exact ⟨_, next, observations, stepped, of_decide_eq_true returned⟩
  | crashed wal => cases returned

/-- `A` leads, commits what it proposes and applies it; then it is asked for a read. -/
def leadsAndApplies (data : Bytes) (applies : List ServerEvent) : List ServerEvent :=
  (Process.leadAndCommit [data]).map .raft ++ applies ++ [.raft (.beginRead 0)]

/-- A command is applied and marked, and a read that comes then is not kept waiting. -/
theorem command_reaches_applier : ∃ (replica : Replica) (event : Event) (next : Process)
    (observations : List Observation), replica.Quiescent ∧ replica.process.node.lastApplied = 1 ∧
      replica.consumer.applier.lastApplied = 1 ∧ replica.process.step event = some (.running next observations) ∧
      .readReturned 0 (.ok 1) ∈ observations ∧ replica.consumer.applier.waitApplied 1 = some (.ok ()) := by
  let committed : List LogEntry := [⟨1, 1, [0x7b, 7]⟩]
  have run : ∃ first replica, fresh = some first ∧
      Reaches (step .register) (fun replica event => replica.Picks committed event ∧ replica.KeepsUp event)
        first replica ∧ replica.RestsAt 1 1 :=
    fresh_keepsUp
      (leadsAndApplies [0x7b, 7] [.raft (.pickCommitted .none .none), .raft .sendApplied, .receive, .apply,
        .raft .markApplied])
      (by decide +kernel)
  obtain ⟨first, replica, started, reached, rests⟩ := run
  obtain ⟨event, next, observations, stepped, returned⟩ := rests.reads
  have settled : ∀ install ∈ replica.process.installs, install.restored = false := by simp [rests.2.2.2.1]
  have command : ∀ entry ∈ committed, entry.index = replica.process.node.lastApplied →
      ¬ isConfigurationEntry entry.data := by
    rw [rests.1]
    decide
  obtain ⟨level, answers⟩ := applier_catches_up (fresh_starts started) reached rests.quiescent settled command
  exact ⟨replica, event, next, observations, rests.quiescent, rests.1, level.trans rests.1, stepped, returned,
    answers event next observations 0 1 stepped returned⟩

/-- The data of a configuration entry that lets `A`, `B` and `C` remove `C`. -/
def removal : Bytes := (jointData [(["A", "B", "C"], ["A", "B"])]).headD []

/-- When the last committed entry is a configuration entry, the node has applied it and the applier never
hears of it: a read waits for an index that nothing on its way will reach. -/
theorem configuration_entry_stalls_reads : ∃ (first replica : Replica) (event : Event) (next : Process)
    (observations : List Observation), first.Starts .register ∧
      Reaches (step .register) (fun replica event => replica.Picks [⟨1, 1, removal⟩] event ∧ replica.KeepsUp event)
        first replica ∧ replica.Quiescent ∧
      replica.process.installs = [] ∧ replica.process.node.lastApplied = 1 ∧
      replica.consumer.applier.lastApplied = 0 ∧ replica.process.step event = some (.running next observations) ∧
      .readReturned 0 (.ok 1) ∈ observations ∧ replica.consumer.applier.waitApplied 1 = none := by
  have run : ∃ first replica, fresh = some first ∧
      Reaches (step .register) (fun replica event => replica.Picks [⟨1, 1, removal⟩] event ∧ replica.KeepsUp event)
        first replica ∧ (replica.RestsAt 1 0 ∧ replica.consumer.applier.applyErr = none) :=
    fresh_keepsUp
      (leadsAndApplies removal [.raft (.pickCommitted .none .none)])
      (by decide +kernel)
  obtain ⟨first, replica, started, reached, rests, healthy⟩ := run
  obtain ⟨event, next, observations, stepped, returned⟩ := rests.reads
  have quiescent := rests.quiescent
  obtain ⟨applied, _, _, installs, _, _, _, store, _⟩ := rests
  refine ⟨first, replica, event, next, observations, fresh_starts started, reached, quiescent, installs, applied,
    store, stepped, returned, ?_⟩
  rw [Applier.waitApplied, healthy, store]
  rfl

end Replica

end Raftiq
