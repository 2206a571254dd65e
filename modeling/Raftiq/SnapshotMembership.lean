import Raftiq.MembershipElections
import Raftiq.Raft.Applying

namespace Raftiq

/-- The committed configuration entry that is in force at an index. -/
def lastConfiguration (committed : List LogEntry) (index : ℕ) : Option LogEntry :=
  (committed.filter fun entry => entry.index ≤ index ∧ isConfigurationEntry entry.data).getLast?

variable {committed : List LogEntry} {entry : LogEntry} {index later : ℕ}

theorem lastConfiguration_at (numbered : Numbered 0 committed) (member : entry ∈ committed)
    (configuration : isConfigurationEntry entry.data) : lastConfiguration committed entry.index = some entry := by
  obtain ⟨front, back, rfl⟩ := List.append_of_mem member
  obtain ⟨position, following⟩ := (Numbered.append_iff.mp numbered).2
  have none : back.filter (fun other => other.index ≤ entry.index ∧ isConfigurationEntry other.data) = [] := by
    rw [List.filter_eq_nil_iff]
    intro other behind
    have above := following.mem_index behind
    simp only [decide_eq_true_eq, not_and]
    omega
  rw [lastConfiguration, List.filter_append, List.filter_cons_of_pos (by simp [configuration]), none,
    List.getLast?_concat]

theorem lastConfiguration_skip (reached : index ≤ later)
    (none : ∀ entry ∈ committed, isConfigurationEntry entry.data → entry.index ≤ index ∨ later < entry.index) :
    lastConfiguration committed later = lastConfiguration committed index := by
  rw [lastConfiguration, lastConfiguration]
  congr 1
  refine List.filter_congr fun entry member => ?_
  rw [decide_eq_decide]
  refine and_congr_left fun configuration => ?_
  have outside := none entry member configuration
  omega

/-- Some committed configuration entry is in force as soon as there is one. -/
theorem lastConfiguration_isSome (member : entry ∈ committed) (configuration : isConfigurationEntry entry.data)
    (reached : entry.index ≤ index) : ∃ last, lastConfiguration committed index = some last := by
  rw [← Option.isSome_iff_exists, lastConfiguration, List.getLast?_isSome]
  exact List.ne_nil_of_mem (List.mem_filter.mpr ⟨member, by simp [configuration, reached]⟩)

namespace RaftNode

/-- A leader that applies its own removal saves that it steps down. -/
def SavesLeaving (node : RaftNode) (leaveFault : Fault) : Prop :=
  ∀ next ∈ node.nextConfiguration, node.mustLeave next.2 → leaveFault = .none ∨ leaveFault = .crash

/-- What `applyCommitted` publishes it also counts, if the leader can step down. -/
theorem pickCommitted_counts {node : RaftNode} (stateFault : Fault) {leaveFault : Fault}
    (saves : node.SavesLeaving leaveFault) :
    (node.pickCommitted stateFault leaveFault).Ensures
      (fun after _ =>
        after.lastApplied = node.lastApplied ∧
            after.persistent.membership = node.persistent.membership ∨
          ∃ entry membership, node.nextConfiguration = some (entry, membership) ∧
            after.lastApplied = node.lastApplied + 1 ∧ after.persistent.membership = membership)
      fun _ => True := by
  unfold pickCommitted
  split
  · exact Or.inl ⟨rfl, rfl⟩
  · rename_i behind
    split
    · exact Or.inl ⟨rfl, rfl⟩
    · rename_i entry found
      split
      · rename_i configuration
        unfold applyConfigurationEntryLocked
        cases decoded : nextMembership entry with
        | error error => exact Or.inl ⟨rfl, rfl⟩
        | ok membership =>
            have next : node.nextConfiguration = some (entry, membership) := by
              rw [nextConfiguration, if_neg behind, found]
              simp only [configuration, if_true, decoded]
            cases stateFault with
            | crash => trivial
            | writeFails | syncFails | diskFull => exact Or.inl ⟨rfl, rfl⟩
            | none =>
                simp only [persistState_none, Outcome.andThen_done, not_true_eq_false, if_false]
                split
                · rename_i leaves
                  rcases saves (entry, membership) next leaves with rfl | rfl
                  · exact Or.inr ⟨entry, membership, next, rfl, rfl⟩
                  · trivial
                · exact Or.inr ⟨entry, membership, next, rfl, rfl⟩
      · exact Or.inl ⟨rfl, rfl⟩

end RaftNode

namespace Process

/-- What a node applies is committed, and an installed snapshot does not cover a configuration entry that
the node has not applied. -/
def CarriesMembership (committed : List LogEntry) (process : Process) : Event → Prop
  | .pickCommitted _ leaveFault =>
      (∀ entry ∈ process.node.nextCommitted, entry ∈ committed) ∧ process.node.SavesLeaving leaveFault
  | .finishInstall install _ =>
      ∀ entry ∈ committed, isConfigurationEntry entry.data →
        entry.index ≤ process.node.lastApplied ∨ install.args.lastIncludedIndex < entry.index
  | _ => True

/-- The membership is the one in force at the applied index, and no other is in force at the index that
is being applied. -/
structure Configured (committed : List LogEntry) (process : Process) : Prop where
  membership : ∀ entry, lastConfiguration committed process.node.lastApplied = some entry →
    nextMembership entry = .ok process.node.persistent.membership
  applying : ∀ index ∈ process.applying.index, ∀ entry ∈ committed, isConfigurationEntry entry.data →
    entry.index ≤ process.node.lastApplied ∨ index < entry.index

variable {process next : Process} {event : Event} {observations : List Observation}

/-- The applied index goes on to where no other configuration entry is. -/
theorem Configured.skip (configured : process.Configured committed)
    (reached : process.node.lastApplied ≤ next.node.lastApplied)
    (same : next.node.persistent.membership = process.node.persistent.membership)
    (none : ∀ entry ∈ committed, isConfigurationEntry entry.data →
      entry.index ≤ process.node.lastApplied ∨ next.node.lastApplied < entry.index)
    (applying : next.applying = process.applying ∨ next.applying = .idle) : next.Configured committed where
  membership := by
    rw [lastConfiguration_skip reached none, same]
    exact configured.membership
  applying := by
    intro index working entry member configuration
    rcases applying with unchanged | idle
    · rw [unchanged] at working
      rcases configured.applying index working entry member configuration with below | above
      · exact Or.inl (below.trans reached)
      · exact Or.inr above
    · simp [idle, ApplyStage.index] at working

/-- The index of a command is not the one of a configuration entry. -/
theorem command_gap (numbered : Numbered 0 committed) (member : entry ∈ committed)
    (command : ¬ isConfigurationEntry entry.data) {applied : ℕ} (index : entry.index = applied + 1) :
    ∀ other ∈ committed, isConfigurationEntry other.data → other.index ≤ applied ∨ applied + 1 < other.index := by
  intro other otherMember configuration
  by_contra both
  refine command ?_
  rw [numbered.eq_of_index member otherMember (by omega)]
  exact configuration

theorem Configured.pick (configured : process.Configured committed) (numbered : Numbered 0 committed)
    {stateFault leaveFault : Fault}
    (carries : process.CarriesMembership committed (.pickCommitted stateFault leaveFault))
    (picked : process.node.pickCommitted stateFault leaveFault = .done next.node next.applying) :
    next.Configured committed := by
  obtain ⟨fromCommitted, saves⟩ := carries
  have picks := @RaftNode.pickCommitted_picks process.node stateFault leaveFault
  have counts := RaftNode.pickCommitted_counts stateFault saves
  rw [picked] at picks counts
  obtain ⟨node, stage, installs, reads⟩ := next
  rcases counts with ⟨applied, membership⟩ | ⟨entry, _, found, applied, rfl⟩
  · cases picks with
    | command found data same =>
        have taken := RaftNode.pickCommitted_hands picked
        have gap := command_gap numbered (fromCommitted _ taken) data (RaftNode.nextCommitted_index taken).2
        refine ⟨by rw [applied, membership]; exact configured.membership, ?_⟩
        rintro _ ⟨⟩
        rw [applied]
        exact gap
    | stopped frame | configured next published log either =>
        exact configured.skip applied.ge membership (by omega) (Or.inr rfl)
  · have member := fromCommitted entry (RaftNode.nextConfiguration_committed found)
    obtain ⟨_, _, configuration, decoded⟩ := RaftNode.nextConfiguration_some found
    have index := (RaftNode.nextCommitted_index (RaftNode.nextConfiguration_committed found)).2
    refine ⟨fun last inForce => ?_, ?_⟩
    · rw [applied, ← index, lastConfiguration_at numbered member configuration] at inForce
      cases inForce
      exact decoded
    · cases picks with
      | command _ _ same =>
          have raised : process.node.lastApplied = process.node.lastApplied + 1 := same ▸ applied
          omega
      | stopped | configured => exact fun _ working => nomatch working

theorem Configured.step (configured : process.Configured committed) (numbered : Numbered 0 committed)
    (carries : process.CarriesMembership committed event)
    (stepped : process.step event = some (.running next observations)) : next.Configured committed := by
  cases step_appliesBy stepped with
  | quiet silent applied membership applying =>
      exact configured.skip applied.ge membership (by omega) (Or.inl applying)
  | pick idle picked => exact configured.pick numbered carries picked
  | send picked same =>
      subst same
      refine ⟨configured.membership, fun index working => configured.applying index ?_⟩
      rw [picked]
      exact working
  | @mark index sent same =>
      subst same
      have none := configured.applying index (by simp [sent, ApplyStage.index])
      have marked := process.node.markApplied_lastApplied index
      refine configured.skip (by simp [marked]) rfl ?_ (Or.inr rfl)
      intro entry member configuration
      have outside := none entry member configuration
      simp only [marked]
      omega
  | @install install fault reply finished applying =>
      have raises := process.node.finishInstall_raises install fault
      rw [finished] at raises
      obtain ⟨membership, applied⟩ := raises
      have between : process.node.lastApplied ≤ next.node.lastApplied ∧
          (next.node.lastApplied ≤ process.node.lastApplied ∨
            next.node.lastApplied ≤ install.args.lastIncludedIndex) := by
        rw [applied]
        split <;> omega
      refine configured.skip between.1 membership ?_ (Or.inl applying)
      intro entry member configuration
      have outside := carries entry member configuration
      omega

end Process

/-- No node restarts, and the acting node carries its membership. -/
def MemberWorld.CarriesMembership (committed : List LogEntry) (state : MemberWorld) : ClusterAction → Prop
  | .take (.act v event) =>
      ∀ process, state.world.host v = .up process → process.CarriesMembership committed event
  | .take (.restart _ _) => False
  | _ => True

namespace Deployment

variable {deployment : Deployment} {state after : MemberWorld} {v w : NodeID}

theorem initial_configured {process : Process} (numbered : Numbered 0 committed)
    (up : deployment.initial.world.host v = .up process) : process.Configured committed := by
  cases up
  refine ⟨fun entry inForce => ?_, fun _ working => nomatch working⟩
  have member := List.mem_filter.mp (List.mem_of_getLast? inForce)
  have positive := (numbered.mem_index member.1).1
  have zero : entry.index ≤ 0 := (of_decide_eq_true member.2).1
  omega

theorem step_configured {action : ClusterAction} (numbered : Numbered 0 committed)
    (configured : ∀ w process, state.world.host w = .up process → process.Configured committed)
    (carries : state.CarriesMembership committed action) (stepped : deployment.step state action = some after)
    {process : Process} (up : after.world.host v = .up process) : process.Configured committed := by
  rcases step_host stepped up with same | ⟨before, event, observations, running, rfl, ran⟩ |
    ⟨wal, reopened, keep, _, rfl, _⟩ | ⟨before, node, running, kept, applied, rfl⟩
  · exact configured v process same
  · exact (configured v before running).step numbered (carries before running) ran
  · exact carries.elim
  · exact (configured v before running).skip applied.ge (congrArg _ kept.persistent)
      (by simp only [Process.withNode, applied]; omega) (Or.inl rfl)

/-- Where some committed configuration entry has been applied, nodes that have applied as much have the
same membership, in every run without restarts in which no snapshot covers a configuration entry that the
node it is installed on has not applied. -/
theorem snapshots_carry_configuration (numbered : Numbered 0 committed)
    (reached : Reaches deployment.step (MemberWorld.CarriesMembership committed) deployment.initial state)
    {left right : Process} (up : state.world.host v = .up left) (upToo : state.world.host w = .up right)
    (same : left.node.lastApplied = right.node.lastApplied)
    (configured : ∃ entry ∈ committed, isConfigurationEntry entry.data ∧ entry.index ≤ left.node.lastApplied) :
    left.node.persistent.membership = right.node.persistent.membership := by
  have all : ∀ w process, state.world.host w = .up process → process.Configured committed := by
    refine reached.invariant (fun state : MemberWorld => ∀ w process, state.world.host w = .up process →
      process.Configured committed) (fun w process => initial_configured numbered) ?_
    exact fun before action after configured carries stepped w process =>
      step_configured numbered configured carries stepped
  obtain ⟨entry, member, configuration, below⟩ := configured
  obtain ⟨last, inForce⟩ := lastConfiguration_isSome member configuration below
  have decoded := (all v left up).membership last inForce
  have decodedToo := (all w right upToo).membership last (same ▸ inForce)
  exact Except.ok.inj (decoded.symm.trans decodedToo)

/-- The condition, evaluated. -/
def checksMembership (committed : List LogEntry) (state : MemberWorld) : ClusterAction → Bool
  | .take (.act v (.pickCommitted _ leaveFault)) =>
      (state.world.host v).process.all fun process =>
        process.node.nextCommitted.all (· ∈ committed) &&
          process.node.nextConfiguration.all fun next =>
            ¬ process.node.mustLeave next.2 ∨ leaveFault = .none ∨ leaveFault = .crash
  | .take (.act v (.finishInstall install _)) =>
      (state.world.host v).process.all fun process => committed.all fun entry =>
        ¬ isConfigurationEntry entry.data ∨ entry.index ≤ process.node.lastApplied ∨
          install.args.lastIncludedIndex < entry.index
  | .take (.restart _ _) => false
  | _ => true

theorem checksMembership_sound (committed : List LogEntry) (state : MemberWorld) (action : ClusterAction)
    (checked : checksMembership committed state action) : state.CarriesMembership committed action := by
  cases action with
  | take action =>
      cases action with
      | act v event =>
          cases event with
          | pickCommitted stateFault leaveFault =>
              intro process up
              simp only [checksMembership, up, Host.process, Option.all_some, Bool.and_eq_true, Option.all_eq_true,
                decide_eq_true_eq] at checked
              refine ⟨checked.1, fun next found leaves => ?_⟩
              exact (checked.2 next found).resolve_left (not_not.mpr leaves)
          | finishInstall install fault =>
              intro process up entry member configuration
              simp only [checksMembership, up, Host.process, Option.all_some, List.all_eq_true,
                decide_eq_true_eq] at checked
              exact (checked entry member).resolve_left (not_not.mpr configuration)
          | _ => exact fun _ _ => trivial
      | crash v => trivial
      | restart v keep => cases checked
  | _ => trivial

/-- `A` compacts its log and sends the snapshot to a node, which installs it. -/
def installs (peer : NodeID) (index : ℕ) : List ClusterAction :=
  let args : InstallSnapshotArgs := ⟨1, "A", index, 1, [9]⟩
  [.take (.act "A" (.createSnapshot index [9] .none .none)), .take (.act "A" (.sendInstallSnapshot peer)),
    .take (.act peer (.receiveInstallSnapshot args .none .none)),
    .take (.act peer (.restoreSnapshot ⟨args, 1, false⟩ true)), .take (.act peer (.finishInstall ⟨args, 1, true⟩ .none))]

/-- The log of `A` when it adds `D` and then takes a command. -/
def additionAndCommand : List Bytes := additions.take 2 ++ [[7]]

/-- What a log of term 1 with this data holds. -/
def committedOf (log : List Bytes) : List LogEntry :=
  log.zipIdx.map fun (data, position) => ⟨position + 1, 1, data⟩

/-- How much a node has applied, and with which voters. -/
def appliedWith (state : MemberWorld) (v : NodeID) (applied : ℕ) (voters : List NodeID) : Bool :=
  (state.world.host v).process.any fun process =>
    process.node.lastApplied = applied ∧ process.node.persistent.membership = ⟨⟨voters⟩, none⟩

theorem appliedWith_up {applied : ℕ} {voters : List NodeID} (reached : appliedWith state v applied voters) :
    ∃ process, state.world.host v = .up process ∧ process.node.lastApplied = applied ∧
      process.node.persistent.membership = ⟨⟨voters⟩, none⟩ := by
  obtain ⟨process, up, holds⟩ := (Option.any_eq_true _ _).mp reached
  exact ⟨process, Host.process_eq_some.mp up, of_decide_eq_true holds⟩

/-- `B` has applied both entries that add `D`; the command that follows reaches it in a snapshot. -/
theorem configured_before_snapshot : ∃ (state : MemberWorld) (left right : Process),
    state.world.host "A" = .up left ∧ state.world.host "B" = .up right ∧ left.node.lastApplied = 3 ∧
      right.node.lastApplied = 3 ∧ left.node.persistent.membership = right.node.persistent.membership := by
  let committed := committedOf additionAndCommand
  have run : ∃ state, Reaches (five ["A", "B", "C"]).step (MemberWorld.CarriesMembership committed)
      (five ["A", "B", "C"]).initial state ∧
        (appliedWith state "A" 3 ["A", "B", "C", "D"] ∧ appliedWith state "B" 3 ["A", "B", "C", "D"]) :=
    Reaches.of_leadsTo (checksMembership committed) (checksMembership_sound committed)
      (stands "A" 1 0 ["B"] ++ [.take (.act "A" .tryBecomeLeader)] ++ addsD ++
        ships additionAndCommand "B" 2 2 2 ++ applies "B" 2 ++ [.take (.act "A" (.propose [7] .none))] ++
        ships additionAndCommand "D" 2 3 2 ++ ships additionAndCommand "C" 0 3 2 ++
        [.take (.act "A" (.pickCommitted .none .none)), .take (.act "A" .sendApplied),
          .take (.act "A" .markApplied)] ++ installs "B" 3)
      (by decide +kernel)
  obtain ⟨state, reached, first, second⟩ := run
  obtain ⟨left, up, applied, _⟩ := appliedWith_up first
  obtain ⟨right, upToo, appliedToo, _⟩ := appliedWith_up second
  refine ⟨state, left, right, up, upToo, applied, appliedToo, ?_⟩
  refine snapshots_carry_configuration (by decide +kernel) reached up upToo (applied.trans appliedToo.symm) ?_
  rw [applied]
  decide +kernel

/-- All nodes run on and no storage call fails. -/
def undisturbed : ClusterAction → Bool
  | .take (.act _ event) => event.faults.all (· = .none)
  | .take (.crash _) | .take (.restart _ _) => false
  | .resume fault => fault = .none
  | .begin _ _ _ | .expire => true

/-- The log of `A` when it removes `C`. -/
def removalOfC : List Bytes := jointData [(["A", "B", "C"], ["A", "B"])]

/-- `A` removes `C`, and `C` learns of it from a snapshot only: it has applied as much as `A` and still
counts itself among the voters. -/
theorem snapshot_loses_configuration : ∃ (state : MemberWorld) (left right : Process) (log : Log),
    Reaches (five ["A", "B", "C"]).step (fun _ action => undisturbed action) (five ["A", "B", "C"]).initial state ∧
      state.world.host "A" = .up left ∧ state.world.host "C" = .up right ∧
      ("A", .committed 1 2 log) ∈ state.world.trace ∧
      (∃ entry ∈ log.entries, isConfigurationEntry entry.data ∧ entry.index ≤ 2) ∧
      left.node.lastApplied = 2 ∧ right.node.lastApplied = 2 ∧
      left.node.persistent.membership.current.voters = ["A", "B"] ∧
      right.node.persistent.membership.current.voters = ["A", "B", "C"] := by
  have run : ∃ state, Reaches (five ["A", "B", "C"]).step (fun _ action => undisturbed action)
      (five ["A", "B", "C"]).initial state ∧
        (appliedWith state "A" 2 ["A", "B"] ∧ appliedWith state "C" 2 ["A", "B", "C"] ∧
          ("A", .committed 1 2 ⟨committedOf removalOfC, 0, 0, by decide +kernel, fun _ => rfl⟩) ∈ state.world.trace) :=
    Reaches.of_leadsTo (fun _ action => undisturbed action) (fun _ _ admitted => admitted)
      (stands "A" 1 0 ["B"] ++ [.take (.act "A" .tryBecomeLeader), .begin "A" .remove "C"] ++ goesOn 1 ++
        ships removalOfC "B" 0 1 0 ++ applies "A" 1 ++ goesOn 2 ++ ships removalOfC "B" 1 2 1 ++ applies "A" 1 ++
        installs "C" 2)
      (by decide +kernel)
  obtain ⟨state, reached, first, second, committed⟩ := run
  obtain ⟨left, up, applied, voters⟩ := appliedWith_up first
  obtain ⟨right, upToo, appliedToo, votersToo⟩ := appliedWith_up second
  exact ⟨state, left, right, _, reached, up, upToo, committed, by decide +kernel, applied, appliedToo,
    by rw [voters], by rw [votersToo]⟩

end Deployment

end Raftiq
