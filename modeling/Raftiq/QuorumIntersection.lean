import Raftiq.MembershipUpdates
import Raftiq.Raft.Bootstrap
import Raftiq.Storage.Openable

namespace Raftiq

/-- A configuration that lists its voters once each. -/
structure Configuration.WellFormed (configuration : Configuration) : Prop where
  nodup : configuration.voters.Nodup
  nonempty : configuration.voters ≠ []

/-- The configurations whose majorities a membership asks for. -/
def Membership.configurations (membership : Membership) : List Configuration :=
  match membership.joint with
  | some joint => [joint.old, joint.new]
  | none => [membership.current]

/-- All configurations of the membership, also the one that a joint one replaces. -/
structure Membership.WellFormed (membership : Membership) : Prop where
  current : membership.current.WellFormed
  active : ∀ configuration ∈ membership.configurations, configuration.WellFormed

theorem membershipHasQuorum_iff {membership : Membership} {votes : List NodeID} :
    membershipHasQuorum membership votes ↔
      ∀ configuration ∈ membership.configurations, configurationHasQuorum configuration votes := by
  unfold membershipHasQuorum Membership.configurations
  cases membership.joint with
  | none => simp
  | some joint => simp

theorem Membership.configurations_ne_nil (membership : Membership) : membership.configurations ≠ [] := by
  unfold configurations
  cases membership.joint with
  | none => simp
  | some joint => simp

/-- A quorum of a membership meets every quorum of one of its configurations alone. -/
theorem membershipHasQuorum_meets {membership : Membership} {configuration : Configuration}
    {votes others : List NodeID} (enough : membershipHasQuorum membership votes)
    (active : configuration ∈ membership.configurations)
    (enoughToo : configurationHasQuorum configuration others) :
    ∃ v ∈ configuration.voters, v ∈ votes ∧ v ∈ others :=
  configurationHasQuorum_overlap (membershipHasQuorum_iff.mp enough configuration active) enoughToo

namespace Configuration

variable {old : Configuration} {peerID : NodeID} {votes others : List NodeID}

def add (configuration : Configuration) (peerID : NodeID) : Configuration where
  voters := configuration.voters ++ [peerID]

def remove (configuration : Configuration) (peerID : NodeID) : Configuration where
  voters := configuration.voters.filter (· ≠ peerID)

theorem nodup_add (nodup : old.voters.Nodup) (new : peerID ∉ old.voters) : (old.add peerID).voters.Nodup := by
  refine List.nodup_append.mpr ⟨nodup, List.nodup_singleton _, fun v member other last => ?_⟩
  rw [List.mem_singleton.mp last]
  exact fun same => new (same ▸ member)

theorem not_mem_remove : peerID ∉ (old.remove peerID).voters := by
  simp [remove]

/-- Adding undoes a removal, up to the order of the voters. -/
theorem same_remove_add (nodup : old.voters.Nodup) (member : peerID ∈ old.voters) :
    old.Same ((old.remove peerID).add peerID) := by
  have kept : (old.remove peerID).voters.Nodup := nodup.filter _
  refine (List.perm_ext_iff_of_nodup nodup (nodup_add kept not_mem_remove)).mpr fun v => ?_
  by_cases same : v = peerID
  · simp [add, remove, same, member]
  · simp [add, remove, same]

/-- One voter more: the votes of the newcomer are missing in the old configuration only. -/
theorem add_overlap (enough : configurationHasQuorum old votes)
    (enoughToo : configurationHasQuorum (old.add peerID) others) :
    ∃ v ∈ old.voters, v ∈ votes ∧ v ∈ others := by
  rw [configurationHasQuorum_iff] at enough enoughToo
  have newcomer : [peerID].countP (· ∈ others) ≤ 1 := List.countP_le_length
  rw [add, List.length_append, List.countP_append, List.length_singleton] at enoughToo
  exact countP_overlap _ _ _ (by omega)

theorem remove_overlap (nodup : old.voters.Nodup) (member : peerID ∈ old.voters)
    (enough : configurationHasQuorum old votes)
    (enoughToo : configurationHasQuorum (old.remove peerID) others) :
    ∃ v ∈ (old.remove peerID).voters, v ∈ votes ∧ v ∈ others := by
  rw [(same_remove_add nodup member).hasQuorum_eq] at enough
  obtain ⟨v, voter, second, first⟩ := add_overlap enoughToo enough
  exact ⟨v, voter, first, second⟩

theorem WellFormed.add (wellFormed : old.WellFormed) (new : peerID ∉ old.voters) :
    (old.add peerID).WellFormed where
  nodup := nodup_add wellFormed.nodup new
  nonempty := by simp [Configuration.add]

/-- A configuration with a second voter can lose one. -/
theorem WellFormed.remove (wellFormed : old.WellFormed) (member : peerID ∈ old.voters)
    (several : 1 < old.voters.length) : (old.remove peerID).WellFormed where
  nodup := wellFormed.nodup.filter _
  nonempty := by
    intro empty
    have length := (same_remove_add wellFormed.nodup member).length_eq
    simp [Configuration.add, empty] at length
    omega

end Configuration

theorem membershipIsVoter_stable {membership : Membership} {peerID : NodeID} (stable : membership.joint = none) :
    membershipIsVoter membership peerID ↔ peerID ≠ "" ∧ peerID ∈ membership.current.voters := by
  unfold membershipIsVoter
  by_cases empty : peerID = ""
  · simp [empty]
  · simp [empty, stable, configurationContainsVoter]

/-- What `validateConfiguration` lets through. -/
theorem validateConfiguration_wellFormed {configuration : Configuration}
    (validated : validateConfiguration configuration = .ok ()) :
    configuration.WellFormed ∧ "" ∉ configuration.voters := by
  have decodable := validateConfiguration_ok validated
  refine ⟨⟨decodable.2.2, fun empty => ?_⟩, fun member => (decodable.2.1 _ member).1 rfl⟩
  simp [validateConfiguration, empty] at validated

namespace RaftNode

theorem nodup_addVoter {voters : List NodeID} (nodup : voters.Nodup) (id : NodeID) :
    (addVoter voters id).Nodup := by
  unfold addVoter
  split
  · exact nodup
  · split
    · exact nodup
    · rename_i new
      have added : ((⟨voters⟩ : Configuration).add id).voters.Nodup := Configuration.nodup_add nodup new
      exact added

theorem empty_not_mem_addVoter {voters : List NodeID} (named : "" ∉ voters) (id : NodeID) :
    "" ∉ addVoter voters id := by
  unfold addVoter
  split
  · exact named
  · rename_i some
    split
    · exact named
    · simp [named, Ne.symm some]

/-- What `BootstrapMembership` writes. -/
theorem bootstrapVoters_wellFormed {node : RaftNode} (bootstraps : node.Bootstraps) :
    Configuration.WellFormed ⟨node.bootstrapVoters⟩ ∧ "" ∉ node.bootstrapVoters := by
  have each : node.bootstrapVoters.Nodup ∧ "" ∉ node.bootstrapVoters := by
    unfold bootstrapVoters
    generalize node.id :: node.peerIDs = ids
    induction ids using List.reverseRecOn with
    | nil => simp
    | append_singleton ids id ih =>
        rw [List.foldl_append]
        exact ⟨nodup_addVoter ih.1 id, empty_not_mem_addVoter ih.2 id⟩
  exact ⟨⟨each.1, bootstraps.2⟩, each.2⟩

end RaftNode

/-- The two configurations between which a membership change leads. -/
theorem neighbours_wellFormed_overlap {node : RaftNode} {peerID : NodeID} {old new : Configuration}
    (wellFormed : node.persistent.membership.current.WellFormed)
    (named : peerID ≠ "" ∨ "" ∉ node.persistent.membership.current.voters)
    (validated : node.validateAddMemberLocked peerID = .ok (old, new) ∨
      node.validateRemoveMemberLocked peerID = .ok (old, new)) :
    new.WellFormed ∧ ∀ votes others, configurationHasQuorum old votes → configurationHasQuorum new others →
      ∃ v ∈ old.voters, v ∈ new.voters ∧ v ∈ votes ∧ v ∈ others := by
  rcases validated with added | removed
  · obtain ⟨rfl, voters, stable, outside⟩ := RaftNode.validateAddMemberLocked_ok added
    obtain rfl : new = node.persistent.membership.current.add peerID := congrArg Configuration.mk voters
    have newcomer : peerID ∉ node.persistent.membership.current.voters := by
      intro member
      rcases named with some | none
      · exact outside ((membershipIsVoter_stable stable).mpr ⟨some, member⟩)
      · exact outside ((membershipIsVoter_stable stable).mpr ⟨fun empty => none (empty ▸ member), member⟩)
    refine ⟨wellFormed.add newcomer, fun votes others enough enoughToo => ?_⟩
    obtain ⟨v, voter, shared⟩ := Configuration.add_overlap enough enoughToo
    exact ⟨v, voter, List.mem_append_left _ voter, shared⟩
  · obtain ⟨rfl, voters, stable, voter, several⟩ := RaftNode.validateRemoveMemberLocked_ok removed
    obtain rfl : new = node.persistent.membership.current.remove peerID := congrArg Configuration.mk voters
    have member := ((membershipIsVoter_stable stable).mp voter).2
    refine ⟨wellFormed.remove member several, fun votes others enough enoughToo => ?_⟩
    obtain ⟨v, kept, shared⟩ := Configuration.remove_overlap wellFormed.nodup member enough enoughToo
    exact ⟨v, List.mem_of_mem_filter kept, kept, shared⟩

/-- Quorums intersect: of one membership, of a joint one and either of its configurations, and of two
configurations between which one call leads.  `AddMember` refuses the empty id before it validates the call. -/
theorem quorums_intersect {membership : Membership} (wellFormed : membership.WellFormed) :
    (∀ votes others, membershipHasQuorum membership votes → membershipHasQuorum membership others →
      ∃ configuration ∈ membership.configurations, ∃ v ∈ configuration.voters, v ∈ votes ∧ v ∈ others) ∧
    (∀ both, membership.joint = some both → ∀ votes others, membershipHasQuorum membership votes →
      (configurationHasQuorum both.old others → ∃ v ∈ both.old.voters, v ∈ votes ∧ v ∈ others) ∧
      (configurationHasQuorum both.new others → ∃ v ∈ both.new.voters, v ∈ votes ∧ v ∈ others)) ∧
    (∀ (node : RaftNode) peerID old new, node.persistent.membership = membership →
      peerID ≠ "" ∨ "" ∉ membership.current.voters →
      node.validateAddMemberLocked peerID = .ok (old, new) ∨
        node.validateRemoveMemberLocked peerID = .ok (old, new) →
      new.WellFormed ∧ ∀ votes others, configurationHasQuorum old votes → configurationHasQuorum new others →
        ∃ v ∈ old.voters, v ∈ new.voters ∧ v ∈ votes ∧ v ∈ others) ∧
    (∀ configuration, validateConfiguration configuration = .ok () →
      configuration.WellFormed ∧ "" ∉ configuration.voters) ∧
    (∀ node : RaftNode, node.Bootstraps →
      Configuration.WellFormed ⟨node.bootstrapVoters⟩ ∧ "" ∉ node.bootstrapVoters) := by
  refine ⟨fun votes others enough enoughToo => ?_, fun both joint votes others enough => ?_, ?_,
    fun _ => validateConfiguration_wellFormed, fun _ => RaftNode.bootstrapVoters_wellFormed⟩
  · obtain ⟨configuration, active⟩ := List.exists_mem_of_ne_nil _ membership.configurations_ne_nil
    exact ⟨configuration, active,
      membershipHasQuorum_meets enough active (membershipHasQuorum_iff.mp enoughToo configuration active)⟩
  · have old : both.old ∈ membership.configurations := by simp [Membership.configurations, joint]
    have new : both.new ∈ membership.configurations := by simp [Membership.configurations, joint]
    exact ⟨membershipHasQuorum_meets enough old, membershipHasQuorum_meets enough new⟩
  · rintro node peerID old new rfl named validated
    exact neighbours_wellFormed_overlap wellFormed.current named validated

/-- `A` adds `D` to `A`, `B` and `C`: two voters of the old configuration and three of the new one. -/
theorem quorums_intersect_when_adding : ∃ (node : RaftNode) (new : Configuration),
    node.validateAddMemberLocked "D" = .ok (⟨["A", "B", "C"]⟩, new) ∧
      configurationHasQuorum ⟨["A", "B", "C"]⟩ ["A", "B"] ∧ configurationHasQuorum new ["B", "C", "D"] ∧
      ∃ v ∈ ["A", "B", "C"], v ∈ new.voters ∧ v ∈ ["A", "B"] ∧ v ∈ ["B", "C", "D"] := by
  let node := MemberProcess.electedA.node
  have wellFormed : node.persistent.membership.WellFormed :=
    ⟨⟨by decide, by decide⟩, fun configuration active => by
      obtain rfl := List.mem_singleton.mp active
      exact ⟨by decide, by decide⟩⟩
  have validated : node.validateAddMemberLocked "D" = .ok (⟨["A", "B", "C"]⟩, ⟨["A", "B", "C", "D"]⟩) := rfl
  have meets := (quorums_intersect wellFormed).2.2.1 node "D" _ _ rfl (Or.inl (by decide)) (Or.inl validated)
  exact ⟨node, _, validated, by decide, by decide, meets.2 _ _ (by decide) (by decide)⟩

end Raftiq
