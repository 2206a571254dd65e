import Raftiq.Types
import Mathlib.Data.List.Count
import Mathlib.Data.Set.Basic
import Mathlib.Tactic.Tauto

namespace Raftiq

def configurationMajority (configuration : Configuration) : ℕ :=
  configuration.voters.length / 2 + 1

def configurationHasQuorum (configuration : Configuration) (votes : List NodeID) : Bool :=
  let required := configurationMajority configuration
  if required = 0 then false
  else decide (required ≤ configuration.voters.countP (· ∈ votes))

def membershipHasQuorum (membership : Membership) (votes : List NodeID) : Bool :=
  match membership.joint with
  | some joint => configurationHasQuorum joint.old votes && configurationHasQuorum joint.new votes
  | none => configurationHasQuorum membership.current votes

def configurationContainsVoter (configuration : Configuration) (nodeID : NodeID) : Bool :=
  decide (nodeID ∈ configuration.voters)

def membershipIsVoter (membership : Membership) (nodeID : NodeID) : Bool :=
  if nodeID = "" then false
  else
    match membership.joint with
    | some joint =>
        configurationContainsVoter joint.old nodeID || configurationContainsVoter joint.new nodeID
    | none => configurationContainsVoter membership.current nodeID

theorem configurationHasQuorum_iff {configuration : Configuration} {votes : List NodeID} :
    configurationHasQuorum configuration votes ↔
      configuration.voters.length < 2 * configuration.voters.countP (· ∈ votes) := by
  unfold configurationHasQuorum configurationMajority
  simp only [Nat.add_eq_zero_iff, one_ne_zero, and_false, ↓reduceIte, decide_eq_true_eq]
  omega

/-- Two majorities of one list of voters overlap: the counts exceed its length. -/
theorem countP_overlap (voters left right : List NodeID)
    (large : voters.length < voters.countP (· ∈ left) + voters.countP (· ∈ right)) :
    ∃ v ∈ voters, v ∈ left ∧ v ∈ right := by
  induction voters with
  | nil => simp at large
  | cons head rest ih =>
      by_cases both : head ∈ left ∧ head ∈ right
      · exact ⟨head, List.mem_cons_self, both⟩
      · have atMost : (if head ∈ left then 1 else 0) + (if head ∈ right then 1 else 0) ≤ 1 := by
          split <;> split <;> simp_all
        simp only [List.length_cons, List.countP_cons, decide_eq_true_eq] at large
        obtain ⟨v, member, overlap⟩ := ih (by omega)
        exact ⟨v, List.mem_cons_of_mem _ member, overlap⟩

theorem configurationHasQuorum_overlap {configuration : Configuration} {left right : List NodeID}
    (enoughLeft : configurationHasQuorum configuration left)
    (enoughRight : configurationHasQuorum configuration right) :
    ∃ v ∈ configuration.voters, v ∈ left ∧ v ∈ right := by
  rw [configurationHasQuorum_iff] at enoughLeft enoughRight
  exact countP_overlap _ _ _ (by omega)

theorem membershipHasQuorum_overlap {membership : Membership} {left right : List NodeID}
    (enoughLeft : membershipHasQuorum membership left)
    (enoughRight : membershipHasQuorum membership right) : ∃ v, v ∈ left ∧ v ∈ right := by
  unfold membershipHasQuorum at enoughLeft enoughRight
  cases joint : membership.joint with
  | none =>
      simp only [joint] at enoughLeft enoughRight
      obtain ⟨v, _, overlap⟩ := configurationHasQuorum_overlap enoughLeft enoughRight
      exact ⟨v, overlap⟩
  | some both =>
      simp only [joint, Bool.and_eq_true] at enoughLeft enoughRight
      obtain ⟨v, _, overlap⟩ := configurationHasQuorum_overlap enoughLeft.1 enoughRight.1
      exact ⟨v, overlap⟩

theorem membershipIsVoter_ne_empty {membership : Membership} {nodeID : NodeID}
    (voter : membershipIsVoter membership nodeID) : nodeID ≠ "" := by
  rintro rfl
  simp [membershipIsVoter] at voter

namespace Configuration

/-- Two listings of the same voters. -/
def Same (left right : Configuration) : Prop :=
  left.voters.Perm right.voters

theorem Same.hasQuorum_eq {left right : Configuration} (same : left.Same right)
    (votes : List NodeID) : configurationHasQuorum left votes = configurationHasQuorum right votes := by
  unfold configurationHasQuorum configurationMajority
  rw [same.length_eq, same.countP_eq]

end Configuration

namespace Membership

/-- Every node lists itself first, so two nodes may write one membership differently. -/
def Same (left right : Membership) : Prop :=
  match left.joint, right.joint with
  | some leftJoint, some rightJoint =>
      leftJoint.old.Same rightJoint.old ∧ leftJoint.new.Same rightJoint.new
  | none, none => left.current.Same right.current
  | _, _ => False

theorem Same.refl (membership : Membership) : membership.Same membership := by
  unfold Same
  cases membership.joint with
  | none => exact List.Perm.refl _
  | some both => exact ⟨List.Perm.refl _, List.Perm.refl _⟩

theorem Same.hasQuorum_eq {left right : Membership} (same : left.Same right) (votes : List NodeID) :
    membershipHasQuorum left votes = membershipHasQuorum right votes := by
  unfold Same at same
  unfold membershipHasQuorum
  cases leftJoint : left.joint with
  | none =>
      cases rightJoint : right.joint with
      | none =>
          simp only [leftJoint, rightJoint] at same
          exact same.hasQuorum_eq votes
      | some both => simp [leftJoint, rightJoint] at same
  | some both =>
      cases rightJoint : right.joint with
      | none => simp [leftJoint, rightJoint] at same
      | some others =>
          simp only [leftJoint, rightJoint] at same
          simp only [same.1.hasQuorum_eq votes, same.2.hasQuorum_eq votes]

/-- A set of nodes that contains the votes of a quorum. -/
def IsQuorum (membership : Membership) (nodes : Set NodeID) : Prop :=
  ∃ votes : List NodeID, membershipHasQuorum membership votes ∧ ∀ v ∈ votes, v ∈ nodes

/-- Every quorum of one membership shares a node with every quorum of the other. -/
def Overlaps (left right : Membership) : Prop :=
  ∀ votes others, membershipHasQuorum left votes → membershipHasQuorum right others →
    ∃ v, v ∈ votes ∧ v ∈ others

theorem Overlaps.refl (membership : Membership) : membership.Overlaps membership :=
  fun _ _ => membershipHasQuorum_overlap

theorem Overlaps.intersects {membership other : Membership} (overlaps : membership.Overlaps other)
    (left right : Set NodeID) (enoughLeft : membership.IsQuorum left) (enoughRight : other.IsQuorum right) :
    ∃ v, v ∈ left ∧ v ∈ right := by
  obtain ⟨votesLeft, quorumLeft, insideLeft⟩ := enoughLeft
  obtain ⟨votesRight, quorumRight, insideRight⟩ := enoughRight
  obtain ⟨v, inLeft, inRight⟩ := overlaps _ _ quorumLeft quorumRight
  exact ⟨v, insideLeft v inLeft, insideRight v inRight⟩

theorem IsQuorum.intersects (membership : Membership) (left right : Set NodeID)
    (enoughLeft : membership.IsQuorum left) (enoughRight : membership.IsQuorum right) :
    ∃ v, v ∈ left ∧ v ∈ right :=
  (Overlaps.refl membership).intersects left right enoughLeft enoughRight

end Membership

end Raftiq
