import Raftiq.Cluster
import Raftiq.Raft.MemberCall

namespace Raftiq

/-- A call that is over. -/
structure MemberReturn where
  change : MemberChange
  peerID : NodeID
  result : Except MemberError Unit
deriving DecidableEq

/-- A process with the membership calls that were made on it. -/
structure MemberProcess where
  process : Process
  calls : List MemberCall
  returned : List MemberReturn

inductive MemberAction where
  | act (event : Event)
  | begin (change : MemberChange) (peerID : NodeID)
  | resume (call : MemberCall) (fault : Fault)
  | expire (call : MemberCall)
deriving DecidableEq

namespace MemberReturn

/-- The configuration shows that the call was made. -/
def ShownBy (call : MemberReturn) (configuration : Configuration) : Prop :=
  call.peerID ∈ configuration.voters ↔ call.change = .add

end MemberReturn

namespace RaftNode

/-- A configuration entry that the node has not applied. -/
structure Unapplied (node : RaftNode) (entry : LogEntry) : Prop where
  member : entry ∈ node.log.entries
  above : node.lastApplied < entry.index
  configuration : isConfigurationEntry entry.data

/-- The membership stays, and no configuration entries come in. -/
structure Narrows (before after : RaftNode) : Prop where
  membership : after.persistent.membership = before.persistent.membership
  unapplied : ∀ entry, after.Unapplied entry → before.Unapplied entry

variable {before after : RaftNode} {data : Bytes}

theorem Settles.narrows (settles : before.Settles after) (leads : after.role = .leader) :
    before.Narrows after where
  membership := settles.membership
  unapplied _ unapplied :=
    ⟨settles.entries leads unapplied.member, settles.applied.trans_lt unapplied.above, unapplied.configuration⟩

theorem ApplyFrame.narrows (frame : before.ApplyFrame after) : before.Narrows after where
  membership := frame.membership
  unapplied _ unapplied :=
    ⟨frame.log ▸ unapplied.member, frame.applied ▸ unapplied.above, unapplied.configuration⟩

theorem Proposed.unapplied {result : Except ProposeError ℕ} {entry : LogEntry}
    (proposed : before.Proposed data after result) (applied : after.lastApplied = before.lastApplied)
    (unapplied : after.Unapplied entry) : before.Unapplied entry ∨
      result = .ok entry.index ∧ entry = ⟨entry.index, before.persistent.currentTerm, data⟩ := by
  obtain ⟨member, above, configuration⟩ := unapplied
  rw [applied] at above
  cases result with
  | error error =>
      rw [show after.log = before.log from proposed] at member
      exact Or.inl ⟨member, above, configuration⟩
  | ok index =>
      obtain ⟨rfl, appended⟩ := proposed
      rcases before.log.append_cases ⟨before.log.lastIndex + 1, before.persistent.currentTerm, data⟩ with
        ⟨log, same, _, grown, _⟩ | ⟨_, refused⟩
      · rw [appended] at same
        cases same
        rw [grown] at member
        rcases List.mem_append.mp member with old | new
        · exact Or.inl ⟨old, above, configuration⟩
        · rw [List.mem_singleton.mp new]
          exact Or.inr ⟨rfl, rfl⟩
      · rw [appended] at refused
        cases refused

/-- No entry of a log that has just been extended is above the new one. -/
theorem Proposed.index_le {index : ℕ} {entry : LogEntry} (proposed : before.Proposed data after (.ok index))
    (member : entry ∈ after.log.entries) : entry.index ≤ index := by
  obtain ⟨rfl, appended⟩ := proposed
  rcases before.log.append_cases ⟨before.log.lastIndex + 1, before.persistent.currentTerm, data⟩ with
    ⟨log, same, _, _, _, _, last⟩ | ⟨_, refused⟩
  · rw [appended] at same
    cases same
    have bounds := after.log.numbered.mem_index member
    rw [← last, Log.lastIndex_eq]
    omega
  · rw [appended] at refused
    cases refused

theorem nextConfiguration_unapplied {node : RaftNode} {entry : LogEntry} {membership : Membership}
    (next : node.nextConfiguration = some (entry, membership)) :
    node.Unapplied entry ∧ nextMembership entry = .ok membership := by
  obtain ⟨_, found, configuration, decoded⟩ := nextConfiguration_some next
  obtain ⟨index, member | empty⟩ := Log.mem_of_get found
  · exact ⟨⟨member, by omega, configuration⟩, decoded⟩
  · rw [empty] at configuration
    cases configuration

end RaftNode

namespace MemberCall

/-- A call that waits for its second entry, or has found it applied, was the last one to propose a
configuration. -/
def Last (call : MemberCall) (node : RaftNode) : Prop :=
  match call.stage with
  | .awaitLeave index => ∀ entry, node.Unapplied entry → entry.index ≤ index
  | .readFinal => ∀ entry, ¬ node.Unapplied entry
  | _ => True

theorem Last.mono {call : MemberCall} {before after : RaftNode} (last : call.Last before)
    (unapplied : ∀ entry, after.Unapplied entry → before.Unapplied entry) : call.Last after := by
  unfold Last at last ⊢
  split at last
  · exact fun entry found => last entry (unapplied entry found)
  · exact fun entry found => last entry (unapplied entry found)
  · trivial

end MemberCall

namespace RaftNode

/-- How a call begins. -/
inductive Begun (node after : RaftNode) (peerID : NodeID) : MemberProgress → Prop where
  | refused (frame : node.ApplyFrame after) (error : MemberError) : Begun node after peerID (.returned (.error error))
  | validated (frame : node.ApplyFrame after) {call : MemberCall} (named : peerID ≠ "")
      (peer : call.peerID = peerID)
      (old : call.oldConfiguration = node.persistent.membership.current)
      (new : ∀ voter, voter ≠ peerID →
        (voter ∈ call.newConfiguration.voters ↔ voter ∈ call.oldConfiguration.voters))
      (idle : ∀ node, call.Last node) : Begun node after peerID (.waiting call)

theorem beginMember_begun (node : RaftNode) (change : MemberChange) (peerID : NodeID) :
    node.Begun (node.beginMember change peerID).1 peerID (node.beginMember change peerID).2 := by
  unfold beginMember
  split
  · exact .refused (.refl node) _
  · rename_i named
    cases change with
    | add =>
        dsimp only
        split
        · exact .refused (.refl node) _
        · rename_i old new validated
          obtain ⟨same, voters, _⟩ := validateAddMemberLocked_ok validated
          have frame : node.ApplyFrame (node.initializeNewPeerReplicationStateLocked peerID) := ⟨rfl, rfl, rfl⟩
          refine .validated frame named rfl same (fun voter other => ?_) fun _ => trivial
          simp [voters, other]
    | remove =>
        dsimp only
        split
        · exact .refused (.refl node) _
        · rename_i old new validated
          obtain ⟨same, voters, _⟩ := validateRemoveMemberLocked_ok validated
          refine .validated (.refl node) named rfl same (fun voter other => ?_) fun _ => trivial
          simp [voters, other]

end RaftNode

namespace MemberProcess

/-- Notes how far a call has come. -/
def book (state : MemberProcess) (process : Process) (others : List MemberCall) (change : MemberChange)
    (peerID : NodeID) : MemberProgress → MemberProcess
  | .waiting call => { process := process, calls := call :: others, returned := state.returned }
  | .returned result =>
      { process := process, calls := others, returned := ⟨change, peerID, result⟩ :: state.returned }

def step (state : MemberProcess) : MemberAction → Option MemberProcess
  | .act event => (state.process.advance event).map fun process => { state with process := process }
  | .begin change peerID =>
      let (node, progress) := state.process.node.beginMember change peerID
      some (state.book (state.process.withNode node) state.calls change peerID progress)
  | .resume call fault =>
      if call ∈ state.calls then
        match state.process.node.resumeMember call fault with
        | .crashed _ => none
        | .done node progress =>
            some (state.book (state.process.withNode node) (state.calls.erase call) call.change call.peerID
              progress)
      else none
  | .expire call =>
      if call ∈ state.calls ∧ call.stage.waits then
        some (state.book state.process (state.calls.erase call) call.change call.peerID
          (.returned (.error .timedOut)))
      else none

/-- Calls are for distinct peers, and only they propose configurations. -/
def Admits (state : MemberProcess) : MemberAction → Prop
  | .act event => ¬ event.configures
  | .begin _ peerID => IsByteString peerID ∧ (∀ call ∈ state.calls, call.peerID ≠ peerID) ∧
      ∀ call ∈ state.returned, call.peerID ≠ peerID
  | .resume _ _ | .expire _ => True

def KeepsLeading (state : MemberProcess) (action : MemberAction) : Prop :=
  ∀ after ∈ state.step action, after.process.node.role = .leader

/-- A call begins when all earlier ones have returned. -/
def Serial (state : MemberProcess) : MemberAction → Prop
  | .begin _ _ => state.calls = []
  | _ => True

/-- What has returned successfully is shown by everything that the node has applied or will apply. -/
structure Keeps (state : MemberProcess) : Prop where
  single : ∀ call ∈ state.calls, state.calls = [call]
  fresh : ∀ call ∈ state.calls, ∀ earlier ∈ state.returned, earlier.peerID ≠ call.peerID
  representable : state.process.node.persistent.membership.current.Representable
  named : ∀ call ∈ state.calls, call.peerID ≠ ""
  computed : ∀ call ∈ state.calls, call.oldConfiguration.Representable ∧ call.newConfiguration.Representable
  current : ∀ earlier ∈ state.returned, earlier.result = .ok () →
    earlier.ShownBy state.process.node.persistent.membership.current
  coming : ∀ earlier ∈ state.returned, earlier.result = .ok () → ∀ entry membership,
    state.process.node.Unapplied entry → nextMembership entry = .ok membership →
      earlier.ShownBy membership.current
  pending : ∀ earlier ∈ state.returned, earlier.result = .ok () → ∀ call ∈ state.calls,
    earlier.ShownBy call.oldConfiguration ∧ earlier.ShownBy call.newConfiguration
  last : ∀ call ∈ state.calls, call.Last state.process.node

variable {state : MemberProcess} {call : MemberCall}

theorem Keeps.narrow (keeps : state.Keeps) {process : Process}
    (narrows : state.process.node.Narrows process.node) : Keeps { state with process := process } where
  single := keeps.single
  fresh := keeps.fresh
  representable := narrows.membership ▸ keeps.representable
  named := keeps.named
  computed := keeps.computed
  current := narrows.membership ▸ keeps.current
  coming earlier member ok entry membership unapplied :=
    keeps.coming earlier member ok entry membership (narrows.unapplied entry unapplied)
  pending := keeps.pending
  last call member := (keeps.last call member).mono narrows.unapplied

/-- A configuration that shows all that has returned joins the log. -/
theorem Keeps.propose (keeps : state.Keeps) (member : call ∈ state.calls) (idle : ∀ node, call.Last node)
    {data : Bytes} {membership : Membership} {result : Except ProposeError ℕ} {process : Process}
    (decoded : ∀ index term, nextMembership ⟨index, term, data⟩ = .ok membership)
    (which : membership.current = call.oldConfiguration ∨ membership.current = call.newConfiguration)
    (applied : process.node.lastApplied = state.process.node.lastApplied)
    (same : process.node.persistent.membership = state.process.node.persistent.membership)
    (proposed : state.process.node.Proposed data process.node result) :
    Keeps { state with process := process } where
  single := keeps.single
  fresh := keeps.fresh
  representable := same ▸ keeps.representable
  named := keeps.named
  computed := keeps.computed
  current := same ▸ keeps.current
  coming := by
    intro earlier returned ok entry next unapplied found
    rcases proposed.unapplied applied unapplied with old | ⟨_, new⟩
    · exact keeps.coming earlier returned ok entry next old found
    · rw [new, decoded] at found
      cases found
      obtain ⟨shownOld, shownNew⟩ := keeps.pending earlier returned ok call member
      rcases which with isOld | isNew
      · exact isOld ▸ shownOld
      · exact isNew ▸ shownNew
  pending := keeps.pending
  last := by
    intro other pending
    rw [keeps.single call member] at pending
    rw [List.mem_singleton.mp pending]
    exact idle process.node

theorem Keeps.wait (keeps : state.Keeps) (member : call ∈ state.calls) (change : MemberChange) (peerID : NodeID)
    {stage : MemberStage} (last : (call.moveTo stage).Last state.process.node) :
    (state.book state.process [] change peerID (.waiting (call.moveTo stage))).Keeps where
  single := List.forall_mem_singleton.mpr rfl
  fresh := List.forall_mem_singleton.mpr (keeps.fresh call member)
  representable := keeps.representable
  named := List.forall_mem_singleton.mpr (keeps.named call member)
  computed := List.forall_mem_singleton.mpr (keeps.computed call member)
  current := keeps.current
  coming := keeps.coming
  pending earlier returned ok := List.forall_mem_singleton.mpr (keeps.pending earlier returned ok call member)
  last := List.forall_mem_singleton.mpr last

theorem Keeps.fail (keeps : state.Keeps) (change : MemberChange) (peerID : NodeID) (error : MemberError) :
    (state.book state.process [] change peerID (.returned (.error error))).Keeps where
  single _ none := nomatch none
  fresh _ none := nomatch none
  representable := keeps.representable
  named _ none := nomatch none
  computed _ none := nomatch none
  current := List.forall_mem_cons.mpr ⟨(fun ok => nomatch ok), keeps.current⟩
  coming := List.forall_mem_cons.mpr ⟨(fun ok => nomatch ok), keeps.coming⟩
  pending _ _ _ _ none := nomatch none
  last _ none := nomatch none

/-- A call that returns successfully has just seen its change, and no other change is on its way. -/
theorem Keeps.succeed (keeps : state.Keeps) {change : MemberChange} {peerID : NodeID}
    (none : ∀ entry, ¬ state.process.node.Unapplied entry)
    (shown : ∀ result, MemberReturn.ShownBy ⟨change, peerID, result⟩
      state.process.node.persistent.membership.current) :
    (state.book state.process [] change peerID (.returned (.ok ()))).Keeps where
  single _ none := nomatch none
  fresh _ none := nomatch none
  representable := keeps.representable
  named _ none := nomatch none
  computed _ none := nomatch none
  current := List.forall_mem_cons.mpr ⟨fun _ => shown _, keeps.current⟩
  coming _ _ _ entry _ unapplied := absurd unapplied (none entry)
  pending _ _ _ _ none := nomatch none
  last _ none := nomatch none

theorem Keeps.pick (keeps : state.Keeps) {process : Process} {stage : ApplyStage}
    (picked : state.process.node.Picked process.node stage) : Keeps { state with process := process } := by
  cases picked with
  | command found data same => exact keeps.narrow (same ▸ (RaftNode.ApplyFrame.refl _).narrows)
  | stopped frame => exact keeps.narrow frame.narrows
  | configured next published log applied =>
      obtain ⟨unapplied, decoded⟩ := RaftNode.nextConfiguration_unapplied next
      have fewer : ∀ entry, process.node.Unapplied entry → state.process.node.Unapplied entry :=
        fun entry later => ⟨log ▸ later.member, by have := later.above; omega, later.configuration⟩
      exact {
        single := keeps.single
        fresh := keeps.fresh
        representable := published ▸ (nextMembership_accepted decoded).1.2
        named := keeps.named
        computed := keeps.computed
        current := fun earlier member ok =>
          published ▸ keeps.coming earlier member ok _ _ unapplied decoded
        coming := fun earlier member ok entry membership later =>
          keeps.coming earlier member ok entry membership (fewer entry later)
        pending := keeps.pending
        last := fun call member => (keeps.last call member).mono fewer }

theorem Keeps.act (keeps : state.Keeps) {event : Event} {process : Process} (command : ¬ event.configures)
    (advanced : state.process.advance event = some process) (leads : process.node.role = .leader) :
    Keeps { state with process := process } := by
  obtain ⟨_, stepped⟩ := Process.advance_running advanced
  cases event with
  | pickCommitted stateFault leaveFault =>
      have picks : (state.process.effect (.pickCommitted stateFault leaveFault)).Ensures
          (fun after _ => ∃ stage, state.process.node.Picked after stage) fun _ => True :=
        ((RaftNode.pickCommitted_picks stateFault leaveFault).mono (fun _ stage picked => ⟨stage, picked⟩)
          fun _ _ => trivial).forget
      obtain ⟨stage, picked⟩ := Process.step_ensures stepped picks
      exact keeps.pick picked
  | propose data fault =>
      have proposes : (state.process.effect (.propose data fault)).Ensures
          (fun after _ => state.process.node.Narrows after) fun _ => True := by
        refine ((state.process.node.propose_applies fault data).mono (fun after result proposes => ?_)
          fun _ _ => trivial).forget
        obtain ⟨applied, membership, proposed⟩ := proposes
        refine ⟨membership, fun entry unapplied => ?_⟩
        rcases proposed.unapplied applied unapplied with old | ⟨_, new⟩
        · exact old
        · have configuration := unapplied.configuration
          rw [new] at configuration
          exact absurd configuration command
      exact keeps.narrow (Process.step_ensures stepped proposes)
  | _ => exact keeps.narrow ((Process.step_ensures stepped (state.process.effect_settles rfl)).narrows leads)

theorem Keeps.begin (keeps : state.Keeps) (idle : state.calls = []) {change : MemberChange} {peerID : NodeID}
    (bytes : IsByteString peerID) (fresh : ∀ earlier ∈ state.returned, earlier.peerID ≠ peerID)
    {process : Process} {progress : MemberProgress}
    (begun : state.process.node.Begun process.node peerID progress) :
    (state.book process state.calls change peerID progress).Keeps := by
  rw [idle]
  cases begun with
  | refused frame error => exact (keeps.narrow frame.narrows).fail change peerID error
  | validated frame named peer old new idle =>
      rename_i call
      have kept := keeps.narrow frame.narrows
      have both : ∀ earlier : MemberReturn, earlier.peerID ≠ peerID →
          (earlier.ShownBy call.newConfiguration ↔ earlier.ShownBy call.oldConfiguration) :=
        fun earlier other => iff_congr (new earlier.peerID other) Iff.rfl
      exact {
        single := List.forall_mem_singleton.mpr rfl
        fresh := List.forall_mem_singleton.mpr (peer.symm ▸ fresh)
        representable := kept.representable
        named := List.forall_mem_singleton.mpr (peer.symm ▸ named)
        computed := List.forall_mem_singleton.mpr ⟨old ▸ keeps.representable, fun voter member => by
          by_cases same : voter = peerID
          · exact same ▸ bytes
          · exact keeps.representable voter (old ▸ (new voter same).mp member)⟩
        current := kept.current
        coming := kept.coming
        pending := fun earlier member ok => List.forall_mem_singleton.mpr
          ⟨old ▸ keeps.current earlier member ok, (both earlier (fresh earlier member)).mpr
            (old ▸ keeps.current earlier member ok)⟩
        last := List.forall_mem_singleton.mpr (idle process.node) }

theorem Keeps.proposeEntry (keeps : state.Keeps) (member : call ∈ state.calls) (idle : ∀ node, call.Last node)
    {encoded : Except ConfigEntryError Bytes} {fault : Fault} {encodeFailed : ConfigEntryError → MemberError}
    {proposeFailed : ProposeError → MemberError} {next : ℕ → MemberStage} {membership : Membership}
    {node : RaftNode} {progress : MemberProgress}
    (resumed : state.process.node.proposeEntry call encoded fault encodeFailed proposeFailed next =
      .done node progress)
    (decoded : ∀ data, encoded = .ok data → ∀ index term, nextMembership ⟨index, term, data⟩ = .ok membership)
    (which : membership.current = call.oldConfiguration ∨ membership.current = call.newConfiguration)
    (last : ∀ data index node, state.process.node.Proposed data node (.ok index) →
      (call.moveTo (next index)).Last node) :
    (state.book (state.process.withNode node) [] call.change call.peerID progress).Keeps := by
  cases encoded with
  | error error =>
      cases resumed
      exact keeps.fail _ _ _
  | ok data =>
      have proposes := state.process.node.propose_applies fault data
      simp only [RaftNode.proposeEntry] at resumed
      cases outcome : state.process.node.propose data fault with
      | crashed wal =>
          rw [outcome] at resumed
          cases resumed
      | done after result =>
          rw [outcome] at proposes resumed
          obtain ⟨applied, same, proposed⟩ := proposes
          have kept : Keeps { state with process := state.process.withNode after } :=
            keeps.propose member idle (decoded data rfl) which applied same proposed
          cases result with
          | error error =>
              cases resumed
              exact kept.fail _ _ _
          | ok index =>
              cases resumed
              exact kept.wait member call.change call.peerID (last data index node proposed)

theorem Keeps.catchUp (keeps : state.Keeps) (member : call ∈ state.calls) (targetIndex : ℕ) {next : MemberStage}
    (last : call.Last state.process.node) (idle : (call.moveTo next).Last state.process.node) :
    (state.book state.process [] call.change call.peerID
      (state.process.node.catchUpPeer call targetIndex next)).Keeps := by
  unfold RaftNode.catchUpPeer
  split
  · exact keeps.fail _ _ _
  · split
    · exact keeps.wait member _ _ idle
    · exact keeps.wait member _ _ last

theorem Keeps.await (keeps : state.Keeps) (member : call ∈ state.calls) (targetIndex : ℕ) {next : MemberStage}
    (last : call.Last state.process.node)
    (idle : targetIndex ≤ state.process.node.lastApplied → (call.moveTo next).Last state.process.node) :
    (state.book state.process [] call.change call.peerID
      (state.process.node.waitForApplied call targetIndex next)).Keeps := by
  unfold RaftNode.waitForApplied
  split
  · rename_i applied
    exact keeps.wait member _ _ (idle applied)
  · split
    · exact keeps.fail _ _ _
    · exact keeps.wait member _ _ last

theorem checkFinalMembership_ok {node : RaftNode} (succeeds : node.checkFinalMembership call = .ok ())
    (named : call.peerID ≠ "") (result : Except MemberError Unit) :
    MemberReturn.ShownBy ⟨call.change, call.peerID, result⟩ node.persistent.membership.current := by
  unfold RaftNode.checkFinalMembership at succeeds
  unfold MemberReturn.ShownBy
  dsimp only at succeeds ⊢
  split at succeeds
  · cases succeeds
  · rename_i stable
    split at succeeds
    · rename_i change
      split at succeeds
      · rename_i present
        exact iff_of_true (of_decide_eq_true present) change
      · cases succeeds
    · rename_i change
      split at succeeds
      · cases succeeds
      · rename_i absent
        refine iff_of_false (fun member => absent ?_) (by simp [change])
        rw [membershipIsVoter, if_neg named, not_not.mp stable]
        exact decide_eq_true member

theorem Keeps.resume (keeps : state.Keeps) (member : call ∈ state.calls) {fault : Fault} {node : RaftNode}
    {progress : MemberProgress} (resumed : state.process.node.resumeMember call fault = .done node progress) :
    (state.book (state.process.withNode node) [] call.change call.peerID progress).Keeps := by
  have last := keeps.last call member
  obtain ⟨old, new⟩ := keeps.computed call member
  unfold RaftNode.resumeMember at resumed
  split at resumed
  · cases resumed
    exact keeps.wait member _ _ trivial
  · cases resumed
    exact keeps.catchUp member _ last trivial
  · rename_i stage
    refine keeps.proposeEntry member (fun node => ?_) resumed
      (fun data encoded index term => (nextMembership_enterJoint encoded old new index term).2) (Or.inl rfl)
      fun _ _ _ _ => trivial
    rw [MemberCall.Last, stage]
    trivial
  · cases resumed
    refine keeps.await member _ last fun _ => ?_
    split
    · trivial
    · trivial
  · cases resumed
    exact keeps.wait member _ _ trivial
  · cases resumed
    exact keeps.catchUp member _ last trivial
  · rename_i stage
    refine keeps.proposeEntry member (fun node => ?_) resumed
      (fun data encoded index term => (nextMembership_leaveJoint encoded new index term).2) (Or.inr rfl)
      fun data index node proposed entry unapplied => proposed.index_le unapplied.member
    rw [MemberCall.Last, stage]
    trivial
  · rename_i index stage
    cases resumed
    refine keeps.await member index last fun applied entry unapplied => ?_
    rw [MemberCall.Last, stage] at last
    exact absurd unapplied.above (not_lt.mpr ((last entry unapplied).trans applied))
  · rename_i stage
    cases resumed
    rw [MemberCall.Last, stage] at last
    cases checked : state.process.node.checkFinalMembership call with
    | error error => exact keeps.fail _ _ _
    | ok _ => exact keeps.succeed last (checkFinalMembership_ok checked (keeps.named call member))

theorem Keeps.step (keeps : state.Keeps) {action : MemberAction} {after : MemberProcess}
    (admits : state.Admits action) (leading : state.KeepsLeading action) (serial : state.Serial action)
    (stepped : state.step action = some after) : after.Keeps := by
  have leads := leading after stepped
  cases action with
  | act event =>
      obtain ⟨process, advanced, rfl⟩ := Option.map_eq_some_iff.mp stepped
      exact keeps.act admits advanced leads
  | begin change peerID =>
      obtain ⟨bytes, _, fresh⟩ := admits
      cases stepped
      exact keeps.begin serial bytes fresh (state.process.node.beginMember_begun change peerID)
  | resume call fault =>
      simp only [MemberProcess.step] at stepped
      split at stepped
      · rename_i member
        split at stepped
        · cases stepped
        · rename_i node progress resumed
          cases stepped
          have kept := keeps.resume member resumed
          rwa [keeps.single call member, List.erase_cons_head]
      · cases stepped
  | expire call =>
      simp only [MemberProcess.step] at stepped
      split at stepped
      · rename_i expires
        cases stepped
        rw [keeps.single call expires.1, List.erase_cons_head]
        exact keeps.fail _ _ _
      · cases stepped

/-- When calls are made one after the other, the leader's membership shows every call that
returned successfully. -/
theorem no_membership_update_lost {start : Process} {final : MemberProcess}
    (representable : start.node.persistent.membership.current.Representable)
    (reached : Reaches step
      (fun state action => state.Admits action ∧ state.KeepsLeading action ∧ state.Serial action)
      { process := start, calls := [], returned := [] } final)
    {change : MemberChange} {peerID : NodeID} (returned : ⟨change, peerID, .ok ()⟩ ∈ final.returned) :
    peerID ∈ final.process.node.persistent.membership.current.voters ↔ change = .add := by
  have keeps : final.Keeps := by
    refine reached.invariant Keeps ?_ ?_
    · exact {
        single := fun _ none => nomatch none
        fresh := fun _ none => nomatch none
        representable := representable
        named := fun _ none => nomatch none
        computed := fun _ none => nomatch none
        current := fun _ none => nomatch none
        coming := fun _ none => nomatch none
        pending := fun _ none => nomatch none
        last := fun _ none => nomatch none }
    · rintro state action after keeps ⟨admits, leading, serial⟩ stepped
      exact keeps.step admits leading serial stepped
  exact keeps.current _ returned rfl

instance (state : MemberProcess) : DecidablePred state.Admits
  | .act event => inferInstanceAs (Decidable (¬ event.configures))
  | .begin _ peerID =>
      inferInstanceAs (Decidable (IsByteString peerID ∧
        (∀ call ∈ state.calls, call.peerID ≠ peerID) ∧ ∀ call ∈ state.returned, call.peerID ≠ peerID))
  | .resume _ _ | .expire _ => .isTrue trivial

instance (state : MemberProcess) : DecidablePred state.KeepsLeading :=
  fun action => inferInstanceAs (Decidable (∀ after ∈ state.step action, after.process.node.role = .leader))

instance (state : MemberProcess) : DecidablePred state.Serial
  | .begin _ _ => inferInstanceAs (Decidable (state.calls = []))
  | .act _ | .resume _ _ | .expire _ => .isTrue trivial

/-- Node `A`, elected by `A`, `B` and `C`, which also knows `D` and `E`. -/
def electedA : Process :=
  let state : PersistentState := ⟨1, "A", ⟨⟨["A", "B", "C"]⟩, none⟩⟩
  .start {
    id := "A"
    persistent := state
    commitIndex := 0
    lastApplied := 0
    nextIndex := fun _ => some 1
    matchIndex := fun _ => 0
    votesReceived := ["B", "A"]
    role := .leader
    leaderID := "A"
    log := Log.new
    storage := (WALStorage.openEmpty.appendRecord (.state state)).sync
    peerIDs := ["B", "C", "D", "E"]
    canRestore := true
    storageWriteBlocked := false }

/-- The peers have taken the log up to an index. -/
def acknowledged (peers : List NodeID) (log : List Bytes) (index : ℕ) : List MemberAction :=
  let entries := (log.take index).zipIdx.map fun (data, position) => ⟨position + 1, 1, data⟩
  peers.map fun peer => .act (.receiveAppendReply peer ⟨1, "A", 0, 0, entries, 0⟩ ⟨1, peer, true⟩ .none)

/-- A call goes on from its first proposal to its end. -/
def completes (call : MemberStage → MemberCall) (peers : List NodeID) (log : List Bytes) (index : ℕ) :
    List MemberAction :=
  [.resume (call .enterJoint) .none] ++ acknowledged peers log index ++
    [.act (.pickCommitted .none .none), .resume (call (.awaitEnter index)) .none] ++
    (match (call .enterJoint).change with
    | .add => [.resume (call .readJointTarget) .none, .resume (call (.catchUpJoint index)) .none]
    | .remove => []) ++
    [.resume (call .leaveJoint) .none] ++ acknowledged peers log (index + 1) ++
    [.act (.pickCommitted .none .none), .resume (call (.awaitLeave (index + 1))) .none,
      .resume (call .readFinal) .none]

/-- `D` is added, and then `C` is removed. -/
theorem updates_kept_in_turn : ∃ final : MemberProcess,
    final.calls = [] ∧ (⟨.add, "D", .ok ()⟩ : MemberReturn) ∈ final.returned ∧
      (⟨.remove, "C", .ok ()⟩ : MemberReturn) ∈ final.returned ∧
      ("D" ∈ final.process.node.persistent.membership.current.voters ↔ MemberChange.add = .add) ∧
      ("C" ∈ final.process.node.persistent.membership.current.voters ↔ MemberChange.remove = .add) := by
  let log := jointData [(["A", "B", "C"], ["A", "B", "C", "D"]), (["A", "B", "C", "D"], ["A", "B", "D"])]
  let addD := MemberCall.mk .add "D" ⟨["A", "B", "C"]⟩ ⟨["A", "B", "C", "D"]⟩
  let removeC := MemberCall.mk .remove "C" ⟨["A", "B", "C", "D"]⟩ ⟨["A", "B", "D"]⟩
  have run : ∃ final, Reaches step
      (fun state action => state.Admits action ∧ state.KeepsLeading action ∧ state.Serial action)
      { process := electedA, calls := [], returned := [] } final ∧
        (final.calls = [] ∧ (⟨.add, "D", .ok ()⟩ : MemberReturn) ∈ final.returned ∧
          (⟨.remove, "C", .ok ()⟩ : MemberReturn) ∈ final.returned) :=
    Reaches.of_leadsTo
      (fun state action => decide (state.Admits action ∧ state.KeepsLeading action ∧ state.Serial action))
      (fun _ _ => of_decide_eq_true)
      ([.begin .add "D", .resume (addD .readTarget) .none, .resume (addD (.catchUp 0)) .none] ++
        completes addD ["B", "D"] log 1 ++ [.begin .remove "C"] ++ completes removeC ["B", "D"] log 3)
      (by decide +kernel)
  obtain ⟨final, reached, ended, added, removed⟩ := run
  have representable : electedA.node.persistent.membership.current.Representable := by
    unfold Configuration.Representable
    decide
  exact ⟨final, ended, added, removed, no_membership_update_lost representable reached added,
    no_membership_update_lost representable reached removed⟩

/-- `D` and `E` are added at the same time.  Both calls start from three voters and succeed; the
entries of the second one take `D` away again. -/
theorem concurrent_addition_lost : ∃ final : MemberProcess,
    Reaches step (fun state action => state.Admits action ∧ state.KeepsLeading action)
      { process := electedA, calls := [], returned := [] } final ∧
      final.calls = [] ∧ final.process.node.lastApplied = final.process.node.log.lastIndex ∧
      (⟨.add, "D", .ok ()⟩ : MemberReturn) ∈ final.returned ∧
      final.process.node.persistent.membership = ⟨⟨["A", "B", "C", "E"]⟩, none⟩ := by
  let log := jointData [(["A", "B", "C"], ["A", "B", "C", "D"]), (["A", "B", "C"], ["A", "B", "C", "E"])]
  let addD := MemberCall.mk .add "D" ⟨["A", "B", "C"]⟩ ⟨["A", "B", "C", "D"]⟩
  let addE := MemberCall.mk .add "E" ⟨["A", "B", "C"]⟩ ⟨["A", "B", "C", "E"]⟩
  exact Reaches.of_leadsTo (fun state action => decide (state.Admits action ∧ state.KeepsLeading action))
    (fun _ _ => of_decide_eq_true)
    ([.begin .add "D", .begin .add "E", .resume (addD .readTarget) .none, .resume (addD (.catchUp 0)) .none,
        .resume (addE .readTarget) .none, .resume (addE (.catchUp 0)) .none] ++
      completes addD ["B", "D"] log 1 ++ completes addE ["B", "D", "E"] log 3)
    (by decide +kernel)

end MemberProcess

end Raftiq
