import Raftiq.SnapshotWorker

namespace Raftiq

open Kv

/-! With snapshots, too, every store holds the state of the committed commands up to its index. -/

section Extension

variable {codec : Codec} {committed longer : List LogEntry} {low high index : ℕ}

theorem commandsBetween_extend (inside : committed <+: longer) (numbered : Numbered 0 longer)
    (short : high ≤ committed.length) : commandsBetween longer low high = commandsBetween committed low high := by
  obtain ⟨rest, rfl⟩ := inside
  obtain ⟨_, beyond⟩ := Numbered.append_iff.mp numbered
  have none : commandsBetween rest low high = [] := commandsBetween_empty fun entry member _ _ => by
    have above := (beyond.mem_index member).1
    omega
  rw [commandsBetween, List.filter_append]
  change commandsBetween committed low high ++ commandsBetween rest low high = _
  rw [none, List.append_nil]

theorem stateAt_extend (inside : committed <+: longer) (numbered : Numbered 0 longer)
    (short : index ≤ committed.length) : stateAt codec longer index = stateAt codec committed index := by
  rw [stateAt_eq numbered, stateAt_eq (numbered.of_front inside), commandsBetween_extend inside numbered short]

/-- Snapshots of the state after committed commands. -/
def Origin.genuine (codec : Codec) (committed : List LogEntry) : Origin where
  entry _ := True
  snapshot snapshot := snapshot.Genuine codec committed ∧ snapshot.lastIncludedIndex ≤ committed.length

theorem genuine_extend {snapshot : Snapshot} (inside : committed <+: longer) (numbered : Numbered 0 longer)
    (genuine : (Origin.genuine codec committed).snapshot snapshot) :
    (Origin.genuine codec longer).snapshot snapshot := by
  obtain ⟨⟨data, readable⟩, short⟩ := genuine
  refine ⟨⟨?_, ?_⟩, short.trans inside.length_le⟩
  · rw [stateAt_extend inside numbered short]
    exact data
  · rw [stateAt_extend inside numbered short]
    exact readable

/-- The store holds the state at its index, which is not beyond the list. -/
structure Replica.Holds (codec : Codec) (committed : List LogEntry) (replica : Replica) : Prop where
  follows : replica.Follows codec committed
  short : replica.consumer.applier.lastApplied ≤ committed.length

namespace Replica

variable {replica after : Replica} {event : ServerEvent}

theorem Holds.extend (holds : replica.Holds codec committed) (inside : committed <+: longer)
    (numbered : Numbered 0 longer) (handed : replica.process.handed ≤ committed.length) :
    replica.Holds codec longer where
  follows := {
    store := by
      rw [stateAt_extend inside numbered holds.short]
      exact holds.follows.store
    pending := by
      rw [commandsBetween_extend inside numbered handed]
      exact holds.follows.pending
    picked := fun index entry picked => by
      obtain ⟨member, rest⟩ := holds.follows.picked index entry picked
      exact ⟨inside.subset member, rest⟩
    restored := holds.follows.restored }
  short := holds.short.trans inside.length_le

theorem Holds.step (holds : replica.Holds codec committed) (numbered : Numbered 0 committed)
    (picks : replica.Picks committed event)
    (genuine : ∀ install lockOrder jobOrder, event = .restore install lockOrder jobOrder →
      (Origin.genuine codec committed).snapshot install.args.snapshot)
    (ordered : replica.InOrder event) (stepped : replica.step codec event = some after) :
    after.Holds codec committed where
  follows := by
    refine holds.follows.step numbered ⟨picks, ?_⟩ ordered stepped
    cases event with
    | restore install lockOrder jobOrder => exact (genuine install lockOrder jobOrder rfl).1
    | raft event | receive | apply | stop => trivial
  short := by
    cases step_moves stepped with
    | quiet consumer | pick consumer | configure consumer | finish pending consumer =>
        rw [consumer]
        exact holds.short
    | send picked same | mark sent same | receive running free queued same | stop same =>
        rw [same]
        exact holds.short
    | @restore install lockOrder jobOrder applier restores consumer =>
        rw [consumer]
        dsimp only
        rw [(Applier.restoreSnapshot_some restores).1]
        exact (genuine install lockOrder jobOrder rfl).2
    | @apply entry received same =>
        rw [same]
        dsimp only
        rw [Applier.applyEntry_lastApplied]
        have waits : entry ∈ replica.consumer.pending := by
          rw [Consumer.pending, received]
          exact List.mem_cons_self
        rw [holds.follows.pending] at waits
        have within := (numbered.mem_index (mem_commandsBetween.mp waits).1).2
        exact max_le holds.short (by omega)

theorem restores_pending {install : PendingInstall} {lockOrder jobOrder : List String}
    (stepped : replica.step codec (.restore install lockOrder jobOrder) = some after) :
    install ∈ replica.process.installs := by
  obtain ⟨_, ⟨alone, _⟩ | ⟨own, observations, asks, ran⟩⟩ := step_some stepped
  · cases alone
  · cases asks
    simp only [Process.step] at ran
    split at ran
    · rename_i waits
      exact waits.1
    · cases ran

theorem Holds.answered (holds : replica.Holds codec committed) (request : Request) (index : ℕ) :
    Holds codec committed { replica with consumer := { replica.consumer with
      applier := (request.answer replica.consumer.applier index).1 } } where
  follows := holds.follows.answered request index
  short := by
    dsimp only
    rw [(request.answer_applier replica.consumer.applier index).1]
    exact holds.short

theorem Starts.holds (numbered : Numbered 0 committed) (starts : replica.Starts codec)
    (genuine : ∀ snapshot, replica.process.node.storage.contents.snapshot = some snapshot →
      (Origin.genuine codec committed).snapshot snapshot) : replica.Holds codec committed := by
  have loaded : 0 < replica.process.node.storage.contents.loadSnapshot.lastIncludedIndex →
      (Origin.genuine codec committed).snapshot replica.process.node.storage.contents.loadSnapshot := by
    intro positive
    cases saved : replica.process.node.storage.contents.snapshot with
    | none => simp [Contents.loadSnapshot, saved] at positive
    | some snapshot =>
        simp only [Contents.loadSnapshot, saved, Option.getD_some]
        exact genuine snapshot saved
  refine ⟨starts.follows numbered fun positive => (loaded positive).1, ?_⟩
  obtain ⟨snapshot, lockOrder, jobOrder, same, began, _⟩ := starts.fresh
  obtain ⟨_, last, _⟩ := Consumer.start_some began
  rw [last]
  rcases Nat.eq_zero_or_pos snapshot.lastIncludedIndex with zero | positive
  · omega
  · rw [same] at loaded
    exact (loaded positive).2

end Replica

end Extension

theorem Cluster.announced_handed {cluster : Cluster} {world : World} {v : NodeID} {process : Process}
    {allowed : World → Action → Prop}
    (reached : Reaches cluster.step allowed cluster.initial world) (up : world.host v = .up process) :
    world.Announced process.handed := by
  refine Cluster.announced_of_below reached fun bound below => ?_
  have hosted := below.host v
  rw [up] at hosted
  unfold Process.handed
  split
  · rename_i index sent
    exact max_le hosted.applied (hosted.applying index (by rw [sent]; rfl))
  · exact hosted.applied
  · exact hosted.applied

namespace SnapshotServers

variable {cluster : Cluster} {codec : Codec} {threshold : ℕ} {committed longer : List LogEntry}
  {servers after : SnapshotServers} {action : SnapshotAction} {h : History}

/-- The runs at hand.  What `Allows` leaves out is: storage errors other than crashes, proposals of
configurations, messages built at the boundary of a snapshot, probes that commit more than they cover, reads that
step down to a term already passed, and restarts from records that were not synced or from a snapshot whose term
is not that of the log.  Besides, a restore overtakes no command, and what is captured can be read back. -/
structure Orderly (codec : Codec) (servers : SnapshotServers) (action : SnapshotAction) : Prop where
  allowed : ∀ own ∈ action.own servers, ∀ act ∈ own.own codec servers.service,
    servers.service.world.Allows .compacting act
  ordered : ∀ own ∈ action.own servers, ∀ v event, own.eventAt codec v = some event →
    ∀ replica ∈ servers.service.replica v, replica.InOrder event
  readable : ∀ v, action = .capture v → ∀ replica ∈ servers.service.replica v,
    codec.store.RoundTrips replica.consumer.applier.store.snapshotState

/-- Stores and snapshots are those of a list of committed entries. -/
structure Agrees (cluster : Cluster) (codec : Codec) (h : History) (committed : List LogEntry)
    (servers : SnapshotServers) : Prop where
  tracks : servers.service.world.Tracks cluster .compacting h
  reached : Reaches cluster.step (fun _ _ => True) cluster.initial servers.service.world
  commits : servers.service.world.Commits cluster h committed
  holds : ∀ v replica, servers.service.replica v = some replica → replica.Holds codec committed
  known : servers.service.world.From (.genuine codec committed)
  captured : ∀ v index data, servers.stage v = .captured index data →
    (Origin.genuine codec committed).snapshot ⟨index, 0, data⟩

theorem initial_agrees (cluster : Cluster) (codec : Codec) :
    ∃ h, (initial cluster).Agrees cluster codec h [] := by
  refine ⟨_, cluster.initial_tracks .compacting, .start, ⟨fun index announced => ?_, 0, Or.inl rfl⟩,
    fun v replica up => ?_, cluster.initial_from, fun _ _ _ none => (by cases none)⟩
  · rcases announced with zero | ⟨v, t, commitIndex, log, seen, _⟩
    · exact zero.le
    · cases seen
  · obtain ⟨starts, unsaved⟩ := Service.initial_starts codec up
    refine starts.holds trivial fun snapshot saved => ?_
    cases unsaved.symm.trans saved

/-- The list may be continued. -/
theorem Agrees.extend (agrees : servers.Agrees cluster codec h committed) (inside : committed <+: longer)
    (numbered : Numbered 0 longer) :
    (∀ v replica, servers.service.replica v = some replica → replica.Holds codec longer) ∧
      servers.service.world.From (.genuine codec longer) ∧
      ∀ v index data, servers.stage v = .captured index data →
        (Origin.genuine codec longer).snapshot ⟨index, 0, data⟩ := by
  refine ⟨fun v replica up => ?_, ?_, fun v index data captured => ?_⟩
  · have handed := Cluster.announced_handed agrees.reached (Service.replica_some.mp up).1
    exact (agrees.holds v replica up).extend inside numbered (agrees.commits.covers _ handed)
  · exact agrees.known.mono (fun _ => id) fun _ => genuine_extend inside numbered
  · exact genuine_extend inside numbered (agrees.captured v index data captured)

/-- The entry that a node takes next is in every list of all that is committed. -/
theorem next_mem {world final : World} {later : History} {v : NodeID} {process : Process} {entry : LogEntry}
    (reached : Reaches cluster.step (fun _ _ => True) cluster.initial world)
    (tracks : world.Tracks cluster .compacting h) (keeps : h.Extends later)
    (valid : cluster.Valid later) (seen : world.trace ⊆ final.trace)
    (commits : final.Commits cluster later committed)
    (up : world.host v = .up process) (next : process.node.nextCommitted = some entry) : entry ∈ committed := by
  have sound := Cluster.nextCommitted_sound rfl (tracks.running up) next
  have covered := commits.covers _ ((Cluster.announced_commit reached up).mono seen)
  have index := (RaftNode.nextCommitted_index next).2
  have behind := RaftNode.nextCommitted_behind next
  exact commits.mem_of_sound valid (sound.mono keeps) (by omega)

theorem offers_genuine {world : World} {act : Action}
    (snapshots : ∀ v index data saveFault compactFault,
      act = .act v (.createSnapshot index data saveFault compactFault) →
      (Origin.genuine codec committed).snapshot ⟨index, 0, data⟩) :
    world.Offers (.genuine codec committed) act := by
  cases act with
  | crash v => trivial
  | restart v keep => trivial
  | act v event =>
      change (world.host v).Offers _ event
      cases world.host v with
      | down wal => trivial
      | up process =>
          cases event with
          | propose data fault => exact fun _ _ => trivial
          | replicateTo peerID => exact fun _ => trivial
          | createSnapshot index data saveFault compactFault =>
              intro entry _
              obtain ⟨⟨same, readable⟩, short⟩ := snapshots v index data saveFault compactFault rfl
              exact ⟨⟨same, readable⟩, short⟩
          | _ => trivial

theorem own_creates {own : ServiceAction} {service : Service} {v : NodeID} {index : ℕ} {data : Bytes}
    {saveFault compactFault : Fault}
    (acts : own.own codec service = some (.act v (.createSnapshot index data saveFault compactFault))) :
    own = .server v (.raft (.createSnapshot index data saveFault compactFault)) := by
  cases own with
  | server w event =>
      obtain ⟨own, asks, same⟩ := Option.map_eq_some_iff.mp acts
      cases same
      cases event with
      | raft event => cases asks; rfl
      | restore install lockOrder jobOrder => cases asks
      | receive | apply | stop => cases asks
  | call | crash | restart | answer | cancel => cases acts

/-- What a section of a server leaves behind. -/
theorem Agrees.served (agrees : servers.Agrees cluster codec h committed) {own : ServiceAction} {service : Service}
    (allowed : ∀ act ∈ own.own codec servers.service, servers.service.world.Allows .compacting act)
    (ordered : ∀ v event, own.eventAt codec v = some event → ∀ replica ∈ servers.service.replica v,
      replica.InOrder event)
    (snapshots : ∀ v index data saveFault compactFault,
      own = .server v (.raft (.createSnapshot index data saveFault compactFault)) →
        (Origin.genuine codec committed).snapshot ⟨index, 0, data⟩)
    (moved : servers.service.step cluster codec own = some service) (stage : NodeID → SnapshotStage)
    (kept : ∀ v index data, stage v = .captured index data → servers.stage v = .captured index data) :
    ∃ later longer, committed <+: longer ∧ Agrees cluster codec later longer ⟨service, stage⟩ := by
  obtain ⟨later, keeps, tracks, reached, seen⟩ : ∃ later, h.Extends later ∧
      service.world.Tracks cluster .compacting later ∧
      Reaches cluster.step (fun _ _ => True) cluster.initial service.world ∧
      servers.service.world.trace ⊆ service.world.trace := by
    rcases Service.step_world moved with same | ⟨act, acts, ran⟩
    · rw [same]
      exact ⟨h, .refl h, agrees.tracks, agrees.reached, List.Subset.refl _⟩
    · obtain ⟨later, keeps, tracks⟩ := Cluster.step_tracks agrees.tracks (allowed act acts) ran
      exact ⟨later, keeps, tracks, .step act agrees.reached trivial ran, Cluster.step_trace ran⟩
  obtain ⟨longer, inside, commits⟩ := agrees.commits.extend keeps tracks
  have numbered := commits.numbered tracks.valid
  obtain ⟨holds, known, captured⟩ := agrees.extend inside numbered
  have knownAfter : service.world.From (.genuine codec longer) := by
    rcases Service.step_world moved with same | ⟨act, acts, ran⟩
    · rw [same]
      exact known
    · refine Cluster.step_from known (offers_genuine fun v index data saveFault compactFault creates => ?_) ran
      exact genuine_extend inside numbered (snapshots v index data saveFault compactFault
        (own_creates (creates ▸ acts)))
  refine ⟨later, longer, inside, tracks, reached, commits, fun v next up => ?_, knownAfter,
    fun v index data at_ => captured v index data (kept v index data at_)⟩
  cases evolved : servers.service.replica v with
  | none =>
      refine (Service.step_starts moved evolved up).holds numbered fun snapshot saved => ?_
      have hosted := knownAfter.host v
      rw [(Service.replica_some.mp up).1] at hosted
      exact hosted.node.storage.contents.snapshot snapshot saved
  | some before =>
      cases Service.step_evolves moved up with
      | same running =>
          cases evolved.symm.trans running
          exact holds v next evolved
      | answered call other running node answers =>
          cases evolved.symm.trans running
          exact answers ▸ (holds v before evolved).answered _ _
      | started down => cases evolved.symm.trans down
      | acted event other running taken ran =>
          cases evolved.symm.trans running
          have host := (Service.replica_some.mp evolved).1
          refine (holds v before evolved).step numbered ?_ (fun install lockOrder jobOrder restores => ?_)
            (ordered v event taken before evolved) ran
          · cases event with
            | raft event =>
                cases event with
                | pickCommitted stateFault leaveFault =>
                    exact fun entry next =>
                      next_mem agrees.reached agrees.tracks keeps tracks.valid seen commits host next
                | _ => trivial
            | restore install lockOrder jobOrder | receive | apply | stop => trivial
          · subst restores
            have hosted := known.host v
            rw [host] at hosted
            exact hosted.installs install (Replica.restores_pending ran)

theorem moveTo_captured {service : Service} {v : NodeID} {index : ℕ} {data : Bytes}
    (captured : (servers.moveTo service).stage v = .captured index data) :
    servers.stage v = .captured index data := by
  simp only [moveTo] at captured
  split at captured
  · exact captured
  · cases captured

theorem withStage_captured {stage : SnapshotStage} {v w : NodeID} {index : ℕ} {data : Bytes}
    (captured : (servers.withStage v stage).stage w = .captured index data)
    (other : stage ≠ .captured index data) : servers.stage w = .captured index data := by
  by_cases here : w = v
  · subst here
    exact absurd ((Function.update_self ..).symm.trans captured) other
  · exact (Function.update_of_ne here ..).symm.trans captured

theorem capture_captured {lastIncludedIndex index : ℕ} {state : Bytes × ℕ} {data : Bytes}
    (captured : SnapshotStage.capture threshold lastIncludedIndex state = .captured index data) :
    state = (data, index) := by
  unfold SnapshotStage.capture at captured
  split at captured
  iterate 3
    split at captured
    · cases captured
  cases captured
  rfl

theorem Agrees.step (agrees : servers.Agrees cluster codec h committed) (orderly : servers.Orderly codec action)
    (stepped : step cluster codec threshold servers action = some after) :
    ∃ later longer, after.Agrees cluster codec later longer := by
  cases step_steps stepped with
  | @service own service quiet moved =>
      obtain ⟨later, longer, _, agreed⟩ := agrees.served (orderly.allowed own rfl) (orderly.ordered own rfl)
        (fun v index data saveFault compactFault creates => by subst creates; cases quiet) moved
        (servers.moveTo service).stage (fun v index data captured => moveTo_captured captured)
      exact ⟨later, longer, agreed⟩
  | load lastIncludedIndex =>
      refine ⟨h, committed, agrees.tracks, agrees.reached, agrees.commits, agrees.holds, agrees.known, ?_⟩
      intro w index data captured
      exact agrees.captured w index data (withStage_captured captured (by simp))
  | @capture v replica lastIncludedIndex up =>
      refine ⟨h, committed, agrees.tracks, agrees.reached, agrees.commits, agrees.holds, agrees.known, ?_⟩
      intro w index data captured
      by_cases here : w = v
      · subst here
        have taken := capture_captured ((Function.update_self ..).symm.trans captured)
        have holds := agrees.holds w replica up
        cases taken
        refine ⟨⟨?_, ?_⟩, holds.short⟩
        · exact congrArg (·.snapshot codec.store) holds.follows.store
        · exact holds.follows.store ▸ orderly.readable w rfl replica up
      · exact agrees.captured w index data ((Function.update_of_ne here ..).symm.trans captured)
  | @create v saveFault compactFault index data service captured moved =>
      have acts : (SnapshotAction.create v saveFault compactFault).own servers =
          some (.server v (.raft (.createSnapshot index data saveFault compactFault))) := by
        simp only [SnapshotAction.own, captured]
      obtain ⟨later, longer, _, agreed⟩ := agrees.served (orderly.allowed _ acts) (orderly.ordered _ acts)
        (fun w i d f g creates => by cases creates; exact agrees.captured v index data captured) moved
        ((servers.withStage v .idle).moveTo service).stage
        (fun w i d kept => withStage_captured (moveTo_captured kept) (by simp))
      exact ⟨later, longer, agreed⟩

theorem reaches_agrees
    (reached : Reaches (step cluster codec threshold) (Orderly codec) (initial cluster) servers) :
    ∃ h committed, servers.Agrees cluster codec h committed := by
  refine reached.invariant (fun servers => ∃ h committed, servers.Agrees cluster codec h committed) ?_ ?_
  · obtain ⟨h, agrees⟩ := initial_agrees cluster codec
    exact ⟨h, [], agrees⟩
  · rintro before action after ⟨h, committed, agrees⟩ orderly stepped
    exact agrees.step orderly stepped

/-- The conditions on the sections of nodes, evaluated. -/
def checksSections (codec : Codec) (servers : SnapshotServers) (action : SnapshotAction) : Bool :=
  (action.own servers).all fun own =>
    ((own.own codec servers.service).all fun act => servers.service.world.Allows .compacting act) &&
      match own with
      | .server v event => (servers.service.replica v).all fun replica => Replica.checksOrder replica event
      | _ => true

theorem checksSections_sound {action : SnapshotAction} (checked : checksSections codec servers action)
    (readable : ∀ v, action = .capture v → ∀ replica ∈ servers.service.replica v,
      codec.store.RoundTrips replica.consumer.applier.store.snapshotState) : servers.Orderly codec action := by
  refine ⟨fun own acts act does => ?_, fun own acts v event taken replica up => ?_, readable⟩
  · have fits := (Bool.and_eq_true_iff.mp ((Option.all_eq_true _ _).mp checked own acts)).1
    exact of_decide_eq_true ((Option.all_eq_true _ _).mp fits act does)
  · have fits := (Bool.and_eq_true_iff.mp ((Option.all_eq_true _ _).mp checked own acts)).2
    cases own with
    | server w own =>
        simp only [ServiceAction.eventAt] at taken
        split at taken
        · rename_i here
          cases taken
          subst here
          exact Replica.checksOrder_sound replica event ((Option.all_eq_true _ _).mp fits replica up)
        · cases taken
    | call w request fault =>
        simp only [ServiceAction.eventAt] at taken
        split at taken
        · cases taken
          trivial
        · cases taken
    | crash | restart | answer | cancel => cases taken

def checksOrderly (servers : SnapshotServers) (action : SnapshotAction) : Bool :=
  checksSections .register servers action &&
    match action with
    | .capture v => (servers.service.replica v).all fun replica =>
        let state := replica.consumer.applier.store.snapshotState
        state = (Store.new.put "x" ((state.data.lookup "x").getD [])).snapshotState
    | _ => true

theorem checksOrderly_sound (servers : SnapshotServers) (action : SnapshotAction)
    (checked : checksOrderly servers action) : servers.Orderly .register action := by
  obtain ⟨sections, captures⟩ := Bool.and_eq_true_iff.mp checked
  refine checksSections_sound sections fun v captured replica up => ?_
  subst captured
  have same := of_decide_eq_true ((Option.all_eq_true _ _).mp captures replica up)
  exact ⟨rfl, congrArg Except.ok same.symm⟩

end SnapshotServers

end Raftiq
