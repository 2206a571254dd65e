import Raftiq.Cluster
import Raftiq.Kv.Applier
import Raftiq.Raft.Applying

namespace Raftiq

open Kv

/-- The state machine's side of a node: the channel, the entry that `Run` has taken out of it and not
applied yet, and the applier.  `applied` is what `Run` has applied since the last restore, oldest first. -/
structure Consumer where
  applyCh : List LogEntry
  received : Option LogEntry
  applier : Applier
  running : Bool
  applied : List LogEntry

/-- A critical section of a node with its server.  A restore ranges over the maps of the snapshot in
some order. -/
inductive ServerEvent where
  | raft (event : Event)
  | restore (install : PendingInstall) (lockOrder jobOrder : List String)
  | receive
  | apply
  | stop
deriving DecidableEq

namespace Consumer

def capacity : ℕ := 100

def new (applier : Applier) : Consumer where
  applyCh := []
  received := none
  applier := applier
  running := true
  applied := []

/-- `Server.Start` restores the stored snapshot if there is one. -/
def start (codec : Codec) (snapshot : Snapshot) (lockOrder jobOrder : List String) : Option Consumer :=
  if snapshot.lastIncludedIndex > 0 then
    ((Applier.new .new).restoreSnapshot codec snapshot lockOrder jobOrder).map new
  else some (new (.new .new))

def send (consumer : Consumer) (entry : LogEntry) : Option Consumer :=
  if consumer.applyCh.length < capacity then
    some { consumer with applyCh := consumer.applyCh ++ [entry] }
  else none

def receive (consumer : Consumer) : Option Consumer :=
  match consumer.running, consumer.received, consumer.applyCh with
  | true, none, entry :: rest => some { consumer with applyCh := rest, received := some entry }
  | _, _, _ => none

def apply (codec : Codec) (consumer : Consumer) : Option Consumer :=
  match consumer.received with
  | none => none
  | some entry =>
      let (applier, goesOn) := consumer.applier.applyEntry codec entry
      some { consumer with
        received := none
        applier := applier
        running := goesOn
        applied := consumer.applied ++ [entry] }

/-- `Run` finds its context cancelled. -/
def stop (consumer : Consumer) : Option Consumer :=
  if consumer.running ∧ consumer.received = none then some { consumer with running := false } else none

/-- The restore that `InstallSnapshot` asks for, and whether it succeeds. -/
def restore (codec : Codec) (consumer : Consumer) (install : PendingInstall) (lockOrder jobOrder : List String) :
    Consumer × Bool :=
  match consumer.applier.restoreSnapshot codec install.args.snapshot lockOrder jobOrder with
  | none => (consumer, false)
  | some applier => ({ consumer with applier := applier, applied := [] }, true)

/-- The section of the node that a section of its server consists of or goes with. -/
def nodeEvent (codec : Codec) (consumer : Consumer) : ServerEvent → Option Event
  | .raft event => some event
  | .restore install lockOrder jobOrder =>
      some (.restoreSnapshot install (consumer.restore codec install lockOrder jobOrder).2)
  | .receive | .apply | .stop => none

/-- What a section of a server does to the state machine's side.  The node sends only what fits into
the channel, and its restores are those of the applier. -/
def handle (codec : Codec) (consumer : Consumer) (process : Process) : ServerEvent → Option Consumer
  | .raft .sendApplied =>
      match process.applying with
      | .picked _ entry => consumer.send entry
      | .idle | .sent _ => none
  | .raft (.restoreSnapshot _ _) => none
  | .raft _ => some consumer
  | .restore install lockOrder jobOrder => some (consumer.restore codec install lockOrder jobOrder).1
  | .receive => consumer.receive
  | .apply => consumer.apply codec
  | .stop => consumer.stop

/-- Entries on their way to the store. -/
def pending (consumer : Consumer) : List LogEntry :=
  consumer.received.toList ++ consumer.applyCh

/-- The applied index once the entries on their way are applied. -/
def reach (consumer : Consumer) : ℕ :=
  (consumer.pending.map LogEntry.index).foldl max consumer.applier.lastApplied

/-- What the sections of a server do to the state machine's side. -/
inductive Handles (codec : Codec) (consumer : Consumer) (process : Process) (next : Consumer) :
    ServerEvent → Prop where
  | keep {event : Event} (unsent : event ≠ .sendApplied)
      (other : ∀ install succeeds, event ≠ .restoreSnapshot install succeeds) (same : next = consumer) :
      Handles codec consumer process next (.raft event)
  | send {index : ℕ} {entry : LogEntry} (picked : process.applying = .picked index entry)
      (same : next = { consumer with applyCh := consumer.applyCh ++ [entry] }) :
      Handles codec consumer process next (.raft .sendApplied)
  | refuse {install : PendingInstall} {lockOrder jobOrder : List String} (same : next = consumer)
      (asks : consumer.nodeEvent codec (.restore install lockOrder jobOrder) =
        some (.restoreSnapshot install false)) :
      Handles codec consumer process next (.restore install lockOrder jobOrder)
  | restore {install : PendingInstall} {lockOrder jobOrder : List String} {applier : Applier}
      (restored : consumer.applier.restoreSnapshot codec install.args.snapshot lockOrder jobOrder = some applier)
      (same : next = { consumer with applier := applier, applied := [] })
      (asks : consumer.nodeEvent codec (.restore install lockOrder jobOrder) =
        some (.restoreSnapshot install true)) :
      Handles codec consumer process next (.restore install lockOrder jobOrder)
  | receive {entry : LogEntry} {rest : List LogEntry} (running : consumer.running = true)
      (free : consumer.received = none) (queued : consumer.applyCh = entry :: rest)
      (same : next = { consumer with applyCh := rest, received := some entry }) :
      Handles codec consumer process next .receive
  | apply {entry : LogEntry} (received : consumer.received = some entry)
      (same : next = { consumer with
        received := none
        applier := (consumer.applier.applyEntry codec entry).1
        running := (consumer.applier.applyEntry codec entry).2
        applied := consumer.applied ++ [entry] }) :
      Handles codec consumer process next .apply
  | stop (same : next = { consumer with running := false }) : Handles codec consumer process next .stop

variable {codec : Codec} {consumer next : Consumer} {process : Process}

theorem receive_some (taken : consumer.receive = some next) :
    ∃ entry rest, consumer.running = true ∧ consumer.received = none ∧ consumer.applyCh = entry :: rest ∧
      next = { consumer with applyCh := rest, received := some entry } := by
  unfold receive at taken
  split at taken
  · rename_i entry rest running free queued
    cases taken
    exact ⟨entry, rest, running, free, queued, rfl⟩
  · cases taken

theorem handle_handles {event : ServerEvent} (handled : consumer.handle codec process event = some next) :
    consumer.Handles codec process next event := by
  cases event with
  | raft event =>
      cases event with
      | sendApplied =>
          simp only [handle] at handled
          split at handled
          · rename_i index entry picked
            unfold send at handled
            split at handled
            · cases handled
              exact .send picked rfl
            · cases handled
          · cases handled
          · cases handled
      | restoreSnapshot install succeeds => cases handled
      | _ =>
          cases handled
          exact .keep (by simp) (by simp) rfl
  | restore install lockOrder jobOrder =>
      simp only [handle, Consumer.restore] at handled
      cases restored : consumer.applier.restoreSnapshot codec install.args.snapshot lockOrder jobOrder with
      | none =>
          rw [restored] at handled
          cases handled
          exact .refuse rfl (by simp [nodeEvent, Consumer.restore, restored])
      | some applier =>
          rw [restored] at handled
          cases handled
          exact .restore restored rfl (by simp [nodeEvent, Consumer.restore, restored])
  | receive =>
      obtain ⟨entry, rest, running, free, queued, same⟩ := receive_some handled
      exact .receive running free queued same
  | apply =>
      simp only [handle, apply] at handled
      split at handled
      · cases handled
      · rename_i entry received
        cases handled
        exact .apply received rfl
  | stop =>
      simp only [handle, stop] at handled
      split at handled
      · cases handled
        exact .stop rfl
      · cases handled

theorem reach_send (entry : LogEntry) :
    reach { consumer with applyCh := consumer.applyCh ++ [entry] } = max consumer.reach entry.index := by
  simp [reach, pending, ← List.append_assoc]

theorem reach_receive {entry : LogEntry} {rest : List LogEntry} (free : consumer.received = none)
    (queued : consumer.applyCh = entry :: rest) :
    reach { consumer with applyCh := rest, received := some entry } = consumer.reach := by
  simp [reach, pending, free, queued]

theorem reach_apply {entry : LogEntry} {running : Bool} {applied : List LogEntry}
    (received : consumer.received = some entry) :
    reach { consumer with
      received := none
      applier := (consumer.applier.applyEntry codec entry).1
      running := running
      applied := applied } = consumer.reach := by
  simp [reach, pending, received]

theorem foldl_max (indexes : List ℕ) (floor start : ℕ) :
    indexes.foldl max (max floor start) = max floor (indexes.foldl max start) :=
  List.foldl_assoc

theorem lastApplied_le_reach (consumer : Consumer) : consumer.applier.lastApplied ≤ consumer.reach := by
  have raised := foldl_max (consumer.pending.map LogEntry.index) consumer.applier.lastApplied
    consumer.applier.lastApplied
  rw [max_self] at raised
  unfold reach
  omega

theorem le_reach {entry : LogEntry} (member : entry ∈ consumer.pending) : entry.index ≤ consumer.reach := by
  obtain ⟨front, back, split⟩ := List.append_of_mem member
  have raised := foldl_max (back.map LogEntry.index) entry.index
    ((front.map LogEntry.index).foldl max consumer.applier.lastApplied)
  rw [reach, split, List.map_append, List.foldl_append, List.map_cons, List.foldl_cons, max_comm, raised]
  exact le_max_left _ _

/-- A restore that does not go back can only raise what will be reached. -/
theorem reach_restore {applier : Applier} (forward : consumer.applier.lastApplied ≤ applier.lastApplied) :
    reach { consumer with applier := applier, applied := [] } = max applier.lastApplied consumer.reach := by
  have raised := foldl_max (consumer.pending.map LogEntry.index) applier.lastApplied
    consumer.applier.lastApplied
  rwa [max_eq_left forward] at raised

theorem start_some {snapshot : Snapshot} {lockOrder jobOrder : List String}
    (started : start codec snapshot lockOrder jobOrder = some consumer) :
    consumer = new consumer.applier ∧ consumer.applier.lastApplied = snapshot.lastIncludedIndex ∧
      consumer.applier.applyErr = none ∧ (∀ index, consumer.applier.results index = none) ∧
      ((snapshot.lastIncludedIndex = 0 ∧ consumer.applier.store = .new) ∨
        0 < snapshot.lastIncludedIndex ∧
          Store.new.restore codec.store snapshot.data lockOrder jobOrder = (consumer.applier.store, .ok ())) := by
  unfold start at started
  split at started
  · rename_i positive
    obtain ⟨applier, restored, rfl⟩ := Option.map_eq_some_iff.mp started
    obtain ⟨last, healthy, empty, store⟩ := Applier.restoreSnapshot_some restored
    exact ⟨rfl, last, healthy, empty, Or.inr ⟨positive, store⟩⟩
  · cases started
    have zero : snapshot.lastIncludedIndex = 0 := by omega
    exact ⟨rfl, zero.symm, rfl, fun _ => rfl, Or.inl ⟨zero, rfl⟩⟩

end Consumer

/-- A running node with its server. -/
structure Replica where
  process : Process
  consumer : Consumer

namespace Replica

def start (codec : Codec) (process : Process) (lockOrder jobOrder : List String) : Option Replica :=
  (Consumer.start codec process.node.storage.contents.loadSnapshot lockOrder jobOrder).map (Replica.mk process)

/-- A run of one node and its server, up to the next crash. -/
def step (codec : Codec) (replica : Replica) (event : ServerEvent) : Option Replica :=
  match replica.consumer.handle codec replica.process event with
  | none => none
  | some consumer =>
      match replica.consumer.nodeEvent codec event with
      | none => some { replica with consumer := consumer }
      | some event => (replica.process.advance event).map fun process => ⟨process, consumer⟩

/-- A node has been started on some storage, and its server with it. -/
def Starts (codec : Codec) (replica : Replica) : Prop :=
  ∃ (cluster : Cluster) (v : NodeID) (wal : WALStorage) (lockOrder jobOrder : List String),
    cluster.boot v wal = .ok replica.process ∧ start codec replica.process lockOrder jobOrder = some replica

/-- What a node applies is committed. -/
def Picks (committed : List LogEntry) (replica : Replica) : ServerEvent → Prop
  | .raft (.pickCommitted _ _) => ∀ entry ∈ replica.process.node.nextCommitted, entry ∈ committed
  | _ => True

def checksPicks (committed : List LogEntry) (replica : Replica) : ServerEvent → Bool
  | .raft (.pickCommitted _ _) => replica.process.node.nextCommitted.all (· ∈ committed)
  | _ => true

theorem checksPicks_sound {committed : List LogEntry} {replica : Replica} {event : ServerEvent}
    (checked : checksPicks committed replica event) : replica.Picks committed event := by
  cases event with
  | raft event =>
      cases event with
      | pickCommitted stateFault leaveFault =>
          intro entry next
          exact of_decide_eq_true ((Option.all_eq_true _ _).mp checked entry next)
      | _ => trivial
  | restore install lockOrder jobOrder | receive | apply | stop => trivial

/-- What a section does to the progress of application. -/
inductive Moves (codec : Codec) (replica after : Replica) : ServerEvent → Prop where
  | quiet {event : ServerEvent} (consumer : after.consumer = replica.consumer)
      (applied : after.process.node.lastApplied = replica.process.node.lastApplied)
      (applying : after.process.applying = replica.process.applying)
      (restored : ∀ install, after.process.RestoredInstall install ↔ replica.process.RestoredInstall install) :
      Moves codec replica after event
  | pick {stateFault leaveFault : Fault} {entry : LogEntry} (consumer : after.consumer = replica.consumer)
      (idle : replica.process.applying = .idle) (next : replica.process.node.nextCommitted = some entry)
      (command : ¬ isConfigurationEntry entry.data) (node : after.process.node = replica.process.node)
      (applying : after.process.applying = .picked (replica.process.node.lastApplied + 1) entry)
      (restored : ∀ install, after.process.RestoredInstall install ↔ replica.process.RestoredInstall install) :
      Moves codec replica after (.raft (.pickCommitted stateFault leaveFault))
  | configure {stateFault leaveFault : Fault} {entry : LogEntry} (consumer : after.consumer = replica.consumer)
      (idle : replica.process.applying = .idle) (next : replica.process.node.nextCommitted = some entry)
      (configuration : isConfigurationEntry entry.data)
      (applied : after.process.node.lastApplied = replica.process.node.lastApplied + 1)
      (applying : after.process.applying = .idle)
      (restored : ∀ install, after.process.RestoredInstall install ↔ replica.process.RestoredInstall install) :
      Moves codec replica after (.raft (.pickCommitted stateFault leaveFault))
  | send {index : ℕ} {entry : LogEntry} (picked : replica.process.applying = .picked index entry)
      (same : after = ⟨{ replica.process with applying := .sent index },
        { replica.consumer with applyCh := replica.consumer.applyCh ++ [entry] }⟩) :
      Moves codec replica after (.raft .sendApplied)
  | mark {index : ℕ} (sent : replica.process.applying = .sent index)
      (same : after = { replica with process := { replica.process with
        node := replica.process.node.markApplied index, applying := .idle } }) :
      Moves codec replica after (.raft .markApplied)
  | finish {install : PendingInstall} {fault : Fault} {reply : InstallSnapshotReply}
      (pending : replica.process.RestoredInstall install) (consumer : after.consumer = replica.consumer)
      (finished : replica.process.node.finishInstall install fault = .done after.process.node reply)
      (applying : after.process.applying = replica.process.applying)
      (restored : ∀ other, after.process.RestoredInstall other → replica.process.RestoredInstall other)
      (kept : ∀ other, replica.process.RestoredInstall other →
        after.process.RestoredInstall other ∨ other = install) :
      Moves codec replica after (.raft (.finishInstall install fault))
  | restore {install : PendingInstall} {lockOrder jobOrder : List String} {applier : Applier}
      (restores : replica.consumer.applier.restoreSnapshot codec install.args.snapshot lockOrder jobOrder =
        some applier)
      (consumer : after.consumer = { replica.consumer with applier := applier, applied := [] })
      (node : after.process.node = replica.process.node)
      (applying : after.process.applying = replica.process.applying)
      (restored : ∀ other, after.process.RestoredInstall other →
        replica.process.RestoredInstall other ∨ other = { install with restored := true })
      (kept : ∀ other, replica.process.RestoredInstall other → after.process.RestoredInstall other)
      (done : after.process.RestoredInstall { install with restored := true }) :
      Moves codec replica after (.restore install lockOrder jobOrder)
  | receive {entry : LogEntry} {rest : List LogEntry} (running : replica.consumer.running = true)
      (free : replica.consumer.received = none) (queued : replica.consumer.applyCh = entry :: rest)
      (same : after = { replica with consumer := { replica.consumer with
        applyCh := rest, received := some entry } }) :
      Moves codec replica after .receive
  | apply {entry : LogEntry} (received : replica.consumer.received = some entry)
      (same : after = { replica with consumer := { replica.consumer with
        received := none
        applier := (replica.consumer.applier.applyEntry codec entry).1
        running := (replica.consumer.applier.applyEntry codec entry).2
        applied := replica.consumer.applied ++ [entry] } }) :
      Moves codec replica after .apply
  | stop (same : after = { replica with consumer := { replica.consumer with running := false } }) :
      Moves codec replica after .stop

variable {codec : Codec} {replica after : Replica}

theorem step_some {event : ServerEvent} (stepped : replica.step codec event = some after) :
    replica.consumer.Handles codec replica.process after.consumer event ∧
      ((replica.consumer.nodeEvent codec event = none ∧ after.process = replica.process) ∨
        ∃ own observations, replica.consumer.nodeEvent codec event = some own ∧
          replica.process.step own = some (.running after.process observations)) := by
  unfold step at stepped
  split at stepped
  · cases stepped
  · rename_i consumer handled
    split at stepped
    · rename_i own
      cases stepped
      exact ⟨Consumer.handle_handles handled, Or.inl ⟨own, rfl⟩⟩
    · rename_i own asks
      obtain ⟨process, advanced, rfl⟩ := Option.map_eq_some_iff.mp stepped
      obtain ⟨observations, stepped⟩ := Process.advance_running advanced
      exact ⟨Consumer.handle_handles handled, Or.inr ⟨own, observations, asks, stepped⟩⟩

theorem step_moves {event : ServerEvent} (stepped : replica.step codec event = some after) :
    replica.Moves codec after event := by
  obtain ⟨handles, process⟩ := step_some stepped
  cases handles with
  | @keep event unsent other same =>
      obtain ⟨impossible, _⟩ | ⟨own, observations, asks, ran⟩ := process
      · cases impossible
      · cases asks
        have restoredOnly : ∀ install, after.process.RestoredInstall install →
            replica.process.RestoredInstall install := fun install restored =>
          (Process.step_restored ran restored).resolve_right fun ⟨_, restores, _⟩ => other _ _ restores
        have restoredIff (unfinished : ∀ install fault, event ≠ .finishInstall install fault) (install) :
            after.process.RestoredInstall install ↔ replica.process.RestoredInstall install :=
          ⟨restoredOnly install, fun restored =>
            (Process.step_keeps_restored ran restored).resolve_right fun ⟨_, finishes⟩ => unfinished _ _ finishes⟩
        cases Process.step_appliesBy ran with
        | quiet silent applied membership applying =>
            exact .quiet same applied applying (restoredIff fun install fault finishes => by
              rw [finishes] at silent
              cases silent)
        | pick idle picked =>
            have restored := restoredIff fun _ _ => by simp
            rcases RaftNode.pickCommitted_cases picked with
              ⟨entry, next, command, node, applying⟩ | ⟨applying, applied | ⟨entry, next, configuration, applied⟩⟩
            · exact .pick same idle next command node applying restored
            · exact .quiet same applied (applying.trans idle.symm) restored
            · exact .configure same idle next configuration applied applying restored
        | send picked same => exact absurd rfl unsent
        | mark sent marked => exact .mark sent (by rw [← marked, ← same])
        | install finished applying =>
            refine .finish (Process.step_finishInstall ran) same finished applying restoredOnly
              fun other restored => ?_
            exact (Process.step_keeps_restored ran restored).imp_right fun ⟨_, finishes⟩ =>
              (Event.finishInstall.inj finishes).1.symm
  | send picked same =>
      obtain ⟨impossible, _⟩ | ⟨own, observations, asks, ran⟩ := process
      · cases impossible
      · cases asks
        have sent := Process.step_sendApplied picked ran
        exact .send picked (by rw [← sent, ← same])
  | refuse same asks =>
      obtain ⟨impossible, _⟩ | ⟨own, observations, asked, ran⟩ := process
      · cases asks.symm.trans impossible
      · cases asks.symm.trans asked
        cases Process.step_appliesBy ran with
        | quiet silent applied membership applying =>
            refine .quiet same applied applying fun install => ⟨fun restored => ?_, fun restored => ?_⟩
            · exact (Process.step_restored ran restored).resolve_right fun ⟨_, succeeds, _⟩ => by simp at succeeds
            · exact (Process.step_keeps_restored ran restored).resolve_right
                fun ⟨_, finishes⟩ => by simp at finishes
  | restore restored same asks =>
      obtain ⟨impossible, _⟩ | ⟨own, observations, asked, ran⟩ := process
      · cases asks.symm.trans impossible
      · cases asks.symm.trans asked
        obtain ⟨node, done⟩ := Process.step_restoreSnapshot ran
        cases Process.step_appliesBy ran with
        | quiet silent applied membership applying =>
            refine .restore restored same node applying (fun other restored => ?_) (fun other restored => ?_) done
            · exact (Process.step_restored ran restored).imp_right fun ⟨_, restores, same⟩ => by
                rw [(Event.restoreSnapshot.inj restores).1]
                exact same
            · exact (Process.step_keeps_restored ran restored).resolve_right
                fun ⟨_, finishes⟩ => by simp at finishes
  | receive running free queued same =>
      obtain ⟨_, unchanged⟩ | ⟨own, observations, asked, ran⟩ := process
      · exact .receive running free queued (by rw [← unchanged, ← same])
      · cases asked
  | apply received same =>
      obtain ⟨_, unchanged⟩ | ⟨own, observations, asked, ran⟩ := process
      · exact .apply received (by rw [← unchanged, ← same])
      · cases asked
  | stop same =>
      obtain ⟨_, unchanged⟩ | ⟨own, observations, asked, ran⟩ := process
      · exact .stop (by rw [← unchanged, ← same])
      · cases asked

/-- The applier of a node that starts is where the node is. -/
theorem Starts.fresh (starts : replica.Starts codec) :
    ∃ (snapshot : Snapshot) (lockOrder jobOrder : List String),
      replica.process.node.storage.contents.loadSnapshot = snapshot ∧
      Consumer.start codec snapshot lockOrder jobOrder = some replica.consumer ∧
      replica.process.node.lastApplied = snapshot.lastIncludedIndex ∧ replica.process.applying = .idle ∧
      replica.process.installs = [] := by
  obtain ⟨cluster, v, wal, lockOrder, jobOrder, booted, started⟩ := starts
  obtain ⟨consumer, began, same⟩ := Option.map_eq_some_iff.mp started
  obtain ⟨log, _, process⟩ := Cluster.boot_ok booted
  refine ⟨_, lockOrder, jobOrder, rfl, ?_, ?_, ?_, ?_⟩
  · rw [began, ← same]
  · rw [process]
    rfl
  · rw [process]
    rfl
  · rw [process]
    rfl

/-- Node `A` of three on an empty disk, with its server, for runs that are written out. -/
def fresh : Option Replica :=
  match Cluster.trio.boot "A" (Cluster.trio.bootstrapped "A") with
  | .error _ => none
  | .ok process => start .register process [] []

theorem fresh_starts (started : fresh = some replica) : replica.Starts .register := by
  unfold fresh at started
  split at started
  · cases started
  · rename_i process booted
    obtain ⟨consumer, began, rfl⟩ := Option.map_eq_some_iff.mp started
    exact ⟨_, _, _, [], [], booted, started⟩

theorem fresh_empty (started : fresh = some replica) :
    replica.process.node.storage.contents.loadSnapshot.lastIncludedIndex = 0 := by
  have empty : fresh.all fun replica =>
      replica.process.node.storage.contents.loadSnapshot.lastIncludedIndex = 0 := by decide +kernel
  exact of_decide_eq_true ((Option.all_eq_true _ _).mp empty replica started)

theorem fresh_leadsTo {allowed : Replica → ServerEvent → Prop} (check : Replica → ServerEvent → Bool)
    {goal : Replica → Prop} [DecidablePred goal]
    (sound : ∀ replica event, check replica event → allowed replica event) (events : List ServerEvent)
    (leads : fresh.any fun first => leadsTo (step .register) check goal first events) :
    ∃ first replica, fresh = some first ∧ Reaches (step .register) allowed first replica ∧ goal replica := by
  obtain ⟨first, started, leads⟩ := (Option.any_eq_true _ _).mp leads
  obtain ⟨replica, reached, reachesGoal⟩ := Reaches.of_leadsTo check sound events leads
  exact ⟨first, replica, started, reached, reachesGoal⟩

end Replica

end Raftiq
