import Raftiq.Replica

namespace Raftiq

open Kv

/-- The calls of a server that write. -/
inductive Request where
  | put (key : String) (value : Bytes)
  | delete (key : String)
  | fencedPut (key : String) (value : Bytes) (fencingToken : ℕ)
  | createJob (jobID : JobID) (payload : Bytes) (scheduledAt : ℤ)
deriving DecidableEq

inductive CallError where
  | applier (index : ℕ) (error : Kv.ApplyError)
  | rejected (error : Kv.ApplyError)
deriving DecidableEq

namespace Request

def command : Request → Command
  | .put key value => { type := .put, key := key, value := value }
  | .delete key => { type := .delete, key := key }
  | .fencedPut key value fencingToken =>
      { type := .fencedPut, key := key, value := value, fencingToken := fencingToken }
  | .createJob jobID payload scheduledAt =>
      { type := .createJob, jobID := jobID, payload := payload, scheduledAt := scheduledAt }

/-- A request that is not valid is refused at once. -/
def valid : Request → Bool
  | .put _ _ | .delete _ => true
  | .fencedPut key _ fencingToken => key ≠ "" ∧ fencingToken ≠ 0
  | .createJob jobID _ _ => jobID ≠ ""

def wantsResult : Request → Bool
  | .put _ _ | .delete _ => false
  | .fencedPut _ _ _ | .createJob _ _ _ => true

/-- One round of the wait behind `Propose`: the call waits on, fails or is acknowledged, with the result of
its command if it wants one. -/
def answer (request : Request) (applier : Applier) (index : ℕ) :
    Applier × Option (Except CallError (Option ApplyResult)) :=
  if request.wantsResult then
    match applier.waitResult index with
    | (applier, none) => (applier, none)
    | (applier, some (.error (failed, error))) => (applier, some (.error (.applier failed error)))
    | (applier, some (.ok result)) =>
        match result.err with
        | some error => (applier, some (.error (.rejected error)))
        | none => (applier, some (.ok (some result)))
  else
    match applier.waitApplied index with
    | none => (applier, none)
    | some (.error (failed, error)) => (applier, some (.error (.applier failed error)))
    | some (.ok ()) => (applier, some (.ok none))

end Request

/-- A call whose `Propose` has returned, with the entry that it has appended. -/
structure Call where
  node : NodeID
  request : Request
  index : ℕ
  entry : LogEntry
deriving DecidableEq

/-- A cluster with the servers on its nodes and the calls in progress. -/
structure Service where
  world : World
  consumer : NodeID → Consumer
  calls : List Call

inductive ServiceAction where
  | server (v : NodeID) (event : ServerEvent)
  | crash (v : NodeID)
  | restart (v : NodeID) (keep : ℕ) (lockOrder jobOrder : List String)
  | call (v : NodeID) (request : Request) (fault : Fault)
  | answer (call : Call)
  | cancel (call : Call)
deriving DecidableEq

namespace Service

/-- A node with its server, while it is up. -/
def replica (service : Service) (v : NodeID) : Option Replica :=
  (service.world.host v).process.map fun process => ⟨process, service.consumer v⟩

/-- The calls on a node that goes down are gone. -/
def moveTo (service : Service) (world : World) (consumer : NodeID → Consumer) : Service where
  world := world
  consumer := consumer
  calls := service.calls.filter fun call => (world.host call.node).process.isSome

def initial (cluster : Cluster) : Service where
  world := cluster.initial
  consumer _ := .new (.new .new)
  calls := []

def serverStep (cluster : Cluster) (codec : Codec) (service : Service) (v : NodeID) (event : ServerEvent) :
    Option Service :=
  match service.world.host v with
  | .down _ => none
  | .up process =>
      match (service.consumer v).handle codec process event with
      | none => none
      | some consumer =>
          let consumers := Function.update service.consumer v consumer
          match (service.consumer v).nodeEvent codec event with
          | none => some (service.moveTo service.world consumers)
          | some own => (cluster.step service.world (.act v own)).map (service.moveTo · consumers)

def step (cluster : Cluster) (codec : Codec) (service : Service) : ServiceAction → Option Service
  | .server v event => service.serverStep cluster codec v event
  | .crash v => (cluster.step service.world (.crash v)).map (service.moveTo · service.consumer)
  | .restart v keep lockOrder jobOrder =>
      match cluster.step service.world (.restart v keep) with
      | none => none
      | some world =>
          match world.host v with
          | .down _ => none
          | .up process =>
              (Consumer.start codec process.node.storage.contents.loadSnapshot lockOrder jobOrder).map
                fun consumer => service.moveTo world (Function.update service.consumer v consumer)
  | .call v request fault =>
      match service.world.host v with
      | .down _ => none
      | .up process =>
          if request.valid then
            let data := codec.encodeCommand request.command
            match service.serverStep cluster codec v (.raft (.propose data fault)), process.node.propose data fault with
            | some after, .done _ (.ok index) =>
                let entry : LogEntry := { index := index, term := process.node.persistent.currentTerm, data := data }
                some { after with calls := ⟨v, request, index, entry⟩ :: after.calls }
            | proposed, _ => proposed
          else none
  | .answer call =>
      match call.request.answer (service.consumer call.node).applier call.index with
      | (_, none) => none
      | (applier, some _) =>
          if call ∈ service.calls then
            some { service with
              consumer := Function.update service.consumer call.node
                { service.consumer call.node with applier := applier }
              calls := service.calls.erase call }
          else none
  | .cancel call => if call ∈ service.calls then some { service with calls := service.calls.erase call } else none

variable {cluster : Cluster} {codec : Codec} {service after : Service} {v w : NodeID}

theorem replica_some {running : Replica} :
    service.replica v = some running ↔
      service.world.host v = .up running.process ∧ service.consumer v = running.consumer := by
  unfold replica
  cases service.world.host v with
  | up process =>
      simp only [Host.process, Option.map_some, Option.some.injEq, Host.up.injEq]
      constructor
      · rintro rfl
        exact ⟨rfl, rfl⟩
      · rintro ⟨rfl, same⟩
        rw [same]
  | down wal => simp [Host.process]

/-- Nodes whose host and server are left alone. -/
theorem replica_moveTo {world : World} {consumer : NodeID → Consumer} (host : world.host w = service.world.host w)
    (same : consumer w = service.consumer w) : (service.moveTo world consumer).replica w = service.replica w := by
  simp only [replica, moveTo, host, same]

theorem mem_moveTo {world : World} {consumer : NodeID → Consumer} {call : Call} :
    call ∈ (service.moveTo world consumer).calls ↔
      call ∈ service.calls ∧ ((service.moveTo world consumer).replica call.node).isSome := by
  simp [moveTo, replica]

/-- A section on one node leaves the others alone; there it is a step of the node with its server, or the
node goes down. -/
theorem serverStep_some {event : ServerEvent} (stepped : service.serverStep cluster codec v event = some after) :
    ∃ before, service.replica v = some before ∧ (∀ w, w ≠ v → after.replica w = service.replica w) ∧
      ((after.replica v = none ∧ ∃ own wal, before.consumer.nodeEvent codec event = some own ∧
          before.process.step own = some (.crashed wal)) ∨
        ∃ next, before.step codec event = some next ∧ after.replica v = some next) ∧
      ∀ call, call ∈ after.calls ↔ call ∈ service.calls ∧ (after.replica call.node).isSome := by
  unfold serverStep at stepped
  split at stepped
  · cases stepped
  · rename_i process up
    split at stepped
    · cases stepped
    · rename_i consumer handled
      refine ⟨⟨process, service.consumer v⟩, replica_some.mpr ⟨up, rfl⟩, ?_⟩
      dsimp only at stepped
      split at stepped
      · rename_i alone
        cases stepped
        refine ⟨fun w other => replica_moveTo rfl (Function.update_of_ne other _ _), Or.inr ?_, fun _ => mem_moveTo⟩
        refine ⟨⟨process, consumer⟩, ?_, replica_some.mpr ⟨up, Function.update_self _ _ _⟩⟩
        simp only [Replica.step, handled, alone]
      · rename_i own asks
        obtain ⟨world, moved, rfl⟩ := Option.map_eq_some_iff.mp stepped
        obtain ⟨running, again, _, ran⟩ := Cluster.step_act moved
        cases up.symm.trans again
        rcases ran with ⟨next, observations, ran, rfl⟩ | ⟨wal, crashed, rfl⟩
        · refine ⟨fun w other => replica_moveTo (Function.update_of_ne other _ _) (Function.update_of_ne other _ _),
            Or.inr ⟨⟨next, consumer⟩, ?_, ?_⟩, fun _ => mem_moveTo⟩
          · simp only [Replica.step, handled, asks, Process.advance, ran, Option.map_some]
          · exact replica_some.mpr ⟨World.update_host_self _ _ _ _, Function.update_self _ _ _⟩
        · refine ⟨fun w other => replica_moveTo (Function.update_of_ne other _ _) (Function.update_of_ne other _ _),
            Or.inl ⟨?_, own, wal, asks, crashed⟩, fun _ => mem_moveTo⟩
          simp [replica, moveTo, Host.process]

end Service

/-- The section of a node with its server that an action consists of. -/
def ServiceAction.eventAt (codec : Codec) (v : NodeID) : ServiceAction → Option ServerEvent
  | .server w event => if w = v then some event else none
  | .call w request fault =>
      if w = v then some (.raft (.propose (codec.encodeCommand request.command) fault)) else none
  | .crash _ | .restart _ _ _ _ | .answer _ | .cancel _ => none

namespace Service

variable {cluster : Cluster} {codec : Codec} {service after : Service} {v : NodeID} {action : ServiceAction}

/-- How a node that is up after an action has come there. -/
inductive Evolves (codec : Codec) (service : Service) (action : ServiceAction) (v : NodeID) (next : Replica) :
    Prop where
  | same (before : service.replica v = some next) : Evolves codec service action v next
  | acted (event : ServerEvent) (before : Replica) (up : service.replica v = some before)
      (taken : action.eventAt codec v = some event) (stepped : before.step codec event = some next) :
      Evolves codec service action v next
  | answered (call : Call) (before : Replica) (up : service.replica v = some before) (node : call.node = v)
      (answers : next = { before with consumer := { before.consumer with
        applier := (call.request.answer before.consumer.applier call.index).1 } }) :
      Evolves codec service action v next
  | started (down : service.replica v = none) (idle : next.process.applying = .idle)
      (consumer : next.consumer = .new next.consumer.applier)
      (results : ∀ index, next.consumer.applier.results index = none) : Evolves codec service action v next

theorem call_some {request : Request} {fault : Fault}
    (stepped : step cluster codec service (.call v request fault) = some after) :
    ∃ middle before, service.replica v = some before ∧
      service.serverStep cluster codec v
        (.raft (.propose (codec.encodeCommand request.command) fault)) = some middle ∧
      after.world = middle.world ∧ after.consumer = middle.consumer ∧
      (after.calls = middle.calls ∨
        ∃ node index, before.process.node.propose (codec.encodeCommand request.command) fault =
            .done node (.ok index) ∧
          after.calls = ⟨v, request, index, ⟨index, before.process.node.persistent.currentTerm,
            codec.encodeCommand request.command⟩⟩ :: middle.calls) := by
  simp only [step] at stepped
  split at stepped
  · cases stepped
  · rename_i process up
    split at stepped
    · have before : service.replica v = some ⟨process, service.consumer v⟩ := replica_some.mpr ⟨up, rfl⟩
      split at stepped
      · rename_i middle node index moved proposed
        cases stepped
        exact ⟨middle, _, before, moved, rfl, rfl, Or.inr ⟨node, index, proposed, rfl⟩⟩
      · exact ⟨after, _, before, stepped, rfl, rfl, Or.inl rfl⟩
    · cases stepped

theorem restart_some {keep : ℕ} {lockOrder jobOrder : List String}
    (stepped : step cluster codec service (.restart v keep lockOrder jobOrder) = some after) :
    ∃ process wal reopened consumer, service.world.host v = .down wal ∧ cluster.boot v reopened = .ok process ∧
      Consumer.start codec process.node.storage.contents.loadSnapshot lockOrder jobOrder = some consumer ∧
      after = service.moveTo (service.world.update v (.up process) [])
        (Function.update service.consumer v consumer) := by
  simp only [step] at stepped
  split at stepped
  · cases stepped
  · rename_i world restarted
    obtain ⟨wal, reopened, process, down, _, booted, rfl⟩ := Cluster.step_restart restarted
    rw [World.update_host_self] at stepped
    obtain ⟨consumer, began, rfl⟩ := Option.map_eq_some_iff.mp stepped
    exact ⟨process, wal, reopened, consumer, down, booted, began, rfl⟩

theorem answer_some {call : Call} (stepped : step cluster codec service (.answer call) = some after) :
    after = { service with
      consumer := Function.update service.consumer call.node { service.consumer call.node with
        applier := (call.request.answer (service.consumer call.node).applier call.index).1 }
      calls := service.calls.erase call } := by
  simp only [step] at stepped
  split at stepped
  · cases stepped
  · rename_i answered
    split at stepped
    · cases stepped
      rw [answered]
    · cases stepped

theorem cancel_some {call : Call} (stepped : step cluster codec service (.cancel call) = some after) :
    after = { service with calls := service.calls.erase call } := by
  simp only [step] at stepped
  split at stepped
  · cases stepped
    rfl
  · cases stepped

/-- Every action that is a section of a node with its server. -/
theorem evolves_serverStep {event : ServerEvent} {w : NodeID} {next : Replica}
    (stepped : service.serverStep cluster codec w event = some after)
    (taken : action.eventAt codec w = some event) (up : after.replica v = some next) :
    service.Evolves codec action v next := by
  obtain ⟨before, running, elsewhere, here, _⟩ := serverStep_some stepped
  by_cases same : v = w
  · subst same
    rcases here with ⟨down, _⟩ | ⟨moved, ran, now⟩
    · cases down.symm.trans up
    · cases now.symm.trans up
      exact .acted event before running taken ran
  · exact .same (elsewhere v same ▸ up)

theorem step_evolves {next : Replica} (stepped : step cluster codec service action = some after)
    (up : after.replica v = some next) : service.Evolves codec action v next := by
  cases action with
  | server w event => exact evolves_serverStep stepped (if_pos rfl) up
  | crash w =>
      obtain ⟨world, crashed, rfl⟩ := Option.map_eq_some_iff.mp stepped
      obtain ⟨process, _, rfl⟩ := Cluster.step_crash crashed
      by_cases same : v = w
      · subst same
        simp [replica, moveTo, Host.process] at up
      · exact .same ((replica_moveTo (Function.update_of_ne same _ _) rfl).symm.trans up)
  | restart w keep lockOrder jobOrder =>
      obtain ⟨process, wal, reopened, consumer, down, booted, began, rfl⟩ := restart_some stepped
      by_cases same : v = w
      · subst same
        obtain ⟨fresh, _, _, results, _⟩ := Consumer.start_some began
        obtain ⟨log, _, started⟩ := Cluster.boot_ok booted
        have now : some ⟨process, consumer⟩ = some next :=
          (replica_some.mpr ⟨World.update_host_self _ _ _ _, Function.update_self _ _ _⟩).symm.trans up
        cases now
        refine .started (by simp [replica, down, Host.process]) ?_ fresh results
        rw [started]
        rfl
      · exact .same
          ((replica_moveTo (Function.update_of_ne same _ _) (Function.update_of_ne same _ _)).symm.trans up)
  | call w request fault =>
      obtain ⟨middle, before, _, moved, world, consumer, _⟩ := call_some stepped
      have there : middle.replica v = some next := by
        rw [← up, replica, replica, world, consumer]
      exact evolves_serverStep moved (if_pos rfl) there
  | answer call =>
      obtain rfl := answer_some stepped
      obtain ⟨host, consumer⟩ := replica_some.mp up
      dsimp only at host consumer
      by_cases same : v = call.node
      · subst same
        rw [Function.update_self] at consumer
        refine .answered call ⟨next.process, service.consumer call.node⟩ (replica_some.mpr ⟨host, rfl⟩) rfl ?_
        rw [consumer]
      · rw [Function.update_of_ne same] at consumer
        exact .same (replica_some.mpr ⟨host, consumer⟩)
  | cancel call =>
      obtain rfl := cancel_some stepped
      exact .same up

/-- Calls are made on nodes that are up, and end when these go down. -/
def Placed (service : Service) : Prop :=
  ∀ call ∈ service.calls, (service.replica call.node).isSome

/-- A call that has just been made. -/
structure Begins (codec : Codec) (service : Service) (action : ServiceAction) (call : Call) (before next : Replica) :
    Prop where
  event : ∃ fault, action = .call call.node call.request fault ∧
    before.step codec (.raft (.propose (codec.encodeCommand call.request.command) fault)) = some next ∧
    before.process.node.propose (codec.encodeCommand call.request.command) fault =
      .done next.process.node (.ok call.index)
  up : service.replica call.node = some before
  entry : call.entry =
    ⟨call.index, before.process.node.persistent.currentTerm, codec.encodeCommand call.request.command⟩

theorem step_calls (placed : service.Placed) (stepped : step cluster codec service action = some after)
    {call : Call} (member : call ∈ after.calls) :
    ∃ next, after.replica call.node = some next ∧
      (call ∈ service.calls ∨ ∃ before, service.Begins codec action call before next) := by
  have old : call ∈ service.calls ∧ (after.replica call.node).isSome →
      ∃ next, after.replica call.node = some next ∧
        (call ∈ service.calls ∨ ∃ before, service.Begins codec action call before next) := by
    rintro ⟨earlier, up⟩
    obtain ⟨next, up⟩ := Option.isSome_iff_exists.mp up
    exact ⟨next, up, Or.inl earlier⟩
  cases action with
  | server w event =>
      obtain ⟨before, _, _, _, calls⟩ := serverStep_some stepped
      exact old ((calls call).mp member)
  | crash w =>
      obtain ⟨world, _, rfl⟩ := Option.map_eq_some_iff.mp stepped
      exact old (mem_moveTo.mp member)
  | restart w keep lockOrder jobOrder =>
      obtain ⟨process, wal, reopened, consumer, _, _, _, rfl⟩ := restart_some stepped
      exact old (mem_moveTo.mp member)
  | call w request fault =>
      obtain ⟨middle, before, running, moved, world, consumer, made⟩ := call_some stepped
      have unchanged : ∀ u, after.replica u = middle.replica u := fun u => by
        rw [replica, replica, world, consumer]
      obtain ⟨earlier, again, _, here, calls⟩ := serverStep_some moved
      cases running.symm.trans again
      rcases made with same | ⟨node, index, proposed, same⟩
      · rw [same] at member
        exact old (unchanged _ ▸ (calls call).mp member)
      · rw [same] at member
        rcases List.mem_cons.mp member with rfl | kept
        · have ran : before.process.step (.propose (codec.encodeCommand request.command) fault) =
              some (.running (before.process.withNode node)
                (Process.observeProposal before.process.node node (.ok index))) := by
            simp only [Process.step, proposed, Process.settle]
          rcases here with ⟨_, own, wal, asks, crashed⟩ | ⟨next, took, now⟩
          · cases asks
            cases ran.symm.trans crashed
          · obtain ⟨_, ⟨impossible, _⟩ | ⟨own, observations, asks, moved⟩⟩ := Replica.step_some took
            · cases impossible
            · cases asks
              have same : next.process = before.process.withNode node :=
                (Result.running.inj (Option.some.inj (moved.symm.trans ran))).1
              refine ⟨next, (unchanged w).trans now, Or.inr ⟨before, ⟨⟨fault, rfl, took, ?_⟩, running, rfl⟩⟩⟩
              rw [same]
              exact proposed
        · exact old (unchanged _ ▸ (calls call).mp kept)
  | answer other =>
      obtain rfl := answer_some stepped
      have earlier := List.mem_of_mem_erase member
      refine old ⟨earlier, ?_⟩
      have up := placed call earlier
      simpa [replica] using up
  | cancel other =>
      obtain rfl := cancel_some stepped
      have earlier := List.mem_of_mem_erase member
      exact old ⟨earlier, placed call earlier⟩

end Service

/-- The section of a node that an action consists of. -/
def ServiceAction.own (codec : Codec) (service : Service) : ServiceAction → Option Action
  | .server v event => ((service.consumer v).nodeEvent codec event).map (.act v)
  | .call v request fault => some (.act v (.propose (codec.encodeCommand request.command) fault))
  | .crash v => some (.crash v)
  | .restart v keep _ _ => some (.restart v keep)
  | .answer _ | .cancel _ => none

namespace Service

variable {cluster : Cluster} {codec : Codec} {service after : Service} {action : ServiceAction}

theorem serverStep_world {v : NodeID} {event : ServerEvent}
    (stepped : service.serverStep cluster codec v event = some after) :
    (service.consumer v).nodeEvent codec event = none ∧ after.world = service.world ∨
      ∃ own, (service.consumer v).nodeEvent codec event = some own ∧
        cluster.step service.world (.act v own) = some after.world := by
  unfold serverStep at stepped
  split at stepped
  · cases stepped
  · split at stepped
    · cases stepped
    · dsimp only at stepped
      split at stepped
      · rename_i alone
        cases stepped
        exact Or.inl ⟨alone, rfl⟩
      · rename_i own asks
        obtain ⟨world, moved, rfl⟩ := Option.map_eq_some_iff.mp stepped
        exact Or.inr ⟨own, asks, moved⟩

/-- An action of the service is at most one of the cluster. -/
theorem step_world (stepped : step cluster codec service action = some after) :
    after.world = service.world ∨
      ∃ own ∈ action.own codec service, cluster.step service.world own = some after.world := by
  cases action with
  | server v event =>
      rcases serverStep_world stepped with ⟨_, same⟩ | ⟨own, asks, moved⟩
      · exact Or.inl same
      · exact Or.inr ⟨.act v own, by simp [ServiceAction.own, asks], moved⟩
  | crash v =>
      obtain ⟨world, crashed, rfl⟩ := Option.map_eq_some_iff.mp stepped
      exact Or.inr ⟨.crash v, rfl, crashed⟩
  | restart v keep lockOrder jobOrder =>
      simp only [step] at stepped
      split at stepped
      · cases stepped
      · rename_i world restarted
        split at stepped
        · cases stepped
        · obtain ⟨consumer, _, rfl⟩ := Option.map_eq_some_iff.mp stepped
          exact Or.inr ⟨.restart v keep, rfl, restarted⟩
  | call v request fault =>
      obtain ⟨middle, _, _, moved, world, _⟩ := call_some stepped
      rw [world]
      rcases serverStep_world moved with ⟨impossible, _⟩ | ⟨own, asks, moved⟩
      · cases impossible
      · cases asks
        exact Or.inr ⟨_, rfl, moved⟩
  | answer call =>
      obtain rfl := answer_some stepped
      exact Or.inl rfl
  | cancel call =>
      obtain rfl := cancel_some stepped
      exact Or.inl rfl

theorem step_trace (stepped : step cluster codec service action = some after) :
    service.world.trace ⊆ after.world.trace := by
  rcases step_world stepped with same | ⟨own, _, moved⟩
  · rw [same]
    exact List.Subset.refl _
  · exact Cluster.step_trace moved

end Service

end Raftiq
