import Raftiq.Admission
import Raftiq.Kv.Jobs

namespace Raftiq

open Kv

/-- The error of the store that is wrapped. -/
def Kv.ApplyError.cause : Kv.ApplyError → Option StoreError
  | .decode _ | .unknownType _ => none
  | .acquireLock _ error | .expireLock _ error | .fencedPut _ error | .createJob _ error | .claimJob _ error
  | .plain error => some error

namespace Scheduler

/-- Why a call of the scheduler fails. -/
inductive CallError (Failure : Type) where
  | selectWorker (failure : Failure)
  | propose (failure : Failure)
  | waitResult (failure : Failure)
  | result (error : Kv.ApplyError)

/-- What the scheduler is connected to.  The rest of the system works on while `Propose` and `WaitResult`
are under way, and before the store is read. -/
structure Runtime (World Failure : Type) where
  lease : ℤ
  role : World → Role
  store : World → Store
  clock : World → ℤ
  others : World → World
  selectWorker : Job → Except Failure String
  propose : World → Command → World × Except Failure ℕ
  waitResult : World → ℕ → World × Except Failure ApplyResult
  /-- `context.Canceled` or `context.DeadlineExceeded`. -/
  isContextFailure : Failure → Bool
  isExpectedReclaimFailure : Failure → Bool

/-- `ErrJobAlreadyClaimed`, `ErrJobNotClaimable` or `ErrJobNotFound`. -/
def isExpectedClaimError (error : Kv.ApplyError) : Bool :=
  match error.cause with
  | some (.jobAlreadyAssigned _ _) | some (.jobAlreadyOwned _ _) | some (.jobNotClaimable _ _)
  | some .jobNotFound => true
  | _ => false

/-- The calls that a loop makes, with their errors, and the error that it ends with. -/
structure Calls (World Failure : Type) where
  world : World
  calls : List (Job × Option (CallError Failure))
  err : Option (CallError Failure)

def Calls.after {World Failure : Type} (later : Calls World Failure) (job : Job)
    (error : Option (CallError Failure)) : Calls World Failure :=
  { later with calls := (job, error) :: later.calls }

namespace Runtime

variable {World Failure : Type} (runtime : Runtime World Failure)

def isContextError : CallError Failure → Bool
  | .selectWorker failure | .propose failure | .waitResult failure => runtime.isContextFailure failure
  | .result _ => false

def isExpectedReclaimError : CallError Failure → Bool
  | .selectWorker failure | .propose failure | .waitResult failure => runtime.isExpectedReclaimFailure failure
  | .result error =>
      match error.cause with
      | some .jobNotFound | some .invalidJobState | some .jobOwnershipLost => true
      | _ => false

/-- Proposes a command and waits for its result. -/
def execute (world : World) (command : Command) : World × Except (CallError Failure) ApplyResult :=
  match runtime.propose world command with
  | (world, .error failure) => (world, .error (.propose failure))
  | (world, .ok index) =>
      match runtime.waitResult world index with
      | (world, .error failure) => (world, .error (.waitResult failure))
      | (world, .ok result) => (world, .ok result)

def scheduleJob (world : World) (job : Job) : World × Option (CallError Failure) :=
  match runtime.selectWorker job with
  | .error failure => (world, some (.selectWorker failure))
  | .ok workerID =>
      match runtime.execute world (Scheduler.scheduleJob job workerID (runtime.clock world) runtime.lease) with
      | (world, .error error) => (world, some error)
      | (world, .ok result) =>
          match result.err with
          | none => (world, none)
          | some error => if isExpectedClaimError error then (world, none) else (world, some (.result error))

def reclaimExpiredJob (world : World) (job : Job) (now : ℤ) : World × Option (CallError Failure) :=
  match Scheduler.reclaimExpiredJob job now with
  | none => (world, none)
  | some command =>
      match runtime.execute world command with
      | (world, .error error) => (world, some error)
      | (world, .ok result) => (world, result.err.map .result)

/-- An error that is expected is passed over. -/
def reclaimLoop (now : ℤ) : World → List Job → Calls World Failure
  | world, [] => ⟨world, [], none⟩
  | world, job :: rest =>
      match runtime.reclaimExpiredJob world job now with
      | (world, none) => (reclaimLoop now world rest).after job none
      | (world, some error) =>
          if runtime.isContextError error then ⟨world, [(job, some error)], some error⟩
          else if runtime.isExpectedReclaimError error then (reclaimLoop now world rest).after job (some error)
          else ⟨world, [(job, some error)], some error⟩

def reclaimExpiredJobs (world : World) (now : ℤ) (order : List String) : Calls World Failure :=
  let world := runtime.others world
  runtime.reclaimLoop now world ((runtime.store world).listExpiredJobs now order)

/-- The loop ends at the first job that is not due. -/
def scheduleLoop (now : ℤ) : World → List Job → Calls World Failure
  | world, [] => ⟨world, [], none⟩
  | world, job :: rest =>
      if job.scheduledAt > now then ⟨world, [], none⟩
      else
        match runtime.scheduleJob world job with
        | (world, none) => (scheduleLoop now world rest).after job none
        | (world, some error) =>
            if runtime.isContextError error then ⟨world, [(job, some error)], some error⟩
            else (scheduleLoop now world rest).after job (some error)

end Runtime

/-- What one iteration of the scheduler does. -/
structure Iteration (World Failure : Type) where
  world : World
  reclaimed : List (Job × Option (CallError Failure))
  scheduled : List (Job × Option (CallError Failure))
  err : Option (CallError Failure)

namespace Runtime

variable {World Failure : Type} (runtime : Runtime World Failure)

/-- The world in which the pending jobs are listed. -/
def beforeListing (world : World) (now : ℤ) (expiredOrder : List String) : World :=
  runtime.others (runtime.reclaimExpiredJobs world now expiredOrder).world

/-- `now` is the time at which the iteration begins. -/
def scheduleDueJobs (world : World) (now : ℤ) (expiredOrder pendingOrder : List String) :
    Iteration World Failure :=
  if runtime.role world ≠ .leader then ⟨world, [], [], none⟩
  else
    let reclaiming := runtime.reclaimExpiredJobs world now expiredOrder
    match reclaiming.err.filter runtime.isContextError with
    | some error => ⟨reclaiming.world, reclaiming.calls, [], some error⟩
    | none =>
        let world := runtime.beforeListing world now expiredOrder
        let scheduling := runtime.scheduleLoop now world ((runtime.store world).listPendingJobs pendingOrder)
        ⟨scheduling.world, reclaiming.calls, scheduling.calls, scheduling.err⟩

/-- No call fails because the context is done. -/
def Unhindered (calls : List (Job × Option (CallError Failure))) : Prop :=
  ∀ call ∈ calls, ∀ error, call.2 = some error → runtime.isContextError error = false

variable {runtime} {now : ℤ} {world : World} {jobs : List Job}

theorem Unhindered.tail {job : Job} {error : Option (CallError Failure)} {later : Calls World Failure}
    (unhindered : runtime.Unhindered (later.after job error).calls) : runtime.Unhindered later.calls :=
  fun call member => unhindered call (List.mem_cons_of_mem _ member)

/-- The error that ends the loop is that of a call. -/
theorem reclaimLoop_err {error : CallError Failure}
    (failed : (runtime.reclaimLoop now world jobs).err = some error) :
    ∃ job, (job, some error) ∈ (runtime.reclaimLoop now world jobs).calls := by
  induction jobs generalizing world with
  | nil => cases failed
  | cons job rest ih =>
      have later : ∀ {after : World} {result : Option (CallError Failure)},
          ((runtime.reclaimLoop now after rest).after job result).err = some error →
          ∃ other, (other, some error) ∈ ((runtime.reclaimLoop now after rest).after job result).calls := by
        intro after result failed
        obtain ⟨other, member⟩ := ih failed
        exact ⟨other, List.mem_cons_of_mem _ member⟩
      unfold reclaimLoop at failed ⊢
      split at failed
      · exact later failed
      · split at failed
        · rename_i context
          rw [if_pos context]
          cases failed
          exact ⟨job, List.mem_singleton_self _⟩
        · rename_i other
          rw [if_neg other]
          split at failed
          · rename_i expected
            rw [if_pos expected]
            exact later failed
          · rename_i unexpected
            rw [if_neg unexpected]
            cases failed
            exact ⟨job, List.mem_singleton_self _⟩

/-- Since the jobs are sorted, none that is due comes after the first that is not. -/
theorem scheduleLoop_calls (sorted : jobs.Pairwise (·.scheduledAt ≤ ·.scheduledAt))
    (unhindered : runtime.Unhindered (runtime.scheduleLoop now world jobs).calls) :
    (runtime.scheduleLoop now world jobs).calls.map Prod.fst = jobs.filter (·.scheduledAt ≤ now) := by
  induction jobs generalizing world with
  | nil => rfl
  | cons job rest ih =>
      obtain ⟨first, others⟩ := List.pairwise_cons.mp sorted
      unfold scheduleLoop at unhindered ⊢
      split at unhindered
      · rename_i early
        rw [if_pos early, eq_comm]
        refine List.filter_eq_nil_iff.mpr fun other member => ?_
        rw [decide_eq_true_iff, not_le]
        rcases List.mem_cons.mp member with rfl | later
        · exact early
        · exact lt_of_lt_of_le early (first other later)
      · rename_i due
        rw [if_neg due, List.filter_cons, if_pos (decide_eq_true (not_lt.mp due))]
        split at unhindered
        · exact congrArg (job :: ·) (ih others unhindered.tail)
        · rename_i error _
          split at unhindered
          · rename_i context
            have allowed := unhindered _ (List.mem_singleton_self _) error rfl
            rw [context] at allowed
            cases allowed
          · rename_i other
            rw [if_neg other]
            exact congrArg (job :: ·) (ih others unhindered.tail)

theorem scheduleDueJobs_scheduled {expiredOrder pendingOrder : List String}
    (unhindered : runtime.Unhindered ((runtime.scheduleDueJobs world now expiredOrder pendingOrder).reclaimed ++
      (runtime.scheduleDueJobs world now expiredOrder pendingOrder).scheduled)) :
    (runtime.scheduleDueJobs world now expiredOrder pendingOrder).scheduled.map Prod.fst =
      if runtime.role world = .leader then
        ((runtime.store (runtime.beforeListing world now expiredOrder)).listPendingJobs pendingOrder).filter
          (·.scheduledAt ≤ now)
      else [] := by
  unfold scheduleDueJobs at unhindered ⊢
  by_cases leads : runtime.role world = .leader
  · rw [if_neg (not_not.mpr leads)] at unhindered ⊢
    rw [if_pos leads]
    dsimp only at unhindered ⊢
    split at unhindered
    · rename_i error stopped
      obtain ⟨failed, context⟩ := Option.filter_eq_some_iff.mp stopped
      obtain ⟨job, member⟩ := reclaimLoop_err failed
      have allowed := unhindered _ (List.mem_append_left _ member) error rfl
      rw [context] at allowed
      cases allowed
    · exact scheduleLoop_calls (Store.listJobs_scheduledAt _ _ _)
        fun call member => unhindered call (List.mem_append_right _ member)
  · rw [if_pos leads, if_neg leads]
    rfl

end Runtime

/-- In whatever way the jobs of a store came about, the pending ones are listed once each, in one order that
depends neither on the map nor on the sort, and an iteration of the leader's scheduler visits exactly those
that are due. -/
theorem scheduling_visits_due_jobs {json : StoreJSON} {store : Store} (built : Store.Built json store)
    {order : List String} (iterates : Iterates store.jobs order) :
    (store.listPendingJobs order).Pairwise (·.rank < ·.rank) ∧
    (store.listPendingJobs order).Nodup ∧
    (∀ job, job ∈ store.listPendingJobs order ↔
      (∃ id, store.jobs.lookup id = some job) ∧ job.state = .pending) ∧
    (∀ other listed, Iterates store.jobs other →
      listed.Perm ((other.filterMap store.jobs.lookup).filter fun job => job.state = .pending) →
      listed.Pairwise (fun first second => ¬ Store.jobLess second first) →
      listed = store.listPendingJobs order) ∧
    ∀ {World Failure : Type} (runtime : Runtime World Failure) (world : World) (now : ℤ)
      (expiredOrder : List String), runtime.store (runtime.beforeListing world now expiredOrder) = store →
      runtime.Unhindered ((runtime.scheduleDueJobs world now expiredOrder order).reclaimed ++
        (runtime.scheduleDueJobs world now expiredOrder order).scheduled) →
      (runtime.scheduleDueJobs world now expiredOrder order).scheduled.map Prod.fst =
        if runtime.role world = .leader then (store.listPendingJobs order).filter (·.scheduledAt ≤ now)
        else [] := by
  have keyed := built.keyed
  have increasing : (store.listPendingJobs order).Pairwise (·.rank < ·.rank) :=
    keyed.listJobs_increasing iterates.nodup _
  refine ⟨increasing, increasing.imp fun {first second} less same => ?_, fun job => ?_, ?_, ?_⟩
  · exact less.ne (congrArg Job.rank same)
  · unfold Store.listPendingJobs
    rw [keyed.mem_listJobs_iff iterates, decide_eq_true_iff]
    refine and_congr_left fun _ => ⟨fun found => ⟨job.id, found⟩, fun ⟨id, found⟩ => ?_⟩
    rwa [keyed id job found]
  · intro other listed iteratesToo perm sorted
    exact keyed.listJobs_unique iterates iteratesToo perm sorted
  · intro World Failure runtime world now expiredOrder same unhindered
    rw [Runtime.scheduleDueJobs_scheduled unhindered, same]

/-- Of two pending jobs one is due; each command that is proposed is applied at once. -/
theorem due_job_scheduled : ∃ (first second : Job) (store : Store) (runtime : Runtime Store Unit),
    store.jobs.lookup "a" = some first ∧ store.jobs.lookup "b" = some second ∧
      (runtime.scheduleDueJobs store 5 ["a", "b"] ["b", "a"]).scheduled.map Prod.fst = [first] := by
  let json : StoreJSON := .listed [Store.new.snapshotState]
  let runtime : Runtime Store Unit := {
    lease := 10
    role := fun _ => .leader
    store := id
    clock := fun _ => 5
    others := id
    selectWorker := fun _ => .ok "w"
    propose := fun store command => ((store.apply ⟨3, some command⟩).1, .ok 3)
    waitResult := fun store _ => (store, .ok {})
    isContextFailure := fun _ => false
    isExpectedReclaimFailure := fun _ => false }
  let first : Job := { Job.zero with id := "a", state := .pending, scheduledAt := 3 }
  let second : Job := { Job.zero with id := "b", state := .pending, scheduledAt := 9 }
  let store := ((Store.new.createJob first).1.createJob second).1
  have built : Store.Built json store :=
    .step (.createJob second) (.step (.createJob first) .start trivial rfl) trivial rfl
  have jobs : store.jobs = ((∅ : GoMap Job).insert "a" first).insert "b" second := by decide +kernel
  have iterates : Iterates store.jobs ["b", "a"] :=
    jobs ▸ (Iterates.empty.insert List.not_mem_nil first).insert (by decide) second
  have facts := scheduling_visits_due_jobs built iterates
  have listed : [first, second] = store.listPendingJobs ["b", "a"] :=
    facts.2.2.2.1 ["b", "a"] [first, second] iterates (by decide +kernel) (by decide +kernel)
  have noneExpired : store.listExpiredJobs 5 ["a", "b"] = [] := by
    have unselected : (["a", "b"].filterMap store.jobs.lookup).filter (store.isExpiredJob 5) = [] := by
      decide +kernel
    rw [Store.listExpiredJobs, if_neg (by decide), Store.listJobs, unselected, List.mergeSort_nil]
  have unchanged : runtime.store (runtime.beforeListing store 5 ["a", "b"]) = store := by
    show (runtime.reclaimLoop 5 store (store.listExpiredJobs 5 ["a", "b"])).world = store
    rw [noneExpired]
    rfl
  refine ⟨first, second, store, runtime, by decide +kernel, by decide +kernel, ?_⟩
  rw [facts.2.2.2.2 runtime store 5 ["a", "b"] unchanged fun call _ error _ => by cases error <;> rfl, ← listed]
  decide +kernel

end Scheduler

end Raftiq
