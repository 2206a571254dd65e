import Raftiq.Kv.Effect

namespace Raftiq.Kv

/-- An order in which Go may go through a map. -/
structure Iterates {α : Type} (map : GoMap α) (order : List String) : Prop where
  nodup : order.Nodup
  mem : ∀ key, key ∈ order ↔ (map.lookup key).isSome

theorem Iterates.empty {α : Type} : Iterates (∅ : GoMap α) [] :=
  ⟨List.nodup_nil, fun key => by simp⟩

theorem Iterates.insert {α : Type} {map : GoMap α} {order : List String} {key : String}
    (iterates : Iterates map order) (fresh : key ∉ order) (value : α) :
    Iterates (map.insert key value) (key :: order) := by
  refine ⟨List.nodup_cons.mpr ⟨fresh, iterates.nodup⟩, fun other => ?_⟩
  rw [lookup_insert, List.mem_cons, iterates.mem]
  by_cases own : other = key
  · simp [own]
  · simp [own]

/-- The values of a map that are filed under their own names. -/
theorem pairwise_name {α : Type} {map : GoMap α} {name : α → String} {order : List String}
    (filed : ∀ key value, map.lookup key = some value → name value = key) (nodup : order.Nodup) :
    (order.filterMap map.lookup).Pairwise (name · ≠ name ·) := by
  refine List.pairwise_filterMap.mpr (nodup.imp fun {first second} different => ?_)
  intro value found other foundToo same
  exact different ((filed first value found).symm.trans (same.trans (filed second other foundToo)))

namespace Store

variable {store : Store} {job : Job} {now : ℤ}

/-- The order of the listings. -/
def jobLess (first second : Job) : Bool :=
  if first.scheduledAt ≠ second.scheduledAt then first.scheduledAt < second.scheduledAt
  else first.id < second.id

/-- The jobs that a listing selects while it goes through the map, sorted. -/
def listJobs (store : Store) (order : List String) (select : Job → Bool) : List Job :=
  ((order.filterMap store.jobs.lookup).filter select).mergeSort fun first second => ¬ jobLess second first

/-- The lock of a claimed job has run out. -/
def isExpiredJob (store : Store) (now : ℤ) (job : Job) : Bool :=
  if job.state ≠ .scheduled ∧ job.state ≠ .running then false
  else
    match store.locks.get job.id with
    | none => false
    | some currentLock =>
        if currentLock.fencingToken ≠ job.fencingToken then false
        else if currentLock.expiresAt > now then false
        else true

def listExpiredJobs (store : Store) (now : ℤ) (order : List String) : List Job :=
  if now ≤ 0 then [] else store.listJobs order (store.isExpiredJob now)

def validateJobOwnership (store : Store) (jobID : JobID) (workerID : String) (fencingToken : ℕ) (now : ℤ) :
    Bool :=
  if jobID = "" ∨ workerID = "" ∨ fencingToken = 0 then false
  else
    match store.jobs.lookup jobID with
    | none => false
    | some job =>
        if job.assignedWorkerID ≠ workerID then false
        else if job.fencingToken ≠ fencingToken then false
        else if job.state ≠ .scheduled ∧ job.state ≠ .running then false
        else
          match store.locks.get jobID with
          | none => false
          | some currentLock =>
              if currentLock.ownerID ≠ workerID then false
              else if currentLock.fencingToken ≠ fencingToken then false
              else if currentLock.expiresAt ≤ now then false
              else true

theorem mem_listJobs {order : List String} {select : Job → Bool} :
    job ∈ store.listJobs order select ↔ (∃ id ∈ order, store.jobs.lookup id = some job) ∧ select job := by
  simp [listJobs]

/-- A job that some worker has been given. -/
structure Assigned (store : Store) (job : Job) : Prop where
  found : store.jobs.lookup job.id = some job
  active : job.state = .scheduled ∨ job.state = .running
  named : job.id ≠ ""
  worker : job.assignedWorkerID ≠ ""
  execution : job.executionID ≠ ""
  token : job.fencingToken ≠ 0

/-- The worker of a job holds its lease. -/
def Leased (store : Store) (job : Job) (now : ℤ) : Prop :=
  ∃ lock, store.locks.get job.id = some lock ∧ lock.ownerID = job.assignedWorkerID ∧
    lock.fencingToken = job.fencingToken ∧ now < lock.expiresAt

/-- The lock of a job has run out. -/
def Expired (store : Store) (job : Job) (now : ℤ) : Prop :=
  ∃ lock, store.locks.get job.id = some lock ∧ lock.fencingToken = job.fencingToken ∧ lock.expiresAt ≤ now

theorem Assigned.validateJobOwnership_iff (assigned : store.Assigned job) :
    store.validateJobOwnership job.id job.assignedWorkerID job.fencingToken now ↔ store.Leased job now := by
  have claimed : ¬ (job.state ≠ .scheduled ∧ job.state ≠ .running) := by
    have active := assigned.active
    tauto
  unfold validateJobOwnership Leased
  cases held : store.locks.get job.id with
  | none => simp [assigned.found, claimed, assigned.named, assigned.worker, assigned.token]
  | some lock => simp [assigned.found, claimed, assigned.named, assigned.worker, assigned.token]

theorem Assigned.isExpiredJob_iff (assigned : store.Assigned job) :
    store.isExpiredJob now job ↔ store.Expired job now := by
  have claimed : ¬ (job.state ≠ .scheduled ∧ job.state ≠ .running) := by
    have active := assigned.active
    tauto
  unfold isExpiredJob Expired
  cases held : store.locks.get job.id with
  | none => simp
  | some lock => simp [claimed]

theorem Assigned.mem_listExpiredJobs (assigned : store.Assigned job) (positive : 0 < now) {order : List String}
    (iterates : Iterates store.jobs order) : job ∈ store.listExpiredJobs now order ↔ store.Expired job now := by
  have visited : ∃ id ∈ order, store.jobs.lookup id = some job :=
    ⟨job.id, (iterates.mem job.id).mpr (by rw [assigned.found]; rfl), assigned.found⟩
  rw [listExpiredJobs, if_neg (by omega), mem_listJobs, assigned.isExpiredJob_iff]
  exact and_iff_right visited

theorem Assigned.transitionJobState_iff (assigned : store.Assigned job) (positive : 0 < now)
    {nextState : JobState} (allowed : validateTransitionStates job.state nextState = .ok ()) :
    (store.transitionJobState job.id job.assignedWorkerID job.executionID job.fencingToken job.state nextState
      now).2.isOk ↔ store.Leased job now := by
  have arguments : validateTransitionArguments job.id job.assignedWorkerID job.executionID job.fencingToken now =
      .ok () := by
    simp [validateTransitionArguments, assigned.named, assigned.worker, assigned.execution, assigned.token,
      positive]
  unfold transitionJobState Leased
  simp only [arguments, allowed, assigned.found]
  unfold validateTransitionOwnership
  cases held : store.locks.get job.id with
  | none => simp [Except.isOk, Except.toBool]
  | some lock =>
      by_cases owner : lock.ownerID = job.assignedWorkerID
      · by_cases token : lock.fencingToken = job.fencingToken
        · by_cases live : now < lock.expiresAt
          · simp [owner, token, live, Int.not_le.mpr live, Except.isOk, Except.toBool]
          · simp [owner, token, live, Int.not_lt.mp live, Except.isOk, Except.toBool]
        · simp [owner, token, Except.isOk, Except.toBool]
      · simp [owner, Except.isOk, Except.toBool]

theorem Assigned.reclaimExpiredJob_iff (assigned : store.Assigned job) (positive : 0 < now) :
    (store.reclaimExpiredJob job.id job.fencingToken now).2.isOk ↔ store.Expired job now := by
  have claimed : ¬ (job.state ≠ .scheduled ∧ job.state ≠ .running) := by
    have active := assigned.active
    tauto
  have arguments : ¬ (job.id = "" ∨ job.fencingToken = 0 ∨ now ≤ 0) := by
    simp [assigned.named, assigned.token, positive]
  unfold reclaimExpiredJob Expired
  rw [if_neg arguments]
  simp only [assigned.found]
  rw [if_neg claimed]
  cases held : store.locks.get job.id with
  | none => simp [Except.isOk, Except.toBool]
  | some lock =>
      by_cases token : lock.fencingToken = job.fencingToken
      · by_cases live : now < lock.expiresAt
        · simp [token, live, Except.isOk, Except.toBool]
        · simp [token, live, Int.not_lt.mp live, Except.isOk, Except.toBool]
      · simp [token, Except.isOk, Except.toBool]

theorem Leased.not_expired (leased : store.Leased job now) : ¬ store.Expired job now := by
  rintro ⟨other, held, _, ended⟩
  obtain ⟨lock, heldToo, _, _, live⟩ := leased
  cases held.symm.trans heldToo
  omega

/-- A worker may go on with its job exactly as long as the job cannot be taken away from it. -/
theorem lease_boundaries_agree (assigned : store.Assigned job) (positive : 0 < now) {order : List String}
    (iterates : Iterates store.jobs order) :
    (∀ nextState, validateTransitionStates job.state nextState = .ok () →
      (store.validateJobOwnership job.id job.assignedWorkerID job.fencingToken now ↔
        (store.transitionJobState job.id job.assignedWorkerID job.executionID job.fencingToken job.state
          nextState now).2.isOk)) ∧
    (job ∈ store.listExpiredJobs now order ↔
      (store.reclaimExpiredJob job.id job.fencingToken now).2.isOk) ∧
    ¬ (store.validateJobOwnership job.id job.assignedWorkerID job.fencingToken now ∧
      job ∈ store.listExpiredJobs now order) ∧
    (∀ lock, store.locks.get job.id = some lock → lock.ownerID = job.assignedWorkerID →
      lock.fencingToken = job.fencingToken →
        (store.validateJobOwnership job.id job.assignedWorkerID job.fencingToken now ↔
          job ∉ store.listExpiredJobs now order)) := by
  rw [assigned.validateJobOwnership_iff, assigned.mem_listExpiredJobs positive iterates]
  refine ⟨fun nextState allowed => (assigned.transitionJobState_iff positive allowed).symm,
    (assigned.reclaimExpiredJob_iff positive).symm, fun both => both.1.not_expired both.2, ?_⟩
  intro lock held owner token
  refine ⟨Leased.not_expired, fun live => ⟨lock, held, owner, token, ?_⟩⟩
  by_contra ended
  exact live ⟨lock, held, token, Int.not_lt.mp ended⟩

/-- At the very time at which the lease of a running job ends, the job is expired and not owned any more. -/
theorem lease_ends_at_expiry : ∃ (store : Store) (job : Job) (lock : Lock),
    store.locks.get job.id = some lock ∧ store.jobs.lookup job.id = some job ∧
      (store.validateJobOwnership job.id job.assignedWorkerID job.fencingToken lock.expiresAt ↔
        job ∉ store.listExpiredJobs lock.expiresAt ["j"]) := by
  let store := new.run (numbered [{ type := .createJob, jobID := "j" },
    { type := .claimJob, jobID := "j", ownerID := "w", expiresAt := 5 },
    { type := .jobStart, jobID := "j", ownerID := "w", executionID := "j/1", fencingToken := 1, now := 1 }])
  let job : Job := ⟨"j", [], .running, 0, "w", 1, 1, "j/1", 1⟩
  let lock : Lock := ⟨"j", "w", 1, 5, 2⟩
  have found : store.jobs.lookup "j" = some job := by decide +kernel
  have held : store.locks.get "j" = some lock := by decide +kernel
  have assigned : store.Assigned job :=
    ⟨found, Or.inr rfl, by decide, by decide, by decide, by decide⟩
  have jobs : store.jobs = (∅ : GoMap Job).insert "j" job := by decide +kernel
  have iterates : Iterates store.jobs ["j"] := jobs ▸ Iterates.empty.insert List.not_mem_nil job
  have agree := @lease_boundaries_agree store job 5 assigned (by decide) ["j"] iterates
  exact ⟨store, job, lock, held, found, agree.2.2.2 lock held rfl rfl⟩

end Store

end Raftiq.Kv
