import Raftiq.Kv.Ownership

namespace Raftiq.Kv

structure SnapshotState where
  version : ℕ
  data : GoMap Bytes
  locks : GoMap Lock
  nextToken : ℕ
  fenced : GoMap FencedValue
  jobs : GoMap Job
deriving DecidableEq

def snapshotVersion : ℕ := 1

inductive SnapshotError where
  | emptyLockMapKey
  | emptyLockKey (key : String)
  | lockKeyMismatch (key lockKey : String)
  | emptyLockOwner (key : String)
  | invalidLockToken (key : String)
  | lockTokenExceedsNext (key : String) (fencingToken nextToken : ℕ)
  | emptyJobMapKey
  | emptyJobID (id : JobID)
  | jobIDMismatch (id jobID : JobID)
  | pendingJobOwned (id : JobID)
  | emptyWorker (id : JobID)
  | invalidJobToken (id : JobID)
  | noLock (id : JobID)
  | ownerMismatch (id : JobID) (workerID ownerID : String)
  | tokenMismatch (id : JobID) (jobToken lockToken : ℕ)
  | unknownState (id : JobID) (name : String)
deriving DecidableEq, Repr

/-- `encoding/json` on snapshots of the store.  `version` reads the envelope and, if there is one,
its field `version`; maps that are `null` are read as empty ones. -/
structure StoreJSON where
  Error : Type
  marshal : SnapshotState → Bytes
  version : Bytes → Except Error (Option (Except Error ℕ))
  snapshot : Bytes → Except Error SnapshotState
  legacy : Bytes → Except Error (GoMap Bytes)

structure StoreJSON.RoundTrips (json : StoreJSON) (state : SnapshotState) : Prop where
  version : json.version (json.marshal state) = .ok (some (.ok state.version))
  snapshot : json.snapshot (json.marshal state) = .ok state

/-- States that are known by their numbers. -/
def StoreJSON.listed (states : List SnapshotState) : StoreJSON where
  Error := Unit
  marshal state := [UInt8.ofNat (states.idxOf state)]
  version data := .ok (states[(data.headD 0).toNat]?.map fun state => .ok state.version)
  snapshot data :=
    match states[(data.headD 0).toNat]? with
    | none => .error ()
    | some state => .ok state
  legacy _ := .error ()

theorem StoreJSON.listed_roundTrips {states : List SnapshotState} {state : SnapshotState}
    (member : state ∈ states) (few : states.length ≤ 256) : (StoreJSON.listed states).RoundTrips state := by
  have number : (UInt8.ofNat (states.idxOf state)).toNat = states.idxOf state :=
    Nat.mod_eq_of_lt ((List.idxOf_lt_length_of_mem member).trans_le few)
  have found : states[(([UInt8.ofNat (states.idxOf state)] : Bytes).headD 0).toNat]? = some state := by
    rw [List.headD_cons, number, List.getElem?_idxOf member]
  constructor
  · simp only [listed, found, Option.map_some]
  · simp only [listed, found]

inductive RestoreError (Error : Type) where
  | envelope (error : Error)
  | version (error : Error)
  | unsupportedVersion (version : ℕ)
  | snapshot (error : Error)
  | validate (error : SnapshotError)
  | legacy (error : Error)

def validateLock (key : String) (currentLock : Lock) (nextToken : ℕ) : Except SnapshotError Unit :=
  if key = "" then .error .emptyLockMapKey
  else if currentLock.key = "" then .error (.emptyLockKey key)
  else if currentLock.key ≠ key then .error (.lockKeyMismatch key currentLock.key)
  else if currentLock.ownerID = "" then .error (.emptyLockOwner key)
  else if currentLock.fencingToken = 0 then .error (.invalidLockToken key)
  else if currentLock.fencingToken > nextToken then
    .error (.lockTokenExceedsNext key currentLock.fencingToken nextToken)
  else .ok ()

def validateActiveJobOwnership (id : JobID) (job : Job) (locks : GoMap Lock) : Except SnapshotError Unit :=
  if job.assignedWorkerID = "" then .error (.emptyWorker id)
  else if job.fencingToken = 0 then .error (.invalidJobToken id)
  else
    match locks.lookup id with
    | none => .error (.noLock id)
    | some currentLock =>
        if currentLock.ownerID ≠ job.assignedWorkerID then
          .error (.ownerMismatch id job.assignedWorkerID currentLock.ownerID)
        else if currentLock.fencingToken ≠ job.fencingToken then
          .error (.tokenMismatch id job.fencingToken currentLock.fencingToken)
        else .ok ()

def validateJob (id : JobID) (job : Job) (locks : GoMap Lock) : Except SnapshotError Unit :=
  if id = "" then .error .emptyJobMapKey
  else if job.id = "" then .error (.emptyJobID id)
  else if job.id ≠ id then .error (.jobIDMismatch id job.id)
  else
    match job.state with
    | .pending =>
        if job.assignedWorkerID ≠ "" ∨ job.fencingToken ≠ 0 then .error (.pendingJobOwned id) else .ok ()
    | .scheduled | .running => validateActiveJobOwnership id job locks
    | .succeeded | .failed => .ok ()
    | .unknown name => .error (.unknownState id name)

/-- A `range` loop over a map that returns at the first error; the order of the keys is arbitrary. -/
def rangeMap {α : Type} (map : GoMap α) (check : String → α → Except SnapshotError Unit) :
    List String → Except SnapshotError Unit
  | [] => .ok ()
  | key :: rest =>
      match map.lookup key with
      | none => rangeMap map check rest
      | some value =>
          match check key value with
          | .error error => .error error
          | .ok () => rangeMap map check rest

def validateSnapshotState (snapshot : SnapshotState) (lockOrder jobOrder : List String) :
    Except SnapshotError Unit :=
  match rangeMap snapshot.locks (fun key lock => validateLock key lock snapshot.nextToken) lockOrder with
  | .error error => .error error
  | .ok () => rangeMap snapshot.jobs (fun id job => validateJob id job snapshot.locks) jobOrder

namespace Store

def snapshotState (store : Store) : SnapshotState where
  version := snapshotVersion
  data := store.data
  locks := store.locks.locks
  nextToken := store.locks.nextToken
  fenced := store.fenced
  jobs := store.jobs

def snapshot (store : Store) (json : StoreJSON) : Bytes :=
  json.marshal store.snapshotState

def ofSnapshot (snapshot : SnapshotState) : Store where
  data := snapshot.data
  locks := { locks := snapshot.locks, nextToken := snapshot.nextToken }
  fenced := snapshot.fenced
  jobs := snapshot.jobs

def restoreVersioned (store : Store) (json : StoreJSON) (data : Bytes) (lockOrder jobOrder : List String) :
    Store × Except (RestoreError json.Error) Unit :=
  match json.snapshot data with
  | .error error => (store, .error (.snapshot error))
  | .ok snapshot =>
      match validateSnapshotState snapshot lockOrder jobOrder with
      | .error error => (store, .error (.validate error))
      | .ok () => (ofSnapshot snapshot, .ok ())

/-- A snapshot without a version has only plain values. -/
def restoreLegacy (store : Store) (json : StoreJSON) (data : Bytes) :
    Store × Except (RestoreError json.Error) Unit :=
  match json.legacy data with
  | .error error => (store, .error (.legacy error))
  | .ok data => ({ data := data, locks := .new, fenced := ∅, jobs := ∅ }, .ok ())

def restore (store : Store) (json : StoreJSON) (data : Bytes) (lockOrder jobOrder : List String) :
    Store × Except (RestoreError json.Error) Unit :=
  match json.version data with
  | .error error => (store, .error (.envelope error))
  | .ok none => store.restoreLegacy json data
  | .ok (some (.error error)) => (store, .error (.version error))
  | .ok (some (.ok version)) =>
      if version ≠ snapshotVersion then (store, .error (.unsupportedVersion version))
      else store.restoreVersioned json data lockOrder jobOrder

end Store

section Validation

variable {store : Store} {json : StoreJSON}

theorem rangeMap_ok {α : Type} {map : GoMap α} {check : String → α → Except SnapshotError Unit}
    (passes : ∀ key value, map.lookup key = some value → check key value = .ok ()) (order : List String) :
    rangeMap map check order = .ok () := by
  induction order with
  | nil => rfl
  | cons key rest ih =>
      unfold rangeMap
      cases found : map.lookup key with
      | none => exact ih
      | some value =>
          dsimp only
          rw [passes key value found]
          exact ih

/-- A map that holds one value which does not pass. -/
theorem rangeMap_error {α : Type} {map : GoMap α} {check : String → α → Except SnapshotError Unit}
    {key : String} {value : α} {error : SnapshotError} {order : List String} (member : key ∈ order)
    (found : map.lookup key = some value) (fails : check key value = .error error)
    (only : ∀ other, other ≠ key → map.lookup other = none) : rangeMap map check order = .error error := by
  induction order with
  | nil => cases member
  | cons first rest ih =>
      unfold rangeMap
      by_cases same : first = key
      · subst same
        rw [found]
        dsimp only
        rw [fails]
      · rw [only first same]
        exact ih (List.mem_of_ne_of_mem (Ne.symm same) member)

theorem rangeMap_passed {α : Type} {map : GoMap α} {check : String → α → Except SnapshotError Unit}
    {key : String} {value : α} {order : List String} (passed : rangeMap map check order = .ok ())
    (member : key ∈ order) (found : map.lookup key = some value) : check key value = .ok () := by
  induction order with
  | nil => cases member
  | cons first rest ih =>
      unfold rangeMap at passed
      split at passed
      · rename_i missing
        rcases List.mem_cons.mp member with rfl | later
        · rw [missing] at found
          cases found
        · exact ih passed later
      · rename_i present
        split at passed
        · cases passed
        · rename_i checked
          rcases List.mem_cons.mp member with rfl | later
          · rw [present] at found
            cases found
            exact checked
          · exact ih passed later

theorem validateLock_ok {lock : Lock} {key : String} {nextToken : ℕ} (sound : lock.Sound key nextToken) :
    validateLock key lock nextToken = .ok () := by
  unfold validateLock
  rw [if_neg sound.named, if_neg (sound.key ▸ sound.named), if_neg (not_not.mpr sound.key), if_neg sound.owned,
    if_neg sound.valid, if_neg (not_lt.mpr sound.granted)]

theorem validateActiveJobOwnership_ok {id : JobID} {job : Job} {lock : Lock} {nextToken : ℕ}
    {locks : GoMap Lock} (held : locks.lookup id = some lock) (sound : lock.Sound id nextToken)
    (owner : lock.ownerID = job.assignedWorkerID) (token : lock.fencingToken = job.fencingToken) :
    validateActiveJobOwnership id job locks = .ok () := by
  unfold validateActiveJobOwnership
  rw [if_neg (owner ▸ sound.owned), if_neg (token ▸ sound.valid), held]
  simp [owner, token]

theorem validateJob_ok (sound : store.Sound) {id : JobID} {job : Job}
    (found : store.jobs.lookup id = some job) : validateJob id job store.locks.locks = .ok () := by
  obtain ⟨named, same, owned⟩ := sound.job id job found
  have active : job.active → validateActiveJobOwnership id job store.locks.locks = .ok () := by
    intro active
    obtain ⟨lock, held, owner, token⟩ := owned.of_active active
    exact validateActiveJobOwnership_ok held (sound.lock id lock held) owner token
  unfold validateJob
  rw [if_neg named, if_neg (same ▸ named), if_neg (not_not.mpr same)]
  unfold Job.Owned at owned
  cases state : job.state with
  | pending =>
      rw [state] at owned
      simp [owned]
  | scheduled => exact active (by simp [Job.active, state])
  | running => exact active (by simp [Job.active, state])
  | succeeded => rfl
  | failed => rfl
  | unknown name =>
      rw [state] at owned
      exact owned.elim

theorem validateJob_same {id : JobID} {job : Job} {locks : GoMap Lock}
    (validated : validateJob id job locks = .ok ()) : job.id = id := by
  unfold validateJob at validated
  split at validated
  · cases validated
  · split at validated
    · cases validated
    · split at validated
      · cases validated
      · rename_i same
        exact not_not.mp same

theorem validateSnapshotState_ok (sound : store.Sound) (lockOrder jobOrder : List String) :
    validateSnapshotState store.snapshotState lockOrder jobOrder = .ok () := by
  have locks : rangeMap store.snapshotState.locks
      (fun key lock => validateLock key lock store.snapshotState.nextToken) lockOrder = .ok () :=
    rangeMap_ok (fun key lock held => validateLock_ok (sound.lock key lock held)) lockOrder
  unfold validateSnapshotState
  rw [locks]
  exact rangeMap_ok (fun id job found => validateJob_ok sound found) jobOrder

/-- What is restored from a snapshot is decided by its validation. -/
theorem restore_snapshot (roundTrips : json.RoundTrips store.snapshotState) (other : Store)
    (lockOrder jobOrder : List String) :
    other.restore json (store.snapshot json) lockOrder jobOrder =
      match validateSnapshotState store.snapshotState lockOrder jobOrder with
      | .error error => (other, .error (.validate error))
      | .ok () => (store, .ok ()) := by
  unfold Store.restore Store.restoreVersioned Store.snapshot
  rw [roundTrips.version, roundTrips.snapshot]
  rfl

end Validation

namespace Store

section Failure

variable {store : Store} {json : StoreJSON} {data : Bytes} {lockOrder jobOrder : List String}
  {error : RestoreError json.Error}

theorem restoreLegacy_failed (failed : (store.restoreLegacy json data).2 = .error error) :
    (store.restoreLegacy json data).1 = store := by
  unfold restoreLegacy at failed ⊢
  cases read : json.legacy data with
  | error _ => rfl
  | ok values =>
      rw [read] at failed
      cases failed

theorem restoreVersioned_failed
    (failed : (store.restoreVersioned json data lockOrder jobOrder).2 = .error error) :
    (store.restoreVersioned json data lockOrder jobOrder).1 = store := by
  unfold restoreVersioned at failed ⊢
  cases read : json.snapshot data with
  | error _ => rfl
  | ok snapshot =>
      rw [read] at failed
      dsimp only at failed ⊢
      cases valid : validateSnapshotState snapshot lockOrder jobOrder with
      | error _ => rfl
      | ok _ =>
          rw [valid] at failed
          cases failed

/-- Whatever stops a restore, the store is as it was. -/
theorem restore_failed (failed : (store.restore json data lockOrder jobOrder).2 = .error error) :
    (store.restore json data lockOrder jobOrder).1 = store := by
  unfold restore at failed ⊢
  split at failed
  · rfl
  · exact restoreLegacy_failed failed
  · rfl
  · split at failed
    · rename_i unsupported
      rw [if_pos unsupported]
    · rename_i supported
      rw [if_neg supported]
      exact restoreVersioned_failed failed

end Failure

/-- As long as no lock of an active job is expired, the snapshot of a store is restored on any
store, in whatever order its maps are gone through. -/
theorem snapshot_restores {store : Store}
    (reached : Reaches step (fun store entry => store.SparesActive entry) new store) {json : StoreJSON}
    (roundTrips : json.RoundTrips store.snapshotState) (other : Store) (lockOrder jobOrder : List String) :
    other.restore json (store.snapshot json) lockOrder jobOrder = (store, .ok ()) := by
  rw [restore_snapshot roundTrips, validateSnapshotState_ok (reaches_sound reached)]

/-- A running job and a fenced value, and the snapshots of their store and of an empty one. -/
theorem snapshot_restores_running_job : ∃ (store : Store) (json : StoreJSON),
    (store.jobs.lookup "j").isSome ∧
      new.restore json (store.snapshot json) ["j"] ["j"] = (store, .ok ()) := by
  have run : ∃ store, Reaches step (fun store entry => store.SparesActive entry) new store ∧
      (store.jobs.lookup "j").isSome :=
    Reaches.of_leadsTo (fun store entry => decide (store.SparesActive entry)) (fun _ _ => of_decide_eq_true)
      (numbered [{ type := .createJob, jobID := "j" },
        { type := .claimJob, jobID := "j", ownerID := "w", expiresAt := 5 },
        { type := .fencedPut, key := "j", value := [1], fencingToken := 1 },
        { type := .jobStart, jobID := "j", ownerID := "w", executionID := "j/1", fencingToken := 1, now := 1 }])
      (by decide +kernel)
  obtain ⟨store, reached, found⟩ := run
  let states := [new.snapshotState, store.snapshotState]
  have roundTrips : (StoreJSON.listed states).RoundTrips store.snapshotState :=
    StoreJSON.listed_roundTrips (List.mem_cons_of_mem _ List.mem_cons_self) (Nat.le_of_ble_eq_true rfl)
  exact ⟨store, .listed states, found, snapshot_restores reached roundTrips new ["j"] ["j"]⟩

/-- After `LOCK_EXPIRE` for the lock of a scheduled job, no snapshot of the store can be restored. -/
theorem orphaned_job_blocks_restore : ∃ store : Store, Reaches step (fun _ _ => True) new store ∧
    ∀ (json : StoreJSON) (other : Store) (lockOrder jobOrder : List String),
      json.RoundTrips store.snapshotState → "j" ∈ jobOrder →
      other.restore json (store.snapshot json) lockOrder jobOrder =
        (other, .error (.validate (.noLock "j"))) := by
  let job : Job := {
    id := "j", payload := [], state := .scheduled, scheduledAt := 0, assignedWorkerID := "w",
    fencingToken := 1, attempt := 1, executionID := "j/1", createdIndex := 1 }
  have run : ∃ store, Reaches step (fun _ _ => True) new store ∧
      (store.jobs = Finmap.singleton "j" job ∧ store.locks.locks = ∅) :=
    Reaches.of_leadsTo (fun _ _ => true) (fun _ _ _ => trivial)
      (numbered [{ type := .createJob, jobID := "j" },
        { type := .claimJob, jobID := "j", ownerID := "w", expiresAt := 5 },
        { type := .lockExpire, key := "j", fencingToken := 1 }])
      (by decide +kernel)
  obtain ⟨store, reached, jobs, locks⟩ := run
  refine ⟨store, reached, fun json other lockOrder jobOrder roundTrips listed => ?_⟩
  have noLocks : rangeMap store.snapshotState.locks
      (fun key lock => validateLock key lock store.snapshotState.nextToken) lockOrder = .ok () := by
    refine rangeMap_ok (fun key lock held => ?_) lockOrder
    simp [snapshotState, locks] at held
  have fails : rangeMap store.snapshotState.jobs
      (fun id job => validateJob id job store.snapshotState.locks) jobOrder = .error (.noLock "j") := by
    have found : store.snapshotState.jobs.lookup "j" = some job := by
      simp [snapshotState, jobs]
    refine rangeMap_error listed found ?_ ?_
    · simp [snapshotState, locks, validateJob, validateActiveJobOwnership, job]
    · intro id different
      simp [snapshotState, jobs, Finmap.lookup_eq_none, different]
  rw [restore_snapshot roundTrips]
  unfold validateSnapshotState
  rw [noLocks]
  dsimp only
  rw [fails]

end Store

end Raftiq.Kv
