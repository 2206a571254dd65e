import Raftiq.Types
import Mathlib.Data.Finmap

namespace Raftiq.Kv

/-! The replicated state machine.  Timestamps are `int64` in the source and are only compared;
tokens are `uint64` and attempts `uint32`, which wrap around. -/

abbrev GoMap (α : Type) := Finmap fun _ : String => α

abbrev JobID := String

inductive JobState where
  | pending
  | scheduled
  | running
  | succeeded
  | failed
  | unknown (name : String)
deriving DecidableEq, Repr

structure Job where
  id : JobID
  payload : Bytes
  state : JobState
  scheduledAt : ℤ
  assignedWorkerID : String
  fencingToken : ℕ
  attempt : ℕ
  executionID : String
  createdIndex : ℕ
deriving DecidableEq, Repr

/-- The zero value. -/
def Job.zero : Job where
  id := ""
  payload := []
  state := .unknown ""
  scheduledAt := 0
  assignedWorkerID := ""
  fencingToken := 0
  attempt := 0
  executionID := ""
  createdIndex := 0

structure Lock where
  key : String
  ownerID : String
  fencingToken : ℕ
  expiresAt : ℤ
  grantIndex : ℕ
deriving DecidableEq, Repr

/-- The lock table; `nextToken` is the token that was granted last. -/
structure LockState where
  locks : GoMap Lock
  nextToken : ℕ
deriving DecidableEq

namespace LockState

def new : LockState where
  locks := ∅
  nextToken := 0

def get (state : LockState) (key : String) : Option Lock :=
  state.locks.lookup key

def acquire (state : LockState) (key ownerID : String) (expiresAt : ℤ) (grantIndex : ℕ) :
    LockState × Lock × Bool :=
  match state.get key with
  | some current => (state, current, false)
  | none =>
      let nextToken := (state.nextToken + 1) % 2 ^ 64
      let current : Lock :=
        { key := key, ownerID := ownerID, fencingToken := nextToken, expiresAt := expiresAt,
          grantIndex := grantIndex }
      ({ locks := state.locks.insert key current, nextToken := nextToken }, current, true)

def delete (state : LockState) (key : String) : LockState :=
  { state with locks := state.locks.erase key }

def expire (state : LockState) (key : String) (expectedToken : ℕ) : LockState × Option Lock × Bool :=
  match state.get key with
  | none => (state, none, false)
  | some current =>
      if current.fencingToken ≠ expectedToken then (state, some current, false)
      else (state.delete key, some current, true)

end LockState

structure FencedValue where
  value : Bytes
  fencingToken : ℕ
deriving DecidableEq, Repr

structure Store where
  data : GoMap Bytes
  locks : LockState
  fenced : GoMap FencedValue
  jobs : GoMap Job
deriving DecidableEq

inductive StoreError where
  | invalidKey
  | invalidOwner
  | invalidFencingToken
  | staleFencingToken
  | lockNotFound
  | missingJobID
  | missingJobState
  | missingWorkerID
  | invalidExpirationTime
  | invalidJob
  | jobNotFound
  | jobAlreadyExists (id : JobID)
  | jobNotClaimable (id : JobID) (state : JobState)
  | jobAlreadyAssigned (id : JobID) (workerID : String)
  | jobAlreadyOwned (id : JobID) (workerID : String)
  | invalidJobState
  | jobOwnershipLost
deriving DecidableEq, Repr

namespace Store

def new : Store where
  data := ∅
  locks := .new
  fenced := ∅
  jobs := ∅

def put (store : Store) (key : String) (value : Bytes) : Store :=
  { store with data := store.data.insert key value }

def delete (store : Store) (key : String) : Store :=
  match store.data.lookup key with
  | none => store
  | some _ => { store with data := store.data.erase key }

def acquireLock (store : Store) (key ownerID : String) (expiresAt : ℤ) (grantIndex : ℕ) :
    Store × Except StoreError (Lock × Bool) :=
  if key = "" then (store, .error .invalidKey)
  else if ownerID = "" then (store, .error .invalidOwner)
  else
    let (locks, result, acquired) := store.locks.acquire key ownerID expiresAt grantIndex
    ({ store with locks := locks }, .ok (result, acquired))

def expireLock (store : Store) (key : String) (expectedToken : ℕ) :
    Store × Except StoreError (Option Lock × Bool) :=
  if key = "" then (store, .error .invalidKey)
  else if expectedToken = 0 then (store, .error .invalidFencingToken)
  else
    let (locks, result, expired) := store.locks.expire key expectedToken
    ({ store with locks := locks }, .ok (result, expired))

def fencedPut (store : Store) (key : String) (value : Bytes) (fencingToken : ℕ) :
    Store × Except StoreError Unit :=
  if key = "" then (store, .error .invalidKey)
  else if fencingToken = 0 then (store, .error .staleFencingToken)
  else
    match store.locks.get key with
    | none => (store, .error .lockNotFound)
    | some currentLock =>
        if currentLock.fencingToken ≠ fencingToken then (store, .error .staleFencingToken)
        else
          ({ store with fenced := store.fenced.insert key { value := value, fencingToken := fencingToken } },
            .ok ())

def setJob (store : Store) (id : JobID) (job : Job) : Store :=
  { store with jobs := store.jobs.insert id job }

def createJob (store : Store) (job : Job) : Store × Except StoreError Unit :=
  if job.id = "" then (store, .error .missingJobID)
  else if job.state = .unknown "" then (store, .error .missingJobState)
  else
    match store.jobs.lookup job.id with
    | some _ => (store, .error (.jobAlreadyExists job.id))
    | none => (store.setJob job.id job, .ok ())

def validateClaimArguments (id : JobID) (workerID : String) (expiresAt : ℤ) : Except StoreError Unit :=
  if id = "" then .error .missingJobID
  else if workerID = "" then .error .missingWorkerID
  else if expiresAt ≤ 0 then .error .invalidExpirationTime
  else .ok ()

/-- Nothing if the claim has to go on. -/
def handleExistingClaim (id : JobID) (workerID : String) (job : Job) : Option (Except StoreError Job) :=
  match job.state with
  | .pending => none
  | .scheduled =>
      if job.assignedWorkerID = workerID then some (.ok job)
      else some (.error (.jobAlreadyAssigned id job.assignedWorkerID))
  | .running | .succeeded | .failed | .unknown _ => some (.error (.jobNotClaimable id job.state))

/-- The lock exists already; if the worker owns it, the job is scheduled under it. -/
def handleFailedClaim (store : Store) (id : JobID) (workerID : String) (job : Job) (currentLock : Lock) :
    Store × Except StoreError Job :=
  if currentLock.ownerID = workerID then
    let job := { job with
      state := .scheduled, assignedWorkerID := workerID, fencingToken := currentLock.fencingToken }
    (store.setJob id job, .ok job)
  else (store, .error (.jobAlreadyOwned id currentLock.ownerID))

def executionID (jobID : JobID) (attempt : ℕ) : String :=
  jobID ++ "/" ++ toString attempt

def claimJob (store : Store) (id : JobID) (workerID : String) (expiresAt : ℤ) (grantIndex : ℕ) :
    Store × Except StoreError Job :=
  match validateClaimArguments id workerID expiresAt with
  | .error error => (store, .error error)
  | .ok () =>
      match store.jobs.lookup id with
      | none => (store, .error .jobNotFound)
      | some job =>
          match handleExistingClaim id workerID job with
          | some result => (store, result)
          | none =>
              match store.locks.acquire id workerID expiresAt grantIndex with
              | (locks, currentLock, acquired) =>
                  let store := { store with locks := locks }
                  if ¬ acquired then store.handleFailedClaim id workerID job currentLock
                  else
                    let attempt := (job.attempt + 1) % 2 ^ 32
                    let job := { job with
                      state := .scheduled
                      assignedWorkerID := workerID
                      fencingToken := currentLock.fencingToken
                      attempt := attempt
                      executionID := executionID job.id attempt }
                    (store.setJob id job, .ok job)

def reclaimExpiredJob (store : Store) (id : JobID) (expectedToken : ℕ) (now : ℤ) :
    Store × Except StoreError Job :=
  if id = "" ∨ expectedToken = 0 ∨ now ≤ 0 then (store, .error .invalidJob)
  else
    match store.jobs.lookup id with
    | none => (store, .error .jobNotFound)
    | some job =>
        if job.state ≠ .scheduled ∧ job.state ≠ .running then (store, .error .invalidJobState)
        else if job.fencingToken ≠ expectedToken then (store, .error .jobOwnershipLost)
        else
          match store.locks.get id with
          | none => (store, .error .jobOwnershipLost)
          | some currentLock =>
              if currentLock.fencingToken ≠ expectedToken then (store, .error .jobOwnershipLost)
              else if currentLock.expiresAt > now then (store, .error .jobOwnershipLost)
              else
                let job := { job with state := .pending, assignedWorkerID := "", fencingToken := 0 }
                (({ store with locks := store.locks.delete id } : Store).setJob id job, .ok job)

def validateTransitionArguments (jobID : JobID) (workerID executionID : String) (fencingToken : ℕ)
    (now : ℤ) : Except StoreError Unit :=
  if jobID = "" ∨ workerID = "" ∨ executionID = "" ∨ fencingToken = 0 then .error .invalidJob
  else if now ≤ 0 then .error .invalidJob
  else .ok ()

def validateTransitionStates (expectedState nextState : JobState) : Except StoreError Unit :=
  if expectedState ≠ .scheduled ∧ expectedState ≠ .running then .error .invalidJobState
  else if nextState ≠ .running ∧ nextState ≠ .succeeded ∧ nextState ≠ .failed then .error .invalidJobState
  else if expectedState = .scheduled ∧ nextState ≠ .running then .error .invalidJobState
  else if expectedState = .running ∧ nextState ≠ .succeeded ∧ nextState ≠ .failed then .error .invalidJobState
  else .ok ()

def validateTransitionOwnership (store : Store) (job : Job) (jobID : JobID) (workerID executionID : String)
    (fencingToken : ℕ) (now : ℤ) (expectedState : JobState) : Except StoreError Unit :=
  if job.state ≠ expectedState then .error .invalidJobState
  else if job.assignedWorkerID ≠ workerID then .error .jobOwnershipLost
  else if job.executionID ≠ executionID then .error .jobOwnershipLost
  else if job.fencingToken ≠ fencingToken then .error .jobOwnershipLost
  else
    match store.locks.get jobID with
    | none => .error .jobOwnershipLost
    | some currentLock =>
        if currentLock.ownerID ≠ workerID then .error .jobOwnershipLost
        else if currentLock.fencingToken ≠ fencingToken then .error .jobOwnershipLost
        else if currentLock.expiresAt ≤ now then .error .jobOwnershipLost
        else .ok ()

def transitionJobState (store : Store) (jobID : JobID) (workerID executionID : String) (fencingToken : ℕ)
    (expectedState nextState : JobState) (now : ℤ) : Store × Except StoreError Job :=
  match validateTransitionArguments jobID workerID executionID fencingToken now with
  | .error error => (store, .error error)
  | .ok () =>
      match validateTransitionStates expectedState nextState with
      | .error error => (store, .error error)
      | .ok () =>
          match store.jobs.lookup jobID with
          | none => (store, .error .jobNotFound)
          | some job =>
              match store.validateTransitionOwnership job jobID workerID executionID fencingToken now
                expectedState with
              | .error error => (store, .error error)
              | .ok () =>
                  let job := { job with state := nextState }
                  (store.setJob jobID job, .ok job)

end Store

inductive CommandType where
  | put
  | delete
  | readBarrier
  | lockAcquire
  | lockExpire
  | fencedPut
  | createJob
  | claimJob
  | jobReclaim
  | jobStart
  | jobSucceeded
  | jobFailed
  | unknown (name : String)
deriving DecidableEq, Repr

/-- Fields that a command does not use are zero values. -/
structure Command where
  type : CommandType
  key : String := ""
  value : Bytes := []
  jobID : String := ""
  payload : Bytes := []
  scheduledAt : ℤ := 0
  ownerID : String := ""
  expiresAt : ℤ := 0
  fencingToken : ℕ := 0
  executionID : String := ""
  now : ℤ := 0
deriving DecidableEq, Repr

/-- A log entry with what `DecodeCommand` makes of its data; `none` if that is an error. -/
structure CommandEntry where
  index : ℕ
  command : Option Command
deriving DecidableEq, Repr

inductive ApplyError where
  | decode (index : ℕ)
  | unknownType (name : String)
  | acquireLock (key : String) (error : StoreError)
  | expireLock (key : String) (error : StoreError)
  | fencedPut (key : String) (error : StoreError)
  | createJob (id : JobID) (error : StoreError)
  | claimJob (id : JobID) (error : StoreError)
  | plain (error : StoreError)
deriving DecidableEq, Repr

structure ApplyResult where
  job : Option Job := none
  err : Option ApplyError := none
deriving DecidableEq, Repr

namespace Store

def applyLockAcquire (store : Store) (command : Command) (index : ℕ) : Store × ApplyResult :=
  match store.acquireLock command.key command.ownerID command.expiresAt index with
  | (store, .ok _) => (store, {})
  | (store, .error error) => (store, { err := some (.acquireLock command.key error) })

def applyLockExpire (store : Store) (command : Command) : Store × ApplyResult :=
  match store.expireLock command.key command.fencingToken with
  | (store, .ok _) => (store, {})
  | (store, .error error) => (store, { err := some (.expireLock command.key error) })

def applyFencedPut (store : Store) (command : Command) : Store × ApplyResult :=
  match store.fencedPut command.key command.value command.fencingToken with
  | (store, .ok ()) => (store, {})
  | (store, .error error) =>
      if error = .staleFencingToken ∨ error = .lockNotFound then (store, { err := some (.plain error) })
      else (store, { err := some (.fencedPut command.key error) })

def applyCreateJob (store : Store) (command : Command) (index : ℕ) : Store × ApplyResult :=
  let job : Job := { Job.zero with
    id := command.jobID
    payload := command.payload
    state := .pending
    scheduledAt := command.scheduledAt
    createdIndex := index }
  match store.createJob job with
  | (store, .ok ()) => (store, { job := some job })
  | (store, .error error) => (store, { job := some job, err := some (.createJob command.jobID error) })

def applyClaimJob (store : Store) (command : Command) (index : ℕ) : Store × ApplyResult :=
  match store.claimJob command.jobID command.ownerID command.expiresAt index with
  | (store, .ok job) => (store, { job := some job })
  | (store, .error error) => (store, { err := some (.claimJob command.jobID error) })

/-- A job that comes with an error is the zero value. -/
def jobResult : Store × Except StoreError Job → Store × ApplyResult
  | (store, .ok job) => (store, { job := some job })
  | (store, .error error) => (store, { job := some .zero, err := some (.plain error) })

def applyJobTransitionCommand (store : Store) (command : Command) (fromState toState : JobState) :
    Store × ApplyResult :=
  jobResult (store.transitionJobState command.jobID command.ownerID command.executionID
    command.fencingToken fromState toState command.now)

def applyJobReclaimCommand (store : Store) (command : Command) : Store × ApplyResult :=
  jobResult (store.reclaimExpiredJob command.jobID command.fencingToken command.now)

def applyCommand (store : Store) (command : Command) (index : ℕ) : Store × ApplyResult :=
  match command.type with
  | .put => (store.put command.key command.value, {})
  | .delete => (store.delete command.key, {})
  | .readBarrier => (store, {})
  | .lockAcquire => store.applyLockAcquire command index
  | .lockExpire => store.applyLockExpire command
  | .fencedPut => store.applyFencedPut command
  | .createJob => store.applyCreateJob command index
  | .claimJob => store.applyClaimJob command index
  | .jobStart => store.applyJobTransitionCommand command .scheduled .running
  | .jobSucceeded => store.applyJobTransitionCommand command .running .succeeded
  | .jobFailed => store.applyJobTransitionCommand command .running .failed
  | .jobReclaim => store.applyJobReclaimCommand command
  | .unknown name => (store, { err := some (.unknownType name) })

def apply (store : Store) (entry : CommandEntry) : Store × ApplyResult :=
  match entry.command with
  | none => (store, { err := some (.decode entry.index) })
  | some command => store.applyCommand command entry.index

/-- The store that a sequence of entries leads to. -/
def run (store : Store) (entries : List CommandEntry) : Store :=
  entries.foldl (fun store entry => (store.apply entry).1) store

@[simp] theorem run_nil (store : Store) : store.run [] = store := rfl

@[simp] theorem run_cons (store : Store) (entry : CommandEntry) (entries : List CommandEntry) :
    store.run (entry :: entries) = (store.apply entry).1.run entries := rfl

theorem run_append (store : Store) (first second : List CommandEntry) :
    store.run (first ++ second) = (store.run first).run second :=
  List.foldl_append

/-- Entries numbered from 1, for runs that are written out. -/
def numbered (commands : List Command) : List CommandEntry :=
  commands.zipIdx.map fun (command, position) => ⟨position + 1, some command⟩

end Store

end Raftiq.Kv
