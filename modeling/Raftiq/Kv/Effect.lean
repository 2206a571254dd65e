import Raftiq.Kv.Store

namespace Raftiq.Kv

theorem lookup_insert {α : Type} (map : GoMap α) (key other : String) (value : α) :
    (map.insert key value).lookup other = if other = key then some value else map.lookup other := by
  split
  · rename_i same
    subst same
    exact map.lookup_insert
  · rename_i different
    exact map.lookup_insert_of_ne different

theorem lookup_erase {α : Type} (map : GoMap α) (key other : String) :
    (map.erase key).lookup other = if other = key then none else map.lookup other := by
  split
  · rename_i same
    subst same
    exact Finmap.lookup_erase other map
  · rename_i different
    exact Finmap.lookup_erase_ne different

namespace LockState

/-- The lock that a free key gets. -/
def newLock (state : LockState) (key ownerID : String) (expiresAt : ℤ) (grantIndex : ℕ) : Lock where
  key := key
  ownerID := ownerID
  fencingToken := (state.nextToken + 1) % 2 ^ 64
  expiresAt := expiresAt
  grantIndex := grantIndex

def grant (state : LockState) (lock : Lock) : LockState where
  locks := state.locks.insert lock.key lock
  nextToken := lock.fencingToken

variable {state : LockState} {key ownerID : String} {expiresAt : ℤ} {grantIndex : ℕ} {lock : Lock}

theorem acquire_held (held : state.get key = some lock) :
    state.acquire key ownerID expiresAt grantIndex = (state, lock, false) := by
  unfold acquire
  rw [held]

theorem acquire_free (free : state.get key = none) :
    state.acquire key ownerID expiresAt grantIndex =
      (state.grant (state.newLock key ownerID expiresAt grantIndex),
        state.newLock key ownerID expiresAt grantIndex, true) := by
  unfold acquire
  rw [free]
  rfl

theorem get_grant (state : LockState) (lock : Lock) (other : String) :
    (state.grant lock).get other = if other = lock.key then some lock else state.get other :=
  lookup_insert _ _ _ _

theorem get_delete (state : LockState) (key other : String) :
    (state.delete key).get other = if other = key then none else state.get other :=
  lookup_erase _ _ _

end LockState

namespace CommandType

/-- The states that a job command moves a job between. -/
def transition : CommandType → Option (JobState × JobState)
  | .jobStart => some (.scheduled, .running)
  | .jobSucceeded => some (.running, .succeeded)
  | .jobFailed => some (.running, .failed)
  | _ => none

/-- The commands that may succeed without any effect. -/
def mayIdle : CommandType → Bool
  | .delete | .readBarrier | .lockAcquire | .lockExpire | .claimJob => true
  | _ => false

end CommandType

namespace Command

def newJob (command : Command) (index : ℕ) : Job :=
  { Job.zero with
    id := command.jobID
    payload := command.payload
    state := .pending
    scheduledAt := command.scheduledAt
    createdIndex := index }

end Command

namespace Job

/-- A job that a worker has claimed under a lock. -/
def claimedUnder (job : Job) (lock : Lock) : Job :=
  { job with state := .scheduled, assignedWorkerID := lock.ownerID, fencingToken := lock.fencingToken }

/-- The same with a new attempt. -/
def attempted (job : Job) : Job :=
  { job with
    attempt := (job.attempt + 1) % 2 ^ 32
    executionID := Store.executionID job.id ((job.attempt + 1) % 2 ^ 32) }

def released (job : Job) : Job :=
  { job with state := .pending, assignedWorkerID := "", fencingToken := 0 }

def active (job : Job) : Bool :=
  job.state = .scheduled ∨ job.state = .running

end Job

namespace Store

/-- A worker holds the lock of its job. -/
structure Holds (store : Store) (command : Command) (job : Job) (lock : Lock) : Prop where
  found : store.jobs.lookup command.jobID = some job
  held : store.locks.get command.jobID = some lock
  jobToken : job.fencingToken = command.fencingToken
  lockToken : lock.fencingToken = command.fencingToken
  valid : command.fencingToken ≠ 0

/-- Everything that a command can do to the store, and whether it succeeds. -/
inductive Effect (store : Store) (command : Command) (index : ℕ) : Store → Bool → Prop where
  | refused : Effect store command index store false
  | idle (kind : command.type.mayIdle) : Effect store command index store true
  | data (kind : command.type = .put ∨ command.type = .delete) (map : GoMap Bytes) :
      Effect store command index { store with data := map } true
  | fence (kind : command.type = .fencedPut) {lock : Lock} (held : store.locks.get command.key = some lock)
      (token : lock.fencingToken = command.fencingToken) (valid : command.fencingToken ≠ 0) :
      Effect store command index
        { store with fenced := store.fenced.insert command.key ⟨command.value, command.fencingToken⟩ } true
  | grant (kind : command.type = .lockAcquire) (named : command.key ≠ "") (owned : command.ownerID ≠ "")
      (free : store.locks.get command.key = none) :
      Effect store command index
        { store with
          locks := store.locks.grant
            (store.locks.newLock command.key command.ownerID command.expiresAt index) } true
  | expire (kind : command.type = .lockExpire) {lock : Lock} (held : store.locks.get command.key = some lock)
      (token : lock.fencingToken = command.fencingToken) (valid : command.fencingToken ≠ 0) :
      Effect store command index { store with locks := store.locks.delete command.key } true
  | create (kind : command.type = .createJob) (named : command.jobID ≠ "")
      (fresh : store.jobs.lookup command.jobID = none) :
      Effect store command index (store.setJob command.jobID (command.newJob index)) true
  | claim (kind : command.type = .claimJob) (named : command.jobID ≠ "") (owned : command.ownerID ≠ "")
      {job : Job} (found : store.jobs.lookup command.jobID = some job) (pending : job.state = .pending)
      (free : store.locks.get command.jobID = none) {lock : Lock}
      (granted : lock = store.locks.newLock command.jobID command.ownerID command.expiresAt index) :
      Effect store command index
        (({ store with locks := store.locks.grant lock } : Store).setJob command.jobID
          (job.claimedUnder lock).attempted) true
  | reuse (kind : command.type = .claimJob) {job : Job} (found : store.jobs.lookup command.jobID = some job)
      (pending : job.state = .pending) {lock : Lock} (held : store.locks.get command.jobID = some lock)
      (owned : lock.ownerID = command.ownerID) :
      Effect store command index (store.setJob command.jobID (job.claimedUnder lock)) true
  | transition {fromState toState : JobState} (kind : command.type.transition = some (fromState, toState))
      {job : Job} {lock : Lock} (holds : store.Holds command job lock) (state : job.state = fromState) :
      Effect store command index (store.setJob command.jobID { job with state := toState }) true
  | reclaim (kind : command.type = .jobReclaim) {job : Job} {lock : Lock} (holds : store.Holds command job lock)
      (active : job.active) :
      Effect store command index
        (({ store with locks := store.locks.delete command.jobID } : Store).setJob command.jobID job.released) true

/-- What a command leaves behind is one of its effects. -/
def Performs (store : Store) (command : Command) (index : ℕ) (outcome : Store × ApplyResult) : Prop :=
  store.Effect command index outcome.1 outcome.2.err.isNone

variable {store : Store} {command : Command} {index : ℕ}

theorem delete_performs (kind : command.type = .delete) :
    store.Performs command index (store.delete command.key, {}) := by
  unfold delete
  split
  · exact .idle (by rw [kind]; rfl)
  · exact .data (Or.inr kind) _

theorem applyLockAcquire_performs (kind : command.type = .lockAcquire) :
    store.Performs command index (store.applyLockAcquire command index) := by
  unfold applyLockAcquire acquireLock
  by_cases named : command.key = ""
  · rw [if_pos named]
    exact .refused
  · rw [if_neg named]
    by_cases owned : command.ownerID = ""
    · rw [if_pos owned]
      exact .refused
    · rw [if_neg owned]
      cases held : store.locks.get command.key with
      | some lock =>
          rw [LockState.acquire_held held]
          exact .idle (by rw [kind]; rfl)
      | none =>
          rw [LockState.acquire_free held]
          exact .grant kind named owned held

theorem applyLockExpire_performs (kind : command.type = .lockExpire) :
    store.Performs command index (store.applyLockExpire command) := by
  unfold applyLockExpire expireLock
  by_cases named : command.key = ""
  · rw [if_pos named]
    exact .refused
  · rw [if_neg named]
    by_cases valid : command.fencingToken = 0
    · rw [if_pos valid]
      exact .refused
    · rw [if_neg valid]
      unfold LockState.expire
      cases held : store.locks.get command.key with
      | none => exact .idle (by rw [kind]; rfl)
      | some lock =>
          by_cases token : lock.fencingToken = command.fencingToken
          · simp only [token, ne_eq, not_true_eq_false, ↓reduceIte]
            exact .expire kind held token valid
          · simp only [token, ne_eq, not_false_eq_true, ↓reduceIte]
            exact .idle (by rw [kind]; rfl)

theorem applyFencedPut_performs (kind : command.type = .fencedPut) :
    store.Performs command index (store.applyFencedPut command) := by
  have refuses : ∀ error, store.Performs command index
      (if error = .staleFencingToken ∨ error = .lockNotFound then (store, { err := some (.plain error) })
        else (store, { err := some (.fencedPut command.key error) })) := by
    intro error
    split
    · exact .refused
    · exact .refused
  unfold applyFencedPut fencedPut
  by_cases named : command.key = ""
  · rw [if_pos named]
    exact refuses _
  · rw [if_neg named]
    by_cases valid : command.fencingToken = 0
    · rw [if_pos valid]
      exact refuses _
    · rw [if_neg valid]
      cases held : store.locks.get command.key with
      | none => exact refuses _
      | some lock =>
          by_cases token : lock.fencingToken = command.fencingToken
          · simp only [token, ne_eq, not_true_eq_false, ↓reduceIte]
            exact .fence kind held token valid
          · dsimp only
            rw [if_pos token]
            exact refuses _

theorem applyCreateJob_performs (kind : command.type = .createJob) :
    store.Performs command index (store.applyCreateJob command index) := by
  unfold applyCreateJob createJob
  by_cases named : command.jobID = ""
  · simp only [named, ↓reduceIte]
    exact .refused
  · simp only [named, ↓reduceIte, reduceCtorEq]
    cases fresh : store.jobs.lookup command.jobID with
    | some job => exact .refused
    | none => exact .create kind named fresh

theorem validateClaimArguments_ok {id : JobID} {workerID : String} {expiresAt : ℤ}
    (validated : validateClaimArguments id workerID expiresAt = .ok ()) : id ≠ "" ∧ workerID ≠ "" := by
  unfold validateClaimArguments at validated
  split at validated
  · cases validated
  · rename_i named
    split at validated
    · cases validated
    · rename_i owned
      exact ⟨named, owned⟩

theorem handleExistingClaim_none {id : JobID} {workerID : String} {job : Job}
    (goesOn : handleExistingClaim id workerID job = none) : job.state = .pending := by
  unfold handleExistingClaim at goesOn
  cases state : job.state with
  | pending => rfl
  | scheduled =>
      rw [state] at goesOn
      dsimp only at goesOn
      split at goesOn
      · cases goesOn
      · cases goesOn
  | running | succeeded | failed | unknown name =>
      rw [state] at goesOn
      cases goesOn

theorem applyClaimJob_performs (kind : command.type = .claimJob) :
    store.Performs command index (store.applyClaimJob command index) := by
  unfold applyClaimJob claimJob
  cases validated : validateClaimArguments command.jobID command.ownerID command.expiresAt with
  | error error => exact .refused
  | ok _ =>
      obtain ⟨named, owned⟩ := validateClaimArguments_ok validated
      cases found : store.jobs.lookup command.jobID with
      | none => exact .refused
      | some job =>
          dsimp only
          cases existing : handleExistingClaim command.jobID command.ownerID job with
          | some result =>
              cases result with
              | error error => exact .refused
              | ok job => exact .idle (by rw [kind]; rfl)
          | none =>
              have pending := handleExistingClaim_none existing
              cases held : store.locks.get command.jobID with
              | some lock =>
                  rw [LockState.acquire_held held]
                  unfold handleFailedClaim
                  by_cases own : lock.ownerID = command.ownerID
                  · simp only [own, Bool.false_eq_true, not_false_eq_true, ↓reduceIte]
                    have reused : store.Effect command index _ true := .reuse kind found pending held own
                    unfold Job.claimedUnder at reused
                    rw [own] at reused
                    exact reused
                  · simp only [own, Bool.false_eq_true, not_false_eq_true, ↓reduceIte]
                    exact .refused
              | none =>
                  rw [LockState.acquire_free held]
                  exact .claim kind named owned found pending held rfl

theorem validateTransitionArguments_ok {jobID : JobID} {workerID executionID : String} {fencingToken : ℕ}
    {now : ℤ} (validated : validateTransitionArguments jobID workerID executionID fencingToken now = .ok ()) :
    fencingToken ≠ 0 := by
  unfold validateTransitionArguments at validated
  split at validated
  · cases validated
  · rename_i arguments
    simp only [not_or] at arguments
    exact arguments.2.2.2

theorem validateTransitionOwnership_ok {job : Job} {jobID : JobID} {workerID executionID : String}
    {fencingToken : ℕ} {now : ℤ} {expectedState : JobState}
    (validated : store.validateTransitionOwnership job jobID workerID executionID fencingToken now
      expectedState = .ok ()) :
    job.state = expectedState ∧ job.fencingToken = fencingToken ∧
      ∃ lock, store.locks.get jobID = some lock ∧ lock.fencingToken = fencingToken := by
  unfold validateTransitionOwnership at validated
  split at validated
  · cases validated
  · rename_i state
    split at validated
    · cases validated
    · split at validated
      · cases validated
      · split at validated
        · cases validated
        · rename_i token
          split at validated
          · cases validated
          · rename_i lock held
            split at validated
            · cases validated
            · split at validated
              · cases validated
              · rename_i lockToken
                exact ⟨not_not.mp state, not_not.mp token, lock, held, not_not.mp lockToken⟩

theorem applyJobTransitionCommand_performs {fromState toState : JobState}
    (kind : command.type.transition = some (fromState, toState)) :
    store.Performs command index (store.applyJobTransitionCommand command fromState toState) := by
  unfold applyJobTransitionCommand transitionJobState
  cases arguments : validateTransitionArguments command.jobID command.ownerID command.executionID
      command.fencingToken command.now with
  | error error => exact .refused
  | ok _ =>
      have valid := validateTransitionArguments_ok arguments
      cases states : validateTransitionStates fromState toState with
      | error error => exact .refused
      | ok _ =>
          cases found : store.jobs.lookup command.jobID with
          | none => exact .refused
          | some job =>
              dsimp only
              cases owned : store.validateTransitionOwnership job command.jobID command.ownerID
                  command.executionID command.fencingToken command.now fromState with
              | error error => exact .refused
              | ok _ =>
                  obtain ⟨state, token, lock, held, lockToken⟩ := validateTransitionOwnership_ok owned
                  exact .transition kind ⟨found, held, token, lockToken, valid⟩ state

theorem applyJobReclaimCommand_performs (kind : command.type = .jobReclaim) :
    store.Performs command index (store.applyJobReclaimCommand command) := by
  unfold applyJobReclaimCommand reclaimExpiredJob
  split
  · exact .refused
  · rename_i arguments
    simp only [not_or] at arguments
    cases found : store.jobs.lookup command.jobID with
    | none => exact .refused
    | some job =>
        dsimp only
        split
        · exact .refused
        · rename_i state
          split
          · exact .refused
          · rename_i token
            cases held : store.locks.get command.jobID with
            | none => exact .refused
            | some lock =>
                dsimp only
                split
                · exact .refused
                · rename_i lockToken
                  split
                  · exact .refused
                  · have active : job.active := by
                      simp only [Job.active, decide_eq_true_eq]
                      tauto
                    exact .reclaim kind
                      ⟨found, held, not_not.mp token, not_not.mp lockToken, arguments.2.1⟩ active

theorem applyCommand_performs (store : Store) (command : Command) (index : ℕ) :
    store.Performs command index (store.applyCommand command index) := by
  unfold applyCommand
  cases kind : command.type with
  | put => exact .data (Or.inl kind) _
  | delete => exact delete_performs kind
  | readBarrier => exact .idle (by rw [kind]; rfl)
  | lockAcquire => exact applyLockAcquire_performs kind
  | lockExpire => exact applyLockExpire_performs kind
  | fencedPut => exact applyFencedPut_performs kind
  | createJob => exact applyCreateJob_performs kind
  | claimJob => exact applyClaimJob_performs kind
  | jobReclaim => exact applyJobReclaimCommand_performs kind
  | jobStart | jobSucceeded | jobFailed => exact applyJobTransitionCommand_performs (by rw [kind]; rfl)
  | unknown name => exact .refused

/-- An entry either does nothing and fails, or has an effect of its command. -/
theorem apply_cases (store : Store) (entry : CommandEntry) :
    ((store.apply entry).1 = store ∧ (store.apply entry).2.err ≠ none) ∨
      ∃ command, entry.command = some command ∧
        store.Effect command entry.index (store.apply entry).1 (store.apply entry).2.err.isNone := by
  unfold apply
  cases entry.command with
  | none => exact Or.inl ⟨rfl, by simp⟩
  | some command => exact Or.inr ⟨command, rfl, store.applyCommand_performs command entry.index⟩

end Store

end Raftiq.Kv
