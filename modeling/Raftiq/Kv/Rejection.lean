import Raftiq.Kv.Applier

namespace Raftiq.Kv

namespace Command

/-- What a command must carry so that its application cannot fail for an unexpected reason. -/
def wellFormed (command : Command) : Bool :=
  match command.type with
  | .lockAcquire => command.key ≠ "" ∧ command.ownerID ≠ ""
  | .lockExpire => command.key ≠ "" ∧ command.fencingToken ≠ 0
  | .fencedPut => command.key ≠ ""
  | .unknown _ => false
  | _ => true

end Command

namespace Store

variable {store after : Store} {command : Command} {index : ℕ}

theorem Effect.failed (effect : store.Effect command index after false) : after = store := by
  cases effect with
  | refused => rfl

/-- A command that fails leaves data, locks, tokens, fenced values and jobs as they were. -/
theorem rejected_leaves_no_trace (codec : Codec) (store : Store) (entry : LogEntry)
    (rejected : (store.apply (codec.entry entry)).2.err ≠ none) :
    (store.apply (codec.entry entry)).1 = store := by
  rcases store.apply_cases (codec.entry entry) with ⟨same, _⟩ | ⟨command, _, effect⟩
  · exact same
  · have failed : (store.apply (codec.entry entry)).2.err.isNone = false := by
      simpa [Option.isNone_eq_false_iff, Option.isSome_iff_ne_none] using rejected
    rw [failed] at effect
    exact effect.failed

/-- A worker claims a job whose lock another worker has. -/
theorem refused_claim_leaves_no_trace : ∃ (codec : Codec) (store : Store) (entry : LogEntry),
    store.jobs.lookup "j" ≠ none ∧ (store.apply (codec.entry entry)).2.err ≠ none ∧
      (store.apply (codec.entry entry)).1 = store := by
  let commands : List Command := [{ type := .createJob, jobID := "j" },
    { type := .lockAcquire, key := "j", ownerID := "x" },
    { type := .claimJob, jobID := "j", ownerID := "w", expiresAt := 5 }]
  let codec : Codec := .listed commands
  let store := new.run (numbered (commands.take 2))
  let entry : LogEntry := ⟨3, 1, [0x7b, 2]⟩
  have refused : (store.apply (codec.entry entry)).2.err ≠ none := by decide +kernel
  exact ⟨codec, store, entry, by decide +kernel, refused, rejected_leaves_no_trace codec store entry refused⟩

end Store

namespace ApplyResult

/-- `Run` goes on behind this result. -/
def isExpected (result : ApplyResult) : Bool :=
  result.err.all isExpectedApplyError

end ApplyResult

namespace Store

variable {store : Store} {command : Command} {index : ℕ}

theorem applyLockAcquire_isExpected :
    (store.applyLockAcquire command index).2.isExpected = decide (command.key ≠ "" ∧ command.ownerID ≠ "") := by
  unfold applyLockAcquire acquireLock
  by_cases named : command.key = ""
  · simp [named, ApplyResult.isExpected, isExpectedApplyError, StoreError.isExpected]
  · by_cases owned : command.ownerID = ""
    · simp [named, owned, ApplyResult.isExpected, isExpectedApplyError, StoreError.isExpected]
    · simp [named, owned, ApplyResult.isExpected]

theorem applyLockExpire_isExpected :
    (store.applyLockExpire command).2.isExpected = decide (command.key ≠ "" ∧ command.fencingToken ≠ 0) := by
  unfold applyLockExpire expireLock
  by_cases named : command.key = ""
  · simp [named, ApplyResult.isExpected, isExpectedApplyError, StoreError.isExpected]
  · by_cases valid : command.fencingToken = 0
    · simp [named, valid, ApplyResult.isExpected, isExpectedApplyError, StoreError.isExpected]
    · simp [named, valid, ApplyResult.isExpected]

theorem applyFencedPut_isExpected :
    (store.applyFencedPut command).2.isExpected = decide (command.key ≠ "") := by
  unfold applyFencedPut fencedPut
  by_cases named : command.key = ""
  · simp [named, ApplyResult.isExpected, isExpectedApplyError, StoreError.isExpected]
  · by_cases valid : command.fencingToken = 0
    · simp [named, valid, ApplyResult.isExpected, isExpectedApplyError, StoreError.isExpected]
    · cases held : store.locks.get command.key with
      | none => simp [named, valid, ApplyResult.isExpected, isExpectedApplyError, StoreError.isExpected]
      | some lock =>
          by_cases token : lock.fencingToken = command.fencingToken
          · simp [named, valid, token, ApplyResult.isExpected]
          · simp [named, valid, token, ApplyResult.isExpected, isExpectedApplyError, StoreError.isExpected]

theorem applyCreateJob_isExpected : (store.applyCreateJob command index).2.isExpected = true := by
  unfold applyCreateJob createJob
  by_cases named : command.jobID = ""
  · simp [named, ApplyResult.isExpected, isExpectedApplyError, StoreError.isExpected]
  · cases present : store.jobs.lookup command.jobID with
    | none => simp [named, present, ApplyResult.isExpected]
    | some job => simp [named, present, ApplyResult.isExpected, isExpectedApplyError, StoreError.isExpected]

theorem validateClaimArguments_expected {id : JobID} {workerID : String} {expiresAt : ℤ} {error : StoreError}
    (refused : validateClaimArguments id workerID expiresAt = .error error) : error.isExpected := by
  unfold validateClaimArguments at refused
  split at refused
  · cases refused
    rfl
  · split at refused
    · cases refused
      rfl
    · split at refused
      · cases refused
        rfl
      · cases refused

theorem handleExistingClaim_expected {id : JobID} {workerID : String} {job : Job} {error : StoreError}
    (refused : handleExistingClaim id workerID job = some (.error error)) : error.isExpected := by
  unfold handleExistingClaim at refused
  split at refused
  · cases refused
  · split at refused
    · cases refused
    · cases refused
      rfl
  all_goals
    cases refused
    rfl

theorem claimJob_expected {id : JobID} {workerID : String} {expiresAt : ℤ} {grantIndex : ℕ} {error : StoreError}
    (refused : (store.claimJob id workerID expiresAt grantIndex).2 = .error error) : error.isExpected := by
  unfold claimJob at refused
  split at refused
  · rename_i invalid
    cases refused
    exact validateClaimArguments_expected invalid
  · split at refused
    · cases refused
      rfl
    · split at refused
      · rename_i existing
        dsimp only at refused
        subst refused
        exact handleExistingClaim_expected existing
      · dsimp only at refused
        split at refused
        · unfold handleFailedClaim at refused
          split at refused
          · cases refused
          · cases refused
            rfl
        · cases refused

theorem validateTransitionArguments_expected {jobID : JobID} {workerID executionID : String} {fencingToken : ℕ}
    {now : ℤ} {error : StoreError}
    (refused : validateTransitionArguments jobID workerID executionID fencingToken now = .error error) :
    error.isExpected := by
  unfold validateTransitionArguments at refused
  split at refused
  · cases refused
    rfl
  · split at refused
    · cases refused
      rfl
    · cases refused

theorem validateTransitionStates_expected {fromState toState : JobState} {error : StoreError}
    (refused : validateTransitionStates fromState toState = .error error) : error.isExpected := by
  have only : error = .invalidJobState := by
    unfold validateTransitionStates at refused
    grind
  rw [only]
  rfl

theorem validateTransitionOwnership_expected {job : Job} {jobID : JobID} {workerID executionID : String}
    {fencingToken : ℕ} {now : ℤ} {expectedState : JobState} {error : StoreError}
    (refused : store.validateTransitionOwnership job jobID workerID executionID fencingToken now expectedState =
      .error error) : error.isExpected := by
  have only : error = .invalidJobState ∨ error = .jobOwnershipLost := by
    unfold validateTransitionOwnership at refused
    grind
  rcases only with rfl | rfl
  · rfl
  · rfl

theorem transitionJobState_expected {jobID : JobID} {workerID executionID : String} {fencingToken : ℕ}
    {fromState toState : JobState} {now : ℤ} {error : StoreError}
    (refused : (store.transitionJobState jobID workerID executionID fencingToken fromState toState now).2 =
      .error error) : error.isExpected := by
  unfold transitionJobState at refused
  split at refused
  · rename_i invalid
    cases refused
    exact validateTransitionArguments_expected invalid
  · split at refused
    · rename_i invalid
      cases refused
      exact validateTransitionStates_expected invalid
    · split at refused
      · cases refused
        rfl
      · split at refused
        · rename_i invalid
          cases refused
          exact validateTransitionOwnership_expected invalid
        · cases refused

theorem reclaimExpiredJob_expected {id : JobID} {expectedToken : ℕ} {now : ℤ} {error : StoreError}
    (refused : (store.reclaimExpiredJob id expectedToken now).2 = .error error) : error.isExpected := by
  have only : error = .invalidJob ∨ error = .jobNotFound ∨ error = .invalidJobState ∨
      error = .jobOwnershipLost := by
    unfold reclaimExpiredJob at refused
    grind
  rcases only with rfl | rfl | rfl | rfl
  · rfl
  · rfl
  · rfl
  · rfl

theorem applyClaimJob_isExpected : (store.applyClaimJob command index).2.isExpected = true := by
  unfold applyClaimJob
  cases claimed : store.claimJob command.jobID command.ownerID command.expiresAt index with
  | mk after result =>
      cases result with
      | ok job => rfl
      | error error => exact claimJob_expected (congrArg Prod.snd claimed)

theorem jobResult_isExpected {outcome : Store × Except StoreError Job}
    (expected : ∀ error, outcome.2 = .error error → error.isExpected) :
    (jobResult outcome).2.isExpected = true := by
  obtain ⟨after, result⟩ := outcome
  cases result with
  | ok job => rfl
  | error error => exact expected error rfl

/-- Only the command decides whether its error is an expected one; the store does not matter. -/
theorem applyCommand_isExpected (store : Store) (command : Command) (index : ℕ) :
    (store.applyCommand command index).2.isExpected = command.wellFormed := by
  unfold applyCommand Command.wellFormed
  cases command.type with
  | put | delete | readBarrier | unknown name => rfl
  | lockAcquire => exact applyLockAcquire_isExpected
  | lockExpire => exact applyLockExpire_isExpected
  | fencedPut => exact applyFencedPut_isExpected
  | createJob => exact applyCreateJob_isExpected
  | claimJob => exact applyClaimJob_isExpected
  | jobStart | jobSucceeded | jobFailed => exact jobResult_isExpected fun _ => transitionJobState_expected
  | jobReclaim => exact jobResult_isExpected fun _ => reclaimExpiredJob_expected

/-- `applyCommand` with the panic of `jobTransitionStates`, which is nothing here. -/
def applyCommandOrPanic (store : Store) (command : Command) (index : ℕ) : Option (Store × ApplyResult) :=
  match command.type with
  | .jobStart | .jobSucceeded | .jobFailed =>
      match command.type.transition with
      | none => none
      | some (fromState, toState) => some (store.applyJobTransitionCommand command fromState toState)
  | _ => some (store.applyCommand command index)

theorem applyCommandOrPanic_eq (store : Store) (command : Command) (index : ℕ) :
    store.applyCommandOrPanic command index = some (store.applyCommand command index) := by
  unfold applyCommandOrPanic applyCommand
  cases command.type with
  | _ => rfl

end Store

end Raftiq.Kv
