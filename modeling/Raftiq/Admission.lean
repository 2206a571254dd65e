import Raftiq.Service
import Raftiq.Kv.Rejection
import Raftiq.Kv.Lifecycle

namespace Raftiq

open Kv

/-- `time.Time.Add` and then `UnixNano`, which is an `int64`. -/
def unixNanoAfter (now duration : ℤ) : ℤ :=
  Int.bmod (now + duration) (2 ^ 64)

inductive AcquireLockError where
  | invalidKey
  | invalidOwner
  | leaseNotPositive
deriving DecidableEq, Repr

namespace Server

/-- What `AcquireLock` proposes. -/
def acquireLock (key ownerID : String) (leaseMillis now : ℤ) : Except AcquireLockError Command :=
  if key = "" then .error .invalidKey
  else if ownerID = "" then .error .invalidOwner
  else if leaseMillis ≤ 0 then .error .leaseNotPositive
  else
    .ok { type := .lockAcquire, key := key, ownerID := ownerID,
          expiresAt := unixNanoAfter now (Int.bmod (leaseMillis * 10 ^ 6) (2 ^ 64)) }

def proposeLockExpiration (key : String) (token : ℕ) : Command :=
  { type := .lockExpire, key := key, fencingToken := token }

/-- The expirations in progress, and whether this one is new. -/
def markExpirationPending (pendingExpiration : GoMap ℕ) (key : String) (token : ℕ) : GoMap ℕ × Bool :=
  if pendingExpiration.lookup key = some token then (pendingExpiration, false)
  else (pendingExpiration.insert key token, true)

/-- The loop of `expireLocks` over the locks of the store, with what it proposes. -/
def expireLocks (now : ℤ) (pendingExpiration : GoMap ℕ) : List Lock → GoMap ℕ × List Command
  | [] => (pendingExpiration, [])
  | current :: rest =>
      if current.expiresAt ≤ 0 ∨ current.expiresAt > now then expireLocks now pendingExpiration rest
      else
        match markExpirationPending pendingExpiration current.key current.fencingToken with
        | (_, false) => expireLocks now pendingExpiration rest
        | (pendingExpiration, true) =>
            let (pendingExpiration, proposed) := expireLocks now pendingExpiration rest
            (pendingExpiration, proposeLockExpiration current.key current.fencingToken :: proposed)

end Server

namespace Scheduler

/-- What `scheduleJob` proposes for the worker that it has selected. -/
def scheduleJob (job : Job) (workerID : String) (now lease : ℤ) : Command :=
  { type := .claimJob, jobID := job.id, ownerID := workerID, expiresAt := unixNanoAfter now lease }

/-- What `reclaimExpiredJob` proposes; a job without a token is skipped. -/
def reclaimExpiredJob (job : Job) (now : ℤ) : Option Command :=
  if job.fencingToken = 0 then none
  else some { type := .jobReclaim, jobID := job.id, fencingToken := job.fencingToken, now := now }

end Scheduler

namespace Worker

/-- The three transitions that a worker asks for. -/
inductive Transition where
  | start
  | succeeded
  | failed
deriving DecidableEq, Repr

def Transition.commandType : Transition → CommandType
  | .start => .jobStart
  | .succeeded => .jobSucceeded
  | .failed => .jobFailed

def transitionJob (workerID : String) (job : Job) (transition : Transition) (now : ℤ) : Command :=
  { type := transition.commandType, jobID := job.id, ownerID := workerID, executionID := job.executionID,
    fencingToken := job.fencingToken, now := now }

end Worker

namespace Kv.Store

/-- `ListLocks` in the order in which the map is iterated. -/
def listLocks (store : Store) (order : List String) : List Lock :=
  order.filterMap store.locks.get

/-- The commands that a server, its scheduler and its workers can propose while they see a store. -/
inductive Proposes (store : Store) : Command → Prop where
  | request {request : Request} (valid : request.valid) : Proposes store request.command
  | acquireLock {key ownerID : String} {leaseMillis now : ℤ} {command : Command}
      (accepted : Server.acquireLock key ownerID leaseMillis now = .ok command) : Proposes store command
  | expireLocks {now : ℤ} {pendingExpiration : GoMap ℕ} {order : List String} {command : Command}
      (proposed : command ∈ (Server.expireLocks now pendingExpiration (store.listLocks order)).2) :
      Proposes store command
  | scheduleJob (job : Job) (workerID : String) (now lease : ℤ) :
      Proposes store (Scheduler.scheduleJob job workerID now lease)
  | reclaimExpiredJob {job : Job} {now : ℤ} {command : Command}
      (proposed : Scheduler.reclaimExpiredJob job now = some command) : Proposes store command
  | transitionJob (workerID : String) (job : Job) (transition : Worker.Transition) (now : ℤ) :
      Proposes store (Worker.transitionJob workerID job transition now)

end Kv.Store

/-- Every expiration is of a lock that has run out. -/
theorem Server.expireLocks_mem {now : ℤ} {pendingExpiration : GoMap ℕ} {locks : List Lock} {command : Command}
    (proposed : command ∈ (expireLocks now pendingExpiration locks).2) :
    ∃ lock ∈ locks, command = proposeLockExpiration lock.key lock.fencingToken ∧
      0 < lock.expiresAt ∧ lock.expiresAt ≤ now := by
  induction locks generalizing pendingExpiration with
  | nil => simp [expireLocks] at proposed
  | cons current rest ih =>
      have later : ∀ {pending : GoMap ℕ}, command ∈ (expireLocks now pending rest).2 →
          ∃ lock ∈ current :: rest, command = proposeLockExpiration lock.key lock.fencingToken ∧
            0 < lock.expiresAt ∧ lock.expiresAt ≤ now := by
        intro pending member
        obtain ⟨lock, listed, found⟩ := ih member
        exact ⟨lock, List.mem_cons_of_mem _ listed, found⟩
      unfold expireLocks at proposed
      split at proposed
      · exact later proposed
      · rename_i due
        split at proposed
        · exact later proposed
        · rcases List.mem_cons.mp proposed with own | member
          · exact ⟨current, List.mem_cons_self, own, by omega, by omega⟩
          · exact later member

namespace Kv.Store

variable {store : Store} {command : Command} {index : ℕ}

/-- Locks are under their own key. -/
def Named (store : Store) : Prop :=
  ∀ key lock, store.locks.get key = some lock → lock.key = key ∧ key ≠ ""

theorem named_new : new.Named := by
  intro key lock held
  simp [new, LockState.new, LockState.get] at held

theorem Named.grant (named : store.Named) {lock : Lock} (valid : lock.key ≠ "") :
    ({ store with locks := store.locks.grant lock } : Store).Named := by
  intro key found held
  rw [LockState.get_grant] at held
  split at held
  · rename_i own
    cases held
    exact ⟨own.symm, own ▸ valid⟩
  · exact named key found held

theorem Named.apply (named : store.Named) (entry : CommandEntry) : (store.apply entry).1.Named := by
  rcases store.apply_cases entry with ⟨same, _⟩ | ⟨command, _, effect⟩
  · rw [same]
    exact named
  · generalize (store.apply entry).2.err.isNone = succeeded at effect
    generalize (store.apply entry).1 = after at effect
    cases effect with
    | refused | idle | data | fence | create | reuse | transition => exact named
    | grant kind valid owned free => exact named.grant valid
    | claim kind valid owned found pending free granted => exact named.grant (by rw [granted]; exact valid)
    | expire | reclaim => exact fun key lock held => named key lock (get_of_delete held)

theorem named_run (entries : List CommandEntry) (named : store.Named) : (store.run entries).Named := by
  induction entries generalizing store with
  | nil => exact named
  | cons entry rest ih => exact ih (named.apply entry)

/-- No token is 0 before the counter wraps around. -/
theorem Enough.tokens_valid {entries : List CommandEntry} (enough : store.Enough entries)
    (valid : ∀ key lock, store.locks.get key = some lock → lock.fencingToken ≠ 0) :
    ∀ key lock, (store.run entries).locks.get key = some lock → lock.fencingToken ≠ 0 := by
  induction entries generalizing store with
  | nil => exact valid
  | cons entry rest ih =>
      refine ih enough.tail fun key lock held => ?_
      rcases enough.lock held with earlier | ⟨new, _⟩
      · exact valid key lock earlier
      · exact Nat.ne_zero_of_lt new

theorem Proposes.wellFormed (proposed : store.Proposes command) (named : store.Named)
    (valid : ∀ key lock, store.locks.get key = some lock → lock.fencingToken ≠ 0) : command.wellFormed := by
  cases proposed with
  | request accepted =>
      rename_i request
      cases request with
      | put | delete | createJob => rfl
      | fencedPut key value token =>
          simp only [Request.valid, decide_eq_true_eq] at accepted
          simp [Request.command, Command.wellFormed, accepted.1]
  | acquireLock accepted =>
      unfold Server.acquireLock at accepted
      split at accepted
      · cases accepted
      · rename_i key
        split at accepted
        · cases accepted
        · rename_i owner
          split at accepted
          · cases accepted
          · cases accepted
            simp [Command.wellFormed, key, owner]
  | expireLocks proposed =>
      obtain ⟨lock, listed, rfl, _⟩ := Server.expireLocks_mem proposed
      obtain ⟨key, _, held⟩ := List.mem_filterMap.mp listed
      obtain ⟨same, nonempty⟩ := named key lock held
      simp [Server.proposeLockExpiration, Command.wellFormed, same, nonempty, valid key lock held]
  | scheduleJob => rfl
  | reclaimExpiredJob proposed =>
      unfold Scheduler.reclaimExpiredJob at proposed
      split at proposed
      · cases proposed
      · cases proposed
        rfl
  | transitionJob workerID job transition now =>
      cases transition with
      | start | succeeded | failed => rfl

/-- As long as fewer than 2^64 locks have been granted, whatever is proposed on behalf of a client is applied
without a panic, and fails at most with an error that the applier expects. -/
theorem proposals_never_halt_applier {entries : List CommandEntry} (few : (new.grants entries).length < 2 ^ 64)
    (proposed : (new.run entries).Proposes command) (later : List CommandEntry) {codec : Codec}
    (roundTrips : codec.decodeCommand (codec.encodeCommand command) = some command) (index term : ℕ) :
    (∀ error, ((new.run (entries ++ later)).apply
        (codec.entry ⟨index, term, codec.encodeCommand command⟩)).2.err = some error →
          isExpectedApplyError error) ∧
      (new.run (entries ++ later)).applyCommandOrPanic command index =
        some ((new.run (entries ++ later)).apply (codec.entry ⟨index, term, codec.encodeCommand command⟩)) := by
  have enough : new.Enough entries := by
    simpa [Enough, new, LockState.new] using few
  have empty : ∀ key lock, ¬ new.locks.get key = some lock := by
    simp [new, LockState.new, LockState.get]
  have named : (new.run entries).Named := named_run entries named_new
  have valid := enough.tokens_valid fun key lock held => absurd held (empty key lock)
  have applied : (new.run (entries ++ later)).apply (codec.entry ⟨index, term, codec.encodeCommand command⟩) =
      (new.run (entries ++ later)).applyCommand command index := by
    simp only [apply, Codec.entry, roundTrips]
  have expected := applyCommand_isExpected (new.run (entries ++ later)) command index
  rw [proposed.wellFormed named valid, ApplyResult.isExpected, Option.all_eq_true] at expected
  rw [applied]
  exact ⟨expected, applyCommandOrPanic_eq _ _ _⟩

/-- A lock runs out and its expiration is proposed, but it is applied when the lock is gone. -/
theorem late_expiration_is_expected : ∃ (codec : Codec) (entries later : List CommandEntry) (command : Command),
    (new.run entries).Proposes command ∧ command.type = .lockExpire ∧
      codec.decodeCommand (codec.encodeCommand command) = some command ∧
      ∀ error, ((new.run (entries ++ later)).apply (codec.entry ⟨3, 1, codec.encodeCommand command⟩)).2.err =
        some error → isExpectedApplyError error := by
  let acquire : Command := { type := .lockAcquire, key := "k", ownerID := "x", expiresAt := 5 }
  let entries := numbered [acquire]
  let later : List CommandEntry := [⟨2, some { type := .lockExpire, key := "k", fencingToken := 1 }⟩]
  let codec : Codec := .listed [acquire, Server.proposeLockExpiration "k" 1]
  have proposed : (new.run entries).Proposes (Server.proposeLockExpiration "k" 1) :=
    @Proposes.expireLocks _ 7 ∅ ["k"] _ (by decide +kernel)
  have roundTrips : codec.decodeCommand (codec.encodeCommand (Server.proposeLockExpiration "k" 1)) =
      some (Server.proposeLockExpiration "k" 1) := by decide +kernel
  have goesOn := proposals_never_halt_applier (by decide +kernel) proposed later roundTrips 3 1
  exact ⟨codec, entries, later, _, proposed, rfl, roundTrips, goesOn.1⟩

/-- The lock that is granted 2^64th has the token 0, and its expiration stops the applier.  The indexes have
wrapped around by then, and the expiration has the index 2^65, that is 0. -/
theorem wrapped_token_halts_applier : ∃ (codec : Codec) (entries : List CommandEntry) (command : Command)
    (error : Kv.ApplyError), (new.run entries).Proposes command ∧
      codec.decodeCommand (codec.encodeCommand command) = some command ∧
      ((new.run entries).apply (codec.entry ⟨0, 1, codec.encodeCommand command⟩)).2.err = some error ∧
      isExpectedApplyError error = false := by
  let acquire : Command := { type := .lockAcquire, key := "k", ownerID := "x", expiresAt := 5 }
  let grant : CommandEntry := ⟨2 ^ 64 - 1, some acquire⟩
  have free : new.locks.get "k" = none := rfl
  have churned : new.run (churn 1 0 (2 ^ 64 - 1)) = _ := run_churn free (by decide)
  let used : Store := { new with locks := { new.locks with nextToken := new.locks.nextToken + (2 ^ 64 - 1) } }
  have reached : new.run (churn 1 0 (2 ^ 64 - 1) ++ [grant]) = used.run [grant] := by
    rw [run_append, churned]
  refine ⟨.listed [acquire, Server.proposeLockExpiration "k" 0], churn 1 0 (2 ^ 64 - 1) ++ [grant],
    Server.proposeLockExpiration "k" 0, .expireLock "k" .invalidFencingToken, ?_, by decide +kernel, ?_, rfl⟩
  · rw [reached]
    exact @Proposes.expireLocks _ 7 ∅ ["k"] _ (by decide +kernel)
  · rw [reached]
    decide +kernel

end Kv.Store

end Raftiq
