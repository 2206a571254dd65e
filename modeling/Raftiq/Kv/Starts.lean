import Raftiq.Kv.Lease
import Raftiq.Kv.Lifecycle

namespace Raftiq.Kv.Store

/-! A job is started once under a token, and succeeds when its worker says so. -/

variable {store : Store} {command : Command} {index token : ℕ} {entry : CommandEntry} {id : JobID}

/-- What a job command that succeeds has found, and what it returns. -/
theorem transition_result {fromState toState : JobState}
    (kind : command.type.transition = some (fromState, toState))
    (succeeded : (store.applyCommand command index).2.err = none) :
    ∃ job lock, store.Holds command job lock ∧ job.state = fromState ∧ job.assignedWorkerID = command.ownerID ∧
      job.executionID = command.executionID ∧ store.applyCommand command index =
        (store.setJob command.jobID { job with state := toState },
          { job := some { job with state := toState } }) := by
  have applied : store.applyCommand command index = store.applyJobTransitionCommand command fromState toState := by
    cases type : command.type with
    | jobStart | jobSucceeded | jobFailed =>
        rw [type] at kind
        cases kind
        simp only [applyCommand, type]
    | _ =>
        rw [type] at kind
        cases kind
  rw [applied] at succeeded ⊢
  unfold applyJobTransitionCommand transitionJobState at succeeded ⊢
  split at succeeded
  · cases succeeded
  · rename_i arguments
    split at succeeded
    · cases succeeded
    · split at succeeded
      · cases succeeded
      · rename_i job found
        dsimp only at succeeded
        split at succeeded
        · cases succeeded
        · rename_i owned
          obtain ⟨state, token, lock, held, lockToken⟩ := validateTransitionOwnership_ok owned
          have owner : job.assignedWorkerID = command.ownerID ∧ job.executionID = command.executionID := by
            unfold validateTransitionOwnership at owned
            rw [if_neg (not_not.mpr state)] at owned
            split at owned
            · cases owned
            · rename_i worker
              split at owned
              · cases owned
              · rename_i execution
                exact ⟨not_not.mp worker, not_not.mp execution⟩
          exact ⟨job, lock, ⟨found, held, token, lockToken, validateTransitionArguments_ok arguments⟩, state,
            owner.1, owner.2, rfl⟩

/-- The entry is a `JOB_START` that makes the job run under a token. -/
structure Starts (store : Store) (entry : CommandEntry) (id : JobID) (token : ℕ) : Prop where
  start : ∃ command, entry.command = some command ∧ command.type = .jobStart ∧ command.jobID = id ∧
    command.fencingToken = token
  succeeded : (store.apply entry).2.err = none

theorem Starts.succeeds (starts : store.Starts entry id token) :
    store.succeeds (Command.starts id token) entry := by
  obtain ⟨command, decoded, kind, own, held⟩ := starts.start
  exact succeeds_iff.mpr ⟨command, decoded, decide_eq_true ⟨kind, own, held⟩,
    Option.isNone_iff_eq_none.mpr starts.succeeded⟩

theorem Started.run {entries : List CommandEntry} (started : store.Started id token)
    (enough : store.Enough entries) : (store.run entries).Started id token := by
  induction entries generalizing store with
  | nil => exact started
  | cons entry rest ih => exact ih (started.apply enough) enough.tail

/-- No token is under two keys. -/
def Separate (store : Store) : Prop :=
  ∀ key other lock another, store.locks.get key = some lock → store.locks.get other = some another →
    lock.fencingToken = another.fencingToken → key = other

theorem Separate.apply {rest : List CommandEntry} (separate : store.Separate) (tokens : store.Tokens)
    (enough : store.Enough (entry :: rest)) : (store.apply entry).1.Separate := by
  intro key other lock another held heldToo same
  cases store.apply_allocates entry with
  | none granted next locks => exact separate _ _ _ _ (locks key lock held) (locks other another heldToo) same
  | next granted token next free locks =>
      obtain ⟨allocated, _⟩ := enough.granted granted
      rw [locks] at held heldToo
      split at held
      · rename_i own
        cases held
        split at heldToo
        · rename_i ownToo
          rw [own, ownToo]
        · have old := tokens.lock other another heldToo
          omega
      · split at heldToo
        · cases heldToo
          have old := tokens.lock key lock held
          omega
        · exact separate _ _ _ _ held heldToo same

theorem Separate.run {entries : List CommandEntry} (separate : store.Separate) (tokens : store.Tokens)
    (enough : store.Enough entries) : (store.run entries).Separate := by
  induction entries generalizing store with
  | nil => exact separate
  | cons entry rest ih => exact ih (separate.apply tokens enough) (tokens.apply enough) enough.tail

/-- With fewer than 2^64 grants, a second `JOB_START` with the same token fails, for any job and whatever has
happened in between. -/
theorem starts_once {earlier middle rest : List CommandEntry} {first second : CommandEntry} {other : JobID}
    (few : (new.grants (earlier ++ first :: (middle ++ second :: rest))).length < 2 ^ 64)
    (starts : (new.run earlier).Starts first id token) :
    ¬ (new.run (earlier ++ first :: middle)).Starts second other token := by
  have enough : new.Enough (earlier ++ first :: (middle ++ second :: rest)) := by
    simpa [Enough, new, LockState.new] using few
  have tokens := tokens_new.run enough.left
  have onward := enough.run
  rw [run_append, run_cons]
  suffices started : (((new.run earlier).apply first).1.run middle).Started other token from
    fun again => started.not_succeeds again.succeeds
  by_cases same : other = id
  · rw [same]
    exact (tokens.started starts.succeeds).run onward.tail.left
  · have separate : (new.run earlier).Separate :=
      Separate.run (fun _ _ _ _ none => (by cases none)) tokens_new enough.left
    obtain ⟨_, lock, _, _, _, held, own, _⟩ := start_found starts.succeeds
    have dead : (new.run earlier).Dead other token :=
      ⟨own ▸ tokens.lock id lock held, fun another heldToo ownToo =>
        same (separate other id another lock heldToo held (ownToo.trans own.symm))⟩
    exact Or.inl ((dead.apply onward).run onward.tail.left)

/-- A job starts, is reclaimed, and is claimed again by its worker. The first claim's token is not enough
for another start. -/
theorem reclaimed_token_does_not_start : ∃ (earlier middle : List CommandEntry) (first second : CommandEntry),
    (new.run earlier).Starts first "j" 1 ∧ second.command = first.command ∧
      ((new.run (earlier ++ first :: middle)).jobs.lookup "j").any (·.state = .scheduled) ∧
      ¬ (new.run (earlier ++ first :: middle)).Starts second "j" 1 := by
  let earlier := numbered [{ type := .createJob, jobID := "j" },
    { type := .claimJob, jobID := "j", ownerID := "w", expiresAt := 5 }]
  let start : Command :=
    { type := .jobStart, jobID := "j", ownerID := "w", executionID := "j/1", fencingToken := 1, now := 1 }
  let middle : List CommandEntry := [⟨4, some { type := .jobReclaim, jobID := "j", fencingToken := 1, now := 5 }⟩,
    ⟨5, some { type := .claimJob, jobID := "j", ownerID := "w", expiresAt := 9 }⟩]
  have starts : (new.run earlier).Starts ⟨3, some start⟩ "j" 1 :=
    ⟨⟨start, rfl, rfl, rfl, rfl⟩, by decide +kernel⟩
  have few : (new.grants (earlier ++ ⟨3, some start⟩ :: (middle ++ [⟨6, some start⟩]))).length < 2 ^ 64 := by
    decide +kernel
  exact ⟨earlier, middle, ⟨3, some start⟩, ⟨6, some start⟩, starts, rfl, by decide +kernel, starts_once few starts⟩

/-- The worker of a job says that it has executed the job. -/
structure Reports (command : Command) (id : JobID) (job : Job) : Prop where
  kind : command.type = .jobSucceeded
  own : command.jobID = id
  token : command.fencingToken = job.fencingToken
  execution : command.executionID = job.executionID
  worker : command.ownerID = job.assignedWorkerID

theorem transition_succeeded {kind : CommandType} {fromState : JobState}
    (moves : kind.transition = some (fromState, .succeeded)) : kind = .jobSucceeded ∧ fromState = .running := by
  cases kind with
  | jobSucceeded =>
      cases moves
      exact ⟨rfl, rfl⟩
  | _ => cases moves

theorem apply_reported {job : Job} (found : (store.apply entry).1.jobs.lookup id = some job)
    (state : job.state = .succeeded) :
    store.jobs.lookup id = some job ∨ store.jobs.lookup id = some { job with state := .running } ∧
      ∃ command, entry.command = some command ∧ Reports command id job := by
  rcases store.apply_cases entry with ⟨same, _⟩ | ⟨command, decoded, effect⟩
  · exact Or.inl (by rw [← same]; exact found)
  · have result : (store.apply entry).2 = (store.applyCommand command entry.index).2 := by
      simp only [apply, decoded]
    generalize ended : (store.apply entry).2.err.isNone = succeeded at effect
    generalize (store.apply entry).1 = after at effect found
    cases effect with
    | refused | idle | data | fence | grant | expire => exact Or.inl found
    | create | claim | reuse | reclaim =>
        rcases lookup_setJob.mp found with ⟨_, rfl⟩ | ⟨_, old⟩
        · cases state
        · exact Or.inl old
    | @transition fromState toState kind before lock holds _ =>
        rcases lookup_setJob.mp found with ⟨own, rfl⟩ | ⟨_, old⟩
        · obtain rfl : toState = .succeeded := state
          obtain ⟨reports, rfl⟩ := transition_succeeded kind
          rw [result, Option.isNone_iff_eq_none] at ended
          obtain ⟨other, _, held, running, worker, execution, _⟩ := transition_result kind ended
          cases holds.found.symm.trans held.found
          refine Or.inr ⟨?_, command, decoded, reports, own.symm, holds.jobToken.symm, execution.symm, worker.symm⟩
          rw [own, holds.found, ← running]
        · exact Or.inl old

/-- A job that has succeeded was running, under the same token, until its worker has said so; it became what
it is by that entry. -/
theorem succeeded_jobs_were_reported {entries : List CommandEntry} {job : Job}
    (found : (new.run entries).jobs.lookup id = some job) (state : job.state = .succeeded) :
    ∃ earlier entry rest, entries = earlier ++ entry :: rest ∧
      (new.run earlier).jobs.lookup id = some { job with state := .running } ∧
      (new.run (earlier ++ [entry])).jobs.lookup id = some job ∧
      ∃ command, entry.command = some command ∧ Reports command id job := by
  induction entries using List.reverseRecOn with
  | nil => cases found
  | append_singleton front last ih =>
      have final := found
      rw [run_append, run_cons, run_nil] at found
      rcases apply_reported found state with before | ⟨running, reported⟩
      · obtain ⟨earlier, entry, rest, rfl, running, done, reported⟩ := ih before
        exact ⟨earlier, entry, rest ++ [last], by simp, running, done, reported⟩
      · exact ⟨front, last, [], rfl, running, final, reported⟩

/-- A job that is started and reported. -/
theorem started_job_is_reported : ∃ (entries earlier : List CommandEntry) (job : Job),
    (new.run entries).jobs.lookup "j" = some job ∧ job.state = .succeeded ∧ earlier <+: entries ∧
      (new.run earlier).jobs.lookup "j" = some { job with state := .running } := by
  let entries := numbered [{ type := .createJob, jobID := "j" },
    { type := .claimJob, jobID := "j", ownerID := "w", expiresAt := 5 },
    { type := .jobStart, jobID := "j", ownerID := "w", executionID := "j/1", fencingToken := 1, now := 1 },
    { type := .jobSucceeded, jobID := "j", ownerID := "w", executionID := "j/1", fencingToken := 1, now := 2 }]
  have done : ((new.run entries).jobs.lookup "j").any (·.state = .succeeded) := by decide +kernel
  obtain ⟨job, found, state⟩ := (Option.any_eq_true _ _).mp done
  obtain ⟨earlier, entry, rest, same, running, _⟩ := succeeded_jobs_were_reported found (of_decide_eq_true state)
  exact ⟨entries, earlier, job, found, of_decide_eq_true state, ⟨_, same.symm⟩, running⟩

end Raftiq.Kv.Store
