import Raftiq.Kv.Generations

namespace Raftiq.Kv

namespace JobState

/-- The moves that a job can make. -/
def moves : JobState → JobState → Bool
  | .pending, .scheduled | .scheduled, .running | .running, .succeeded | .running, .failed
  | .scheduled, .pending | .running, .pending => true
  | _, _ => false

/-- A worker has begun, and maybe finished. -/
def begun : JobState → Bool
  | .running | .succeeded | .failed => true
  | .pending | .scheduled | .unknown _ => false

def finished : JobState → Bool
  | .succeeded | .failed => true
  | .pending | .scheduled | .running | .unknown _ => false

end JobState

namespace Command

def claims (id : JobID) (command : Command) : Bool :=
  command.type = .claimJob ∧ command.jobID = id

def starts (id : JobID) (token : ℕ) (command : Command) : Bool :=
  command.type = .jobStart ∧ command.jobID = id ∧ command.fencingToken = token

def finishes (id : JobID) (token : ℕ) (command : Command) : Bool :=
  (command.type = .jobSucceeded ∨ command.type = .jobFailed) ∧ command.jobID = id ∧
    command.fencingToken = token

end Command

namespace Job

/-- What becomes of a job when an entry is applied.  A new attempt is a claim, and the lock of a
job that is released is gone. -/
inductive Advances (job : Job) (claimed unlocked : Prop) : Job → Prop where
  | same : Advances job claimed unlocked job
  | attempt (pending : job.state = .pending) (lock : Lock) (counted : claimed) :
      Advances job claimed unlocked (job.claimedUnder lock).attempted
  | reuse (pending : job.state = .pending) (lock : Lock) :
      Advances job claimed unlocked (job.claimedUnder lock)
  | move {kind : CommandType} {toState : JobState} (kind : kind.transition = some (job.state, toState)) :
      Advances job claimed unlocked { job with state := toState }
  | release (active : job.active) (freed : unlocked) : Advances job claimed unlocked job.released

/-- A job keeps what it was created with. -/
structure Keeps (job next : Job) : Prop where
  id : next.id = job.id
  payload : next.payload = job.payload
  scheduledAt : next.scheduledAt = job.scheduledAt
  createdIndex : next.createdIndex = job.createdIndex

variable {job next : Job} {claimed unlocked : Prop}

theorem Keeps.refl (job : Job) : job.Keeps job :=
  ⟨rfl, rfl, rfl, rfl⟩

theorem Keeps.trans {final : Job} (first : job.Keeps next) (second : next.Keeps final) : job.Keeps final where
  id := second.id.trans first.id
  payload := second.payload.trans first.payload
  scheduledAt := second.scheduledAt.trans first.scheduledAt
  createdIndex := second.createdIndex.trans first.createdIndex

theorem Advances.keeps (advances : job.Advances claimed unlocked next) : job.Keeps next := by
  cases advances with
  | same => exact .refl job
  | attempt | reuse | move | release => exact ⟨rfl, rfl, rfl, rfl⟩

theorem transition_moves {kind : CommandType} {fromState toState : JobState}
    (transition : kind.transition = some (fromState, toState)) :
    fromState.moves toState ∧ toState.begun ∧ (fromState = .scheduled ∨ fromState = .running) := by
  cases kind with
  | jobStart | jobSucceeded | jobFailed =>
      cases transition
      decide
  | _ => cases transition

theorem Advances.moves (advances : job.Advances claimed unlocked next) :
    next.state = job.state ∨ job.state.moves next.state := by
  cases advances with
  | same => exact Or.inl rfl
  | attempt pending lock | reuse pending lock =>
      rw [pending]
      exact Or.inr rfl
  | move kind => exact Or.inr (transition_moves kind).1
  | release active _ =>
      simp only [Job.active, decide_eq_true_eq] at active
      rcases active with state | state
      · rw [state]
        exact Or.inr rfl
      · rw [state]
        exact Or.inr rfl

theorem Advances.finished (advances : job.Advances claimed unlocked next) (finished : job.state.finished) :
    next.state = job.state := by
  rcases advances.moves with same | moved
  · exact same
  · cases state : job.state with
    | succeeded | failed => simp [state, JobState.moves] at moved
    | pending | scheduled | running | unknown name => simp [state, JobState.finished] at finished

end Job

namespace Store

/-- The entry is a command of the kind and succeeds. -/
def succeeds (store : Store) (select : Command → Bool) (entry : CommandEntry) : Bool :=
  entry.command.any select && (store.apply entry).2.err.isNone

/-- How many commands of a kind succeed. -/
def successes (store : Store) (select : Command → Bool) : List CommandEntry → ℕ
  | [] => 0
  | entry :: rest => (if store.succeeds select entry then 1 else 0) + successes (store.apply entry).1 select rest

variable {store : Store} {entry : CommandEntry} {id : JobID} {job : Job} {token : ℕ}

theorem successes_append (store : Store) (select : Command → Bool) (first second : List CommandEntry) :
    store.successes select (first ++ second) =
      store.successes select first + (store.run first).successes select second := by
  induction first generalizing store with
  | nil => simp [successes]
  | cons entry rest ih =>
      simp only [List.cons_append, successes, run_cons, ih]
      omega

theorem lookup_setJob {other : JobID} {found : Job} :
    (store.setJob other job).jobs.lookup id = some found ↔
      id = other ∧ found = job ∨ id ≠ other ∧ store.jobs.lookup id = some found := by
  simp only [setJob, lookup_insert]
  split
  · rename_i same
    simp [same, eq_comm]
  · rename_i different
    simp [different]

/-- No job disappears, and each of them advances. -/
theorem apply_advances (found : store.jobs.lookup id = some job) (entry : CommandEntry) :
    ∃ next, (store.apply entry).1.jobs.lookup id = some next ∧
      job.Advances (store.succeeds (Command.claims id) entry) ((store.apply entry).1.locks.get id = none)
        next := by
  rcases store.apply_cases entry with ⟨same, _⟩ | ⟨command, decoded, effect⟩
  · exact ⟨job, by rw [same]; exact found, .same⟩
  · generalize result : (store.apply entry).2.err.isNone = succeeded at effect
    generalize (store.apply entry).1 = after at effect
    -- A job that the effect writes is the one that was found there.
    have written : ∀ {jobs : Store} {old new : Job}, jobs.jobs = store.jobs →
        store.jobs.lookup command.jobID = some old →
        (id = command.jobID →
          old.Advances (store.succeeds (Command.claims id) entry) (jobs.locks.get id = none) new) →
        ∃ next, (jobs.setJob command.jobID new).jobs.lookup id = some next ∧
          job.Advances (store.succeeds (Command.claims id) entry) (jobs.locks.get id = none) next := by
      intro jobs old new same present advances
      by_cases own : id = command.jobID
      · have unique : old = job := by
          rw [← own, found] at present
          exact (Option.some.inj present).symm
        exact ⟨new, lookup_setJob.mpr (Or.inl ⟨own, rfl⟩), unique ▸ advances own⟩
      · exact ⟨job, lookup_setJob.mpr (Or.inr ⟨own, same ▸ found⟩), .same⟩
    cases effect with
    | refused | idle kind | data kind map | fence kind held token valid | grant kind named owned free
    | expire kind held token valid => exact ⟨job, found, .same⟩
    | create kind named fresh =>
        have different : id ≠ command.jobID := by
          rintro rfl
          cases fresh.symm.trans found
        exact ⟨job, lookup_setJob.mpr (Or.inr ⟨different, found⟩), .same⟩
    | claim kind named owned present pending free granted =>
        refine written rfl present fun own => .attempt pending _ ?_
        simp [succeeds, decoded, Command.claims, kind, own, result]
    | reuse kind present pending held owned => exact written rfl present fun _ => .reuse pending _
    | transition kind holds state =>
        subst state
        exact written rfl holds.found fun _ => .move kind
    | reclaim kind holds active =>
        refine written rfl holds.found fun own => .release active ?_
        rw [LockState.get_delete, if_pos own]

/-- Over a whole run a job keeps what it was created with, and stays finished. -/
theorem run_keeps (found : store.jobs.lookup id = some job) (entries : List CommandEntry) :
    ∃ final, (store.run entries).jobs.lookup id = some final ∧ job.Keeps final ∧
      (job.state.finished → final.state = job.state) := by
  induction entries generalizing store job with
  | nil => exact ⟨job, found, .refl job, fun _ => rfl⟩
  | cons entry rest ih =>
      obtain ⟨next, present, advances⟩ := apply_advances found entry
      obtain ⟨final, reached, keeps, stays⟩ := ih present
      refine ⟨final, reached, advances.keeps.trans keeps, fun finished => ?_⟩
      have same := advances.finished finished
      exact (stays (same ▸ finished)).trans same

/-- An attempt is counted by a claim, so it does not wrap around before there are 2^32 claims. -/
theorem run_attempts (found : store.jobs.lookup id = some job) {entries : List CommandEntry}
    (few : job.attempt + store.successes (Command.claims id) entries < 2 ^ 32) :
    ∃ final, (store.run entries).jobs.lookup id = some final ∧ job.attempt ≤ final.attempt ∧
      final.attempt ≤ job.attempt + store.successes (Command.claims id) entries := by
  induction entries generalizing store job with
  | nil => exact ⟨job, found, le_rfl, Nat.le_add_right _ _⟩
  | cons entry rest ih =>
      obtain ⟨next, present, advances⟩ := apply_advances found entry
      have once : job.attempt ≤ next.attempt ∧ next.attempt ≤ job.attempt +
          (if store.succeeds (Command.claims id) entry then 1 else 0) := by
        cases advances with
        | same | reuse | move | release => exact ⟨le_rfl, Nat.le_add_right _ _⟩
        | attempt pending lock counted =>
            simp only [successes, counted, ↓reduceIte] at few ⊢
            have unwrapped : (job.attempt + 1) % 2 ^ 32 = job.attempt + 1 := Nat.mod_eq_of_lt (by omega)
            simp only [Job.attempted, Job.claimedUnder, unwrapped]
            omega
      simp only [successes] at few ⊢
      obtain ⟨final, reached, grows, bounded⟩ := ih present (by omega)
      exact ⟨final, reached, by omega, by omega⟩

/-- A job that was not there before has just been created. -/
theorem job_created (missing : store.jobs.lookup id = none) {entry : CommandEntry}
    (found : (store.apply entry).1.jobs.lookup id = some job) :
    ∃ command : Command, command.jobID = id ∧ job = command.newJob entry.index := by
  have absent : ∀ {jobs : Store}, jobs.jobs = store.jobs → ¬ jobs.jobs.lookup id = some job := by
    intro jobs same present
    rw [same, missing] at present
    cases present
  have unwritten : ∀ {jobs : Store} {other : JobID} {old new : Job}, jobs.jobs = store.jobs →
      store.jobs.lookup other = some old → ¬ (jobs.setJob other new).jobs.lookup id = some job := by
    intro jobs other old new same present written
    rcases lookup_setJob.mp written with ⟨rfl, _⟩ | ⟨_, before⟩
    · cases missing.symm.trans present
    · exact absent same before
  rcases store.apply_cases entry with ⟨same, _⟩ | ⟨command, decoded, effect⟩
  · exact absurd found (absent (by rw [same]))
  · generalize (store.apply entry).2.err.isNone = succeeded at effect
    generalize (store.apply entry).1 = next at effect found
    cases effect with
    | refused | idle kind | data kind map | fence kind held token valid | grant kind named owned free
    | expire kind held token valid => exact absurd found (absent rfl)
    | create kind named fresh =>
        rcases lookup_setJob.mp found with ⟨rfl, rfl⟩ | ⟨_, before⟩
        · exact ⟨command, rfl, rfl⟩
        · exact absurd before (absent rfl)
    | claim kind named owned present pending free granted => exact absurd found (unwritten rfl present)
    | reuse kind present pending held owned => exact absurd found (unwritten rfl present)
    | transition kind holds state => exact absurd found (unwritten rfl holds.found)
    | reclaim kind holds active => exact absurd found (unwritten rfl holds.found)

theorem attempt_created (missing : store.jobs.lookup id = none) {entry : CommandEntry}
    (found : (store.apply entry).1.jobs.lookup id = some job) : job.attempt = 0 := by
  obtain ⟨command, _, rfl⟩ := job_created missing found
  rfl

/-- A job has had no more attempts than there were claims of it. -/
theorem attempts_le_claims {entries : List CommandEntry} (found : (store.run entries).jobs.lookup id = some job)
    (fresh : ∀ earlier, store.jobs.lookup id = some earlier → earlier.attempt = 0)
    (few : store.successes (Command.claims id) entries < 2 ^ 32) :
    job.attempt ≤ store.successes (Command.claims id) entries := by
  induction entries generalizing store with
  | nil =>
      rw [fresh job found]
      exact Nat.zero_le _
  | cons entry rest ih =>
      cases present : store.jobs.lookup id with
      | some earlier =>
          have none := fresh earlier present
          obtain ⟨final, reached, _, bounded⟩ := run_attempts present (by rw [none, zero_add]; exact few)
          cases reached.symm.trans found
          rw [none, zero_add] at bounded
          exact bounded
      | none =>
          rw [run_cons] at found
          simp only [successes] at few ⊢
          exact (ih found (fun next => attempt_created present) (by omega)).trans (Nat.le_add_left _ _)

/-- If no command of a kind succeeds any more once one has, at most one does. -/
theorem successes_le_one {select : Command → Bool} (inv : Store → List CommandEntry → Prop)
    (done : Store → Prop)
    (tail : ∀ store entry rest, inv store (entry :: rest) → inv (store.apply entry).1 rest)
    (first : ∀ store entry rest, inv store (entry :: rest) → store.succeeds select entry →
      done (store.apply entry).1)
    (later : ∀ store entry rest, inv store (entry :: rest) → done store →
      ¬ store.succeeds select entry ∧ done (store.apply entry).1)
    {entries : List CommandEntry} (holds : inv store entries) : store.successes select entries ≤ 1 := by
  have none : ∀ (rest : List CommandEntry) (store : Store), inv store rest → done store →
      store.successes select rest = 0 := by
    intro rest
    induction rest with
    | nil => exact fun _ _ _ => rfl
    | cons entry rest ih =>
        intro store holds done
        obtain ⟨fails, still⟩ := later store entry rest holds done
        simp only [successes, fails, Bool.false_eq_true, ↓reduceIte, zero_add]
        exact ih _ (tail store entry rest holds) still
  induction entries generalizing store with
  | nil => exact Nat.zero_le _
  | cons entry rest ih =>
      have remaining := tail store entry rest holds
      unfold successes
      split
      · rename_i succeeded
        rw [none rest _ remaining (first store entry rest holds succeeded)]
      · rw [zero_add]
        exact ih remaining

theorem succeeds_iff {select : Command → Bool} :
    store.succeeds select entry ↔
      ∃ command, entry.command = some command ∧ select command ∧ (store.apply entry).2.err.isNone := by
  simp only [succeeds, Bool.and_eq_true, Option.any_eq_true]
  constructor
  · rintro ⟨⟨command, decoded, selected⟩, result⟩
    exact ⟨command, decoded, selected, result⟩
  · rintro ⟨command, decoded, selected, result⟩
    exact ⟨⟨command, decoded, selected⟩, result⟩

/-- A start or an end that succeeds moves the job under its lock. -/
theorem transition_of_succeeds {select : Command → Bool}
    (selects : ∀ command, select command → command.type.transition.isSome)
    (succeeded : store.succeeds select entry) :
    ∃ command job lock toState, select command ∧ store.Holds command job lock ∧
      command.type.transition = some (job.state, toState) ∧
      (store.apply entry).1 = store.setJob command.jobID { job with state := toState } := by
  obtain ⟨command, decoded, selected, result⟩ := succeeds_iff.mp succeeded
  have transits := selects command selected
  rcases store.apply_cases entry with ⟨_, failed⟩ | ⟨other, decodedToo, effect⟩
  · exact absurd (Option.isNone_iff_eq_none.mp result) failed
  · cases decoded.symm.trans decodedToo
    rw [result] at effect
    generalize (store.apply entry).1 = next at effect ⊢
    cases effect with
    | idle kind =>
        exfalso
        cases type : command.type <;> simp [type, CommandType.mayIdle, CommandType.transition] at kind transits
    | data kind map => rcases kind with kind | kind <;> simp [kind, CommandType.transition] at transits
    | fence kind | grant kind | expire kind | create kind | claim kind | reuse kind | reclaim kind =>
        simp [kind, CommandType.transition] at transits
    | transition kind holds state =>
        subst state
        exact ⟨command, _, _, _, selected, holds, kind, rfl⟩

/-- The job is finished. -/
def Finished (store : Store) (id : JobID) : Prop :=
  ∃ job, store.jobs.lookup id = some job ∧ job.state.finished

theorem finishes_transition {command : Command} (finishes : command.finishes id token) :
    command.jobID = id ∧ ∃ toState : JobState, command.type.transition = some (.running, toState) ∧
      toState.finished := by
  simp only [Command.finishes, decide_eq_true_eq] at finishes
  refine ⟨finishes.2.1, ?_⟩
  rcases finishes.1 with type | type
  · exact ⟨.succeeded, by rw [type]; rfl, rfl⟩
  · exact ⟨.failed, by rw [type]; rfl, rfl⟩

theorem starts_transition {command : Command} (starts : command.starts id token) :
    command.jobID = id ∧ command.fencingToken = token ∧
      command.type.transition = some (.scheduled, .running) := by
  simp only [Command.starts, decide_eq_true_eq] at starts
  exact ⟨starts.2.1, starts.2.2, by rw [starts.1]; rfl⟩

theorem finishes_le_one (store : Store) (id : JobID) (token : ℕ) (entries : List CommandEntry) :
    store.successes (Command.finishes id token) entries ≤ 1 := by
  have selects : ∀ command : Command, command.finishes id token → command.type.transition.isSome := by
    intro command finishes
    obtain ⟨_, toState, kind, _⟩ := finishes_transition finishes
    rw [kind]
    rfl
  refine successes_le_one (fun _ _ => True) (fun store => store.Finished id) (fun _ _ _ _ => trivial) ?_ ?_ trivial
  · intro store entry rest _ succeeded
    obtain ⟨command, job, lock, toState, finishes, holds, kind, after⟩ := transition_of_succeeds selects succeeded
    obtain ⟨rfl, final, sameKind, finished⟩ := finishes_transition finishes
    rw [sameKind] at kind
    have same : final = toState := congrArg Prod.snd (Option.some.inj kind)
    subst same
    rw [after]
    exact ⟨_, lookup_setJob.mpr (Or.inl ⟨rfl, rfl⟩), finished⟩
  · rintro store entry rest _ ⟨job, found, finished⟩
    constructor
    · intro succeeded
      obtain ⟨command, other, lock, toState, finishes, holds, kind, _⟩ := transition_of_succeeds selects succeeded
      obtain ⟨rfl, final, sameKind, _⟩ := finishes_transition finishes
      cases holds.found.symm.trans found
      rw [sameKind] at kind
      have running : job.state = .running := (congrArg Prod.fst (Option.some.inj kind)).symm
      simp [running, JobState.finished] at finished
    · obtain ⟨next, present, advances⟩ := apply_advances found entry
      exact ⟨next, present, advances.finished finished ▸ finished⟩

/-- A start under the token has succeeded: the job has begun, or its lock has been removed. -/
def Started (store : Store) (id : JobID) (token : ℕ) : Prop :=
  store.Dead id token ∨
    token ≤ store.locks.nextToken ∧
      ∃ job, store.jobs.lookup id = some job ∧ job.fencingToken = token ∧ job.state.begun

theorem Started.apply {rest : List CommandEntry} (started : store.Started id token)
    (enough : store.Enough (entry :: rest)) : (store.apply entry).1.Started id token := by
  rcases started with dead | ⟨below, job, found, rfl, begun⟩
  · exact Or.inl (dead.apply enough)
  · have later := below.trans enough.nextToken_le
    have unclaimable : job.state ≠ .pending := fun pending => by simp [pending, JobState.begun] at begun
    obtain ⟨next, present, advances⟩ := apply_advances found entry
    cases advances with
    | same => exact Or.inr ⟨later, job, present, rfl, begun⟩
    | attempt pending lock counted => exact absurd pending unclaimable
    | reuse pending lock => exact absurd pending unclaimable
    | move kind => exact Or.inr ⟨later, _, present, rfl, (Job.transition_moves kind).2.1⟩
    | release active freed =>
        refine Or.inl ⟨later, fun lock held => ?_⟩
        rw [freed] at held
        cases held

/-- A start that succeeds finds the job scheduled, and its lock under the token. -/
theorem start_found (succeeded : store.succeeds (Command.starts id token) entry) :
    ∃ job lock, store.jobs.lookup id = some job ∧ job.state = .scheduled ∧ job.fencingToken = token ∧
      store.locks.get id = some lock ∧ lock.fencingToken = token ∧
      (store.apply entry).1 = store.setJob id { job with state := .running } := by
  have selects : ∀ command : Command, command.starts id token → command.type.transition.isSome := by
    intro command starts
    rw [(starts_transition starts).2.2]
    rfl
  obtain ⟨command, job, lock, toState, starts, holds, kind, after⟩ := transition_of_succeeds selects succeeded
  obtain ⟨rfl, rfl, sameKind⟩ := starts_transition starts
  obtain ⟨scheduled, running⟩ := Prod.mk.inj (Option.some.inj (kind.symm.trans sameKind))
  exact ⟨job, lock, holds.found, scheduled, holds.jobToken, holds.held, holds.lockToken, running ▸ after⟩

theorem Tokens.started (tokens : store.Tokens) (succeeded : store.succeeds (Command.starts id token) entry) :
    (store.apply entry).1.Started id token := by
  obtain ⟨job, lock, _, _, own, held, rfl, after⟩ := start_found succeeded
  rw [after]
  exact Or.inr ⟨tokens.lock id lock held, _, lookup_setJob.mpr (Or.inl ⟨rfl, rfl⟩), own, rfl⟩

theorem Started.not_succeeds (started : store.Started id token) :
    ¬ store.succeeds (Command.starts id token) entry := by
  intro succeeded
  obtain ⟨job, lock, found, scheduled, _, held, own, _⟩ := start_found succeeded
  rcases started with dead | ⟨_, other, foundToo, _, begun⟩
  · exact dead.2 lock held own
  · cases found.symm.trans foundToo
    rw [scheduled] at begun
    cases begun

theorem starts_le_one (tokens : store.Tokens) {entries : List CommandEntry} (enough : store.Enough entries)
    (id : JobID) (token : ℕ) : store.successes (Command.starts id token) entries ≤ 1 := by
  refine successes_le_one (fun store entries => store.Tokens ∧ store.Enough entries)
    (fun store => store.Started id token) ?_ ?_ ?_ ⟨tokens, enough⟩
  · rintro store entry rest ⟨tokens, enough⟩
    exact ⟨tokens.apply enough, enough.tail⟩
  · rintro store entry rest ⟨tokens, _⟩ succeeded
    exact tokens.started succeeded
  · rintro store entry rest ⟨_, enough⟩ started
    exact ⟨started.not_succeeds, started.apply enough⟩

/-- Jobs move along their lifecycle, keep what they were created with and never disappear; attempts
do not decrease below 2^32 claims; a job starts at most once under a token, below 2^64 grants, and
ends at most once. -/
theorem job_lifecycle (entries : List CommandEntry) :
    (∀ earlier entry rest, entries = earlier ++ entry :: rest →
      ∀ id job, (new.run earlier).jobs.lookup id = some job →
        ∃ next, (new.run (earlier ++ [entry])).jobs.lookup id = some next ∧
          (next.state = job.state ∨ job.state.moves next.state)) ∧
    (∀ earlier later, entries = earlier ++ later → ∀ id job, (new.run earlier).jobs.lookup id = some job →
      ∃ final, (new.run entries).jobs.lookup id = some final ∧ job.Keeps final ∧
        (job.state = .succeeded ∨ job.state = .failed → final.state = job.state) ∧
        (new.successes (Command.claims id) entries < 2 ^ 32 → job.attempt ≤ final.attempt)) ∧
    ((new.grants entries).length < 2 ^ 64 → ∀ id token, new.successes (Command.starts id token) entries ≤ 1) ∧
    ∀ id token, new.successes (Command.finishes id token) entries ≤ 1 := by
  refine ⟨?_, ?_, ?_, fun id token => new.finishes_le_one id token entries⟩
  · rintro earlier entry rest rfl id job found
    obtain ⟨next, present, advances⟩ := apply_advances found entry
    refine ⟨next, ?_, advances.moves⟩
    rw [run_append]
    exact present
  · rintro earlier later rfl id job found
    obtain ⟨final, reached, keeps, stays⟩ := run_keeps found later
    refine ⟨final, by rw [run_append]; exact reached, keeps, fun finished => stays ?_, fun few => ?_⟩
    · rcases finished with state | state
      · rw [state]
        rfl
      · rw [state]
        rfl
    · rw [successes_append] at few
      have bounded := attempts_le_claims found (fun _ present => nomatch present) (by omega)
      have fewer : job.attempt + (new.run earlier).successes (Command.claims id) later < 2 ^ 32 := by omega
      obtain ⟨same, reachedToo, grows, _⟩ := run_attempts found fewer
      cases reached.symm.trans reachedToo
      exact grows
  · intro few id token
    have enough : new.Enough entries := by
      simpa [Enough, new, LockState.new] using few
    exact starts_le_one tokens_new enough id token

/-- A running job is reclaimed, and claimed again. -/
theorem reclaimed_job_goes_on : ∃ (earlier later : List CommandEntry) (entry : CommandEntry)
    (job next final : Job), (new.run earlier).jobs.lookup "j" = some job ∧ job.state = .running ∧
      (new.run (earlier ++ [entry])).jobs.lookup "j" = some next ∧ job.state.moves next.state ∧
      (new.run (earlier ++ entry :: later)).jobs.lookup "j" = some final ∧ job.Keeps final ∧
      job.attempt ≤ final.attempt ∧ new.successes (Command.starts "j" 1) (earlier ++ entry :: later) ≤ 1 := by
  let earlier := numbered [{ type := .createJob, jobID := "j" },
    { type := .claimJob, jobID := "j", ownerID := "w", expiresAt := 5 },
    { type := .jobStart, jobID := "j", ownerID := "w", executionID := "j/1", fencingToken := 1, now := 1 }]
  let entry : CommandEntry := ⟨4, some { type := .jobReclaim, jobID := "j", fencingToken := 1, now := 5 }⟩
  let later : List CommandEntry :=
    [⟨5, some { type := .claimJob, jobID := "j", ownerID := "w", expiresAt := 9 }⟩]
  have runs : ((new.run earlier).jobs.lookup "j").any (·.state = .running) := by decide +kernel
  have changes : ((new.run (earlier ++ [entry])).jobs.lookup "j").any (·.state ≠ .running) := by decide +kernel
  have claims : new.successes (Command.claims "j") (earlier ++ entry :: later) < 2 ^ 32 := by decide +kernel
  have grants : (new.grants (earlier ++ entry :: later)).length < 2 ^ 64 := by decide +kernel
  obtain ⟨job, found, running⟩ := (Option.any_eq_true _ _).mp runs
  replace running := of_decide_eq_true running
  obtain ⟨moves, keeps, starts, _⟩ := job_lifecycle (earlier ++ entry :: later)
  obtain ⟨next, present, moved⟩ := moves earlier entry later rfl "j" job found
  obtain ⟨final, reached, kept, _, attempts⟩ := keeps earlier (entry :: later) rfl "j" job found
  rw [present, Option.any_some, decide_eq_true_eq, ← running] at changes
  exact ⟨earlier, later, entry, job, next, final, found, running, present, moved.resolve_left changes, reached,
    kept, attempts claims, starts grants "j" 1⟩

/-- A lock is acquired and expired over and over.  The indexes wrap around, as those of a log do. -/
def churn (index token : ℕ) : ℕ → List CommandEntry
  | 0 => []
  | count + 1 =>
      ⟨index % 2 ^ 64, some { type := .lockAcquire, key := "k", ownerID := "x" }⟩ ::
        ⟨(index + 1) % 2 ^ 64, some { type := .lockExpire, key := "k", fencingToken := token + 1 }⟩ ::
          churn (index + 2) (token + 1) count

theorem delete_grant {locks : LockState} {lock : Lock} (free : locks.get lock.key = none) :
    (locks.grant lock).delete lock.key = { locks with nextToken := lock.fencingToken } := by
  have same : (locks.locks.insert lock.key lock).erase lock.key = locks.locks := by
    refine Finmap.ext_lookup fun other => ?_
    rw [lookup_erase, lookup_insert]
    split
    · rename_i own
      rw [own]
      exact free.symm
    · rfl
  simp [LockState.delete, LockState.grant, same]

/-- All that is left of it are the tokens it has used up. -/
theorem run_churn (free : store.locks.get "k" = none) {index count : ℕ}
    (few : store.locks.nextToken + count < 2 ^ 64) :
    store.run (churn index store.locks.nextToken count) =
      { store with locks := { store.locks with nextToken := store.locks.nextToken + count } } := by
  induction count generalizing store index with
  | zero => rfl
  | succ count ih =>
      let lock := store.locks.newLock "k" "x" 0 (index % 2 ^ 64)
      have token : lock.fencingToken = store.locks.nextToken + 1 := Nat.mod_eq_of_lt (by omega)
      have acquired : (store.apply ⟨index % 2 ^ 64, some
          { type := .lockAcquire, key := "k", ownerID := "x" }⟩).1 =
            { store with locks := store.locks.grant lock } := by
        simp [apply, applyCommand, applyLockAcquire, acquireLock, LockState.acquire_free free, lock]
      have expired : (({ store with locks := store.locks.grant lock } : Store).apply ⟨(index + 1) % 2 ^ 64, some
          { type := .lockExpire, key := "k", fencingToken := store.locks.nextToken + 1 }⟩).1 =
            { store with locks := { store.locks with nextToken := store.locks.nextToken + 1 } } := by
        have held : (store.locks.grant lock).get "k" = some lock := by
          rw [LockState.get_grant]
          exact if_pos rfl
        have removed : (store.locks.grant lock).delete "k" =
            { store.locks with nextToken := lock.fencingToken } := delete_grant free
        simp [apply, applyCommand, applyLockExpire, expireLock, LockState.expire, held, token, removed]
      rw [churn, run_cons, acquired, run_cons, expired]
      let used : Store := { store with locks := { store.locks with nextToken := store.locks.nextToken + 1 } }
      have unlocked : used.locks.get "k" = none := free
      have remaining : used.locks.nextToken + count < 2 ^ 64 := by
        simp only [used]
        omega
      refine (ih unlocked remaining).trans ?_
      simp only [used, Nat.add_assoc, Nat.add_comm 1 count]

/-- After 2^64 grants a job gets a token that it has had before, and starts again under it.  The last
entry of the churn has the index 2^65, that is 0, so the entries behind it are numbered from 1 again. -/
theorem wrapped_token_starts_twice : ∃ entries, 2 ≤ new.successes (Command.starts "j" 1) entries := by
  let begins := numbered [{ type := .createJob, jobID := "j" },
    { type := .claimJob, jobID := "j", ownerID := "w", expiresAt := 5 },
    { type := .jobStart, jobID := "j", ownerID := "w", executionID := "j/1", fencingToken := 1, now := 1 },
    { type := .jobReclaim, jobID := "j", fencingToken := 1, now := 5 }]
  let ends := numbered [{ type := .lockAcquire, key := "k", ownerID := "x" },
    { type := .claimJob, jobID := "j", ownerID := "w", expiresAt := 5 },
    { type := .jobStart, jobID := "j", ownerID := "w", executionID := "j/2", fencingToken := 1, now := 1 }]
  let started := new.run begins
  have next : started.locks.nextToken = 1 := by decide +kernel
  have free : started.locks.get "k" = none := by decide +kernel
  have churned : started.run (churn 5 started.locks.nextToken (2 ^ 64 - 2)) = _ :=
    run_churn free (by rw [next]; decide)
  rw [next] at churned
  have first : new.successes (Command.starts "j" 1) begins = 1 := by decide +kernel
  have second : ({ started with locks := { started.locks with nextToken := 1 + (2 ^ 64 - 2) } } : Store).successes
      (Command.starts "j" 1) ends = 1 := by decide +kernel
  refine ⟨begins ++ (churn 5 1 (2 ^ 64 - 2) ++ ends), ?_⟩
  rw [successes_append, successes_append, churned, first, second]
  omega

end Store

end Raftiq.Kv
