import Raftiq.Kv.Lifecycle

namespace Raftiq.Kv

/-- What follows the last separator is unique. -/
theorem append_cons_inj_last {α : Type} {separator : α} {front other rest others : List α}
    (clean : separator ∉ rest) (cleanToo : separator ∉ others)
    (same : front ++ separator :: rest = other ++ separator :: others) : front = other ∧ rest = others := by
  rcases List.append_eq_append_iff.mp same with ⟨more, rfl, tail⟩ | ⟨more, rfl, tail⟩
  · cases more with
    | nil => exact ⟨(List.append_nil _).symm, (List.cons.inj tail).2⟩
    | cons head more =>
        refine absurd ?_ clean
        rw [(List.cons.inj tail).2]
        simp
  · cases more with
    | nil => exact ⟨List.append_nil _, (List.cons.inj tail).2.symm⟩
    | cons head more =>
        refine absurd ?_ cleanToo
        rw [(List.cons.inj tail).2]
        simp

/-- The job is under its id, and while a worker has it, it is identified by its attempt. -/
structure Job.Identified (job : Job) (id : JobID) : Prop where
  named : job.id = id
  execution : job.active → job.executionID = Store.executionID id job.attempt
  attempted : job.active → 1 ≤ job.attempt

namespace Store

variable {store : Store} {entry : CommandEntry} {id : JobID} {job next : Job}

theorem toList_executionID (id : JobID) (attempt : ℕ) :
    (executionID id attempt).toList = id.toList ++ '/' :: Nat.toDigits 10 attempt := by
  simp [executionID, Nat.toString_eq_repr, Nat.toList_repr]

/-- Job ids may have slashes and digits in them, but there is no slash in an attempt. -/
theorem executionID_inj {other : JobID} {attempt later : ℕ}
    (same : executionID id attempt = executionID other later) : id = other ∧ attempt = later := by
  have clean : ∀ number, '/' ∉ Nat.toDigits 10 number := by
    intro number member
    exact absurd (Nat.isDigit_of_mem_toDigits (by decide) (by decide) member) (by decide)
  have lists := congrArg String.toList same
  rw [toList_executionID, toList_executionID] at lists
  obtain ⟨ids, digits⟩ := append_cons_inj_last (clean attempt) (clean later) lists
  have numbers := congrArg (fun digits => Nat.ofDigitChars 10 digits 0) digits
  rw [Nat.ofDigitChars_toDigits (by decide) (by decide), Nat.ofDigitChars_toDigits (by decide) (by decide)]
    at numbers
  exact ⟨String.toList_injective ids, numbers⟩

/-- The entry claims a pending job whose lock its worker has already. -/
def reuses (store : Store) (entry : CommandEntry) : Bool :=
  entry.command.any fun command =>
    command.type = .claimJob ∧ (store.jobs.lookup command.jobID).any (·.state = .pending) ∧
      (store.locks.get command.jobID).any (·.ownerID = command.ownerID)

def neverReuses (store : Store) : List CommandEntry → Bool
  | [] => true
  | entry :: rest => ¬ store.reuses entry ∧ neverReuses (store.apply entry).1 rest

/-- The entry is a `CLAIM_JOB` that moves a job from `PENDING` to `SCHEDULED`. -/
structure Schedules (store : Store) (entry : CommandEntry) (id : JobID) (next : Job) : Prop where
  claim : ∃ command, entry.command = some command ∧ command.type = .claimJob
  pending : ∃ job, store.jobs.lookup id = some job ∧ job.state = .pending
  found : (store.apply entry).1.jobs.lookup id = some next
  scheduled : next.state = .scheduled

/-- A job that becomes scheduled has got a new attempt, unless its worker had the lock before. -/
theorem fresh_attempt (found : store.jobs.lookup id = some job) (pending : job.state = .pending)
    (fresh : ¬ store.reuses entry) (present : (store.apply entry).1.jobs.lookup id = some next)
    (scheduled : next.state = .scheduled) : ∃ lock, next = (job.claimedUnder lock).attempted := by
  have same : ¬ store.jobs.lookup id = some next := by
    intro unchanged
    cases found.symm.trans unchanged
    cases pending.symm.trans scheduled
  rcases store.apply_cases entry with ⟨unchanged, _⟩ | ⟨command, decoded, effect⟩
  · rw [unchanged] at present
    exact absurd present same
  · generalize (store.apply entry).2.err.isNone = succeeded at effect
    generalize (store.apply entry).1 = after at effect present
    cases effect with
    | refused | idle | data | fence | grant | expire => exact absurd present same
    | create kind named missing =>
        rcases lookup_setJob.mp present with ⟨rfl, _⟩ | ⟨_, before⟩
        · cases missing.symm.trans found
        · exact absurd before same
    | claim kind named owned foundToo pendingToo free granted =>
        rename_i claimed lock
        rcases lookup_setJob.mp present with ⟨rfl, rfl⟩ | ⟨_, before⟩
        · cases found.symm.trans foundToo
          exact ⟨lock, rfl⟩
        · exact absurd before same
    | reuse kind foundToo pendingToo held owned =>
        exact absurd (by simp [reuses, decoded, kind, foundToo, pendingToo, held, owned]) fresh
    | transition kind holds state =>
        rcases lookup_setJob.mp present with ⟨rfl, _⟩ | ⟨_, before⟩
        · cases found.symm.trans holds.found
          rw [← state, pending] at kind
          rcases (Job.transition_moves kind).2.2 with impossible | impossible
          · cases impossible
          · cases impossible
        · exact absurd before same
    | reclaim kind holds active =>
        rcases lookup_setJob.mp present with ⟨rfl, rfl⟩ | ⟨_, before⟩
        · cases scheduled
        · exact absurd before same

/-- The attempts that the job under an id has had. -/
def attempts (store : Store) (id : JobID) : ℕ :=
  (store.jobs.lookup id).elim 0 Job.attempt

theorem attempts_eq (found : store.jobs.lookup id = some job) : store.attempts id = job.attempt := by
  simp [attempts, found]

/-- No attempt wraps around while the entries are applied. -/
def Countable (store : Store) (entries : List CommandEntry) : Prop :=
  ∀ id, store.attempts id + store.successes (Command.claims id) entries < 2 ^ 32

/-- A job advances by a new attempt of a claim that succeeds, or keeps its attempt and its execution. -/
theorem attempt_or_keep (found : store.jobs.lookup id = some job) (fresh : ¬ store.reuses entry)
    (present : (store.apply entry).1.jobs.lookup id = some next) :
    (∃ lock, next = (job.claimedUnder lock).attempted ∧ store.succeeds (Command.claims id) entry) ∨
      next.attempt = job.attempt ∧ next.executionID = job.executionID ∧ next.id = job.id ∧
        (next.active → job.active) := by
  obtain ⟨same, reached, advances⟩ := apply_advances found entry
  cases reached.symm.trans present
  cases advances with
  | same => exact Or.inr ⟨rfl, rfl, rfl, fun active => active⟩
  | attempt pending lock counted => exact Or.inl ⟨lock, rfl, counted⟩
  | reuse pending lock =>
      obtain ⟨other, attempted⟩ := fresh_attempt found pending fresh present rfl
      have wrapped : job.attempt = (job.attempt + 1) % 2 ^ 32 := congrArg Job.attempt attempted
      omega
  | move kind =>
      refine Or.inr ⟨rfl, rfl, rfl, fun _ => ?_⟩
      simpa [Job.active] using (Job.transition_moves kind).2.2
  | release active freed => exact Or.inr ⟨rfl, rfl, rfl, fun _ => active⟩

theorem Countable.attempts_apply {rest : List CommandEntry} (countable : store.Countable (entry :: rest))
    (fresh : ¬ store.reuses entry) (id : JobID) :
    store.attempts id ≤ (store.apply entry).1.attempts id ∧
      (store.apply entry).1.attempts id ≤
        store.attempts id + if store.succeeds (Command.claims id) entry then 1 else 0 := by
  have room := countable id
  simp only [successes] at room
  cases before : store.jobs.lookup id with
  | none =>
      cases after : (store.apply entry).1.jobs.lookup id with
      | none => simp [attempts, before, after]
      | some job => simp [attempts, before, after, attempt_created before after]
  | some job =>
      obtain ⟨next, present, _⟩ := apply_advances before entry
      rw [attempts_eq before] at room ⊢
      rw [attempts_eq present]
      rcases attempt_or_keep before fresh present with ⟨lock, rfl, counted⟩ | ⟨same, _⟩
      · rw [if_pos counted] at room ⊢
        have unwrapped : (job.attempt + 1) % 2 ^ 32 = job.attempt + 1 := Nat.mod_eq_of_lt (by omega)
        simp only [Job.attempted, Job.claimedUnder, unwrapped]
        omega
      · omega

theorem Countable.tail {rest : List CommandEntry} (countable : store.Countable (entry :: rest))
    (fresh : ¬ store.reuses entry) : (store.apply entry).1.Countable rest := by
  intro id
  have room := countable id
  have grown := (countable.attempts_apply fresh id).2
  simp only [successes] at room
  omega

/-- All jobs are identified by their attempts. -/
def Identifies (store : Store) : Prop :=
  ∀ id job, store.jobs.lookup id = some job → job.Identified id

theorem Identifies.apply {rest : List CommandEntry} (identifies : store.Identifies)
    (countable : store.Countable (entry :: rest)) (fresh : ¬ store.reuses entry) :
    (store.apply entry).1.Identifies := by
  intro id next present
  cases before : store.jobs.lookup id with
  | none =>
      obtain ⟨command, rfl, rfl⟩ := job_created before present
      have inactive : ¬ (command.newJob entry.index).active := by
        simp [Job.active, Command.newJob]
      exact ⟨rfl, fun active => absurd active inactive, fun active => absurd active inactive⟩
  | some job =>
      have identified := identifies id job before
      rcases attempt_or_keep before fresh present with ⟨lock, rfl, counted⟩ | ⟨attempt, execution, named, active⟩
      · have room := countable id
        simp only [successes, counted, ↓reduceIte, attempts_eq before] at room
        have unwrapped : (job.attempt + 1) % 2 ^ 32 = job.attempt + 1 := Nat.mod_eq_of_lt (by omega)
        refine ⟨identified.named, fun _ => ?_, fun _ => ?_⟩
        · simp only [Job.attempted, Job.claimedUnder, identified.named]
        · simp only [Job.attempted, Job.claimedUnder, unwrapped]
          omega
      · refine ⟨named.trans identified.named, fun held => ?_, fun held => ?_⟩
        · rw [attempt, execution]
          exact identified.execution (active held)
        · rw [attempt]
          exact identified.attempted (active held)

theorem neverReuses_cons {rest : List CommandEntry} :
    store.neverReuses (entry :: rest) ↔ ¬ store.reuses entry ∧ (store.apply entry).1.neverReuses rest := by
  simp [neverReuses]

theorem neverReuses_append {first second : List CommandEntry} :
    store.neverReuses (first ++ second) ↔ store.neverReuses first ∧ (store.run first).neverReuses second := by
  induction first generalizing store with
  | nil => simp [neverReuses]
  | cons entry rest ih => rw [List.cons_append, neverReuses_cons, neverReuses_cons, ih, run_cons, and_assoc]

/-- Over a run the jobs stay identified, attempts do not decrease, and what is left can be counted. -/
theorem Identifies.run {first second : List CommandEntry} (identifies : store.Identifies)
    (countable : store.Countable (first ++ second)) (fresh : store.neverReuses first) :
    (store.run first).Identifies ∧ (store.run first).Countable second ∧
      ∀ id, store.attempts id ≤ (store.run first).attempts id := by
  induction first generalizing store with
  | nil => exact ⟨identifies, countable, fun _ => le_rfl⟩
  | cons entry rest ih =>
      obtain ⟨now, later⟩ := neverReuses_cons.mp fresh
      have remaining : store.Countable (entry :: (rest ++ second)) := countable
      obtain ⟨identified, counted, grows⟩ := ih (identifies.apply remaining now) (remaining.tail now) later
      exact ⟨identified, counted, fun id => (remaining.attempts_apply now id).1.trans (grows id)⟩

/-- What is scheduled gets the next attempt, and is named by it. -/
theorem Schedules.execution {rest : List CommandEntry} (schedules : store.Schedules entry id next)
    (identifies : store.Identifies) (countable : store.Countable (entry :: rest))
    (fresh : ¬ store.reuses entry) :
    next.executionID = executionID id next.attempt ∧ store.attempts id < next.attempt := by
  obtain ⟨job, found, pending⟩ := schedules.pending
  have active : next.active := by simp [Job.active, schedules.scheduled]
  have identified := identifies.apply countable fresh id next schedules.found
  refine ⟨identified.execution active, ?_⟩
  obtain ⟨lock, rfl⟩ := fresh_attempt found pending fresh schedules.found schedules.scheduled
  have grown := (countable.attempts_apply fresh id).1
  have attempted : 1 ≤ ((job.claimedUnder lock).attempted).attempt := identified.attempted active
  rw [attempts_eq found, attempts_eq schedules.found] at grown
  rw [attempts_eq found]
  simp only [Job.attempted, Job.claimedUnder] at attempted grown ⊢
  omega

theorem identifies_new : new.Identifies :=
  fun _ _ present => nomatch present

/-- As long as no worker claims a job under a lock that it had before, active jobs are named by their id and
attempt, and no two claims give the same name. -/
theorem executions_identify_claims {entries : List CommandEntry} (fresh : new.neverReuses entries)
    (few : ∀ id, new.successes (Command.claims id) entries < 2 ^ 32) :
    (∀ id job, (new.run entries).jobs.lookup id = some job → job.state = .scheduled ∨ job.state = .running →
      job.executionID = executionID job.id job.attempt ∧ 1 ≤ job.attempt) ∧
    ∀ earlier first middle second rest, entries = earlier ++ first :: (middle ++ second :: rest) →
      ∀ id next other final, (new.run earlier).Schedules first id next →
        (new.run (earlier ++ first :: middle)).Schedules second other final →
          next.executionID ≠ final.executionID := by
  have countable : new.Countable entries := by
    intro id
    have none : new.attempts id = 0 := rfl
    rw [none, zero_add]
    exact few id
  constructor
  · intro id job found active
    have identified := (identifies_new.run (by rw [List.append_nil]; exact countable) fresh).1 id job found
    have held : job.active := by simpa [Job.active] using active
    rw [identified.named]
    exact ⟨identified.execution held, identified.attempted held⟩
  · rintro earlier first middle second rest rfl id next other final schedules schedulesToo same
    obtain ⟨freshEarlier, freshLater⟩ := neverReuses_append.mp fresh
    obtain ⟨freshFirst, freshMiddle⟩ := neverReuses_cons.mp freshLater
    obtain ⟨freshMiddle, freshSecond⟩ := neverReuses_append.mp freshMiddle
    obtain ⟨identified, counted, _⟩ := identifies_new.run countable freshEarlier
    obtain ⟨identifiedToo, countedToo, grows⟩ :=
      (identified.apply counted freshFirst).run (counted.tail freshFirst) freshMiddle
    rw [run_append, run_cons] at schedulesToo
    obtain ⟨named, _⟩ := schedules.execution identified counted freshFirst
    obtain ⟨namedToo, above⟩ :=
      schedulesToo.execution identifiedToo countedToo (neverReuses_cons.mp freshSecond).1
    rw [named, namedToo] at same
    obtain ⟨rfl, attempts⟩ := executionID_inj same
    have kept := grows id
    rw [attempts_eq schedules.found] at kept
    omega

theorem successes_le_length (store : Store) (select : Command → Bool) (entries : List CommandEntry) :
    store.successes select entries ≤ entries.length := by
  induction entries generalizing store with
  | nil => exact le_rfl
  | cons entry rest ih =>
      have later := ih (store.apply entry).1
      simp only [successes, List.length_cons]
      split
      · omega
      · omega

/-- A job is claimed, reclaimed and claimed again. -/
theorem second_claim_gets_new_execution : ∃ (earlier middle : List CommandEntry) (first second : CommandEntry)
    (next final : Job), (new.run earlier).Schedules first "j" next ∧
      (new.run (earlier ++ first :: middle)).Schedules second "j" final ∧
        next.executionID ≠ final.executionID := by
  let created : CommandEntry := ⟨1, some { type := .createJob, jobID := "j" }⟩
  let claim : CommandEntry := ⟨2, some { type := .claimJob, jobID := "j", ownerID := "w", expiresAt := 5 }⟩
  let reclaim : CommandEntry := ⟨3, some { type := .jobReclaim, jobID := "j", fencingToken := 1, now := 5 }⟩
  let again : CommandEntry := ⟨4, some { type := .claimJob, jobID := "j", ownerID := "w", expiresAt := 9 }⟩
  have identify := @executions_identify_claims [created, claim, reclaim, again] (by decide +kernel)
    fun id => (successes_le_length _ _ _).trans_lt (by decide)
  have schedules : (new.run [created]).Schedules claim "j" ⟨"j", [], .scheduled, 0, "w", 1, 1, "j/1", 1⟩ :=
    ⟨⟨_, rfl, rfl⟩, ⟨⟨"j", [], .pending, 0, "", 0, 0, "", 1⟩, by decide +kernel, rfl⟩, by decide +kernel, rfl⟩
  have schedulesToo : (new.run [created, claim, reclaim]).Schedules again "j"
      ⟨"j", [], .scheduled, 0, "w", 2, 2, "j/2", 1⟩ :=
    ⟨⟨_, rfl, rfl⟩, ⟨⟨"j", [], .pending, 0, "", 0, 1, "j/1", 1⟩, by decide +kernel, rfl⟩, by decide +kernel, rfl⟩
  exact ⟨[created], [reclaim], claim, again, _, _, schedules, schedulesToo,
    identify.2 [created] claim [reclaim] again [] rfl "j" _ "j" _ schedules schedulesToo⟩

/-- A worker that has acquired the lock of a job claims the job, which gets neither an attempt nor a name. -/
theorem reused_lock_leaves_no_execution : ∃ (entries : List CommandEntry) (job : Job),
    (∀ id, new.successes (Command.claims id) entries < 2 ^ 32) ∧
      (new.run entries).jobs.lookup "j" = some job ∧ job.state = .scheduled ∧ job.attempt = 0 ∧
      job.executionID = "" ∧ job.executionID ≠ executionID job.id job.attempt := by
  refine ⟨numbered [{ type := .lockAcquire, key := "j", ownerID := "w", expiresAt := 5 },
    { type := .createJob, jobID := "j" },
    { type := .claimJob, jobID := "j", ownerID := "w", expiresAt := 5 }],
    ⟨"j", [], .scheduled, 0, "w", 1, 0, "", 2⟩, fun id => (successes_le_length _ _ _).trans_lt (by decide),
    by decide +kernel, rfl, rfl, rfl, by decide +kernel⟩

end Store

end Raftiq.Kv
