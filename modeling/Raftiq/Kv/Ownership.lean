import Raftiq.Kv.Effect
import Raftiq.Run

namespace Raftiq.Kv

/-- What holds of a lock in the table. -/
structure Lock.Sound (lock : Lock) (key : String) (nextToken : ℕ) : Prop where
  named : key ≠ ""
  key : lock.key = key
  owned : lock.ownerID ≠ ""
  valid : lock.fencingToken ≠ 0
  granted : lock.fencingToken ≤ nextToken

/-- What a job's worker and token have to do with the lock under its id. -/
def Job.Owned (job : Job) (lock : Option Lock) : Prop :=
  match job.state with
  | .pending => job.assignedWorkerID = "" ∧ job.fencingToken = 0
  | .scheduled | .running =>
      ∃ held ∈ lock, held.ownerID = job.assignedWorkerID ∧ held.fencingToken = job.fencingToken
  | .succeeded | .failed => True
  | .unknown _ => False

namespace Job

variable {job : Job} {lock other : Option Lock}

theorem Owned.of_inactive (owned : job.Owned lock) (inactive : ¬ job.active) : job.Owned other := by
  unfold Owned at owned ⊢
  cases state : job.state with
  | scheduled => simp [active, state] at inactive
  | running => simp [active, state] at inactive
  | succeeded => trivial
  | failed => trivial
  | pending | unknown name =>
      rw [state] at owned
      exact owned

theorem Owned.of_active (owned : job.Owned lock) (active : job.active) :
    ∃ held ∈ lock, held.ownerID = job.assignedWorkerID ∧ held.fencingToken = job.fencingToken := by
  simp only [Job.active, decide_eq_true_eq] at active
  unfold Owned at owned
  rcases active with state | state
  · simpa only [state] using owned
  · simpa only [state] using owned

theorem owned_claimedUnder (job : Job) (lock : Lock) : (job.claimedUnder lock).Owned (some lock) :=
  ⟨lock, rfl, rfl, rfl⟩

end Job

namespace Store

structure Sound (store : Store) : Prop where
  lock : ∀ key lock, store.locks.get key = some lock → lock.Sound key store.locks.nextToken
  job : ∀ id job, store.jobs.lookup id = some job →
    id ≠ "" ∧ job.id = id ∧ job.Owned (store.locks.get id)

/-- The command does not expire the lock of a job that is scheduled or running, and there is a
token left for it. -/
def sparesActive (store : Store) (command : Command) : Bool :=
  match command.type with
  | .lockExpire =>
      decide (∀ job ∈ store.jobs.lookup command.key, job.active → job.fencingToken ≠ command.fencingToken)
  | .lockAcquire | .claimJob => decide (store.locks.nextToken + 1 < 2 ^ 64)
  | _ => true

def SparesActive (store : Store) (entry : CommandEntry) : Prop :=
  ∀ command ∈ entry.command, store.sparesActive command

instance (store : Store) : DecidablePred store.SparesActive :=
  fun entry => inferInstanceAs (Decidable (∀ command ∈ entry.command, store.sparesActive command))

def step (store : Store) (entry : CommandEntry) : Option Store :=
  some (store.apply entry).1

variable {store after : Store} {command : Command} {index : ℕ}

theorem sound_new : new.Sound where
  lock key lock held := by simp [new, LockState.new, LockState.get] at held
  job id job found := by simp [new] at found

theorem Sound.newLock (sound : store.Sound) {key ownerID : String} {expiresAt : ℤ} (named : key ≠ "")
    (owned : ownerID ≠ "") (few : store.locks.nextToken + 1 < 2 ^ 64) (other : String) (lock : Lock)
    (held : (store.locks.grant (store.locks.newLock key ownerID expiresAt index)).get other = some lock) :
    lock.Sound other (store.locks.grant (store.locks.newLock key ownerID expiresAt index)).nextToken := by
  have token : (store.locks.nextToken + 1) % 2 ^ 64 = store.locks.nextToken + 1 := Nat.mod_eq_of_lt few
  rw [LockState.get_grant] at held
  split at held
  · rename_i same
    cases held
    exact ⟨same ▸ named, same.symm, owned, by simp only [LockState.newLock]; omega, le_rfl⟩
  · have earlier := sound.lock other lock held
    refine { earlier with granted := earlier.granted.trans ?_ }
    simp only [LockState.grant, LockState.newLock]
    omega

/-- A new lock is under a free key, which no active job has. -/
theorem Sound.job_grant (sound : store.Sound) {lock : Lock} (free : store.locks.get lock.key = none)
    (id : JobID) (job : Job) (found : store.jobs.lookup id = some job) :
    job.Owned ((store.locks.grant lock).get id) := by
  have owned := (sound.job id job found).2.2
  rw [LockState.get_grant]
  split
  · rename_i same
    refine owned.of_inactive fun active => ?_
    obtain ⟨held, member, _⟩ := owned.of_active active
    rw [same, free] at member
    cases member
  · exact owned

theorem Sound.lock_delete (sound : store.Sound) {key : String} (other : String) (lock : Lock)
    (held : (store.locks.delete key).get other = some lock) :
    lock.Sound other (store.locks.delete key).nextToken := by
  rw [LockState.get_delete] at held
  split at held
  · cases held
  · exact sound.lock other lock held

theorem Sound.setJob (sound : store.Sound) {id : JobID} {job : Job} (named : id ≠ "") (same : job.id = id)
    (owned : job.Owned (store.locks.get id)) : (store.setJob id job).Sound where
  lock := sound.lock
  job := by
    intro other found member
    simp only [Store.setJob, lookup_insert] at member
    split at member
    · rename_i own
      cases member
      subst own
      exact ⟨named, same, owned⟩
    · exact sound.job other found member

theorem Sound.effect {succeeded : Bool} (sound : store.Sound)
    (effect : store.Effect command index after succeeded)
    (spares : store.SparesActive ⟨index, some command⟩) : after.Sound := by
  have condition := spares command rfl
  unfold sparesActive at condition
  cases effect with
  | refused => exact sound
  | idle kind => exact sound
  | data kind map => exact { sound with }
  | fence kind held token valid => exact { sound with }
  | grant kind named owned free =>
      simp only [kind, decide_eq_true_eq] at condition
      refine ⟨sound.newLock named owned condition, fun id job found => ?_⟩
      obtain ⟨name, same, _⟩ := sound.job id job found
      exact ⟨name, same, sound.job_grant free id job found⟩
  | expire kind held token valid =>
      rename_i lock
      simp only [kind, decide_eq_true_eq] at condition
      refine ⟨sound.lock_delete, fun id job found => ?_⟩
      obtain ⟨name, same, owned⟩ := sound.job id job found
      refine ⟨name, same, ?_⟩
      rw [LockState.get_delete]
      split
      · rename_i own
        subst own
        refine owned.of_inactive fun active => ?_
        obtain ⟨current, member, _, matches_⟩ := owned.of_active active
        have unique : current = lock := Option.some.inj (member.symm.trans held)
        exact condition job found active (by rw [← matches_, unique, token])
      · exact owned
  | create kind named fresh => exact sound.setJob named rfl ⟨rfl, rfl⟩
  | claim kind named owned found pending free granted =>
      rename_i job lock
      simp only [kind, decide_eq_true_eq] at condition
      have locked : ({ store with locks := store.locks.grant lock } : Store).Sound := by
        subst granted
        refine ⟨sound.newLock named owned condition, fun id other member => ?_⟩
        obtain ⟨name, same, _⟩ := sound.job id other member
        exact ⟨name, same, sound.job_grant free id other member⟩
      refine locked.setJob named (sound.job _ job found).2.1 ?_
      have held : (store.locks.grant lock).get command.jobID = some lock := by
        rw [LockState.get_grant, if_pos (by rw [granted]; rfl)]
      rw [held]
      exact job.owned_claimedUnder lock
  | reuse kind found pending held owned =>
      rename_i job lock
      obtain ⟨named, same, _⟩ := sound.job _ job found
      refine sound.setJob named same ?_
      rw [held]
      exact job.owned_claimedUnder lock
  | transition kind holds state =>
      rename_i fromState toState job lock
      obtain ⟨named, same, owned⟩ := sound.job _ job holds.found
      refine sound.setJob named same ?_
      cases type : command.type with
      | jobStart =>
          rw [type] at kind
          cases kind
          exact owned.of_active (by simp [Job.active, state])
      | jobSucceeded | jobFailed =>
          rw [type] at kind
          cases kind
          trivial
      | _ => simp [type, CommandType.transition] at kind
  | reclaim kind holds active =>
      rename_i job lock
      obtain ⟨named, same, _⟩ := sound.job _ job holds.found
      refine ⟨sound.lock_delete, fun id other found => ?_⟩
      simp only [Store.setJob, lookup_insert] at found ⊢
      rw [LockState.get_delete]
      split at found
      · rename_i own
        cases found
        exact ⟨own ▸ named, same.trans own.symm, rfl, rfl⟩
      · rename_i different
        rw [if_neg different]
        exact sound.job id other found

theorem Sound.apply {entry : CommandEntry} (sound : store.Sound) (spares : store.SparesActive entry) :
    (store.apply entry).1.Sound := by
  rcases store.apply_cases entry with ⟨same, _⟩ | ⟨command, decoded, effect⟩
  · rw [same]
    exact sound
  · refine sound.effect effect ?_
    intro other member
    exact spares other (decoded.trans member)

theorem reaches_sound (reached : Reaches step (fun store entry => store.SparesActive entry) new store) :
    store.Sound := by
  refine reached.invariant Sound sound_new ?_
  rintro before entry _ sound spares ⟨⟩
  exact sound.apply spares

/-- As long as no lock of an active job is expired, an active job owns the lock under its id, and a
pending job owns nothing. -/
theorem active_jobs_own_their_lock
    (reached : Reaches step (fun store entry => store.SparesActive entry) new store) {id : JobID} {job : Job}
    (found : store.jobs.lookup id = some job) :
    (job.state = .scheduled ∨ job.state = .running →
      job.fencingToken ≠ 0 ∧ ∃ lock, store.locks.get job.id = some lock ∧
        lock.ownerID = job.assignedWorkerID ∧ lock.fencingToken = job.fencingToken) ∧
    (job.state = .pending → job.assignedWorkerID = "" ∧ job.fencingToken = 0) := by
  have sound := reaches_sound reached
  obtain ⟨_, rfl, owned⟩ := sound.job id job found
  constructor
  · intro active
    obtain ⟨lock, held, owner, token⟩ := owned.of_active (by simpa [Job.active] using active)
    exact ⟨token ▸ (sound.lock _ lock held).valid, lock, held, owner, token⟩
  · intro pending
    simpa only [Job.Owned, pending] using owned

/-- A job is claimed and started, and another lock of its worker expires. -/
theorem claimed_job_owns_lock : ∃ (store : Store) (job : Job),
    store.jobs.lookup "j" = some job ∧ job.state = .running ∧ job.fencingToken ≠ 0 ∧
      ∃ lock, store.locks.get job.id = some lock ∧ lock.ownerID = job.assignedWorkerID ∧
        lock.fencingToken = job.fencingToken := by
  have run : ∃ store, Reaches step (fun store entry => store.SparesActive entry) new store ∧
      (store.jobs.lookup "j").any fun job => job.state = .running :=
    Reaches.of_leadsTo (fun store entry => decide (store.SparesActive entry)) (fun _ _ => of_decide_eq_true)
      (numbered [{ type := .lockAcquire, key := "k", ownerID := "w", expiresAt := 5 },
        { type := .createJob, jobID := "j" },
        { type := .claimJob, jobID := "j", ownerID := "w", expiresAt := 5 },
        { type := .jobStart, jobID := "j", ownerID := "w", executionID := "j/1", fencingToken := 2, now := 1 },
        { type := .lockExpire, key := "k", fencingToken := 1 }])
      (by decide +kernel)
  obtain ⟨store, reached, found⟩ := run
  obtain ⟨job, found, running⟩ := (Option.any_eq_true _ _).mp found
  have state : job.state = .running := of_decide_eq_true running
  exact ⟨store, job, found, state, (active_jobs_own_their_lock reached found).1 (Or.inr state)⟩

/-- `LOCK_EXPIRE` for the lock of a scheduled job. -/
theorem expired_lock_orphans_job : ∃ (store : Store) (job : Job),
    Reaches step (fun _ _ => True) new store ∧ store.jobs.lookup "j" = some job ∧ job.state = .scheduled ∧
      store.locks.get job.id = none := by
  have run : ∃ store, Reaches step (fun _ _ => True) new store ∧
      (store.jobs.lookup "j").any fun job => job.state = .scheduled ∧ store.locks.get job.id = none :=
    Reaches.of_leadsTo (fun _ _ => true) (fun _ _ _ => trivial)
      (numbered [{ type := .createJob, jobID := "j" },
        { type := .claimJob, jobID := "j", ownerID := "w", expiresAt := 5 },
        { type := .lockExpire, key := "j", fencingToken := 1 }])
      (by decide +kernel)
  obtain ⟨store, reached, found⟩ := run
  obtain ⟨job, found, orphaned⟩ := (Option.any_eq_true _ _).mp found
  obtain ⟨state, lost⟩ := of_decide_eq_true orphaned
  exact ⟨store, job, reached, found, state, lost⟩

end Store

end Raftiq.Kv
