import Raftiq.Kv.Lease
import Raftiq.Kv.Lifecycle
import Raftiq.Kv.Snapshot
import Mathlib.Data.Prod.Lex
import Mathlib.Data.String.Basic

namespace Raftiq.Kv

/-- What the listings sort by. -/
def Job.rank (job : Job) : ℤ ×ₗ String :=
  toLex (job.scheduledAt, job.id)

namespace Store

def updateJob (store : Store) (job : Job) : Store × Except StoreError Unit :=
  if job.id = "" then (store, .error .missingJobID)
  else
    match store.jobs.lookup job.id with
    | none => (store, .error .jobNotFound)
    | some _ => (store.setJob job.id job, .ok ())

def deleteJob (store : Store) (id : JobID) : Store × Bool :=
  match store.jobs.lookup id with
  | none => (store, false)
  | some _ => ({ store with jobs := store.jobs.erase id }, true)

def listPendingJobs (store : Store) (order : List String) : List Job :=
  store.listJobs order fun job => job.state = .pending

/-- Every job is filed under its own id. -/
def Keyed (store : Store) : Prop :=
  ∀ id job, store.jobs.lookup id = some job → job.id = id

variable {store : Store} {order : List String} {select : Job → Bool}

section Keyed

theorem keyed_new : new.Keyed :=
  fun _ _ found => (by cases found)

theorem Keyed.setJob (keyed : store.Keyed) {id : JobID} {job : Job} (same : job.id = id) :
    (store.setJob id job).Keyed := by
  intro other found present
  rcases lookup_setJob.mp present with ⟨rfl, rfl⟩ | ⟨_, present⟩
  · exact same
  · exact keyed other found present

theorem Keyed.replaceJob (keyed : store.Keyed) {id : JobID} {job next : Job}
    (found : store.jobs.lookup id = some job) (same : next.id = job.id) : (store.setJob id next).Keyed :=
  keyed.setJob (same.trans (keyed id job found))

theorem Keyed.effect {command : Command} {index : ℕ} {after : Store} {succeeded : Bool} (keyed : store.Keyed)
    (effect : store.Effect command index after succeeded) : after.Keyed := by
  cases effect with
  | refused | idle | data | fence | grant | expire => exact keyed
  | create => exact keyed.setJob rfl
  | claim _ _ _ found => exact Keyed.replaceJob keyed found rfl
  | reuse _ found => exact keyed.replaceJob found rfl
  | transition _ holds => exact keyed.replaceJob holds.found rfl
  | reclaim _ holds => exact Keyed.replaceJob keyed holds.found rfl

theorem Keyed.apply (keyed : store.Keyed) (entry : CommandEntry) : (store.apply entry).1.Keyed := by
  rcases store.apply_cases entry with ⟨same, _⟩ | ⟨command, _, effect⟩
  · rw [same]
    exact keyed
  · exact keyed.effect effect

theorem Keyed.createJob (keyed : store.Keyed) (job : Job) : (store.createJob job).1.Keyed := by
  unfold Store.createJob
  split
  · exact keyed
  · split
    · exact keyed
    · split
      · exact keyed
      · exact keyed.setJob rfl

theorem Keyed.updateJob (keyed : store.Keyed) (job : Job) : (store.updateJob job).1.Keyed := by
  unfold Store.updateJob
  split
  · exact keyed
  · split
    · exact keyed
    · exact keyed.setJob rfl

theorem Keyed.deleteJob (keyed : store.Keyed) (id : JobID) : (store.deleteJob id).1.Keyed := by
  unfold Store.deleteJob
  split
  · exact keyed
  · intro other job present
    rw [lookup_erase] at present
    split at present
    · cases present
    · exact keyed other job present

theorem Keyed.claimJob (keyed : store.Keyed) (id : JobID) (workerID : String) (expiresAt : ℤ) (grantIndex : ℕ) :
    (store.claimJob id workerID expiresAt grantIndex).1.Keyed := by
  unfold Store.claimJob
  split
  · exact keyed
  · split
    · exact keyed
    · rename_i job found
      split
      · exact keyed
      · dsimp only
        split
        · unfold handleFailedClaim
          split
          · exact Keyed.replaceJob keyed found rfl
          · exact keyed
        · exact Keyed.replaceJob keyed found rfl

theorem Keyed.reclaimExpiredJob (keyed : store.Keyed) (id : JobID) (expectedToken : ℕ) (now : ℤ) :
    (store.reclaimExpiredJob id expectedToken now).1.Keyed := by
  unfold Store.reclaimExpiredJob
  split
  · exact keyed
  · split
    · exact keyed
    · rename_i job found
      split
      · exact keyed
      · split
        · exact keyed
        · split
          · exact keyed
          · split
            · exact keyed
            · split
              · exact keyed
              · exact Keyed.replaceJob keyed found rfl

theorem Keyed.transitionJobState (keyed : store.Keyed) (jobID : JobID) (workerID executionID : String)
    (fencingToken : ℕ) (expectedState nextState : JobState) (now : ℤ) :
    (store.transitionJobState jobID workerID executionID fencingToken expectedState nextState now).1.Keyed := by
  unfold Store.transitionJobState
  split
  · exact keyed
  · split
    · exact keyed
    · split
      · exact keyed
      · rename_i job found
        split
        · exact keyed
        · exact keyed.replaceJob found rfl

/-- A snapshot is checked before it replaces the store. -/
theorem Keyed.restore (keyed : store.Keyed) {json : StoreJSON} {data : Bytes} {lockOrder jobOrder : List String}
    (iterates : ∀ snapshot, json.snapshot data = .ok snapshot → Iterates snapshot.jobs jobOrder) :
    (store.restore json data lockOrder jobOrder).1.Keyed := by
  unfold Store.restore
  split
  · exact keyed
  · unfold restoreLegacy
    split
    · exact keyed
    · exact keyed_new
  · exact keyed
  · split
    · exact keyed
    · unfold restoreVersioned
      split
      · exact keyed
      · rename_i snapshot read
        split
        · exact keyed
        · rename_i validated
          intro id job found
          unfold validateSnapshotState at validated
          split at validated
          · cases validated
          · have visited : id ∈ jobOrder := by
              rw [(iterates snapshot read).mem, show snapshot.jobs.lookup id = some job from found]
              rfl
            exact validateJob_same (rangeMap_passed validated visited found)

end Keyed

/-- The methods of a store that change its jobs. -/
inductive Call where
  | apply (entry : CommandEntry)
  | createJob (job : Job)
  | updateJob (job : Job)
  | deleteJob (id : JobID)
  | claimJob (id : JobID) (workerID : String) (expiresAt : ℤ) (grantIndex : ℕ)
  | reclaimExpiredJob (id : JobID) (expectedToken : ℕ) (now : ℤ)
  | transitionJobState (jobID : JobID) (workerID executionID : String) (fencingToken : ℕ)
      (expectedState nextState : JobState) (now : ℤ)
  | restore (data : Bytes) (lockOrder jobOrder : List String)

def perform (json : StoreJSON) (store : Store) : Call → Store
  | .apply entry => (store.apply entry).1
  | .createJob job => (store.createJob job).1
  | .updateJob job => (store.updateJob job).1
  | .deleteJob id => (store.deleteJob id).1
  | .claimJob id workerID expiresAt grantIndex => (store.claimJob id workerID expiresAt grantIndex).1
  | .reclaimExpiredJob id expectedToken now => (store.reclaimExpiredJob id expectedToken now).1
  | .transitionJobState jobID workerID executionID fencingToken expectedState nextState now =>
      (store.transitionJobState jobID workerID executionID fencingToken expectedState nextState now).1
  | .restore data lockOrder jobOrder => (store.restore json data lockOrder jobOrder).1

/-- `Restore` goes through all jobs of a snapshot. -/
def Call.Complete (json : StoreJSON) : Call → Prop
  | .restore data _ jobOrder => ∀ snapshot, json.snapshot data = .ok snapshot → Iterates snapshot.jobs jobOrder
  | _ => True

/-- The stores that any sequence of calls leads to. -/
def Built (json : StoreJSON) : Store → Prop :=
  Reaches (fun store call => some (perform json store call)) (fun _ call => call.Complete json) new

theorem Keyed.perform {json : StoreJSON} {call : Call} (keyed : store.Keyed) (complete : call.Complete json) :
    (store.perform json call).Keyed := by
  cases call with
  | apply entry => exact keyed.apply entry
  | createJob job => exact keyed.createJob job
  | updateJob job => exact keyed.updateJob job
  | deleteJob id => exact keyed.deleteJob id
  | claimJob id workerID expiresAt grantIndex => exact keyed.claimJob id workerID expiresAt grantIndex
  | reclaimExpiredJob id expectedToken now => exact keyed.reclaimExpiredJob id expectedToken now
  | transitionJobState jobID workerID executionID fencingToken expectedState nextState now =>
      exact keyed.transitionJobState jobID workerID executionID fencingToken expectedState nextState now
  | restore data lockOrder jobOrder => exact keyed.restore complete

theorem Built.keyed {json : StoreJSON} (built : Built json store) : store.Keyed := by
  refine Reaches.invariant Keyed keyed_new (fun before call after keyed complete performed => ?_) built
  cases performed
  exact keyed.perform complete

section Listing

theorem jobLess_iff {first second : Job} : jobLess first second ↔ first.rank < second.rank := by
  unfold jobLess Job.rank
  rw [Prod.Lex.toLex_lt_toLex]
  split
  · rename_i different
    simp [different]
  · rename_i same
    simp [not_not.mp same]

theorem listJobs_perm (store : Store) (order : List String) (select : Job → Bool) :
    (store.listJobs order select).Perm ((order.filterMap store.jobs.lookup).filter select) :=
  List.mergeSort_perm _ _

theorem listJobs_sorted (store : Store) (order : List String) (select : Job → Bool) :
    (store.listJobs order select).Pairwise (·.rank ≤ ·.rank) := by
  have ordered : ∀ first second : Job, decide (¬ jobLess second first) = true ↔ first.rank ≤ second.rank := by
    intro first second
    rw [decide_eq_true_iff, jobLess_iff, not_lt]
  have sorted : (store.listJobs order select).Pairwise
      fun first second => decide (¬ jobLess second first) = true :=
    List.pairwise_mergeSort (fun first second third => by simpa only [ordered] using le_trans)
      (fun first second => by simpa only [Bool.or_eq_true, ordered] using le_total _ _) _
  exact sorted.imp (ordered _ _).mp

theorem listJobs_scheduledAt (store : Store) (order : List String) (select : Job → Bool) :
    (store.listJobs order select).Pairwise (·.scheduledAt ≤ ·.scheduledAt) := by
  refine (store.listJobs_sorted order select).imp fun {first second} le => ?_
  rcases Prod.Lex.toLex_le_toLex.mp le with earlier | ⟨same, _⟩
  · exact earlier.le
  · exact same.le

theorem id_eq_of_rank_eq {first second : Job} (same : first.rank = second.rank) : first.id = second.id :=
  congrArg (fun rank => (ofLex rank).2) same

theorem Keyed.listJobs_increasing (keyed : store.Keyed) (nodup : order.Nodup) (select : Job → Bool) :
    (store.listJobs order select).Pairwise (·.rank < ·.rank) := by
  have ids : (store.listJobs order select).Pairwise (·.id ≠ ·.id) :=
    ((store.listJobs_perm order select).pairwise_iff fun {_ _} different => different.symm).mpr
      ((pairwise_name keyed nodup).filter _)
  refine ((store.listJobs_sorted order select).and ids).imp fun {first second} both => ?_
  exact lt_of_le_of_ne both.1 fun same => both.2 (id_eq_of_rank_eq same)

theorem Keyed.mem_listJobs_iff (keyed : store.Keyed) (iterates : Iterates store.jobs order) {job : Job} :
    job ∈ store.listJobs order select ↔ store.jobs.lookup job.id = some job ∧ select job := by
  rw [mem_listJobs]
  refine and_congr_left fun _ => ⟨fun ⟨id, _, found⟩ => ?_, fun found => ⟨job.id, ?_, found⟩⟩
  · rwa [keyed id job found]
  · rw [iterates.mem, found]
    rfl

/-- Whatever the map's order and whatever the sort does with it, the result is the same. -/
theorem Keyed.listJobs_unique (keyed : store.Keyed) (iterates : Iterates store.jobs order)
    {other : List String} (iteratesToo : Iterates store.jobs other) {listed : List Job}
    (perm : listed.Perm ((other.filterMap store.jobs.lookup).filter select))
    (sorted : listed.Pairwise fun first second => ¬ jobLess second first) :
    listed = store.listJobs order select := by
  have orders : other.Perm order :=
    (List.perm_ext_iff_of_nodup iteratesToo.nodup iterates.nodup).mpr fun key => by
      rw [iterates.mem, iteratesToo.mem]
  have same : listed.Perm (store.listJobs order select) :=
    perm.trans (((orders.filterMap _).filter _).trans (store.listJobs_perm order select).symm)
  refine same.eq_of_pairwise (fun first second member memberToo le ge => ?_)
    (sorted.imp fun {first second} => ?_) (store.listJobs_sorted order select)
  · have found := ((keyed.mem_listJobs_iff iterates).mp (same.mem_iff.mp member)).1
    have foundToo := ((keyed.mem_listJobs_iff iterates).mp memberToo).1
    rw [id_eq_of_rank_eq (le_antisymm le ge), foundToo] at found
    exact (Option.some.inj found).symm
  · rw [jobLess_iff, not_lt]
    exact id

end Listing

end Store

end Raftiq.Kv
