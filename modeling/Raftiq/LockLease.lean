import Raftiq.Admission
import Raftiq.Kv.Lease

namespace Raftiq

open Kv

/-- The last time that `UnixNano` can return. -/
def maxUnixNano : ℤ := 2 ^ 63 - 1

namespace Server

variable {now : ℤ} {pendingExpiration : GoMap ℕ} {locks : List Lock} {lock : Lock}

/-- A lock that has run out is expired unless that is in progress. -/
theorem mem_expireLocks (keys : locks.Pairwise (·.key ≠ ·.key)) (listed : lock ∈ locks)
    (positive : 0 < lock.expiresAt) (due : lock.expiresAt ≤ now)
    (idle : pendingExpiration.lookup lock.key ≠ some lock.fencingToken) :
    proposeLockExpiration lock.key lock.fencingToken ∈ (expireLocks now pendingExpiration locks).2 := by
  induction locks generalizing pendingExpiration with
  | nil => cases listed
  | cons current rest ih =>
      obtain ⟨apart, others⟩ := List.pairwise_cons.mp keys
      unfold expireLocks
      rcases List.mem_cons.mp listed with rfl | later
      · rw [if_neg (by omega)]
        simp [markExpirationPending, idle]
      · split
        · exact ih others later idle
        · split
          · exact ih others later idle
          · rename_i pending marked
            refine List.mem_cons_of_mem _ (ih others later ?_)
            unfold markExpirationPending at marked
            split at marked
            · cases marked
            · cases marked
              rw [lookup_insert, if_neg (apart lock later).symm]
              exact idle

end Server

namespace Kv.Store

variable {store : Store} {order : List String} {key : String} {lock : Lock}

/-- Only a lock that has run out is expired. -/
theorem Named.expired_of_proposed (named : store.Named) (held : store.locks.get key = some lock) {now : ℤ}
    {pendingExpiration : GoMap ℕ}
    (proposed : Server.proposeLockExpiration key lock.fencingToken ∈
      (Server.expireLocks now pendingExpiration (store.listLocks order)).2) :
    0 < lock.expiresAt ∧ lock.expiresAt ≤ now := by
  obtain ⟨other, listed, same, expired⟩ := Server.expireLocks_mem proposed
  obtain ⟨place, _, found⟩ := List.mem_filterMap.mp listed
  have own : key = other.key := congrArg Command.key same
  rw [← (named place other found).1, ← own, held] at found
  cases found
  exact expired

theorem Named.proposed_of_expired (named : store.Named) (iterates : Iterates store.locks.locks order)
    (held : store.locks.get key = some lock) {now : ℤ} (positive : 0 < lock.expiresAt)
    (due : lock.expiresAt ≤ now) {pendingExpiration : GoMap ℕ}
    (idle : pendingExpiration.lookup key ≠ some lock.fencingToken) :
    Server.proposeLockExpiration key lock.fencingToken ∈
      (Server.expireLocks now pendingExpiration (store.listLocks order)).2 := by
  have own := (named key lock held).1
  have visited : key ∈ order := by
    rw [iterates.mem, show store.locks.locks.lookup key = some lock from held]
    rfl
  have listed : lock ∈ store.listLocks order := List.mem_filterMap.mpr ⟨key, visited, held⟩
  subst own
  have keys : (store.listLocks order).Pairwise (·.key ≠ ·.key) :=
    pairwise_name (fun place lock found => (named place lock found).1) iterates.nodup
  exact Server.mem_expireLocks keys listed positive due idle

/-- A lock that was granted to `command` when its key was free, and that is still held at the end. -/
def HeldSince (entries : List CommandEntry) (command : Command) (lock : Lock) : Prop :=
  ∃ before index later, entries = before ++ ⟨index, some command⟩ :: later ∧
    (new.run before).locks.get command.key = none ∧
    ((new.run before).apply ⟨index, some command⟩).1.locks.get command.key = some lock ∧
    (new.run entries).locks.get command.key = some lock

theorem HeldSince.expiresAt {entries : List CommandEntry} {command : Command}
    (since : HeldSince entries command lock) (kind : command.type = .lockAcquire) :
    lock.expiresAt = command.expiresAt := by
  obtain ⟨before, index, later, _, free, granted, _⟩ := since
  rcases (new.run before).apply_cases ⟨index, some command⟩ with ⟨same, _⟩ | ⟨found, named, effect⟩
  · rw [same, free] at granted
    cases granted
  · cases named
    generalize ((new.run before).apply ⟨index, some command⟩).2.err.isNone = succeeded at effect
    generalize ((new.run before).apply ⟨index, some command⟩).1 = after at effect granted
    cases effect with
    | refused | idle | data | fence =>
        rw [free] at granted
        cases granted
    | grant _ valid owned none =>
        rw [LockState.get_grant] at granted
        cases granted.symm.trans (if_pos rfl)
        rfl
    | expire other | create other | claim other | reuse other | transition other | reclaim other =>
        rw [kind] at other
        cases other

end Kv.Store

namespace Server

variable {key ownerID : String} {leaseMillis now : ℤ} {command : Command}

theorem acquireLock_ok (accepted : acquireLock key ownerID leaseMillis now = .ok command) :
    0 < leaseMillis ∧ command.type = .lockAcquire ∧ command.key = key ∧
      command.expiresAt = Int.bmod (now + leaseMillis * 10 ^ 6) (2 ^ 64) := by
  unfold acquireLock at accepted
  split at accepted
  · cases accepted
  · split at accepted
    · cases accepted
    · split at accepted
      · cases accepted
      · rename_i positive
        cases accepted
        exact ⟨not_le.mp positive, rfl, rfl, by rw [unixNanoAfter, Int.add_bmod_bmod]⟩

/-- The lease of `leaseMillis` that is asked for at `now`: the proposed time is not too early, and whenever
the lock is held, its expiration is proposed once the lease is over and not before. -/
def LeaseLasts (leaseMillis now : ℤ) (command : Command) : Prop :=
  (now + leaseMillis * 10 ^ 6 ≤ command.expiresAt ∨ command.expiresAt = maxUnixNano) ∧
  0 < command.expiresAt ∧
  ∀ entries lock, Store.HeldSince entries command lock →
    ∀ clock order pendingExpiration, clock ≤ maxUnixNano → Iterates (Store.new.run entries).locks.locks order →
      (proposeLockExpiration command.key lock.fencingToken ∈
          (expireLocks clock pendingExpiration ((Store.new.run entries).listLocks order)).2 →
        now + leaseMillis * 10 ^ 6 ≤ clock ∨ clock = maxUnixNano) ∧
      (now + leaseMillis * 10 ^ 6 ≤ clock → pendingExpiration.lookup command.key ≠ some lock.fencingToken →
        proposeLockExpiration command.key lock.fencingToken ∈
          (expireLocks clock pendingExpiration ((Store.new.run entries).listLocks order)).2)

/-- Up to the largest time there is, the lease ends when it should; beyond it, it does so by chance only. -/
theorem bmod_late_enough_iff (requested : ℤ) :
    (requested ≤ Int.bmod requested (2 ^ 64) ∨ Int.bmod requested (2 ^ 64) = maxUnixNano) ↔
      requested ≤ maxUnixNano ∨ requested % 2 ^ 64 = maxUnixNano := by
  unfold maxUnixNano
  rw [Int.bmod_def]
  split
  · omega
  · omega

theorem bmod_cases {requested : ℤ} (positive : 0 < requested)
    (fits : requested ≤ maxUnixNano ∨ requested % 2 ^ 64 = maxUnixNano) :
    Int.bmod requested (2 ^ 64) = requested ∨
      Int.bmod requested (2 ^ 64) = maxUnixNano ∧ maxUnixNano < requested := by
  unfold maxUnixNano at fits ⊢
  rw [Int.bmod_def]
  split
  · omega
  · omega

/-- A lease lasts as long as requested exactly if it ends at a time that has 64 bits, or if it ends, by
chance, at the last such time. -/
theorem lease_lasts_iff (accepted : acquireLock key ownerID leaseMillis now = .ok command) (start : 0 ≤ now) :
    LeaseLasts leaseMillis now command ↔
      now + leaseMillis * 10 ^ 6 ≤ maxUnixNano ∨ (now + leaseMillis * 10 ^ 6) % 2 ^ 64 = maxUnixNano := by
  obtain ⟨positive, kind, own, expires⟩ := acquireLock_ok accepted
  have later : 0 < now + leaseMillis * 10 ^ 6 := by omega
  constructor
  · intro lasts
    have enough := lasts.1
    rwa [expires, bmod_late_enough_iff] at enough
  · intro fits
    have time := bmod_cases later fits
    rw [← expires] at time
    have first : 0 < command.expiresAt := by
      unfold maxUnixNano at time
      omega
    refine ⟨by rw [expires]; exact (bmod_late_enough_iff _).mpr fits, first, ?_⟩
    intro entries lock since clock order pendingExpiration inTime iterates
    have named : (Store.new.run entries).Named := Store.named_run entries Store.named_new
    have same : lock.expiresAt = command.expiresAt := since.expiresAt kind
    obtain ⟨_, _, _, _, _, _, held⟩ := since
    constructor
    · intro proposed
      have expired := named.expired_of_proposed held proposed
      omega
    · intro ended idle
      exact named.proposed_of_expired iterates held (by omega) (by omega) idle

/-- A lease of a second. -/
theorem second_lasts : ∃ command, acquireLock "k" "x" 1000 5 = .ok command ∧ LeaseLasts 1000 5 command :=
  have accepted : acquireLock "k" "x" 1000 5 =
      .ok { type := .lockAcquire, key := "k", ownerID := "x", expiresAt := 1000000005 } := rfl
  ⟨_, accepted, (lease_lasts_iff accepted (by decide)).mpr (Or.inl (by decide))⟩

/-- A lease of 292 years and a little more never ends, and one of 584 years and a little more ends after
half a millisecond. -/
theorem long_leases_fail :
    (∃ command, acquireLock "k" "x" 9223372036855 0 = .ok command ∧ command.expiresAt ≤ 0 ∧
      ¬ LeaseLasts 9223372036855 0 command) ∧
    ∃ command, acquireLock "k" "x" 18446744073710 0 = .ok command ∧
      (let store := Store.new.run [⟨1, some command⟩]
      proposeLockExpiration "k" 1 ∈ (expireLocks 448384 ∅ (store.listLocks ["k"])).2) ∧
      ¬ LeaseLasts 18446744073710 0 command := by
  refine ⟨⟨_, rfl, by decide, fun lasts => ?_⟩, ⟨_, rfl, by decide +kernel, fun lasts => ?_⟩⟩
  · exact absurd lasts.2.1 (by decide)
  · exact absurd lasts.1 (by decide)

end Server

end Raftiq
