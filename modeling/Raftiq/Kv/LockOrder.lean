import Raftiq.Kv.Generations

namespace Raftiq.Kv

/-! Locks that were granted at different times: the order of their tokens is that of their entries. -/

/-- Two locks of one history of the lock table. -/
structure Lock.Agrees (lock another : Lock) : Prop where
  later : lock.grantIndex < another.grantIndex → lock.fencingToken < another.fencingToken
  earlier : another.grantIndex < lock.grantIndex → another.fencingToken < lock.fencingToken
  same : lock.grantIndex = another.grantIndex → lock = another

namespace Lock.Agrees

variable {lock another : Lock}

theorem refl (lock : Lock) : lock.Agrees lock :=
  ⟨fun less => absurd less (lt_irrefl _), fun less => absurd less (lt_irrefl _), fun _ => rfl⟩

theorem symm (agrees : lock.Agrees another) : another.Agrees lock :=
  ⟨agrees.earlier, agrees.later, fun same => (agrees.same same.symm).symm⟩

theorem index_lt (agrees : lock.Agrees another) (token : lock.fencingToken < another.fencingToken) :
    lock.grantIndex < another.grantIndex := by
  rcases Nat.lt_trichotomy lock.grantIndex another.grantIndex with less | same | more
  · exact less
  · rw [agrees.same same] at token
    exact absurd token (lt_irrefl _)
  · exact absurd (agrees.earlier more) (by omega)

theorem of_newer (index : lock.grantIndex < another.grantIndex)
    (token : lock.fencingToken < another.fencingToken) : lock.Agrees another :=
  ⟨fun _ => token, fun less => absurd less (by omega), fun same => absurd same (by omega)⟩

end Lock.Agrees

namespace Store

variable {store : Store} {entry : CommandEntry} {entries rest : List CommandEntry} {key other : String}
  {lock another : Lock} {limit : ℕ}

/-- An entry grants a lock under its key. -/
structure Grants (store : Store) (entry : CommandEntry) (key : String) (lock : Lock) : Prop where
  place : entry.command.bind Command.lockKey = some key
  index : lock.grantIndex = entry.index
  token : store.granted entry = some lock.fencingToken

theorem lock_of_grant {command : Command} {granted : Lock} (decoded : entry.command = some command)
    (kind : command.lockKey = some granted.key) (free : store.locks.get granted.key = none)
    (index : granted.grantIndex = entry.index) (locks : (store.apply entry).1.locks = store.locks.grant granted)
    (held : (store.apply entry).1.locks.get key = some lock) :
    store.locks.get key = some lock ∨ store.Grants entry key lock := by
  have places : ∀ name, (store.apply entry).1.locks.get name = _ := fun name => by
    rw [locks, LockState.get_grant]
  have token := granted_of_free decoded kind free ((places granted.key).trans (if_pos rfl))
  rw [places] at held
  split at held
  · rename_i own
    cases held
    exact Or.inr ⟨by rw [decoded, own]; exact kind, index, token⟩
  · exact Or.inl held

/-- A lock that an entry leaves was there before, or the entry has granted it. -/
theorem apply_lock (held : (store.apply entry).1.locks.get key = some lock) :
    store.locks.get key = some lock ∨ store.Grants entry key lock := by
  rcases store.apply_cases entry with ⟨same, _⟩ | ⟨command, decoded, effect⟩
  · exact Or.inl (same ▸ held)
  · have grants : ∀ granted : Lock, _ := fun granted kind free index locks =>
      @lock_of_grant store entry key lock command granted decoded kind free index locks held
    generalize (store.apply entry).2.err.isNone = succeeded at effect
    generalize (store.apply entry).1 = after at effect held grants
    cases effect with
    | refused | idle | data | fence | create | reuse | transition => exact Or.inl held
    | expire | reclaim => exact Or.inl (get_of_delete held)
    | grant kind named owned free =>
        exact grants _ (by simp [Command.lockKey, kind, LockState.newLock]) free rfl rfl
    | claim kind named owned found pending free granted =>
        subst granted
        exact grants _ (by simp [Command.lockKey, kind, LockState.newLock]) free rfl rfl

/-- A lock that was granted up to an index, and agrees with those that are there now. -/
structure Past (limit : ℕ) (store : Store) (lock : Lock) : Prop where
  index : lock.grantIndex ≤ limit
  token : lock.fencingToken ≤ store.locks.nextToken
  agrees : ∀ key another, store.locks.get key = some another → lock.Agrees another

theorem Past.newer (past : store.Past limit lock) (enough : store.Enough (entry :: rest))
    (later : limit < entry.index) (grants : store.Grants entry other another) : lock.Agrees another := by
  have index := grants.index
  have next := (enough.granted grants.token).1
  have bound := past.index
  have old := past.token
  exact .of_newer (by omega) (by omega)

theorem Past.apply (past : store.Past limit lock) (enough : store.Enough (entry :: rest))
    (later : limit < entry.index) : (store.apply entry).1.Past entry.index lock where
  index := past.index.trans later.le
  token := past.token.trans enough.nextToken_le
  agrees key another held := by
    rcases apply_lock held with old | grants
    · exact past.agrees key another old
    · exact past.newer enough later grants

/-- All locks were granted up to an index and agree with one another. -/
def Aged (limit : ℕ) (store : Store) : Prop :=
  ∀ key lock, store.locks.get key = some lock → store.Past limit lock

theorem Aged.apply (aged : store.Aged limit) (enough : store.Enough (entry :: rest))
    (later : limit < entry.index) : (store.apply entry).1.Aged entry.index := by
  intro key lock held
  rcases apply_lock held with old | grants
  · exact (aged key lock old).apply enough later
  · refine ⟨grants.index.le, (enough.granted grants.token).2.ge, fun other another heldToo => ?_⟩
    rcases apply_lock heldToo with old | grantsToo
    · exact ((aged other another old).newer enough later grants).symm
    · cases grants.place.symm.trans grantsToo.place
      cases held.symm.trans heldToo
      exact .refl lock

/-- The indexes of the entries grow, from above a limit. -/
def Ascending (limit : ℕ) : List CommandEntry → Prop
  | [] => True
  | entry :: rest => limit < entry.index ∧ Ascending entry.index rest

/-- The index of the last entry, or the limit if there is none. -/
def lastIndex (limit : ℕ) (entries : List CommandEntry) : ℕ :=
  entries.foldl (fun _ entry => entry.index) limit

theorem ascending_append {front back : List CommandEntry} :
    Ascending limit (front ++ back) ↔ Ascending limit front ∧ Ascending (lastIndex limit front) back := by
  induction front generalizing limit with
  | nil => simp [Ascending, lastIndex]
  | cons entry rest ih =>
      simp only [List.cons_append, Ascending, ih, and_assoc]
      rfl

theorem Aged.run (aged : store.Aged limit) (enough : store.Enough entries) (ascending : Ascending limit entries) :
    (store.run entries).Aged (lastIndex limit entries) := by
  induction entries generalizing store limit with
  | nil => exact aged
  | cons entry rest ih => exact ih (aged.apply enough ascending.1) enough.tail ascending.2

theorem Past.run (past : store.Past limit lock) (enough : store.Enough entries)
    (ascending : Ascending limit entries) :
    (store.run entries).Past (lastIndex limit entries) lock := by
  induction entries generalizing store limit with
  | nil => exact past
  | cons entry rest ih => exact ih (past.apply enough ascending.1) enough.tail ascending.2

theorem locks_agree_later {front middle : List CommandEntry} (enough : new.Enough (front ++ middle))
    (ascending : Ascending 0 (front ++ middle)) (held : (new.run front).locks.get key = some lock)
    (heldToo : (new.run (front ++ middle)).locks.get other = some another) : lock.Agrees another := by
  obtain ⟨below, above⟩ := ascending_append.mp ascending
  have aged : new.Aged 0 := fun _ _ none => (by cases none)
  have past := (aged.run enough.left below key lock held).run enough.run above
  rw [run_append] at heldToo
  exact past.agrees other another heldToo

/-- Locks that are seen at any two moments of a history agree. -/
theorem locks_agree {front back : List CommandEntry} (enough : new.Enough entries) (ascending : Ascending 0 entries)
    (first : front <+: entries) (second : back <+: entries) (held : (new.run front).locks.get key = some lock)
    (heldToo : (new.run back).locks.get other = some another) : lock.Agrees another := by
  have inside : ∀ {part}, part <+: entries → new.Enough part ∧ Ascending 0 part := by
    rintro part ⟨rest, rfl⟩
    exact ⟨enough.left, (ascending_append.mp ascending).1⟩
  rcases List.prefix_or_prefix_of_prefix first second with ⟨middle, rfl⟩ | ⟨middle, rfl⟩
  · exact locks_agree_later (inside second).1 (inside second).2 held heldToo
  · exact (locks_agree_later (inside first).1 (inside first).2 heldToo held).symm

/-- A command that takes a lock away: it names the lock's token, or it was written when the lease was over. -/
def Ends (command : Command) (key : String) (lock : Lock) : Prop :=
  command.type = .lockExpire ∧ command.key = key ∧ command.fencingToken = lock.fencingToken ∨
    command.type = .jobReclaim ∧ lock.expiresAt ≤ command.now

theorem reclaim_ended {command : Command} {index : ℕ} (kind : command.type = .jobReclaim)
    (held : store.locks.get key = some lock)
    (gone : (store.applyCommand command index).1.locks.get key ≠ some lock) : lock.expiresAt ≤ command.now := by
  have same : store.applyCommand command index = store.applyJobReclaimCommand command := by
    simp only [applyCommand, kind]
  rw [same] at gone
  unfold applyJobReclaimCommand reclaimExpiredJob at gone
  split at gone
  · exact absurd held gone
  · cases found : store.jobs.lookup command.jobID with
    | none =>
        simp only [found] at gone
        exact absurd held gone
    | some job =>
        simp only [found] at gone
        split at gone
        · exact absurd held gone
        · split at gone
          · exact absurd held gone
          · cases heldToo : store.locks.get command.jobID with
            | none =>
                simp only [heldToo] at gone
                exact absurd held gone
            | some current =>
                simp only [heldToo] at gone
                split at gone
                · exact absurd held gone
                · split at gone
                  · exact absurd held gone
                  · rename_i late
                    have removed : (store.locks.delete command.jobID).get key ≠ some lock := gone
                    rw [LockState.get_delete] at removed
                    split at removed
                    · rename_i own
                      rw [own] at held
                      cases held.symm.trans heldToo
                      exact not_lt.mp late
                    · exact absurd held removed

theorem get_of_grant {granted : Lock} (free : store.locks.get granted.key = none)
    (held : store.locks.get key = some lock) : (store.locks.grant granted).get key = some lock := by
  rw [LockState.get_grant, if_neg, held]
  rintro rfl
  cases free.symm.trans held

/-- A lock that is there no more was taken away by the entry's command. -/
theorem apply_ends (held : store.locks.get key = some lock)
    (gone : (store.apply entry).1.locks.get key ≠ some lock) :
    ∃ command, entry.command = some command ∧ Ends command key lock := by
  rcases store.apply_cases entry with ⟨same, _⟩ | ⟨command, decoded, effect⟩
  · rw [same] at gone
    exact absurd held gone
  · refine ⟨command, decoded, ?_⟩
    have result : (store.apply entry).1 = (store.applyCommand command entry.index).1 := by
      simp only [apply, decoded]
    have reclaimed : command.type = .jobReclaim → lock.expiresAt ≤ command.now :=
      fun kind => reclaim_ended kind held (result ▸ gone)
    generalize (store.apply entry).2.err.isNone = succeeded at effect
    generalize (store.apply entry).1 = after at effect gone
    cases effect with
    | refused | idle | data | fence | create | reuse | transition => exact absurd held gone
    | grant kind named owned free => exact absurd (get_of_grant free held) gone
    | claim kind named owned found pending free granted =>
        subst granted
        exact absurd (get_of_grant free held) gone
    | expire kind heldToo token valid =>
        have removed : (store.locks.delete command.key).get key ≠ some lock := gone
        rw [LockState.get_delete] at removed
        split at removed
        · rename_i own
          rw [own] at held
          cases held.symm.trans heldToo
          exact Or.inl ⟨kind, own.symm, token.symm⟩
        · exact absurd held removed
    | reclaim kind holds active => exact Or.inr ⟨kind, reclaimed kind⟩

theorem run_ends (held : store.locks.get key = some lock) (gone : (store.run entries).locks.get key ≠ some lock) :
    ∃ entry ∈ entries, ∃ command, entry.command = some command ∧ Ends command key lock := by
  induction entries generalizing store with
  | nil => exact absurd held gone
  | cons entry rest ih =>
      by_cases kept : (store.apply entry).1.locks.get key = some lock
      · obtain ⟨other, member, ended⟩ := ih kept gone
        exact ⟨other, List.mem_cons_of_mem _ member, ended⟩
      · exact ⟨entry, List.mem_cons_self, apply_ends held kept⟩

theorem run_lock (held : (store.run entries).locks.get key = some lock) :
    store.locks.get key = some lock ∨ ∃ entry ∈ entries, lock.grantIndex = entry.index := by
  induction entries generalizing store with
  | nil => exact Or.inl held
  | cons entry rest ih =>
      rcases ih held with before | ⟨other, member, index⟩
      · exact (apply_lock before).imp_right fun grants => ⟨entry, List.mem_cons_self, grants.index⟩
      · exact Or.inr ⟨other, List.mem_cons_of_mem _ member, index⟩

theorem ascending_mem (ascending : Ascending limit entries) (member : entry ∈ entries) : limit < entry.index := by
  induction entries generalizing limit with
  | nil => cases member
  | cons first rest ih =>
      rcases List.mem_cons.mp member with rfl | later
      · exact ascending.1
      · exact ascending.1.trans (ih ascending.2 later)

theorem ascending_of_sorted (sorted : entries.Pairwise fun earlier later => earlier.index < later.index)
    (above : ∀ entry ∈ entries, limit < entry.index) : Ascending limit entries := by
  induction entries generalizing limit with
  | nil => trivial
  | cons first rest ih =>
      obtain ⟨later, sorted⟩ := List.pairwise_cons.mp sorted
      exact ⟨above first List.mem_cons_self, ih sorted later⟩

theorem ascending_length {bound : ℕ} (ascending : Ascending limit entries)
    (below : ∀ entry ∈ entries, entry.index ≤ bound) : entries.length ≤ bound - limit := by
  induction entries generalizing limit with
  | nil => exact Nat.zero_le _
  | cons first rest ih =>
      have short := ih ascending.2 fun entry member => below entry (List.mem_cons_of_mem _ member)
      have inside := below first List.mem_cons_self
      have above := ascending.1
      rw [List.length_cons]
      omega

theorem grants_length_le (store : Store) (entries : List CommandEntry) :
    (store.grants entries).length ≤ entries.length := by
  induction entries generalizing store with
  | nil => exact le_rfl
  | cons entry rest ih =>
      have later := ih (store.apply entry).1
      have once : (store.granted entry).toList.length ≤ 1 := by
        cases store.granted entry with
        | none => exact Nat.zero_le 1
        | some token => exact le_rfl
      rw [grants, List.length_append, List.length_cons]
      omega

/-- While indexes fit into 64 bits, tokens do. -/
theorem enough_of_ascending {bound : ℕ} (ascending : Ascending 0 entries)
    (below : ∀ entry ∈ entries, entry.index ≤ bound) (short : bound < 2 ^ 64) : new.Enough entries := by
  have length := ascending_length ascending below
  have granted := grants_length_le new entries
  have first : new.locks.nextToken = 0 := rfl
  rw [Enough, first]
  omega

/-- Before a key is granted anew, the earlier lock is taken away. -/
theorem lock_ended {front back : List CommandEntry} (enough : new.Enough entries) (ascending : Ascending 0 entries)
    (first : front <+: entries) (second : back <+: entries) (held : (new.run front).locks.get key = some lock)
    (heldToo : (new.run back).locks.get key = some another) (earlier : lock.grantIndex < another.grantIndex) :
    ∃ entry ∈ back, ∃ command, entry.command = some command ∧ Ends command key lock := by
  rcases List.prefix_or_prefix_of_prefix first second with ⟨middle, rfl⟩ | ⟨middle, rfl⟩
  · rw [run_append] at heldToo
    obtain ⟨entry, member, ended⟩ := run_ends held (by
      rw [heldToo]
      rintro same
      cases same
      exact absurd earlier (lt_irrefl _))
    exact ⟨entry, List.mem_append_right _ member, ended⟩
  · obtain ⟨rest, rfl⟩ := first
    obtain ⟨below, above⟩ := ascending_append.mp (ascending_append.mp ascending).1
    have aged : new.Aged 0 := fun _ _ none => (by cases none)
    have limit := (aged.run enough.left.left below key another heldToo).index
    rw [run_append] at held
    rcases run_lock held with before | ⟨entry, member, index⟩
    · cases before.symm.trans heldToo
      exact absurd earlier (lt_irrefl _)
    · have late := ascending_mem above member
      omega

end Store

end Raftiq.Kv
