import Raftiq.Kv.Effect

namespace Raftiq.Kv

namespace Command

/-- The key for which a command may allocate a lock. -/
def lockKey (command : Command) : Option String :=
  match command.type with
  | .lockAcquire => some command.key
  | .claimJob => some command.jobID
  | _ => none

/-- The key of a command that carries a fencing token. -/
def tokenKey (command : Command) : Option String :=
  match command.type with
  | .fencedPut | .lockExpire => some command.key
  | .jobStart | .jobSucceeded | .jobFailed | .jobReclaim => some command.jobID
  | _ => none

end Command

namespace Store

/-- The token of the lock that an entry puts under a key that had none. -/
def granted (store : Store) (entry : CommandEntry) : Option ℕ :=
  (entry.command.bind Command.lockKey).bind fun key =>
    if (store.locks.get key).isSome then none
    else ((store.apply entry).1.locks.get key).map Lock.fencingToken

/-- The tokens that are allocated while entries are applied, oldest first. -/
def grants (store : Store) : List CommandEntry → List ℕ
  | [] => []
  | entry :: rest => (store.granted entry).toList ++ grants (store.apply entry).1 rest

/-- The token of a `FENCED_PUT` of a key that succeeds. -/
def fencedToken (store : Store) (key : String) (entry : CommandEntry) : Option ℕ :=
  entry.command.bind fun command =>
    if command.type = .fencedPut ∧ command.key = key ∧ (store.apply entry).2.err = none then
      some command.fencingToken
    else none

def fencedTokens (store : Store) (key : String) : List CommandEntry → List ℕ
  | [] => []
  | entry :: rest => (store.fencedToken key entry).toList ++ fencedTokens (store.apply entry).1 key rest

/-- The entry removes the lock with a token from under a key. -/
def Removes (store : Store) (entry : CommandEntry) (key : String) (token : ℕ) : Prop :=
  (∃ lock, store.locks.get key = some lock ∧ lock.fencingToken = token) ∧
    (store.apply entry).1.locks.get key = none

/-- The entry carries a token for a key. -/
def Carries (entry : CommandEntry) (key : String) (token : ℕ) : Prop :=
  ∃ command, entry.command = some command ∧ command.tokenKey = some key ∧ command.fencingToken = token

variable {store after : Store} {command : Command} {index : ℕ} {entry : CommandEntry} {key : String} {token : ℕ}

theorem grants_append (store : Store) (first second : List CommandEntry) :
    store.grants (first ++ second) = store.grants first ++ (store.run first).grants second := by
  induction first generalizing store with
  | nil => rfl
  | cons entry rest ih =>
      simp only [List.cons_append, grants, run_cons, List.append_assoc]
      rw [ih]

/-- An entry leaves the lock table without a new token, or allocates the next one for a free key. -/
inductive Allocates (store : Store) (entry : CommandEntry) (after : Store) : Prop where
  | none (granted : store.granted entry = Option.none)
      (next : after.locks.nextToken = store.locks.nextToken)
      (locks : ∀ key lock, after.locks.get key = some lock → store.locks.get key = some lock)
  | next {key : String} {lock : Lock} (granted : store.granted entry = some lock.fencingToken)
      (token : lock.fencingToken = (store.locks.nextToken + 1) % 2 ^ 64)
      (next : after.locks.nextToken = lock.fencingToken) (free : store.locks.get key = Option.none)
      (locks : ∀ other, after.locks.get other = if other = key then some lock else store.locks.get other)

theorem granted_none_of_kind {command : Command} (decoded : entry.command = some command)
    (kind : command.lockKey = none) : store.granted entry = none := by
  simp [granted, decoded, kind]

theorem granted_of_free {command : Command} {lock : Lock} (decoded : entry.command = some command)
    (kind : command.lockKey = some key) (free : store.locks.get key = none)
    (held : (store.apply entry).1.locks.get key = some lock) :
    store.granted entry = some lock.fencingToken := by
  simp [granted, decoded, kind, free, held]

theorem granted_none_of_locks (same : (store.apply entry).1.locks = store.locks) :
    store.granted entry = none := by
  unfold granted
  rw [Option.bind_eq_none_iff]
  intro key _
  rw [same]
  cases store.locks.get key with
  | none => rfl
  | some lock => rfl

theorem get_of_delete {locks : LockState} {key other : String} {lock : Lock}
    (held : (locks.delete key).get other = some lock) : locks.get other = some lock := by
  rw [LockState.get_delete] at held
  split at held
  · cases held
  · exact held

theorem apply_allocates (store : Store) (entry : CommandEntry) :
    store.Allocates entry (store.apply entry).1 := by
  have unchanged : (store.apply entry).1.locks = store.locks → store.Allocates entry (store.apply entry).1 := by
    intro same
    refine .none (granted_none_of_locks same) (by rw [same]) fun key lock held => ?_
    rw [same] at held
    exact held
  rcases store.apply_cases entry with ⟨same, _⟩ | ⟨command, decoded, effect⟩
  · exact unchanged (by rw [same])
  · generalize (store.apply entry).2.err.isNone = succeeded at effect
    generalize reached : (store.apply entry).1 = next at effect unchanged ⊢
    cases effect with
    | refused | idle kind | data kind map | fence kind held token valid | create kind named fresh
    | reuse kind found pending held owned | transition kind holds state => exact unchanged rfl
    | grant kind named owned free =>
        have locks := LockState.get_grant store.locks
          (store.locks.newLock command.key command.ownerID command.expiresAt entry.index)
        refine .next (granted_of_free decoded (by simp [Command.lockKey, kind]) free ?_) rfl rfl free locks
        rw [reached, locks command.key]
        exact if_pos rfl
    | claim kind named owned found pending free granted =>
        rename_i job lock
        have key : lock.key = command.jobID := by rw [granted]; rfl
        have locks := LockState.get_grant store.locks lock
        rw [key] at locks
        refine .next (granted_of_free decoded (by simp [Command.lockKey, kind]) free ?_) (by rw [granted]; rfl)
          rfl free locks
        rw [reached]
        exact (locks command.jobID).trans (if_pos rfl)
    | expire kind held token valid =>
        exact .none (granted_none_of_kind decoded (by simp [Command.lockKey, kind])) rfl
          fun key lock => get_of_delete
    | reclaim kind holds active =>
        exact .none (granted_none_of_kind decoded (by simp [Command.lockKey, kind])) rfl
          fun key lock => get_of_delete

/-- There are tokens left for all entries. -/
def Enough (store : Store) (entries : List CommandEntry) : Prop :=
  store.locks.nextToken + (store.grants entries).length < 2 ^ 64

theorem Enough.tail {rest : List CommandEntry} (enough : store.Enough (entry :: rest)) :
    (store.apply entry).1.Enough rest := by
  simp only [Enough, grants, List.length_append] at enough ⊢
  cases store.apply_allocates entry with
  | none granted next locks =>
      rw [next]
      omega
  | next granted token next free locks =>
      simp only [granted, Option.toList_some, List.length_singleton] at enough
      rw [next, token, Nat.mod_eq_of_lt (by omega)]
      omega

/-- The next token is larger than all before it, as long as there are enough. -/
theorem Enough.granted {rest : List CommandEntry} (enough : store.Enough (entry :: rest))
    (granted : store.granted entry = some token) :
    token = store.locks.nextToken + 1 ∧ (store.apply entry).1.locks.nextToken = token := by
  simp only [Enough, grants, List.length_append, granted, Option.toList_some, List.length_singleton] at enough
  cases store.apply_allocates entry with
  | none nothing next locks => cases nothing.symm.trans granted
  | next same allocated next free locks =>
      cases same.symm.trans granted
      rw [Nat.mod_eq_of_lt (by omega)] at allocated
      exact ⟨allocated, next⟩

theorem Enough.nextToken_le {rest : List CommandEntry} (enough : store.Enough (entry :: rest)) :
    store.locks.nextToken ≤ (store.apply entry).1.locks.nextToken := by
  cases granted : store.granted entry with
  | some token =>
      obtain ⟨allocated, next⟩ := enough.granted granted
      omega
  | none =>
      cases store.apply_allocates entry with
      | none _ next _ => exact next.ge
      | next other => cases granted.symm.trans other

theorem grants_increase {entries : List CommandEntry} (enough : store.Enough entries) :
    (∀ token ∈ store.grants entries, store.locks.nextToken < token) ∧
      (store.grants entries).Pairwise (· < ·) := by
  induction entries generalizing store with
  | nil => exact ⟨by simp [grants], .nil⟩
  | cons entry rest ih =>
      obtain ⟨above, increase⟩ := ih enough.tail
      have later : ∀ token ∈ (store.apply entry).1.grants rest, store.locks.nextToken < token :=
        fun token member => enough.nextToken_le.trans_lt (above token member)
      unfold grants
      cases granted : store.granted entry with
      | none => exact ⟨later, increase⟩
      | some token =>
          obtain ⟨allocated, next⟩ := enough.granted granted
          rw [next] at above
          refine ⟨?_, List.pairwise_cons.mpr ⟨above, increase⟩⟩
          exact List.forall_mem_cons.mpr ⟨by omega, later⟩

/-- An entry leaves the fenced values alone, or writes one under the lock of its key. -/
inductive Fences (store : Store) (entry : CommandEntry) (after : Store) : Prop where
  | same (fenced : after.fenced = store.fenced) (none : ∀ key, store.fencedToken key entry = none)
  | put {key : String} {value : FencedValue} {lock : Lock} (held : store.locks.get key = some lock)
      (token : value.fencingToken = lock.fencingToken)
      (fenced : after.fenced = store.fenced.insert key value) (locks : after.locks = store.locks)
      (only : ∀ other, store.fencedToken other entry = if other = key then some value.fencingToken else none)

theorem fencedToken_of_kind {command : Command} (decoded : entry.command = some command)
    (kind : command.type ≠ .fencedPut) (key : String) : store.fencedToken key entry = none := by
  simp [fencedToken, decoded, kind]

theorem apply_fences (store : Store) (entry : CommandEntry) : store.Fences entry (store.apply entry).1 := by
  rcases store.apply_cases entry with ⟨same, failed⟩ | ⟨command, decoded, effect⟩
  · refine .same (by rw [same]) fun key => ?_
    simp [fencedToken, failed]
  · generalize result : (store.apply entry).2.err.isNone = succeeded at effect
    generalize (store.apply entry).1 = next at effect
    cases effect with
    | refused =>
        refine .same rfl fun key => ?_
        have failed : (store.apply entry).2.err ≠ none := by
          rw [Option.isNone_eq_false_iff] at result
          exact Option.isSome_iff_ne_none.mp result
        simp [fencedToken, decoded, failed]
    | idle kind =>
        exact .same rfl (fencedToken_of_kind decoded fun type => by simp [type, CommandType.mayIdle] at kind)
    | data kind map =>
        refine .same rfl (fencedToken_of_kind decoded ?_)
        rcases kind with type | type
        · simp [type]
        · simp [type]
    | grant kind | expire kind | create kind | claim kind | reuse kind | reclaim kind =>
        exact .same rfl (fencedToken_of_kind decoded (by simp [kind]))
    | transition kind holds state =>
        exact .same rfl (fencedToken_of_kind decoded fun type => by simp [type, CommandType.transition] at kind)
    | fence kind held token valid =>
        refine .put held token.symm rfl rfl fun other => ?_
        have succeeded : (store.apply entry).2.err = none := Option.isNone_iff_eq_none.mp result
        by_cases same : other = command.key
        · subst same
          simp [fencedToken, decoded, kind, succeeded]
        · simp [fencedToken, decoded, kind, same, Ne.symm same]

/-- Fenced values are not ahead of the lock of their key, and nothing is ahead of the last token. -/
structure Tokens (store : Store) : Prop where
  lock : ∀ key lock, store.locks.get key = some lock → lock.fencingToken ≤ store.locks.nextToken
  fenced : ∀ key value, store.fenced.lookup key = some value →
    value.fencingToken ≤ store.locks.nextToken ∧
      ∀ lock, store.locks.get key = some lock → value.fencingToken ≤ lock.fencingToken

theorem tokens_new : new.Tokens where
  lock key lock held := by simp [new, LockState.new, LockState.get] at held
  fenced key value found := by simp [new] at found

/-- Locks that are there after an entry were there before it, or have a new token. -/
theorem Enough.lock {rest : List CommandEntry} {lock : Lock} (enough : store.Enough (entry :: rest))
    (held : (store.apply entry).1.locks.get key = some lock) :
    store.locks.get key = some lock ∨
      store.locks.nextToken < lock.fencingToken ∧
        lock.fencingToken ≤ (store.apply entry).1.locks.nextToken := by
  cases store.apply_allocates entry with
  | none granted next locks => exact Or.inl (locks key lock held)
  | next granted token next free locks =>
      obtain ⟨allocated, _⟩ := enough.granted granted
      rw [locks] at held
      split at held
      · cases held
        exact Or.inr ⟨by omega, next.ge⟩
      · exact Or.inl held

theorem Tokens.apply {rest : List CommandEntry} (tokens : store.Tokens) (enough : store.Enough (entry :: rest)) :
    (store.apply entry).1.Tokens where
  lock key lock held := by
    rcases enough.lock held with earlier | ⟨_, new⟩
    · exact (tokens.lock key lock earlier).trans enough.nextToken_le
    · exact new
  fenced key value found := by
    have kept : store.fenced.lookup key = some value →
        value.fencingToken ≤ (store.apply entry).1.locks.nextToken ∧
          ∀ lock, (store.apply entry).1.locks.get key = some lock → value.fencingToken ≤ lock.fencingToken := by
      intro earlier
      obtain ⟨below, within⟩ := tokens.fenced key value earlier
      refine ⟨below.trans enough.nextToken_le, fun lock held => ?_⟩
      rcases enough.lock held with before | ⟨new, _⟩
      · exact within lock before
      · exact below.trans new.le
    cases store.apply_fences entry with
    | same fenced _ => exact kept (fenced ▸ found)
    | put held token fenced locks _ =>
        rename_i owner fresh current
        rw [fenced, lookup_insert] at found
        split at found
        · rename_i own
          cases found
          subst own
          rw [locks]
          refine ⟨token ▸ tokens.lock _ _ held, fun lock now => ?_⟩
          cases held.symm.trans now
          exact token.le
        · exact kept found

theorem fencedTokens_increase {entries : List CommandEntry} (tokens : store.Tokens)
    (enough : store.Enough entries) (key : String) :
    (∀ value ∈ store.fenced.lookup key, ∀ token ∈ store.fencedTokens key entries, value.fencingToken ≤ token) ∧
      (store.fencedTokens key entries).Pairwise (· ≤ ·) := by
  induction entries generalizing store with
  | nil => exact ⟨by simp [fencedTokens], .nil⟩
  | cons entry rest ih =>
      obtain ⟨above, increase⟩ := ih (tokens.apply enough) enough.tail
      unfold fencedTokens
      cases store.apply_fences entry with
      | same fenced none =>
          rw [fenced] at above
          rw [none key]
          exact ⟨above, increase⟩
      | put held token fenced locks only =>
          rename_i owner value lock
          rw [fenced, lookup_insert] at above
          rw [only key]
          split at above
          · rename_i own
            subst own
            rw [if_pos rfl]
            have later := above value rfl
            refine ⟨fun earlier found => ?_, List.pairwise_cons.mpr ⟨later, increase⟩⟩
            have before : earlier.fencingToken ≤ value.fencingToken :=
              token ▸ (tokens.fenced key earlier found).2 lock held
            exact List.forall_mem_cons.mpr ⟨before, fun token member => before.trans (later token member)⟩
          · rename_i different
            rw [if_neg different]
            exact ⟨above, increase⟩

/-- No lock under the key has the token, nor will one ever have it. -/
def Dead (store : Store) (key : String) (token : ℕ) : Prop :=
  token ≤ store.locks.nextToken ∧ ∀ lock, store.locks.get key = some lock → lock.fencingToken ≠ token

theorem Dead.apply {rest : List CommandEntry} (dead : store.Dead key token)
    (enough : store.Enough (entry :: rest)) : (store.apply entry).1.Dead key token := by
  obtain ⟨below, none⟩ := dead
  refine ⟨below.trans enough.nextToken_le, fun lock held => ?_⟩
  rcases enough.lock held with earlier | ⟨new, _⟩
  · exact none lock earlier
  · exact (below.trans_lt new).ne'

theorem Dead.run {entries : List CommandEntry} (dead : store.Dead key token) (enough : store.Enough entries) :
    (store.run entries).Dead key token := by
  induction entries generalizing store with
  | nil => exact dead
  | cons entry rest ih => exact ih (dead.apply enough) enough.tail

/-- What carries a dead token does nothing. -/
theorem Dead.unchanged (dead : store.Dead key token) (carries : Carries entry key token) :
    (store.apply entry).1 = store := by
  obtain ⟨command, decoded, keyed, rfl⟩ := carries
  have lost : ∀ lock, store.locks.get key = some lock → lock.fencingToken = command.fencingToken → False :=
    fun lock held token => dead.2 lock held token
  rcases store.apply_cases entry with ⟨same, _⟩ | ⟨other, decodedToo, effect⟩
  · exact same
  · cases decoded.symm.trans decodedToo
    generalize (store.apply entry).2.err.isNone = succeeded at effect
    generalize (store.apply entry).1 = next at effect
    cases effect with
    | refused => rfl
    | idle kind => rfl
    | data kind map => rcases kind with kind | kind <;> simp [Command.tokenKey, kind] at keyed
    | grant kind | create kind | claim kind | reuse kind => simp [Command.tokenKey, kind] at keyed
    | fence kind held token valid =>
        simp only [Command.tokenKey, kind, Option.some.injEq] at keyed
        exact (lost _ (keyed ▸ held) token).elim
    | expire kind held token valid =>
        simp only [Command.tokenKey, kind, Option.some.injEq] at keyed
        exact (lost _ (keyed ▸ held) token).elim
    | reclaim kind holds active =>
        simp only [Command.tokenKey, kind, Option.some.injEq] at keyed
        exact (lost _ (keyed ▸ holds.held) holds.lockToken).elim
    | transition kind holds state =>
        have own : command.jobID = key := by
          cases type : command.type with
          | jobStart | jobSucceeded | jobFailed => simpa [Command.tokenKey, type] using keyed
          | _ => simp [CommandType.transition, type] at kind
        exact (lost _ (own ▸ holds.held) holds.lockToken).elim

theorem Tokens.run {entries : List CommandEntry} (tokens : store.Tokens) (enough : store.Enough entries) :
    (store.run entries).Tokens := by
  induction entries generalizing store with
  | nil => exact tokens
  | cons entry rest ih => exact ih (tokens.apply enough) enough.tail

theorem Enough.run {first second : List CommandEntry} (enough : store.Enough (first ++ second)) :
    (store.run first).Enough second := by
  induction first generalizing store with
  | nil => exact enough
  | cons entry rest ih =>
      have tail : (store.apply entry).1.Enough (rest ++ second) := enough.tail
      exact ih tail

theorem Enough.left {first second : List CommandEntry} (enough : store.Enough (first ++ second)) :
    store.Enough first := by
  rw [Enough, grants_append, List.length_append] at enough
  unfold Enough
  omega

/-- With fewer than 2^64 grants, tokens are allocated in increasing order, the tokens of a key's
fenced values never decrease, and nothing that carries the token of a removed lock has an effect. -/
theorem fencing_generations_final {entries : List CommandEntry} (few : (new.grants entries).length < 2 ^ 64) :
    (new.grants entries).Pairwise (· < ·) ∧
    (∀ key, (new.fencedTokens key entries).Pairwise (· ≤ ·)) ∧
    ∀ earlier removal middle late rest, entries = earlier ++ removal :: (middle ++ late :: rest) →
      ∀ key token, (new.run earlier).Removes removal key token → Carries late key token →
        ((new.run (earlier ++ removal :: middle)).apply late).1 = new.run (earlier ++ removal :: middle) := by
  have enough : new.Enough entries := by
    simpa [Enough, new, LockState.new] using few
  refine ⟨(grants_increase enough).2, fun key => (fencedTokens_increase tokens_new enough key).2, ?_⟩
  rintro earlier removal middle late rest rfl key token ⟨⟨lock, held, rfl⟩, removed⟩ carries
  have tokens := tokens_new.run enough.left
  have remaining := enough.run
  have dead : ((new.run earlier).apply removal).1.Dead key lock.fencingToken := by
    refine ⟨(tokens.lock key lock held).trans remaining.nextToken_le, fun other now => ?_⟩
    rw [removed] at now
    cases now
  rw [run_append, run_cons]
  exact (dead.run remaining.tail.left).unchanged carries

/-- A job is claimed, reclaimed and claimed by another worker; the first worker then reports that it
starts. -/
theorem late_start_changes_nothing : ∃ (earlier middle : List CommandEntry) (removal late : CommandEntry),
    (new.run earlier).Removes removal "j" 1 ∧ Carries late "j" 1 ∧
      ((new.run (earlier ++ removal :: middle)).apply late).1 = new.run (earlier ++ removal :: middle) := by
  let created : CommandEntry := ⟨1, some { type := .createJob, jobID := "j" }⟩
  let claim : CommandEntry := ⟨2, some { type := .claimJob, jobID := "j", ownerID := "w", expiresAt := 5 }⟩
  let reclaim : CommandEntry := ⟨3, some { type := .jobReclaim, jobID := "j", fencingToken := 1, now := 5 }⟩
  let again : CommandEntry := ⟨4, some { type := .claimJob, jobID := "j", ownerID := "x", expiresAt := 9 }⟩
  let late : CommandEntry :=
    ⟨5, some { type := .jobStart, jobID := "j", ownerID := "w", executionID := "j/1", fencingToken := 1, now := 6 }⟩
  have final := @fencing_generations_final [created, claim, reclaim, again, late] (by decide +kernel)
  have removes : (new.run [created, claim]).Removes reclaim "j" 1 :=
    ⟨⟨⟨"j", "w", 1, 5, 2⟩, by decide +kernel, rfl⟩, by decide +kernel⟩
  have carries : Carries late "j" 1 := ⟨_, rfl, rfl, rfl⟩
  exact ⟨_, _, _, _, removes, carries, final.2.2 [created, claim] reclaim [again] late [] rfl "j" 1 removes carries⟩

end Store

end Raftiq.Kv
