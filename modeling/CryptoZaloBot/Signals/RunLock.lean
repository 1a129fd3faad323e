import CryptoZaloBot.Base.Lease

/-!
# The run locks of the two checks

`acquireRunLock` and `releaseRunLock` of `price-alerts.service.ts` and of
`signals-state.service.ts`. A scheduler calls each check every few minutes, and a slow check
must not run beside the next one: each call takes a lock in Redis under a random token, and
gives it back by a script that compares the token and deletes.

The two locks are entries of one store, so runs of both checks interleave here. Each lock by
itself is a lease (`CryptoZaloBot.RunLocks.runs_lease`), which is what
`CryptoZaloBot.RunLocks.runLock_exclusive` says of the code.
-/

namespace CryptoZaloBot

namespace RunLocks

open Lease (Phase)

/-! ### The store -/

/-- **Redis**, as far as the locks use it: string entries with the time they expire. An
expired entry is gone when the server gets to it. -/
structure Redis where
  now : ℤ
  entries : String → Option (String × ℤ)

def Redis.get (redis : Redis) (key : String) : Option String := (redis.entries key).map Prod.fst

def Redis.del (redis : Redis) (key : String) : Redis :=
  { redis with entries := Function.update redis.entries key none }

/-- `SET key value NX EX seconds`, with the reply. -/
def Redis.setNxEx (redis : Redis) (key value : String) (seconds : ℤ) : Redis × Option String :=
  match redis.entries key with
  | some _ => (redis, none)
  | none =>
    ({ redis with
      entries := Function.update redis.entries key (some (value, redis.now + seconds * 1000)) },
      some "OK")

/-! ### The services -/

/-- The two checks that run under a lock. -/
inductive RunLock where
  | priceAlerts
  | signals
  deriving DecidableEq

/-- `REDIS_KEYS.runLock`. -/
def RunLock.key : RunLock → String
  | .priceAlerts => "price-alerts:run-lock"
  | .signals => "signals:run-lock"

/-- `RUN_LOCK_TTL_SECONDS`. -/
def RunLock.ttlSeconds : RunLock → ℤ
  | .priceAlerts => 120
  | .signals => 120

/-- **`acquireRunLock`**: the token, or none when another run holds the lock. -/
def RunLock.acquireRunLock (lock : RunLock) (token : String) (redis : Redis) :
    Redis × Option String :=
  let (redis', result) := redis.setNxEx lock.key token lock.ttlSeconds
  (redis', if result = some "OK" then some token else none)

/-- `RELEASE_LOCK_SCRIPT`, run as one step. -/
def releaseLockScript (redis : Redis) (key token : String) : Redis × ℕ :=
  if redis.get key = some token then (redis.del key, 1) else (redis, 0)

/-- **`releaseRunLock`.** -/
def RunLock.releaseRunLock (lock : RunLock) (token : String) (redis : Redis) : Redis :=
  (releaseLockScript redis lock.key token).1

theorem RunLock.key_injective : Function.Injective RunLock.key := by
  intro lock other h
  cases lock <;> cases other <;> first | rfl | exact absurd h (by decide)

theorem RunLock.ttlSeconds_pos (lock : RunLock) : 0 < lock.ttlSeconds * 1000 := by
  cases lock <;> decide

/-! ### Runs -/

/-- The store, and where the run with each token stands. -/
structure State where
  redis : Redis
  phase : RunLock → String → Phase

/-- Nothing is stored, and no run has started. -/
def start (now : ℤ) : State := ⟨⟨now, fun _ => none⟩, fun _ _ => .idle⟩

/-- A script or command that reaches Redis. A release may come late, or be sent again. -/
inductive Event where
  | acquire (lock : RunLock) (token : String)
  | release (lock : RunLock) (token : String)
  | expire (key : String)
  | tick (ms : ℕ)
  deriving DecidableEq

/-- The phase of one run is set. -/
def State.setPhase (s : State) (lock : RunLock) (token : String) (phase : Phase) :
    RunLock → String → Phase :=
  Function.update s.phase lock (Function.update (s.phase lock) token phase)

/-- **The checks, as far as the locks see them.** Each call has a token of its own. -/
def system : System State Event (RunLock × String × Bool) where
  legal s
    | .acquire lock token => s.phase lock token = .idle
    | .release _ _ => True
    | .expire key => ∃ entry, s.redis.entries key = some entry ∧ entry.2 ≤ s.redis.now
    | .tick _ => True
  next s
    | .acquire lock token =>
      match lock.acquireRunLock token s.redis with
      | (redis, some taken) => ⟨redis, s.setPhase lock taken (.holding s.redis.now)⟩
      | (redis, none) => ⟨redis, s.setPhase lock token .refused⟩
    | .release lock token =>
      ⟨lock.releaseRunLock token s.redis,
        s.setPhase lock token (s.phase lock token).release⟩
    | .expire key => { s with redis := s.redis.del key }
    | .tick ms => { s with redis := { s.redis with now := s.redis.now + ms } }
  out s
    | .acquire lock token => [(lock, token, (lock.acquireRunLock token s.redis).2.isSome)]
    | _ => []

/-! ### Each lock is a lease -/

/-- What concerns one lock. -/
def State.lease (s : State) (lock : RunLock) : Lease.State String :=
  ⟨s.redis.now, s.redis.entries lock.key, s.phase lock⟩

/-- What an event is to one lock, if anything. -/
def Event.lease? (lock : RunLock) : Event → Option (Lease.Event String)
  | .acquire l token => if l = lock then some (.acquire token) else none
  | .release l token => if l = lock then some (.release token) else none
  | .expire key => if key = lock.key then some .expire else none
  | .tick ms => some (.tick ms)

theorem lease_setPhase_of_ne {s : State} {redis : Redis} {lock other : RunLock} {token : String}
    {phase : Phase} (hne : other ≠ lock) (hnow : redis.now = s.redis.now)
    (hentries : redis.entries other.key = s.redis.entries other.key) :
    (⟨redis, s.setPhase lock token phase⟩ : State).lease other = s.lease other := by
  simp only [State.lease, State.setPhase, hnow, hentries, Function.update_of_ne hne]

theorem acquireRunLock_none {lock : RunLock} {token : String} {redis : Redis}
    (h : redis.entries lock.key = none) :
    lock.acquireRunLock token redis =
      (⟨redis.now, Function.update redis.entries lock.key
        (some (token, redis.now + lock.ttlSeconds * 1000))⟩, some token) := by
  simp [RunLock.acquireRunLock, Redis.setNxEx, h]

theorem acquireRunLock_some {lock : RunLock} {token : String} {redis : Redis}
    {entry : String × ℤ} (h : redis.entries lock.key = some entry) :
    lock.acquireRunLock token redis = (redis, none) := by
  simp [RunLock.acquireRunLock, Redis.setNxEx, h]

/-- **A release removes its own entry, or nothing.** -/
theorem releaseRunLock_entries (lock : RunLock) (token : String) (redis : Redis) :
    (lock.releaseRunLock token redis).entries =
      Function.update redis.entries lock.key
        (if (redis.entries lock.key).map Prod.fst = some token then none
          else redis.entries lock.key) := by
  rw [RunLock.releaseRunLock, releaseLockScript, Redis.get]
  split
  · rfl
  · exact (Function.update_eq_self ..).symm

theorem releaseRunLock_now (lock : RunLock) (token : String) (redis : Redis) :
    (lock.releaseRunLock token redis).now = redis.now := by
  rw [RunLock.releaseRunLock, releaseLockScript]
  split <;> rfl

/-- **To its own lock, an event is what it is to a lease.** -/
theorem lease_acquire (s : State) (lock : RunLock) (token : String) :
    (system.next s (.acquire lock token)).lease lock =
      (Lease.system (lock.ttlSeconds * 1000)).next (s.lease lock) (.acquire token) := by
  cases h : s.redis.entries lock.key with
  | none =>
    rw [Lease.next_acquire_none h]
    simp only [system, acquireRunLock_none h]
    simp [State.lease, State.setPhase]
  | some entry =>
    rw [Lease.next_acquire_some h]
    simp only [system, acquireRunLock_some h]
    simp [State.lease, State.setPhase]

theorem lease_release (s : State) (lock : RunLock) (token : String) :
    (system.next s (.release lock token)).lease lock =
      (Lease.system (lock.ttlSeconds * 1000)).next (s.lease lock) (.release token) := by
  simp only [system, State.lease, State.setPhase, releaseRunLock_entries, releaseRunLock_now,
    Function.update_self, Lease.system]

/-- **To the other lock, it is nothing.** -/
theorem lease_acquire_of_ne (s : State) {lock other : RunLock} (token : String)
    (hne : other ≠ lock) :
    (system.next s (.acquire lock token)).lease other = s.lease other := by
  have hkey : other.key ≠ lock.key := RunLock.key_injective.ne hne
  cases h : s.redis.entries lock.key with
  | none =>
    simp only [system, acquireRunLock_none h]
    exact lease_setPhase_of_ne hne rfl (Function.update_of_ne hkey ..)
  | some entry =>
    simp only [system, acquireRunLock_some h]
    exact lease_setPhase_of_ne hne rfl rfl

theorem lease_release_of_ne (s : State) {lock other : RunLock} (token : String)
    (hne : other ≠ lock) :
    (system.next s (.release lock token)).lease other = s.lease other := by
  refine lease_setPhase_of_ne hne (releaseRunLock_now ..) ?_
  rw [releaseRunLock_entries, Function.update_of_ne (RunLock.key_injective.ne hne)]

/-- What one step is to one lock: at most one step of its lease. -/
theorem lease_step (lock : RunLock) {s : State} {event : Event} (hlegal : system.legal s event) :
    (Lease.system (lock.ttlSeconds * 1000)).Run (s.lease lock) (event.lease? lock).toList ∧
      (system.next s event).lease lock =
        (Lease.system (lock.ttlSeconds * 1000)).final (s.lease lock)
          (event.lease? lock).toList := by
  cases event with
  | acquire l token =>
    rcases eq_or_ne l lock with rfl | hne
    · rw [Event.lease?, if_pos rfl]
      exact ⟨⟨hlegal, trivial⟩, lease_acquire s l token⟩
    · rw [Event.lease?, if_neg hne]
      exact ⟨trivial, lease_acquire_of_ne s token hne.symm⟩
  | release l token =>
    rcases eq_or_ne l lock with rfl | hne
    · rw [Event.lease?, if_pos rfl]
      exact ⟨⟨trivial, trivial⟩, lease_release s l token⟩
    · rw [Event.lease?, if_neg hne]
      exact ⟨trivial, lease_release_of_ne s token hne.symm⟩
  | expire key =>
    rcases eq_or_ne key lock.key with rfl | hne
    · rw [Event.lease?, if_pos rfl]
      refine ⟨⟨hlegal, trivial⟩, ?_⟩
      simp [system, Lease.system, State.lease, Redis.del]
    · rw [Event.lease?, if_neg hne]
      refine ⟨trivial, ?_⟩
      simp [system, State.lease, Redis.del, Function.update_of_ne hne.symm]
  | tick ms => exact ⟨⟨trivial, trivial⟩, rfl⟩

/-- **A run of both checks is, to each lock, a run of its lease.** -/
theorem runs_lease (lock : RunLock) {s : State} {events : List Event}
    (hr : system.Run s events) :
    (Lease.system (lock.ttlSeconds * 1000)).Run (s.lease lock)
        (events.filterMap (Event.lease? lock)) ∧
      (system.final s events).lease lock =
        (Lease.system (lock.ttlSeconds * 1000)).final (s.lease lock)
          (events.filterMap (Event.lease? lock)) := by
  induction events generalizing s with
  | nil => exact ⟨trivial, rfl⟩
  | cons event rest ih =>
    obtain ⟨hrun, hfinal⟩ := lease_step lock hr.1
    obtain ⟨hrest, hlast⟩ := ih hr.2
    rw [hfinal] at hrest hlast
    -- An event of the other lock leaves nothing of itself.
    have hsplit : (event :: rest).filterMap (Event.lease? lock) =
        (event.lease? lock).toList ++ rest.filterMap (Event.lease? lock) := by
      rw [List.filterMap_cons]
      cases event.lease? lock <;> rfl
    rw [hsplit, System.run_append, System.final_append]
    exact ⟨⟨hrun, hrest⟩, hlast⟩

theorem valid_lease (lock : RunLock) {now : ℤ} {events : List Event}
    (hr : system.Run (start now) events) :
    Lease.Valid (lock.ttlSeconds * 1000) ((system.final (start now) events).lease lock) := by
  obtain ⟨hrun, hfinal⟩ := runs_lease lock hr
  rw [hfinal]
  exact hrun.invariant (Lease.keeps_valid _) (Lease.valid_start _ now)

/-! ### What the locks promise -/

/-- A release that changes anything removes the entry of its own token. -/
theorem releaseRunLock_cases (lock : RunLock) (token : String) (redis : Redis) :
    lock.releaseRunLock token redis = redis ∨
      ∃ expiry, redis.entries lock.key = some (token, expiry) ∧
        lock.releaseRunLock token redis = redis.del lock.key := by
  rw [RunLock.releaseRunLock, releaseLockScript]
  split <;> rename_i hsame
  · obtain ⟨⟨_, expiry⟩, hentry, rfl⟩ := Option.map_eq_some_iff.mp hsame
    exact .inr ⟨expiry, hentry, rfl⟩
  · exact .inl rfl

/-- **The run lock of either check**, after any calls, late and repeated releases and
expiries: a release removes the lock only for the run that holds it; one run at most is
inside its time to live; and two runs between taking the lock and giving it back took it a
time to live apart. -/
theorem runLock_exclusive (lock : RunLock) (now : ℤ) (events : List Event)
    (hr : system.Run (start now) events) :
    (∀ token,
      lock.releaseRunLock token (system.final (start now) events).redis =
          (system.final (start now) events).redis ∨
        ∃ since, (system.final (start now) events).phase lock token = .holding since ∧
          (system.final (start now) events).redis.entries lock.key =
            some (token, since + lock.ttlSeconds * 1000) ∧
          lock.releaseRunLock token (system.final (start now) events).redis =
            (system.final (start now) events).redis.del lock.key) ∧
    (∀ token other since at',
      (system.final (start now) events).phase lock token = .holding since →
      (system.final (start now) events).redis.now < since + lock.ttlSeconds * 1000 →
      (system.final (start now) events).phase lock other = .holding at' →
      (system.final (start now) events).redis.now < at' + lock.ttlSeconds * 1000 →
        token = other) ∧
    ∀ token other since at', token ≠ other →
      (system.final (start now) events).phase lock token = .holding since →
      (system.final (start now) events).phase lock other = .holding at' →
      since ≤ at' → since + lock.ttlSeconds * 1000 ≤ at' := by
  have hvalid := valid_lease lock hr
  refine ⟨fun token => ?_, fun token other since at' htoken hinside hother hinside' => ?_,
    fun token other since at' hne htoken hother hle => ?_⟩
  · -- An entry that is removed has the run's own token, so the run holds the lock.
    rcases releaseRunLock_cases lock token _ with hsame | ⟨expiry, hentry, hdel⟩
    · exact .inl hsame
    · obtain ⟨since, hheld, rfl⟩ := hvalid.stored token expiry hentry
      exact .inr ⟨since, hheld, hentry, hdel⟩
  · exact hvalid.eq_of_inside htoken hinside hother hinside'
  · exact hvalid.le_of_le lock.ttlSeconds_pos hne htoken hother hle

/-- A run that outlives its lock: another takes the lock after two minutes, and a late
release of the first leaves it. -/
def overrun : List Event :=
  [.acquire .signals "first", .tick 120000, .expire "signals:run-lock",
    .acquire .signals "second"]

theorem overrun_run : system.Run (start 0) overrun :=
  ⟨rfl, trivial, ⟨("first", 120000), rfl, Int.le_refl _⟩, rfl, trivial⟩

theorem runLock_exclusive_overrun :
    RunLock.signals.releaseRunLock "first" (system.final (start 0) overrun).redis =
        (system.final (start 0) overrun).redis ∧
      (0 : ℤ) + RunLock.signals.ttlSeconds * 1000 ≤ 120000 := by
  obtain ⟨hrelease, -, hapart⟩ := runLock_exclusive .signals 0 overrun overrun_run
  refine ⟨?_, hapart "first" "second" 0 120000 (by decide) rfl rfl (by decide)⟩
  rcases hrelease "first" with hsame | ⟨_, -, hentry, -⟩
  · exact hsame
  · have hsecond : some "second" = some "first" := congrArg (Option.map Prod.fst) hentry
    exact absurd hsecond (by decide)

end RunLocks

end CryptoZaloBot
