import Mathlib.Algebra.Order.Group.Int
import CryptoZaloBot.Base.System

/-!
# Reading through a cache

A cache with a time to live stands in front of a service. Whoever wants something reads the
cache, asks the service if nothing is there, and stores what it answers
(`CryptoZaloBot.ReadThrough.system`). Several clients do so at once, and one client may want
several things one after the other. Reading can fail, storing can fail, and an entry can go at
any time.

| rule | what it is for | theorem |
|---|---|---|
| freshness | what clients go on with is fresh | `CryptoZaloBot.ReadThrough.invariant_of_finished` |
| economy | the service is asked once in a time to live | `CryptoZaloBot.ReadThrough.asked_apart` |
-/

namespace CryptoZaloBot

namespace ReadThrough

variable {ρ κ ν τ : Type*}

/-- **What is read through a cache**: the requests, and the clients that make them one after
the other. A client without a request is finished. -/
structure Service (ρ κ ν τ : Type*) where
  key : ρ → κ
  /-- How long an answer is kept. -/
  ttl : ρ → ℕ
  /-- The values a request can be answered with. -/
  answers : ρ → ν → Prop
  /-- The clients there are at first. -/
  starts : τ → Prop
  request : τ → Option ρ
  /-- How a client goes on with a value, or without one. -/
  resume : τ → Option ν → τ

/-- Where a client is with its request. -/
inductive Phase (ν : Type*)
  | reading
  | asking
  | storing (value : ν) (answeredAt : ℤ)

structure Task (ν τ : Type*) where
  client : τ
  startedAt : ℤ
  phase : Phase ν

/-- An entry is a value and the time at which it expires. -/
structure State (κ ν τ : Type*) where
  now : ℤ
  entries : κ → Option (ν × ℤ)
  tasks : ℕ → Option (Task ν τ)

/-- What happens to a client that has a request. -/
inductive Move (ν : Type*)
  /-- The cache is read, and there is a value or not. -/
  | reads (cached : Option ν)
  /-- The service answers, or fails. -/
  | answers (value : Option ν)
  /-- The answer is stored, unless this fails. -/
  | stores (kept : Bool)

inductive Event (κ ν τ : Type*)
  | starts (i : ℕ) (client : τ)
  | moves (i : ℕ) (move : Move ν)
  | evicts (key : κ)
  | ticks (d : ℕ)

inductive Output (ρ ν τ : Type*)
  | asked (request : ρ) (time : ℤ)
  | answered (request : ρ) (value : Option ν) (time : ℤ)
  | finished (i : ℕ) (client : τ) (startedAt : ℤ)

section Task

variable (S : Service ρ κ ν τ)

/-- The client goes on. -/
def Task.resume (task : Task ν τ) (value : Option ν) : Task ν τ where
  client := S.resume task.client value
  startedAt := task.startedAt
  phase := .reading

/-- The client after a move. -/
def Task.move (now : ℤ) (task : Task ν τ) : Move ν → Task ν τ
  | .reads (some value) => task.resume S (some value)
  | .reads none => { task with phase := .asking }
  | .answers (some value) => { task with phase := .storing value now }
  | .answers none => task.resume S none
  | .stores _ =>
    match task.phase with
    | .storing value _ => task.resume S (some value)
    | _ => task

/-- The request of the client `i`. -/
def fetching (s : State κ ν τ) (i : ℕ) : Option (Task ν τ × ρ) :=
  (s.tasks i).bind fun task => (S.request task.client).map (task, ·)

/-- Whether a move can happen. An answer is stored at most `delay` after it came. -/
def Permitted (delay : ℕ) (s : State κ ν τ) (task : Task ν τ) (request : ρ) : Move ν → Prop
  | .reads cached => task.phase = .reading ∧
    ∀ value ∈ cached, ∃ expiry, s.entries (S.key request) = some (value, expiry) ∧ s.now < expiry
  | .answers value => task.phase = .asking ∧ ∀ v ∈ value, S.answers request v
  | .stores _ => ∃ value answeredAt, task.phase = .storing value answeredAt ∧
    s.now ≤ answeredAt + delay

/-- What a move stores. -/
def Task.stored (task : Task ν τ) : Move ν → Option ν
  | .stores true =>
    match task.phase with
    | .storing value _ => some value
    | _ => none
  | _ => none

/-- The cache after a move. -/
def entriesAfter [DecidableEq κ] (s : State κ ν τ) (task : Task ν τ) (request : ρ)
    (move : Move ν) : κ → Option (ν × ℤ) :=
  match task.stored move with
  | none => s.entries
  | some value => Function.update s.entries (S.key request) (some (value, s.now + S.ttl request))

/-- What is said of a request. -/
def saidOf (now : ℤ) (request : ρ) : Move ν → List (Output ρ ν τ)
  | .reads none => [.asked request now]
  | .answers value => [.answered request value now]
  | _ => []

/-- What is said of a client that is finished. -/
def saidWhenFinished (i : ℕ) (task : Task ν τ) : List (Output ρ ν τ) :=
  match S.request task.client with
  | none => [.finished i task.client task.startedAt]
  | some _ => []

end Task

section System

variable [DecidableEq κ] (S : Service ρ κ ν τ) (delay : ℕ)

/-- **Clients that read through the cache.** -/
def system : System (State κ ν τ) (Event κ ν τ) (Output ρ ν τ) where
  legal s e :=
    match e with
    | .starts i client => s.tasks i = none ∧ S.starts client
    | .moves i move => ∃ task request, fetching S s i = some (task, request) ∧
        Permitted S delay s task request move
    | .evicts _ => True
    | .ticks _ => True
  next s e :=
    match e with
    | .starts i client =>
      { s with tasks := Function.update s.tasks i (some ⟨client, s.now, .reading⟩) }
    | .moves i move =>
      match fetching S s i with
      | none => s
      | some (task, request) =>
        { s with
          entries := entriesAfter S s task request move
          tasks := Function.update s.tasks i (some (task.move S s.now move)) }
    | .evicts key => { s with entries := Function.update s.entries key none }
    | .ticks d => { s with now := s.now + d }
  out s e :=
    match e with
    | .moves i move =>
      match fetching S s i with
      | none => []
      | some (task, request) =>
        saidOf s.now request move ++ saidWhenFinished S i (task.move S s.now move)
    | _ => []

/-- Nothing is cached, and nobody has asked for anything. -/
def start (now : ℤ) : State κ ν τ where
  now := now
  entries _ := none
  tasks _ := none

end System

/-! ### One move -/

section Step

variable [DecidableEq κ] {S : Service ρ κ ν τ} {delay : ℕ} {s : State κ ν τ} {i : ℕ}
  {task : Task ν τ} {request : ρ} {move : Move ν}

omit [DecidableEq κ] in
theorem fetching_eq_some :
    fetching S s i = some (task, request) ↔
      s.tasks i = some task ∧ S.request task.client = some request := by
  rw [fetching, Option.bind_eq_some_iff]
  constructor
  · rintro ⟨task', htask, hrequest⟩
    obtain ⟨request', hrequest', heq⟩ := Option.map_eq_some_iff.mp hrequest
    obtain ⟨rfl, rfl⟩ := Prod.mk.inj heq
    exact ⟨htask, hrequest'⟩
  · rintro ⟨htask, hrequest⟩
    exact ⟨task, htask, Option.map_eq_some_iff.mpr ⟨request, hrequest, rfl⟩⟩

theorem next_moves (h : fetching S s i = some (task, request)) :
    (system S delay).next s (.moves i move) =
      { s with
        entries := entriesAfter S s task request move
        tasks := Function.update s.tasks i (some (task.move S s.now move)) } := by
  simp only [system, h]

theorem out_moves (h : fetching S s i = some (task, request)) :
    (system S delay).out s (.moves i move) =
      saidOf s.now request move ++ saidWhenFinished S i (task.move S s.now move) := by
  simp only [system, h]

omit [DecidableEq κ] in
theorem stored_eq_some {value : ν} (h : task.stored move = some value) :
    move = .stores true ∧ ∃ answeredAt, task.phase = .storing value answeredAt := by
  rw [Task.stored.eq_def] at h
  split at h
  · split at h
    next stored answeredAt hphase =>
      obtain rfl := Option.some.inj h
      exact ⟨rfl, answeredAt, hphase⟩
    · cases h
  · cases h

/-- An entry is an old one, or the answer that was just stored. -/
theorem mem_entriesAfter {key : κ} {value : ν} {expiry : ℤ}
    (h : entriesAfter S s task request move key = some (value, expiry)) :
    s.entries key = some (value, expiry) ∨
      key = S.key request ∧ expiry = s.now + S.ttl request ∧ move = .stores true ∧
        ∃ answeredAt, task.phase = .storing value answeredAt := by
  rw [entriesAfter] at h
  cases hstored : task.stored move with
  | none =>
    rw [hstored] at h
    exact .inl h
  | some stored =>
    rw [hstored] at h
    dsimp only at h
    rcases eq_or_ne key (S.key request) with rfl | hne
    · rw [Function.update_self] at h
      obtain ⟨rfl, rfl⟩ := Prod.mk.inj (Option.some.inj h)
      exact .inr ⟨rfl, rfl, stored_eq_some hstored⟩
    · rw [Function.update_of_ne hne] at h
      exact .inl h

end Step

/-! ### What a client goes on with -/

section Fresh

variable (S : Service ρ κ ν τ) (delay : ℕ)

/-- **What a client goes on with**: a value that a request with the same key was answered with,
at most a time to live and the delay before the client started; or nothing, because the service
failed since. -/
def Fresh (h : List (Output ρ ν τ)) (request : ρ) (startedAt : ℤ) : Option ν → Prop
  | some value => ∃ request' t, .answered request' (some value) t ∈ h ∧
    S.key request' = S.key request ∧ S.answers request' value ∧
      startedAt ≤ t + delay + S.ttl request'
  | none => ∃ t, .answered request none t ∈ h ∧ startedAt ≤ t

/-- **What is true of every client**: it is so at first, and stays so when the client goes on
with something fresh. -/
structure Invariant (P : τ → List (Output ρ ν τ) → ℤ → Prop) : Prop where
  starts : ∀ client startedAt, S.starts client → P client [] startedAt
  mono : ∀ client h h' startedAt, P client h startedAt → P client (h ++ h') startedAt
  resume : ∀ client request h startedAt value, P client h startedAt →
    S.request client = some request → Fresh S delay h request startedAt value →
      P (S.resume client value) h startedAt

/-- A client, and what it is about to store. -/
structure TaskSound (P : τ → List (Output ρ ν τ) → ℤ → Prop) (now : ℤ)
    (h : List (Output ρ ν τ)) (task : Task ν τ) : Prop where
  started : task.startedAt ≤ now
  client : P task.client h task.startedAt
  storing : ∀ value t, task.phase = .storing value t → ∃ request,
    S.request task.client = some request ∧ .answered request (some value) t ∈ h ∧
      S.answers request value ∧ task.startedAt ≤ t

structure Sound (P : τ → List (Output ρ ν τ) → ℤ → Prop) (s : State κ ν τ)
    (h : List (Output ρ ν τ)) : Prop where
  entries : ∀ key value expiry, s.entries key = some (value, expiry) → ∃ request t,
    .answered request (some value) t ∈ h ∧ S.key request = key ∧ S.answers request value ∧
      expiry ≤ t + delay + S.ttl request
  tasks : ∀ i, ∀ task ∈ s.tasks i, TaskSound S P s.now h task

variable {S delay} {P : τ → List (Output ρ ν τ) → ℤ → Prop} {s : State κ ν τ}
  {h h' : List (Output ρ ν τ)} {now now' : ℤ} {task : Task ν τ} {request : ρ} {move : Move ν}

theorem TaskSound.mono (hP : Invariant S delay P) (ht : TaskSound S P now h task)
    (hnow : now ≤ now') : TaskSound S P now' (h ++ h') task where
  started := ht.started.trans hnow
  client := hP.mono _ _ _ _ ht.client
  storing value t hphase := by
    obtain ⟨request, hrequest, hmem, hanswers, hle⟩ := ht.storing value t hphase
    exact ⟨request, hrequest, List.mem_append_left _ hmem, hanswers, hle⟩

theorem TaskSound.resume (hP : Invariant S delay P) (ht : TaskSound S P now h task)
    (hrequest : S.request task.client = some request) {value : Option ν}
    (hfresh : Fresh S delay h request task.startedAt value) :
    TaskSound S P now h (task.resume S value) where
  started := ht.started
  client := hP.resume _ _ _ _ _ ht.client hrequest hfresh
  storing _ _ hphase := by cases hphase

/-- What a client is after a move. -/
theorem Sound.taskSound_move (hP : Invariant S delay P) (hs : Sound S delay P s h)
    (ht : TaskSound S P s.now h task) (hrequest : S.request task.client = some request)
    (hmove : Permitted S delay s task request move) :
    TaskSound S P s.now (h ++ saidOf s.now request move) (task.move S s.now move) := by
  cases move with
  | reads cached =>
    cases cached with
    | none =>
      exact ⟨ht.started, hP.mono _ _ _ _ ht.client, fun _ _ hphase => by cases hphase⟩
    | some value =>
      obtain ⟨expiry, hentry, hlive⟩ := hmove.2 value rfl
      obtain ⟨request', t, hmem, hkey, hanswers, hle⟩ := hs.entries _ _ _ hentry
      refine (ht.resume hP hrequest ?_).mono hP le_rfl
      have := ht.started
      exact ⟨request', t, hmem, hkey, hanswers, by omega⟩
  | answers value =>
    cases value with
    | none =>
      refine (ht.mono hP le_rfl).resume hP hrequest ⟨s.now, ?_, ht.started⟩
      exact List.mem_append_right _ (List.mem_singleton_self _)
    | some value =>
      refine ⟨ht.started, hP.mono _ _ _ _ ht.client, ?_⟩
      rintro _ _ ⟨⟩
      exact ⟨request, hrequest, List.mem_append_right _ (List.mem_singleton_self _),
        hmove.2 value rfl, ht.started⟩
  | stores kept =>
    obtain ⟨value, t, hphase, -⟩ := hmove
    obtain ⟨request', hrequest', hmem, hanswers, hle⟩ := ht.storing value t hphase
    obtain rfl := Option.some.inj (hrequest.symm.trans hrequest')
    have hresume : task.move S s.now (.stores kept) = task.resume S (some value) := by
      simp only [Task.move, hphase]
    rw [hresume]
    refine (ht.resume hP hrequest ?_).mono hP le_rfl
    exact ⟨request, t, hmem, rfl, hanswers, by omega⟩

variable [DecidableEq κ]

/-- **One event keeps all of it.** -/
theorem Sound.next (hP : Invariant S delay P) (hs : Sound S delay P s h)
    {e : Event κ ν τ} (hleg : (system S delay).legal s e) :
    Sound S delay P ((system S delay).next s e) (h ++ (system S delay).out s e) := by
  have hkept {key : κ} {value : ν} {expiry : ℤ} (out : List (Output ρ ν τ))
      (hentry : s.entries key = some (value, expiry)) : ∃ request t,
      .answered request (some value) t ∈ h ++ out ∧ S.key request = key ∧
        S.answers request value ∧ expiry ≤ t + delay + S.ttl request := by
    obtain ⟨request, t, hmem, hrest⟩ := hs.entries _ _ _ hentry
    exact ⟨request, t, List.mem_append_left _ hmem, hrest⟩
  cases e with
  | starts i client =>
    refine ⟨fun _ _ _ hentry => hkept _ hentry, fun j task htask => ?_⟩
    change Function.update s.tasks i _ j = some task at htask
    rcases eq_or_ne j i with rfl | hne
    · rw [Function.update_self] at htask
      obtain rfl := Option.some.inj htask
      refine ⟨le_rfl, ?_, fun _ _ hphase => by cases hphase⟩
      rw [← List.nil_append (h ++ _)]
      exact hP.mono _ _ _ _ (hP.starts _ _ hleg.2)
    · rw [Function.update_of_ne hne] at htask
      exact (hs.tasks j task htask).mono hP le_rfl
  | moves i move =>
    obtain ⟨task, request, hfetching, hmove⟩ := hleg
    obtain ⟨htask, hrequest⟩ := fetching_eq_some.mp hfetching
    have ht := hs.tasks i task htask
    rw [next_moves hfetching, out_moves hfetching]
    refine ⟨fun key value expiry hentry => ?_, fun j task' htask' => ?_⟩
    · rcases mem_entriesAfter hentry with hold | ⟨rfl, rfl, rfl, t, hphase⟩
      · exact hkept _ hold
      · obtain ⟨request', hrequest', hmem, hanswers, -⟩ := ht.storing value t hphase
        obtain rfl := Option.some.inj (hrequest.symm.trans hrequest')
        obtain ⟨_, _, hphase', hdelay⟩ := hmove
        obtain ⟨-, rfl⟩ := Phase.storing.inj (hphase.symm.trans hphase')
        exact ⟨request, t, List.mem_append_left _ hmem, rfl, hanswers, by omega⟩
    · change Function.update s.tasks i _ j = some task' at htask'
      rcases eq_or_ne j i with rfl | hne
      · rw [Function.update_self] at htask'
        obtain rfl := Option.some.inj htask'
        rw [← List.append_assoc]
        exact (hs.taskSound_move hP ht hrequest hmove).mono hP le_rfl
      · rw [Function.update_of_ne hne] at htask'
        exact (hs.tasks j task' htask').mono hP le_rfl
  | evicts key =>
    refine ⟨fun key' value expiry hentry => ?_, fun j task htask =>
      (hs.tasks j task htask).mono hP le_rfl⟩
    change Function.update s.entries key none key' = _ at hentry
    rcases eq_or_ne key' key with rfl | hne
    · rw [Function.update_self] at hentry
      cases hentry
    · rw [Function.update_of_ne hne] at hentry
      exact hkept _ hentry
  | ticks d =>
    exact ⟨fun _ _ _ hentry => hkept _ hentry, fun j task htask =>
      (hs.tasks j task htask).mono hP (by simp [system])⟩

/-- **The freshness rule**: when a client finishes, what is true of every client is true of it. -/
theorem invariant_of_finished (hP : Invariant S delay P) {es : List (Event κ ν τ)} {e : Event κ ν τ}
    (hr : (system S delay).Run (start now) (es ++ [e])) {i : ℕ} {c : τ} {startedAt : ℤ}
    (hout : .finished i c startedAt ∈
      (system S delay).out ((system S delay).final (start now) es) e) :
    S.request c = none ∧ P c ((system S delay).outputs (start now) (es ++ [e])) startedAt := by
  have hs := System.Run.history (J := Sound S delay P) (h := [])
    (fun _ _ _ hs hleg => hs.next hP hleg) ⟨by rintro _ _ _ ⟨⟩, by rintro _ _ ⟨⟩⟩ hr
  rw [List.nil_append, System.final_concat] at hs
  cases e with
  | moves j move =>
    obtain ⟨-, ⟨task, request, hfetching, -⟩, -⟩ := (System.run_append _ _ _ _).mp hr
    rw [out_moves hfetching] at hout
    rw [next_moves hfetching] at hs
    have htask : TaskSound S P _ _ (task.move S _ move) :=
      hs.tasks j _ (Function.update_self j _ _)
    rcases List.mem_append.mp hout with hsaid | hfinished
    · cases move with
      | reads cached => cases cached <;> simp [saidOf] at hsaid
      | answers => simp [saidOf] at hsaid
      | stores => simp [saidOf] at hsaid
    · rw [saidWhenFinished] at hfinished
      split at hfinished
      next hlast =>
        obtain ⟨rfl, rfl, rfl⟩ := Output.finished.inj (List.mem_singleton.mp hfinished)
        exact ⟨hlast, htask.client⟩
      · cases hfinished
  | _ => cases hout

end Fresh

/-! ### How often the service is asked -/

section Economy

variable (S : Service ρ κ ν τ)

/-- Some client is between asking for the key and storing the answer. -/
def Busy (s : State κ ν τ) (key : κ) : Prop :=
  ∃ i task request, fetching S s i = some (task, request) ∧ S.key request = key ∧
    task.phase ≠ .reading

/-- There is no entry, or it has expired. -/
def Expired (s : State κ ν τ) (key : κ) : Prop :=
  ∀ value expiry, s.entries key = some (value, expiry) → expiry ≤ s.now

/-- **Nothing fails, and nobody asks for what is being asked for.** -/
def Reliable (s : State κ ν τ) : Event κ ν τ → Prop
  | .moves i move => ∀ task request, fetching S s i = some (task, request) →
    (move = .reads none → Expired s (S.key request) ∧ ¬Busy S s (S.key request)) ∧
      move ≠ .answers none ∧ move ≠ .stores false
  | .evicts key => Expired s key
  | _ => True

variable {S} in
/-- Nobody is busy while everybody is reading. -/
theorem not_busy {s : State κ ν τ} {key : κ}
    (h : ∀ i, ∀ task ∈ s.tasks i, task.phase = .reading) : ¬Busy S s key := by
  rintro ⟨i, task, request, hfetching, -, hphase⟩
  exact hphase (h i task (fetching_eq_some.mp hfetching).1)

theorem reading_update {tasks : ℕ → Option (Task ν τ)} {i : ℕ} {task' : Task ν τ}
    (h : ∀ j ≠ i, ∀ task ∈ tasks j, task.phase = .reading) (htask' : task'.phase = .reading) :
    ∀ j, ∀ task ∈ Function.update tasks i (some task') j, task.phase = .reading := by
  intro j task htask
  rcases eq_or_ne j i with rfl | hne
  · rw [Function.update_self] at htask
    obtain rfl := Option.some.inj htask
    exact htask'
  · rw [Function.update_of_ne hne] at htask
    exact h j hne task htask

variable {S} in
theorem reliable_moves {s : State κ ν τ} {i : ℕ} {task : Task ν τ} {request : ρ} {move : Move ν}
    (hfetching : fetching S s i = some (task, request))
    (hfree : move = .reads none → Expired s (S.key request) ∧ ¬Busy S s (S.key request))
    (hanswered : move ≠ .answers none) (hkept : move ≠ .stores false) :
    Reliable S s (.moves i move) := by
  intro task' request' hfetching'
  obtain ⟨rfl, rfl⟩ := Prod.mk.inj (Option.some.inj (hfetching.symm.trans hfetching'))
  exact ⟨hfree, hanswered, hkept⟩

/-- Two requests with one key are a time to live apart. -/
def Apart : Output ρ ν τ → Output ρ ν τ → Prop
  | .asked request t, .asked request' t' =>
    S.key request = S.key request' → t + S.ttl request ≤ t'
  | _, _ => True

/-- What a request at the time `t` leaves behind for a time to live. -/
structure Asked (request : ρ) (t : ℤ) (s : State κ ν τ) : Prop where
  past : t ≤ s.now
  held : t + S.ttl request ≤ s.now ∨ Busy S s (S.key request) ∨
    ∃ value expiry, s.entries (S.key request) = some (value, expiry) ∧
      t + S.ttl request ≤ expiry

variable {S} {delay : ℕ} {s : State κ ν τ} {request : ρ} {t : ℤ} [DecidableEq κ]

omit [DecidableEq κ] in
/-- The service is not asked again before that. -/
theorem Asked.le_now (h : Asked S request t s) (hexpired : Expired s (S.key request))
    (hidle : ¬Busy S s (S.key request)) : t + S.ttl request ≤ s.now := by
  rcases h.held with hpast | hbusy | ⟨value, expiry, hentry, hle⟩
  · exact hpast
  · exact absurd hbusy hidle
  · exact hle.trans (hexpired value expiry hentry)

omit [DecidableEq κ] in
/-- A client that is left alone stays where it is. -/
theorem Busy.of_ne {s' : State κ ν τ} {i j : ℕ} {task task' : Task ν τ} {key : κ}
    (hfetching : fetching S s j = some (task, request)) (hkey : S.key request = key)
    (hphase : task.phase ≠ .reading) (hne : j ≠ i)
    (htasks : s'.tasks = Function.update s.tasks i (some task')) : Busy S s' key := by
  obtain ⟨htask, hrequest⟩ := fetching_eq_some.mp hfetching
  refine ⟨j, task, request, fetching_eq_some.mpr ⟨?_, hrequest⟩, hkey, hphase⟩
  rw [htasks, Function.update_of_ne hne, htask]

/-- An entry is kept, or a later one takes its place. -/
theorem exists_entriesAfter (httl : ∀ r r', S.key r = S.key r' → S.ttl r = S.ttl r')
    {task : Task ν τ} {request' : ρ} {move : Move ν} {value : ν} {expiry : ℤ} (hpast : t ≤ s.now)
    (hentry : s.entries (S.key request) = some (value, expiry))
    (hle : t + S.ttl request ≤ expiry) : ∃ value expiry,
      entriesAfter S s task request' move (S.key request) = some (value, expiry) ∧
        t + S.ttl request ≤ expiry := by
  rw [entriesAfter]
  cases task.stored move with
  | none => exact ⟨value, expiry, hentry, hle⟩
  | some stored =>
    dsimp only
    by_cases hkey : S.key request = S.key request'
    · rw [hkey, Function.update_self, httl _ _ hkey]
      exact ⟨stored, _, rfl, by omega⟩
    · rw [Function.update_of_ne hkey]
      exact ⟨value, expiry, hentry, hle⟩

/-- **What a request leaves behind stays.** -/
theorem Asked.next (httl : ∀ r r', S.key r = S.key r' → S.ttl r = S.ttl r')
    (h : Asked S request t s) {e : Event κ ν τ} (hleg : (system S delay).legal s e)
    (hreliable : Reliable S s e) : Asked S request t ((system S delay).next s e) := by
  obtain ⟨hpast, hheld⟩ := h
  cases e with
  | starts i client =>
    refine ⟨hpast, ?_⟩
    rcases hheld with hle | ⟨j, task, request', hfetching, hkey, hphase⟩ | hentry
    · exact .inl hle
    · refine .inr (.inl (Busy.of_ne hfetching hkey hphase ?_ rfl))
      -- The new client is none of those there are.
      rintro rfl
      have htask := (fetching_eq_some.mp hfetching).1
      rw [hleg.1] at htask
      cases htask
    · exact .inr (.inr hentry)
  | moves i move =>
    obtain ⟨task, request', hfetching, hmove⟩ := hleg
    obtain ⟨-, hanswered, hkept⟩ := hreliable task request' hfetching
    rw [next_moves hfetching]
    refine ⟨hpast, ?_⟩
    rcases hheld with hle | ⟨j, task', request'', hfetching', hkey, hphase⟩ |
      ⟨value, expiry, hentry, hle⟩
    · exact .inl hle
    · rcases eq_or_ne j i with rfl | hne
      · obtain ⟨rfl, rfl⟩ := Prod.mk.inj (Option.some.inj (hfetching.symm.trans hfetching'))
        have hrequest := (fetching_eq_some.mp hfetching).2
        cases move with
        | reads => exact absurd hmove.1 hphase
        | answers value =>
          cases value with
          | none => exact absurd rfl hanswered
          | some value =>
            refine .inr (.inl ⟨j, _, request', fetching_eq_some.mpr
              ⟨Function.update_self j _ _, hrequest⟩, hkey, ?_⟩)
            rintro ⟨⟩
        | stores kept =>
          -- The answer is in the cache now.
          cases kept with
          | false => exact absurd rfl hkept
          | true =>
            obtain ⟨value, answeredAt, hstoring, -⟩ := hmove
            refine .inr (.inr ⟨value, s.now + S.ttl request', ?_, ?_⟩)
            · simp only [entriesAfter, Task.stored, hstoring, ← hkey, Function.update_self]
            · rw [httl _ _ hkey]
              omega
      · exact .inr (.inl (Busy.of_ne hfetching' hkey hphase hne rfl))
    · exact .inr (.inr (exists_entriesAfter httl hpast hentry hle))
  | evicts key =>
    refine ⟨hpast, ?_⟩
    rcases hheld with hle | hbusy | ⟨value, expiry, hentry, hle⟩
    · exact .inl hle
    · exact .inr (.inl hbusy)
    · rcases eq_or_ne (S.key request) key with rfl | hne
      · exact .inl (hle.trans (hreliable value expiry hentry))
      · refine .inr (.inr ⟨value, expiry, ?_, hle⟩)
        exact (Function.update_of_ne hne _ _).trans hentry
  | ticks d =>
    have hnow : s.now ≤ s.now + d := by omega
    refine ⟨hpast.trans hnow, ?_⟩
    rcases hheld with hle | hbusy | hentry
    · exact .inl (hle.trans hnow)
    · exact .inr (.inl hbusy)
    · exact .inr (.inr hentry)

/-- A request is the first thing that is said, if it is said at all. -/
theorem asked_of_mem_out {e : Event κ ν τ} (hleg : (system S delay).legal s e)
    (h : .asked request t ∈ (system S delay).out s e) : t = s.now ∧
      ∃ i task, e = .moves i (.reads none) ∧ fetching S s i = some (task, request) := by
  cases e with
  | moves i move =>
    obtain ⟨task, request', hfetching, -⟩ := hleg
    rw [out_moves hfetching] at h
    rcases List.mem_append.mp h with hsaid | hfinished
    · cases move with
      | reads cached =>
        cases cached with
        | none =>
          obtain ⟨rfl, rfl⟩ := Output.asked.inj (List.mem_singleton.mp hsaid)
          exact ⟨rfl, i, task, rfl, hfetching⟩
        | some => cases hsaid
      | answers => simp [saidOf] at hsaid
      | stores => cases hsaid
    · rw [saidWhenFinished] at hfinished
      split at hfinished
      · simp at hfinished
      · cases hfinished
  | _ => cases h

theorem pairwise_apart_out {e : Event κ ν τ} (hleg : (system S delay).legal s e) :
    ((system S delay).out s e).Pairwise (Apart S) := by
  cases e with
  | moves i move =>
    obtain ⟨task, request, hfetching, -⟩ := hleg
    rw [out_moves hfetching]
    have hfinished : (saidWhenFinished S i (task.move S s.now move)) = [] ∨
        ∃ c startedAt, saidWhenFinished S i (task.move S s.now move) =
          [.finished i c startedAt] := by
      rw [saidWhenFinished]
      split
      · exact .inr ⟨_, _, rfl⟩
      · exact .inl rfl
    have hsaid : saidOf (τ := τ) s.now request move = [] ∨
        ∃ o, saidOf (τ := τ) s.now request move = [o] := by
      cases move with
      | reads cached => cases cached <;> simp [saidOf]
      | answers => exact .inr ⟨_, rfl⟩
      | stores => exact .inl rfl
    rcases hsaid with hnone | ⟨o, hone⟩ <;> rcases hfinished with hopen | ⟨c, startedAt, hlast⟩
    · rw [hnone, hopen]
      exact .nil
    · rw [hnone, hlast]
      exact List.pairwise_singleton _ _
    · rw [hone, hopen]
      exact List.pairwise_singleton _ _
    · rw [hone, hlast]
      refine List.pairwise_pair.mpr ?_
      cases o <;> trivial
  | _ => exact .nil

/-- **The economy rule**: as long as nothing fails and no two clients want the same thing at
once, the service is asked for it once in a time to live. -/
theorem asked_apart (httl : ∀ r r', S.key r = S.key r' → S.ttl r = S.ttl r') {now : ℤ}
    {es : List (Event κ ν τ)}
    (hr : ((system S delay).restrict (Reliable S)).Run (start now) es) :
    ((system S delay).outputs (start now) es).Pairwise (Apart S) := by
  rw [← System.outputs_restrict (C := Reliable S)]
  refine System.Run.outputs_pairwise (M := (system S delay).restrict (Reliable S))
    (I := fun _ => True) (A := fun o s => ∀ request t, o = .asked request t → Asked S request t s)
    (fun _ _ _ _ => trivial) (fun s e _ hleg => pairwise_apart_out hleg.1) ?_ ?_ ?_ trivial hr
  · rintro s e - hleg o ho request t rfl
    obtain ⟨rfl, i, task, rfl, hfetching⟩ := asked_of_mem_out hleg.1 ho
    change Asked S request s.now ((system S delay).next s (.moves i (.reads none)))
    rw [next_moves hfetching]
    refine ⟨le_rfl, .inr (.inl ⟨i, _, request, fetching_eq_some.mpr
      ⟨Function.update_self i _ _, (fetching_eq_some.mp hfetching).2⟩, rfl, ?_⟩)⟩
    rintro ⟨⟩
  · rintro o s e - ho hleg request t rfl
    exact (ho request t rfl).next httl hleg.1 hleg.2
  · rintro o s e - ho hleg o' ho'
    cases o with
    | asked request t =>
      cases o' with
      | asked request' t' =>
        intro hkey
        obtain ⟨rfl, i, task, rfl, hfetching⟩ := asked_of_mem_out hleg.1 ho'
        obtain ⟨hexpired, hidle⟩ := (hleg.2 task request' hfetching).1 rfl
        rw [← hkey] at hexpired hidle
        exact (ho request t rfl).le_now hexpired hidle
      | _ => trivial
    | _ => trivial

end Economy

end ReadThrough

end CryptoZaloBot
