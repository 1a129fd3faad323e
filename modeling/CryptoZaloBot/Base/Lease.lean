import Mathlib.Data.Int.Notation
import Mathlib.Logic.Function.Basic
import CryptoZaloBot.Base.System

/-!
# A lock that expires

A lock kept as one entry of a store: the token of who took it, with a time to live. It is
taken only while there is no entry, and given back by comparing the token and deleting.
Between the two the entry may expire, so a holder can find its lock taken by another.

Each token belongs to one *run*, which asks for the lock once. Anybody may try to give the
lock back, with any token, at any time and again.

What such a lock promises is less than mutual exclusion:

* the entry is removed before its time only by its own token
  (`CryptoZaloBot.Lease.stored_release`);
* a run inside its time to live is the one stored (`CryptoZaloBot.Lease.Valid.live`), so there
  is one at most (`CryptoZaloBot.Lease.Valid.eq_of_inside`);
* two runs that both think they hold it took it a time to live apart
  (`CryptoZaloBot.Lease.Valid.le_of_le`).
-/

namespace CryptoZaloBot

namespace Lease

variable {κ : Type*}

/-- Where a run stands. -/
inductive Phase where
  /-- It has not asked for the lock. -/
  | idle
  | refused
  /-- It took the lock at a time, and has not given it back. -/
  | holding (since : ℤ)
  | released (since : ℤ)
  deriving DecidableEq

/-- After the lock was given back. -/
def Phase.release : Phase → Phase
  | .holding since => .released since
  | phase => phase

structure State (κ : Type*) where
  now : ℤ
  /-- The token that has the lock, with the time it expires. -/
  stored : Option (κ × ℤ)
  /-- By token. -/
  phase : κ → Phase

/-- Nobody has asked yet. -/
def start (now : ℤ) : State κ := ⟨now, none, fun _ => .idle⟩

inductive Event (κ : Type*) where
  | acquire (token : κ)
  | release (token : κ)
  /-- The entry is removed because its time is over. -/
  | expire
  /-- Time passes. -/
  | tick (ms : ℕ)

section System

variable [DecidableEq κ]

/-- **The lock**, with a time to live. The outputs are the answers to those who asked. -/
def system (ttl : ℤ) : System (State κ) (Event κ) (κ × Bool) where
  legal s
    | .acquire token => s.phase token = .idle
    | .release _ => True
    | .expire => ∃ entry, s.stored = some entry ∧ entry.2 ≤ s.now
    | .tick _ => True
  next s
    | .acquire token =>
      match s.stored with
      | none =>
        { s with
          stored := some (token, s.now + ttl)
          phase := Function.update s.phase token (.holding s.now) }
      | some _ => { s with phase := Function.update s.phase token .refused }
    | .release token =>
      { s with
        stored := if s.stored.map Prod.fst = some token then none else s.stored
        phase := Function.update s.phase token (s.phase token).release }
    | .expire => { s with stored := none }
    | .tick ms => { s with now := s.now + ms }
  out s
    | .acquire token => [(token, s.stored.isNone)]
    | _ => []

variable {ttl : ℤ} {s : State κ}

/-- **A release removes the entry of its own token only.** -/
theorem stored_release (ttl : ℤ) (s : State κ) (token : κ) :
    (((system ttl).next s (.release token)).stored = s.stored ∧
      ∀ expiry, s.stored ≠ some (token, expiry)) ∨
    ∃ expiry, s.stored = some (token, expiry) ∧
      ((system ttl).next s (.release token)).stored = none := by
  simp only [system]
  split <;> rename_i hsame
  · obtain ⟨⟨_, expiry⟩, hstored, rfl⟩ := Option.map_eq_some_iff.mp hsame
    exact .inr ⟨expiry, hstored, rfl⟩
  · exact .inl ⟨rfl, fun expiry hown => hsame (by rw [hown]; rfl)⟩

theorem next_acquire_none {token : κ} (h : s.stored = none) :
    (system ttl).next s (.acquire token) =
      { s with
        stored := some (token, s.now + ttl)
        phase := Function.update s.phase token (.holding s.now) } := by
  simp only [system, h]

theorem next_acquire_some {token : κ} {entry : κ × ℤ} (h : s.stored = some entry) :
    (system ttl).next s (.acquire token) =
      { s with phase := Function.update s.phase token .refused } := by
  simp only [system, h]

end System

/-! ### What every run keeps -/

/-- **The entry and the runs agree.** -/
structure Valid (ttl : ℤ) (s : State κ) : Prop where
  /-- The entry is of a run that holds the lock. -/
  stored : ∀ token expiry, s.stored = some (token, expiry) →
    ∃ since, s.phase token = .holding since ∧ expiry = since + ttl
  /-- Inside its time to live, a run that holds the lock is the one stored. -/
  live : ∀ token since, s.phase token = .holding since → s.now < since + ttl →
    s.stored = some (token, since + ttl)
  /-- Two runs that hold the lock took it a time to live apart. -/
  apart : ∀ token other since at', token ≠ other → s.phase token = .holding since →
    s.phase other = .holding at' → since + ttl ≤ at' ∨ at' + ttl ≤ since

theorem valid_start (ttl now : ℤ) : Valid ttl (start now : State κ) where
  stored _ _ h := nomatch h
  live _ _ h := nomatch h
  apart _ _ _ _ _ h := nomatch h

/-- **One run at most is inside its time to live.** -/
theorem Valid.eq_of_inside {ttl : ℤ} {s : State κ} (h : Valid ttl s) {token other : κ}
    {since at' : ℤ} (htoken : s.phase token = .holding since) (hinside : s.now < since + ttl)
    (hother : s.phase other = .holding at') (hinside' : s.now < at' + ttl) : token = other := by
  have heq := (h.live token since htoken hinside).symm.trans (h.live other at' hother hinside')
  exact (Prod.mk.inj (Option.some.inj heq)).1

/-- **Of two runs that hold the lock, the later one took it a time to live later.** -/
theorem Valid.le_of_le {ttl : ℤ} {s : State κ} (h : Valid ttl s) (httl : 0 < ttl) {token other : κ}
    {since at' : ℤ} (hne : token ≠ other) (htoken : s.phase token = .holding since)
    (hother : s.phase other = .holding at') (hle : since ≤ at') : since + ttl ≤ at' := by
  rcases h.apart token other since at' hne htoken hother with hapart | hapart
  · exact hapart
  · omega

section Steps

variable [DecidableEq κ] {ttl : ℤ} {s : State κ} {token : κ}

/-- The phases after one run got an answer: those of the others are as before. -/
theorem update_holding {phase : Phase} {other : κ} {since : ℤ}
    (h : Function.update s.phase token phase other = .holding since) :
    (other = token ∧ phase = .holding since) ∨
      (other ≠ token ∧ s.phase other = .holding since) := by
  rcases eq_or_ne other token with rfl | hne
  · rw [Function.update_self] at h
    exact .inl ⟨rfl, h⟩
  · rw [Function.update_of_ne hne] at h
    exact .inr ⟨hne, h⟩

/-- A run that leaves, or is refused, leaves the others to agree with the entry. -/
theorem Valid.leave (h : Valid ttl s) {phase : Phase} (hphase : ∀ since, phase ≠ .holding since)
    {stored : Option (κ × ℤ)} (hsub : ∀ entry, stored = some entry → s.stored = some entry)
    (htoken : ∀ expiry, stored ≠ some (token, expiry))
    (hothers : ∀ other expiry, other ≠ token → s.stored = some (other, expiry) →
      stored = some (other, expiry)) :
    Valid ttl { s with stored, phase := Function.update s.phase token phase } where
  stored other expiry hother := by
    obtain ⟨since, hheld, hexpiry⟩ := h.stored other expiry (hsub _ hother)
    have hne : other ≠ token := by
      rintro rfl
      exact htoken _ hother
    exact ⟨since, (Function.update_of_ne hne ..).trans hheld, hexpiry⟩
  live other since hheld hnow := by
    rcases update_holding hheld with ⟨-, heq⟩ | ⟨hne, hheld⟩
    · exact absurd heq (hphase since)
    · exact hothers _ _ hne (h.live other since hheld hnow)
  apart one other since at' hne hone hother := by
    rcases update_holding hone with ⟨-, heq⟩ | ⟨-, hone⟩
    · exact absurd heq (hphase since)
    · rcases update_holding hother with ⟨-, heq⟩ | ⟨-, hother⟩
      · exact absurd heq (hphase at')
      · exact h.apart one other since at' hne hone hother

/-- **Taking a free lock**: whoever still thinks to hold it has outlived its time. -/
theorem Valid.take (h : Valid ttl s) (hfree : s.stored = none) :
    Valid ttl { s with
      stored := some (token, s.now + ttl)
      phase := Function.update s.phase token (.holding s.now) } := by
  have houtlived : ∀ other since, s.phase other = .holding since → since + ttl ≤ s.now := by
    intro other since hheld
    by_contra hlt
    have hstored := h.live other since hheld (Int.not_le.mp hlt)
    rw [hfree] at hstored
    cases hstored
  refine { stored := ?_, live := ?_, apart := ?_ }
  · intro other expiry hother
    obtain ⟨rfl, rfl⟩ := Prod.mk.inj (Option.some.inj hother)
    exact ⟨s.now, Function.update_self .., rfl⟩
  · intro other since hheld hnow
    rcases update_holding hheld with ⟨rfl, heq⟩ | ⟨-, hheld⟩
    · rw [← Phase.holding.inj heq]
    · exact absurd hnow (Int.not_lt.mpr (houtlived other since hheld))
  · intro one other since at' hne hone hother
    rcases update_holding hone with ⟨hone', heq⟩ | ⟨-, hheld⟩
    · obtain rfl := Phase.holding.inj heq
      rcases update_holding hother with ⟨hother', -⟩ | ⟨-, hheld⟩
      · exact absurd (hone'.trans hother'.symm) hne
      · exact .inr (houtlived other at' hheld)
    · rcases update_holding hother with ⟨-, heq⟩ | ⟨-, hheld'⟩
      · obtain rfl := Phase.holding.inj heq
        exact .inl (houtlived one since hheld)
      · exact h.apart one other since at' hne hheld hheld'

theorem Phase.release_ne_holding (phase : Phase) (since : ℤ) : phase.release ≠ .holding since := by
  cases phase <;> simp [Phase.release]

/-- **Every step keeps the agreement.** -/
theorem keeps_valid (ttl : ℤ) : (system ttl : System (State κ) _ _).Keeps (Valid ttl) := by
  intro s event h hlegal
  cases event with
  | acquire token =>
    cases hstored : s.stored with
    | none =>
      rw [next_acquire_none hstored]
      exact h.take hstored
    | some entry =>
      rw [next_acquire_some hstored]
      refine h.leave (fun _ heq => by cases heq) (fun _ => id) ?_ (fun _ _ _ => id)
      intro expiry hown
      obtain ⟨since, hheld, -⟩ := h.stored token expiry hown
      rw [show s.phase token = .idle from hlegal] at hheld
      cases hheld
  | release token =>
    rcases stored_release ttl s token with ⟨hsame, hforeign⟩ | ⟨expiry, hown, hgone⟩
    · exact h.leave (Phase.release_ne_holding _) (fun _ hentry => hsame.symm.trans hentry)
        (fun expiry hown => hforeign expiry (hsame.symm.trans hown))
        fun _ _ _ hother => hsame.trans hother
    · have hnone : ∀ entry, ((system ttl).next s (.release token)).stored ≠ some entry :=
        fun entry hentry => Option.some_ne_none entry (hentry.symm.trans hgone)
      refine h.leave (Phase.release_ne_holding _) (fun entry hentry => absurd hentry (hnone entry))
        (fun expiry => hnone (token, expiry)) fun other expiry' hne hother => ?_
      obtain ⟨heq, -⟩ := Prod.mk.inj (Option.some.inj (hown.symm.trans hother))
      exact absurd heq.symm hne
  | expire =>
    obtain ⟨⟨token, expiry⟩, hstored, hover⟩ := hlegal
    refine { stored := nofun, live := fun other since hheld hnow => ?_, apart := h.apart }
    have heq := h.live other since hheld hnow
    rw [hstored] at heq
    obtain ⟨-, rfl⟩ := Prod.mk.inj (Option.some.inj heq)
    exact absurd hnow (Int.not_lt.mpr hover)
  | tick ms =>
    refine { stored := h.stored, live := fun other since hheld hnow => ?_, apart := h.apart }
    exact h.live other since hheld (by simp only [system] at hnow; omega)

end Steps

end Lease

end CryptoZaloBot
