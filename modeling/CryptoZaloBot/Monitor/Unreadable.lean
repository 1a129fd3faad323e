import CryptoZaloBot.Base.Lease
import CryptoZaloBot.Monitor.Service

/-!
# Overlapping notices

`PriceAlertsMonitorService.sendUnrecorded`, taken apart into what it does before and after each
`await`: several runs of the watcher that cannot read their state, on one instance or on many,
tell the owner so at the same time.

A call looks for a hold in the memory of its instance, claims the one in Redis, sends, and then
keeps the hold in memory or gives the claim back. What keeps two notices apart is the claim: as
a lock that is never given back once the notice was delivered, it is a lease
(`CryptoZaloBot.Monitor.Unreadable.Linked`), although it is given back by a plain `DEL`. When
Redis does not carry the claim out, only the memory is left, and it keeps the notices of one
instance apart.

A process that is started anew has an empty memory, and counts as another instance. A call takes
some time, and its run began before it: notices are an hour apart less what a run can last
(`CryptoZaloBot.Monitor.Unreadable.unreadable_notices_apart`).
-/

namespace CryptoZaloBot

namespace Monitor

namespace Unreadable

/-! ### Calls -/

/-- What became of the claim of a call. -/
structure Claim where
  /-- `claimed`: no answer counts as none. -/
  claimed : Option Bool
  /-- When Redis took the hold for this call, if it did. -/
  takenAt : Option ℤ
  deriving DecidableEq

/-- Where a call stands. `startedAt` is the `now` of its run. -/
inductive Phase where
  | idle
  | started (startedAt : ℤ)
  /-- No hold in memory. -/
  | checked (startedAt : ℤ)
  | claimed (startedAt : ℤ) (claim : Claim)
  | sent (startedAt : ℤ) (claim : Claim) (accepted : Bool)
  | ended (endedAt : ℤ)
  deriving DecidableEq

/-- A notice that was delivered. -/
structure Notice (κ : Type*) where
  call : κ
  startedAt : ℤ
  takenAt : Option ℤ
  sentAt : ℤ
  deriving DecidableEq

variable {ι κ : Type*}

structure State (ι κ : Type*) where
  now : ℤ
  /-- The hold in Redis, by the time it expires. -/
  noticeHold : Option ℤ
  /-- The hold in the memory of an instance, by its `at`. -/
  memoryHolds : ι → Option ℤ
  phase : κ → Phase

/-- Nobody has sent anything. -/
def start (now : ℤ) : State ι κ := ⟨now, none, fun _ => none, fun _ => .idle⟩

/-- Redis shows no key whose time is over. -/
def State.getNoticeHold (s : State ι κ) : Option ℤ := s.noticeHold.filter (s.now < ·)

/-- **`claimNoticeHold`**, carried out by Redis. -/
def State.claimNoticeHold (s : State ι κ) : Option ℤ :=
  if s.getNoticeHold.isNone then some (s.now + stateUnreadableNoticeMs) else s.noticeHold

/-- **`memoryHold`**, of a run that began at a time. -/
def State.memoryHold (s : State ι κ) (host : ι) (startedAt : ℤ) : Bool :=
  (s.memoryHolds host).any fun at_ => startedAt - at_ < stateUnreadableNoticeMs

inductive Event (κ : Type*) where
  | start (call : κ)
  | check (call : κ)
  /-- Whether Redis carries the command out, and whether its answer arrives. -/
  | claim (call : κ) (carriedOut answered : Bool)
  | send (call : κ) (accepted : Bool)
  /-- What is left to do, and whether Redis carries it out. -/
  | finish (call : κ) (carriedOut : Bool)
  | tick (ms : ℕ)

section System

variable [DecidableEq κ]

def State.setPhase (s : State ι κ) (call : κ) (phase : Phase) : State ι κ :=
  { s with phase := Function.update s.phase call phase }

@[simp] theorem phase_setPhase_self (s : State ι κ) (call : κ) (phase : Phase) :
    (s.setPhase call phase).phase call = phase := Function.update_self ..

theorem phase_setPhase_of_ne (s : State ι κ) {call other : κ} (phase : Phase) (h : other ≠ call) :
    (s.setPhase call phase).phase other = s.phase other := Function.update_of_ne h ..

/-- What holds of all phases, after one was set. -/
theorem forall_setPhase {s : State ι κ} {call : κ} {phase : Phase} {P : κ → Phase → Prop}
    (h : ∀ other, P other (s.phase other)) (hcall : P call phase) (other : κ) :
    P other ((s.setPhase call phase).phase other) := by
  rcases eq_or_ne other call with rfl | hne
  · rwa [phase_setPhase_self]
  · rw [phase_setPhase_of_ne s phase hne]
    exact h other

/-- The claim of a call that Redis carries out or not. -/
def State.claim (s : State ι κ) (carriedOut answered : Bool) : Claim where
  claimed := if answered then some s.getNoticeHold.isNone else none
  takenAt := if carriedOut && s.getNoticeHold.isNone then some s.now else none

/-- After the claim: without the hold, nothing is sent. -/
def State.afterClaim (s : State ι κ) (call : κ) (startedAt : ℤ) (carriedOut answered : Bool) :
    State ι κ :=
  let claim := s.claim carriedOut answered
  let claimedState := { s with
    noticeHold := if carriedOut then s.claimNoticeHold else s.noticeHold }
  claimedState.setPhase call
    (if claim.claimed = some false then .ended s.now else .claimed startedAt claim)

variable [DecidableEq ι]

/-- After the send: the hold is kept in memory, or given back. -/
def State.afterSend (s : State ι κ) (host : ι) (call : κ) (startedAt : ℤ) (claim : Claim)
    (accepted carriedOut : Bool) : State ι κ :=
  if accepted then
    { s with memoryHolds := Function.update s.memoryHolds host (some startedAt) }.setPhase call
      (.ended s.now)
  else
    { s with
      noticeHold := if claim.claimed = some true ∧ carriedOut then none else s.noticeHold }.setPhase
      call (.ended s.now)

/-- **The calls of `sendUnrecorded`**, each on its instance and within the time a run can
last. -/
def calls (host : κ → ι) (ownerChatId : Option String) (maxRunMs : ℤ) :
    System (State ι κ) (Event κ) (Notice κ) where
  legal s
    | .start call => s.phase call = .idle
    | .check call => ∃ startedAt, s.phase call = .started startedAt ∧ s.now ≤ startedAt + maxRunMs
    | .claim call carriedOut answered =>
      (∃ startedAt, s.phase call = .checked startedAt ∧ s.now ≤ startedAt + maxRunMs) ∧
        (answered = true → carriedOut = true)
    | .send call _ =>
      ∃ startedAt claim, s.phase call = .claimed startedAt claim ∧ s.now ≤ startedAt + maxRunMs
    | .finish call _ =>
      ∃ startedAt claim accepted, s.phase call = .sent startedAt claim accepted ∧
        s.now ≤ startedAt + maxRunMs
    | .tick _ => True
  next s
    | .start call => s.setPhase call (.started s.now)
    | .check call =>
      match s.phase call with
      | .started startedAt =>
        s.setPhase call
          (if s.memoryHold (host call) startedAt then .ended s.now else .checked startedAt)
      | _ => s
    | .claim call carriedOut answered =>
      match s.phase call with
      | .checked startedAt => s.afterClaim call startedAt carriedOut answered
      | _ => s
    | .send call accepted =>
      match s.phase call with
      | .claimed startedAt claim =>
        s.setPhase call (.sent startedAt claim (ownerChatId.isSome && accepted))
      | _ => s
    | .finish call carriedOut =>
      match s.phase call with
      | .sent startedAt claim accepted =>
        s.afterSend (host call) call startedAt claim accepted carriedOut
      | _ => s
    | .tick ms => { s with now := s.now + ms }
  out s
    | .send call accepted =>
      match s.phase call with
      | .claimed startedAt claim =>
        if ownerChatId.isSome && accepted then [⟨call, startedAt, claim.takenAt, s.now⟩] else []
      | _ => []
    | _ => []

end System

/-! ### What a phase says -/

/-- When the hold was taken for a call that has not ended. -/
def Phase.takenAt : Phase → Option ℤ
  | .claimed _ claim => claim.takenAt
  | .sent _ claim _ => claim.takenAt
  | _ => none

/-- The call has not reached Redis. -/
def Phase.Unclaimed : Phase → Prop
  | .idle => True
  | .started _ => True
  | .checked _ => True
  | _ => False

/-- The call may have told the owner. -/
def Phase.Told : Phase → Prop
  | .sent _ _ accepted => accepted = true
  | .ended _ => True
  | _ => False

/-- When a call began that found no hold in memory and has not ended. -/
def Phase.checkedAt : Phase → Option ℤ
  | .checked startedAt => some startedAt
  | .claimed startedAt _ => some startedAt
  | .sent startedAt _ _ => some startedAt
  | _ => none

/-- An answered claim took the hold, after the call began. -/
def Claim.Sound (startedAt now : ℤ) (claim : Claim) : Prop :=
  (claim.claimed = some true → claim.takenAt.isSome = true) ∧
    ∀ takenAt, claim.takenAt = some takenAt → startedAt ≤ takenAt ∧ takenAt ≤ now

/-- The times of a phase are in the past. -/
def Phase.Sound (now : ℤ) : Phase → Prop
  | .idle => True
  | .started startedAt => startedAt ≤ now
  | .checked startedAt => startedAt ≤ now
  | .claimed startedAt claim => startedAt ≤ now ∧ claim.Sound startedAt now
  | .sent startedAt claim _ => startedAt ≤ now ∧ claim.Sound startedAt now
  | .ended endedAt => endedAt ≤ now

theorem Claim.Sound.mono {startedAt now now' : ℤ} {claim : Claim} (h : claim.Sound startedAt now)
    (hle : now ≤ now') : claim.Sound startedAt now' :=
  ⟨h.1, fun takenAt htaken => ⟨(h.2 takenAt htaken).1, (h.2 takenAt htaken).2.trans hle⟩⟩

theorem Phase.Sound.mono {now now' : ℤ} {phase : Phase} (h : phase.Sound now) (hle : now ≤ now') :
    phase.Sound now' := by
  cases phase with
  | idle => trivial
  | started startedAt => exact le_trans h hle
  | checked startedAt => exact le_trans h hle
  | claimed startedAt claim => exact ⟨le_trans h.1 hle, h.2.mono hle⟩
  | sent startedAt claim accepted => exact ⟨le_trans h.1 hle, h.2.mono hle⟩
  | ended endedAt => exact le_trans h hle

theorem Phase.Sound.checkedAt_le {now startedAt : ℤ} {phase : Phase} (h : phase.Sound now)
    (hchecked : phase.checkedAt = some startedAt) : startedAt ≤ now := by
  cases phase with
  | checked startedAt' => exact Option.some.inj hchecked ▸ h
  | claimed startedAt' claim => exact Option.some.inj hchecked ▸ h.1
  | sent startedAt' claim accepted => exact Option.some.inj hchecked ▸ h.1
  | _ => cases hchecked

/-! ### The hold in Redis is a lease -/

section Linked

/-- **The hold and the calls, as a lease**: a call that took the hold holds the lease until it
gives the claim back, and for ever once the notice was delivered. -/
structure Linked (s : State ι κ) (told : List (Notice κ)) (t : Lease.State κ) : Prop where
  valid : Lease.Valid stateUnreadableNoticeMs t
  now : t.now = s.now
  stored : t.stored.map Prod.snd = s.noticeHold
  unclaimed : ∀ call, (s.phase call).Unclaimed → t.phase call = .idle
  taken : ∀ call takenAt, (s.phase call).takenAt = some takenAt →
    t.phase call = .holding takenAt
  told : ∀ notice ∈ told, ∀ takenAt, notice.takenAt = some takenAt →
    t.phase notice.call = .holding takenAt

variable {s s' : State ι κ} {told : List (Notice κ)} {t : Lease.State κ}

/-- Steps that leave the hold in Redis alone, and take none. -/
theorem Linked.frame (h : Linked s told t) (hnow : s'.now = s.now)
    (hhold : s'.noticeHold = s.noticeHold)
    (hphase : ∀ call, (s'.phase call).Unclaimed → (s.phase call).Unclaimed)
    (htaken : ∀ call takenAt, (s'.phase call).takenAt = some takenAt →
      (s.phase call).takenAt = some takenAt) : Linked s' told t where
  valid := h.valid
  now := h.now.trans hnow.symm
  stored := h.stored.trans hhold.symm
  unclaimed call hcall := h.unclaimed call (hphase call hcall)
  taken call takenAt hcall := h.taken call takenAt (htaken call takenAt hcall)
  told := h.told

variable [DecidableEq κ] {call : κ}

/-- A call that goes on, or ends, without taking or giving back the hold. -/
theorem Linked.setPhase (h : Linked s told t) {phase : Phase}
    (hphase : phase.Unclaimed → (s.phase call).Unclaimed)
    (htaken : ∀ takenAt, phase.takenAt = some takenAt → (s.phase call).takenAt = some takenAt) :
    Linked (s.setPhase call phase) told t := by
  refine ⟨h.valid, h.now, h.stored, ?_, ?_, h.told⟩
  · exact forall_setPhase (P := fun other phase => phase.Unclaimed → t.phase other = .idle)
      h.unclaimed fun hunclaimed => h.unclaimed call (hphase hunclaimed)
  · exact forall_setPhase (P := fun other phase => ∀ takenAt, phase.takenAt = some takenAt →
      t.phase other = .holding takenAt) h.taken fun takenAt hcall =>
        h.taken call takenAt (htaken takenAt hcall)

/-- A call that ends keeps the hold, if it has it. -/
theorem Linked.leave (h : Linked s told t) (endedAt : ℤ) :
    Linked (s.setPhase call (.ended endedAt)) told t := by
  refine h.setPhase (fun hunclaimed => ?_) fun takenAt htaken => ?_
  · cases hunclaimed
  · cases htaken

/-- A hold whose time is over is none. -/
theorem Linked.exists_free (h : Linked s told t) (hfree : s.getNoticeHold = none) :
    ∃ t' : Lease.State κ, Lease.Valid stateUnreadableNoticeMs t' ∧ t'.now = s.now ∧
      t'.stored = none ∧ t'.phase = t.phase := by
  cases hstored : t.stored with
  | none => exact ⟨t, h.valid, h.now, hstored, rfl⟩
  | some entry =>
    have hhold : s.noticeHold = some entry.2 := by rw [← h.stored, hstored, Option.map_some]
    have hover : entry.2 ≤ t.now := by
      rw [State.getNoticeHold, hhold, Option.filter_eq_none_iff] at hfree
      have hnot := hfree entry.2 rfl
      rw [decide_eq_true_iff] at hnot
      exact h.now ▸ not_lt.mp hnot
    exact ⟨(Lease.system stateUnreadableNoticeMs).next t .expire,
      Lease.keeps_valid _ t .expire h.valid ⟨entry, hstored, hover⟩, h.now, rfl, rfl⟩

/-- **Taking the hold** is taking the lease. -/
theorem Linked.take (h : Linked s told t) (hunclaimed : (s.phase call).Unclaimed)
    (hfree : s.getNoticeHold = none) {phase : Phase} (hphase : phase.takenAt = some s.now) :
    ∃ t', Linked ({ s with noticeHold := some (s.now + stateUnreadableNoticeMs) }.setPhase call
      phase) told t' := by
  obtain ⟨t₁, hvalid, hnow, hnone, hsame⟩ := h.exists_free hfree
  have hidle : t₁.phase call = .idle := by
    rw [hsame]
    exact h.unclaimed call hunclaimed
  have hnext : (Lease.system stateUnreadableNoticeMs).next t₁ (.acquire call) = _ :=
    Lease.next_acquire_none hnone
  have hvalid' := Lease.keeps_valid _ t₁ (.acquire call) hvalid hidle
  -- Nobody else is touched: whoever took a hold before still holds its lease.
  have hother : ∀ other since, t.phase other = .holding since →
      Function.update t₁.phase call (.holding t₁.now) other = .holding since := by
    intro other since hheld
    have hne : other ≠ call := by
      rintro rfl
      rw [← hsame, hidle] at hheld
      cases hheld
    rw [Function.update_of_ne hne, hsame]
    exact hheld
  rw [hnext] at hvalid'
  refine ⟨_, hvalid', hnow, ?_, fun other hfresh => ?_, fun other takenAt htaken => ?_,
    fun notice hmem takenAt htaken => hother _ _ (h.told notice hmem takenAt htaken)⟩
  · rw [Option.map_some, hnow]
    rfl
  · rcases eq_or_ne other call with rfl | hne
    · rw [phase_setPhase_self] at hfresh
      cases phase <;> simp_all [Phase.Unclaimed, Phase.takenAt]
    · rw [phase_setPhase_of_ne _ phase hne] at hfresh
      exact (Function.update_of_ne hne ..).trans (hsame ▸ h.unclaimed other hfresh)
  · rcases eq_or_ne other call with rfl | hne
    · rw [phase_setPhase_self, hphase] at htaken
      rw [← Option.some.inj htaken, ← hnow]
      exact Function.update_self ..
    · rw [phase_setPhase_of_ne _ phase hne] at htaken
      exact hother other takenAt (h.taken other takenAt htaken)

/-- **Giving the claim back** in time is giving the lease back: the hold is still the one of this
call. -/
theorem Linked.release (h : Linked s told t) {takenAt endedAt : ℤ}
    (htaken : (s.phase call).takenAt = some takenAt)
    (hlive : s.now < takenAt + stateUnreadableNoticeMs)
    (huntold : ∀ notice ∈ told, notice.call ≠ call) :
    ∃ t', Linked ({ s with noticeHold := none }.setPhase call (.ended endedAt)) told t' := by
  have hheld := h.taken call takenAt htaken
  have hstored := h.valid.live call takenAt hheld (h.now ▸ hlive)
  have hvalid := Lease.keeps_valid _ t (.release call) h.valid trivial
  have hphase : ∀ other, other ≠ call →
      ((Lease.system stateUnreadableNoticeMs).next t (.release call)).phase other =
        t.phase other := fun other hne => Function.update_of_ne hne ..
  refine ⟨_, hvalid, h.now, ?_, fun other hfresh => ?_, fun other at_ hat => ?_,
    fun notice hmem at_ hat => ?_⟩
  · simp [Lease.system, hstored, State.setPhase]
  · rcases eq_or_ne other call with rfl | hne
    · rw [phase_setPhase_self] at hfresh
      cases hfresh
    · rw [phase_setPhase_of_ne _ _ hne] at hfresh
      exact (hphase other hne).trans (h.unclaimed other hfresh)
  · rcases eq_or_ne other call with rfl | hne
    · rw [phase_setPhase_self] at hat
      cases hat
    · rw [phase_setPhase_of_ne _ _ hne] at hat
      exact (hphase other hne).trans (h.taken other at_ hat)
  · exact (hphase _ (huntold notice hmem)).trans (h.told notice hmem at_ hat)

omit [DecidableEq κ] in
/-- A notice of a call that holds the lease. -/
theorem Linked.tell (h : Linked s told t) {startedAt sentAt : ℤ} {claim : Claim}
    {accepted : Bool} (hcall : s.phase call = .sent startedAt claim accepted) :
    Linked s (told ++ [⟨call, startedAt, claim.takenAt, sentAt⟩]) t := by
  refine ⟨h.valid, h.now, h.stored, h.unclaimed, h.taken, fun notice hmem takenAt htaken => ?_⟩
  rcases List.mem_append.mp hmem with hmem | hmem
  · exact h.told notice hmem takenAt htaken
  · obtain rfl := List.mem_singleton.mp hmem
    refine h.taken call takenAt ?_
    rw [hcall]
    exact htaken

/-- Time passes. -/
theorem Linked.tick (h : Linked s told t) (ms : ℕ) :
    ∃ t', Linked { s with now := s.now + ms } told t' := by
  have hvalid := Lease.keeps_valid _ t (.tick ms) h.valid trivial
  exact ⟨_, hvalid, congrArg (· + (ms : ℤ)) h.now, h.stored, h.unclaimed, h.taken, h.told⟩

end Linked

/-! ### What an instance remembers -/

section Remembered

/-- **The notices so far, and the memory of the instances.** A hold in memory is not older than
the run that left it, less what a run can last. -/
structure Remembered (host : κ → ι) (maxRunMs : ℤ) (s : State ι κ) (told : List (Notice κ)) :
    Prop where
  sound : ∀ call, (s.phase call).Sound s.now
  isTold : ∀ notice ∈ told, (s.phase notice.call).Told
  times : ∀ notice ∈ told, notice.sentAt ≤ s.now ∧ notice.sentAt ≤ notice.startedAt + maxRunMs ∧
    notice.startedAt ≤ notice.sentAt ∧
    ∀ takenAt, notice.takenAt = some takenAt → notice.startedAt ≤ takenAt ∧ takenAt ≤ notice.sentAt
  memory : ∀ notice ∈ told, ∀ endedAt, s.phase notice.call = .ended endedAt →
    ∃ at_, s.memoryHolds (host notice.call) = some at_ ∧ endedAt ≤ at_ + maxRunMs
  /-- A call that began later and found no hold began an hour later. -/
  spaced : ∀ notice ∈ told, ∀ endedAt, s.phase notice.call = .ended endedAt →
    ∀ call startedAt, host call = host notice.call → (s.phase call).checkedAt = some startedAt →
      endedAt < startedAt → endedAt + stateUnreadableNoticeMs ≤ startedAt + maxRunMs
  ordered : told.Pairwise fun notice later =>
    notice.call ≠ later.call ∧ notice.sentAt ≤ later.sentAt
  apart : told.Pairwise fun notice later => host notice.call = host later.call →
    ∀ endedAt, s.phase notice.call = .ended endedAt → endedAt < later.startedAt →
      endedAt + stateUnreadableNoticeMs ≤ later.startedAt + maxRunMs

variable {host : κ → ι} {maxRunMs : ℤ} {s s' : State ι κ} {told : List (Notice κ)}

/-- Steps of calls that have told nothing, with the memory as it is. -/
theorem Remembered.frame (h : Remembered host maxRunMs s told) (hnow : s.now ≤ s'.now)
    (hmemory : s'.memoryHolds = s.memoryHolds) (hsound : ∀ call, (s'.phase call).Sound s'.now)
    (htold : ∀ notice ∈ told, s'.phase notice.call = s.phase notice.call)
    (hchecked : ∀ call startedAt, (s'.phase call).checkedAt = some startedAt →
      (s.phase call).checkedAt = some startedAt) : Remembered host maxRunMs s' told where
  sound := hsound
  isTold notice hmem := htold notice hmem ▸ h.isTold notice hmem
  times notice hmem := ⟨(h.times notice hmem).1.trans hnow, (h.times notice hmem).2⟩
  memory notice hmem endedAt hended :=
    hmemory ▸ h.memory notice hmem endedAt ((htold notice hmem).symm.trans hended)
  spaced notice hmem endedAt hended call startedAt hhost hcall :=
    h.spaced notice hmem endedAt ((htold notice hmem).symm.trans hended) call startedAt hhost
      (hchecked call startedAt hcall)
  ordered := h.ordered
  apart := h.apart.imp_of_mem fun hmem _ happart hhost endedAt hended =>
    happart hhost endedAt ((htold _ hmem).symm.trans hended)

variable {call : κ}

/-- Nobody whose call has told nothing is among the notices. -/
theorem Remembered.ne_of_mem (h : Remembered host maxRunMs s told)
    (hcall : ¬(s.phase call).Told) {notice : Notice κ} (hmem : notice ∈ told) :
    notice.call ≠ call := by
  rintro rfl
  exact hcall (h.isTold notice hmem)

/-- **A notice is delivered.** -/
theorem Remembered.tell (h : Remembered host maxRunMs s told) {startedAt : ℤ} {claim : Claim}
    (hcall : s.phase call = .sent startedAt claim true)
    (hnew : ∀ notice ∈ told, notice.call ≠ call) (hle : s.now ≤ startedAt + maxRunMs) :
    Remembered host maxRunMs s (told ++ [⟨call, startedAt, claim.takenAt, s.now⟩]) := by
  have hsound := h.sound call
  rw [hcall] at hsound
  refine ⟨h.sound, ?_, ?_, ?_, ?_, ?_, ?_⟩
  · intro notice hmem
    rcases List.mem_append.mp hmem with hmem | hmem
    · exact h.isTold notice hmem
    · obtain rfl := List.mem_singleton.mp hmem
      rw [hcall]
      rfl
  · intro notice hmem
    rcases List.mem_append.mp hmem with hmem | hmem
    · exact h.times notice hmem
    · obtain rfl := List.mem_singleton.mp hmem
      exact ⟨le_rfl, hle, hsound.1, hsound.2.2⟩
  · intro notice hmem endedAt hended
    rcases List.mem_append.mp hmem with hmem | hmem
    · exact h.memory notice hmem endedAt hended
    · obtain rfl := List.mem_singleton.mp hmem
      rw [hcall] at hended
      cases hended
  · intro notice hmem endedAt hended
    rcases List.mem_append.mp hmem with hmem | hmem
    · exact h.spaced notice hmem endedAt hended
    · obtain rfl := List.mem_singleton.mp hmem
      rw [hcall] at hended
      cases hended
  · refine List.pairwise_append.mpr ⟨h.ordered, List.pairwise_singleton _ _, ?_⟩
    intro notice hmem later hlater
    obtain rfl := List.mem_singleton.mp hlater
    exact ⟨hnew notice hmem, (h.times notice hmem).1⟩
  · refine List.pairwise_append.mpr ⟨h.apart, List.pairwise_singleton _ _, ?_⟩
    intro notice hmem later hlater hhost endedAt hended hlt
    obtain rfl := List.mem_singleton.mp hlater
    refine h.spaced notice hmem endedAt hended call startedAt hhost.symm ?_ hlt
    rw [hcall]
    rfl

variable [DecidableEq κ]

theorem Remembered.sound_setPhase (h : Remembered host maxRunMs s told) {phase : Phase}
    (hphase : phase.Sound s.now) (other : κ) :
    ((s.setPhase call phase).phase other).Sound s.now :=
  forall_setPhase (P := fun _ phase => phase.Sound s.now) h.sound hphase other

/-- A call that has told nothing goes on, or ends. -/
theorem Remembered.setPhase (h : Remembered host maxRunMs s told)
    (hcall : ¬(s.phase call).Told) {phase : Phase} (hphase : phase.Sound s.now)
    (hchecked : ∀ startedAt, phase.checkedAt = some startedAt →
      (s.phase call).checkedAt = some startedAt) :
    Remembered host maxRunMs (s.setPhase call phase) told := by
  refine h.frame le_rfl rfl (h.sound_setPhase hphase) (fun notice hmem => ?_)
    fun other startedAt hother => ?_
  · exact phase_setPhase_of_ne s phase (h.ne_of_mem hcall hmem)
  · rcases eq_or_ne other call with rfl | hne
    · rw [phase_setPhase_self] at hother
      exact hchecked startedAt hother
    · rwa [phase_setPhase_of_ne s phase hne] at hother

/-- A call ends without a notice. -/
theorem Remembered.leave (h : Remembered host maxRunMs s told) (hcall : ¬(s.phase call).Told) :
    Remembered host maxRunMs (s.setPhase call (.ended s.now)) told := by
  refine h.setPhase hcall (le_refl s.now) fun startedAt hchecked => ?_
  cases hchecked

/-- **A call that finds no hold in memory** began an hour after what the memory could know. -/
theorem Remembered.check (h : Remembered host maxRunMs s told) {startedAt : ℤ}
    (hcall : s.phase call = .started startedAt)
    (hnone : s.memoryHold (host call) startedAt = false) :
    Remembered host maxRunMs (s.setPhase call (.checked startedAt)) told := by
  have huntold : ¬(s.phase call).Told := by
    rw [hcall]
    exact id
  have hle : startedAt ≤ s.now := by
    have hsound := h.sound call
    rwa [hcall] at hsound
  have hsame : ∀ notice ∈ told, (s.setPhase call (.checked startedAt)).phase notice.call =
      s.phase notice.call := fun notice hmem =>
    phase_setPhase_of_ne s _ (h.ne_of_mem huntold hmem)
  refine ⟨h.sound_setPhase hle, fun notice hmem => ?_, h.times,
    fun notice hmem endedAt hended => ?_,
    fun notice hmem endedAt hended other at_ hhost hother hlt => ?_, h.ordered,
    h.apart.imp_of_mem fun hmem _ happart hhost endedAt hended => ?_⟩
  · rw [hsame notice hmem]
    exact h.isTold notice hmem
  · rw [hsame notice hmem] at hended
    exact h.memory notice hmem endedAt hended
  · rw [hsame notice hmem] at hended
    rcases eq_or_ne other call with rfl | hne
    · rw [phase_setPhase_self] at hother
      obtain rfl := Option.some.inj hother
      obtain ⟨at', hat, hended'⟩ := h.memory notice hmem endedAt hended
      rw [State.memoryHold, hhost, hat, Option.any_some, decide_eq_false_iff_not] at hnone
      omega
    · rw [phase_setPhase_of_ne s _ hne] at hother
      exact h.spaced notice hmem endedAt hended other at_ hhost hother hlt
  · rw [hsame _ hmem] at hended
    exact happart hhost endedAt hended

/-- **A notice that was delivered is kept in memory**, when its call ends. -/
theorem Remembered.remember [DecidableEq ι] (h : Remembered host maxRunMs s told) {startedAt : ℤ}
    (hle : s.now ≤ startedAt + maxRunMs) :
    Remembered host maxRunMs ({ s with
      memoryHolds := Function.update s.memoryHolds (host call) (some startedAt) }.setPhase call
        (.ended s.now)) told := by
  generalize hs' : State.setPhase ({ s with
    memoryHolds := Function.update s.memoryHolds (host call) (some startedAt) }) call
      (.ended s.now) = s'
  have hphase : ∀ other, other ≠ call → s'.phase other = s.phase other := by
    intro other hne
    rw [← hs']
    exact phase_setPhase_of_ne _ _ hne
  have hself : s'.phase call = .ended s.now := by
    rw [← hs']
    exact phase_setPhase_self ..
  have hnow : s'.now = s.now := by
    rw [← hs']
    rfl
  have hmemory : s'.memoryHolds = Function.update s.memoryHolds (host call) (some startedAt) := by
    rw [← hs']
    rfl
  -- What ends with an earlier notice ended before this moment.
  have hended : ∀ notice ∈ told, ∀ endedAt, s'.phase notice.call = .ended endedAt →
      endedAt ≤ s.now ∧ (notice.call = call ∧ endedAt = s.now ∨
        s.phase notice.call = .ended endedAt) := by
    intro notice hmem endedAt hended
    rcases eq_or_ne notice.call call with heq | hne
    · rw [heq, hself] at hended
      obtain rfl := Phase.ended.inj hended
      exact ⟨le_rfl, Or.inl ⟨heq, rfl⟩⟩
    · rw [hphase _ hne] at hended
      have hsound := h.sound notice.call
      rw [hended] at hsound
      exact ⟨hsound, Or.inr hended⟩
  have hchecked : ∀ other at_, (s'.phase other).checkedAt = some at_ →
      (s.phase other).checkedAt = some at_ ∧ at_ ≤ s.now := by
    intro other at_ hother
    rcases eq_or_ne other call with rfl | hne
    · rw [hself] at hother
      cases hother
    · rw [hphase other hne] at hother
      exact ⟨hother, (h.sound other).checkedAt_le hother⟩
  refine ⟨fun other => ?_, fun notice hmem => ?_, fun notice hmem => hnow ▸ h.times notice hmem,
    fun notice hmem endedAt hend => ?_,
    fun notice hmem endedAt hend other at_ hhost hother hlt => ?_, h.ordered,
    h.apart.imp_of_mem fun hmem hlater happart hhost endedAt hend hlt => ?_⟩
  · rcases eq_or_ne other call with rfl | hne
    · rw [hself, hnow]
      exact le_rfl
    · rw [hphase other hne, hnow]
      exact h.sound other
  · rcases eq_or_ne notice.call call with heq | hne
    · rw [heq, hself]
      trivial
    · rw [hphase _ hne]
      exact h.isTold notice hmem
  · rw [hmemory]
    rcases eq_or_ne (host notice.call) (host call) with heq | hne
    · have hbefore := (hended notice hmem endedAt hend).1
      exact ⟨startedAt, by rw [heq, Function.update_self], by omega⟩
    · rw [Function.update_of_ne hne]
      rcases (hended notice hmem endedAt hend).2 with ⟨heq, -⟩ | hold
      · exact absurd (congrArg host heq) hne
      · exact h.memory notice hmem endedAt hold
  · obtain ⟨hold', hle'⟩ := hchecked other at_ hother
    rcases (hended notice hmem endedAt hend).2 with ⟨-, rfl⟩ | hold
    · exact absurd hlt (not_lt.mpr hle')
    · exact h.spaced notice hmem endedAt hold other at_ hhost hold' hlt
  · rcases (hended _ hmem endedAt hend).2 with ⟨-, rfl⟩ | hold
    · obtain ⟨hsent, -, hstarted, -⟩ := h.times _ hlater
      omega
    · exact happart hhost endedAt hold hlt

end Remembered

/-! ### Steps -/

section Steps

variable [DecidableEq κ] {host : κ → ι} {maxRunMs : ℤ} {s : State ι κ} {told : List (Notice κ)}
  {call : κ}

/-- What every run keeps. -/
def Kept (host : κ → ι) (maxRunMs : ℤ) (s : State ι κ) (told : List (Notice κ)) : Prop :=
  Remembered host maxRunMs s told ∧ ∃ t, Linked s told t

theorem Kept.claim (h : Kept host maxRunMs s told) {startedAt : ℤ} {carriedOut answered : Bool}
    (hcall : s.phase call = .checked startedAt) (hreply : answered = true → carriedOut = true) :
    Kept host maxRunMs (s.afterClaim call startedAt carriedOut answered) told := by
  obtain ⟨hremembered, t, hlinked⟩ := h
  have huntold : ¬(s.phase call).Told := by
    rw [hcall]
    exact id
  have hle : startedAt ≤ s.now := by
    have hsound := hremembered.sound call
    rwa [hcall] at hsound
  have hclaim : (s.claim carriedOut answered).Sound startedAt s.now := by
    refine ⟨fun hclaimed => ?_, fun takenAt htaken => ?_⟩
    · cases hanswered : answered with
      | false => simp [State.claim, hanswered] at hclaimed
      | true =>
        have hfree : s.getNoticeHold.isNone = true := by
          simpa [State.claim, hanswered] using hclaimed
        simp [State.claim, hreply hanswered, hfree]
    · have heq : (if carriedOut && s.getNoticeHold.isNone then some s.now else none) =
          some takenAt := htaken
      split_ifs at heq
      exact ⟨Option.some.inj heq ▸ hle, (Option.some.inj heq).ge⟩
  have hphase : (if (s.claim carriedOut answered).claimed = some false then Phase.ended s.now
      else .claimed startedAt (s.claim carriedOut answered)).Sound s.now := by
    split_ifs
    · exact le_rfl
    · exact ⟨hle, hclaim⟩
  constructor
  · have hframe : Remembered host maxRunMs { s with
        noticeHold := if carriedOut then s.claimNoticeHold else s.noticeHold } told :=
      hremembered.frame le_rfl rfl hremembered.sound (fun _ _ => rfl) fun _ _ => id
    refine hframe.setPhase huntold hphase fun at_ hat => ?_
    show (s.phase call).checkedAt = some at_
    rw [hcall]
    split_ifs at hat
    · cases hat
    · exact hat
  · by_cases htaken : carriedOut = true ∧ s.getNoticeHold = none
    · obtain ⟨rfl, hfree⟩ := htaken
      have hkept : (s.claim true answered).claimed ≠ some false := by
        cases answered <;> simp [State.claim, hfree]
      have hunclaimed : (s.phase call).Unclaimed := by
        rw [hcall]
        trivial
      have htakenAt : (Phase.claimed startedAt (s.claim true answered)).takenAt = some s.now := by
        simp [Phase.takenAt, State.claim, hfree]
      rw [State.afterClaim, if_neg hkept, if_pos rfl, State.claimNoticeHold, hfree]
      exact hlinked.take hunclaimed hfree htakenAt
    · -- The hold is another call's, or Redis did not hear of this claim.
      have hhold : (if carriedOut then s.claimNoticeHold else s.noticeHold) = s.noticeHold := by
        cases carriedOut with
        | false => rfl
        | true => exact if_neg fun hfree => htaken ⟨rfl, Option.isNone_iff_eq_none.mp hfree⟩
      have hnone : (s.claim carriedOut answered).takenAt = none := by
        refine if_neg fun hboth => htaken ?_
        rw [Bool.and_eq_true, Option.isNone_iff_eq_none] at hboth
        exact hboth
      rw [State.afterClaim, hhold]
      refine ⟨t, hlinked.setPhase (fun hunclaimed => ?_) fun at_ hat => ?_⟩
      · split_ifs at hunclaimed <;> cases hunclaimed
      · split_ifs at hat
        · cases hat
        · exact absurd (hnone.symm.trans hat) (Option.some_ne_none at_).symm

theorem Kept.check (h : Kept host maxRunMs s told) {startedAt : ℤ}
    (hcall : s.phase call = .started startedAt) :
    Kept host maxRunMs (s.setPhase call
      (if s.memoryHold (host call) startedAt then .ended s.now else .checked startedAt)) told := by
  obtain ⟨hremembered, t, hlinked⟩ := h
  have huntold : ¬(s.phase call).Told := by
    rw [hcall]
    exact id
  have hunclaimed : (s.phase call).Unclaimed := by
    rw [hcall]
    trivial
  split_ifs with hheld
  · exact ⟨hremembered.leave huntold, t, hlinked.leave s.now⟩
  · refine ⟨hremembered.check hcall (Bool.eq_false_iff.mpr hheld), t, ?_⟩
    exact hlinked.setPhase (fun _ => hunclaimed) fun takenAt htaken => by cases htaken

theorem Kept.send (h : Kept host maxRunMs s told) {startedAt : ℤ} {claim : Claim}
    {accepted : Bool} (hcall : s.phase call = .claimed startedAt claim)
    (hle : s.now ≤ startedAt + maxRunMs) :
    Kept host maxRunMs (s.setPhase call (.sent startedAt claim accepted))
      (told ++ if accepted then [⟨call, startedAt, claim.takenAt, s.now⟩] else []) := by
  obtain ⟨hremembered, t, hlinked⟩ := h
  have huntold : ¬(s.phase call).Told := by
    rw [hcall]
    exact id
  have hsound := hremembered.sound call
  have hsent : Remembered host maxRunMs (s.setPhase call (.sent startedAt claim accepted))
      told := by
    refine hremembered.setPhase huntold ?_ fun at_ hat => ?_
    · rwa [hcall] at hsound
    · rw [hcall]
      exact hat
  have hlinked' : Linked (s.setPhase call (.sent startedAt claim accepted)) told t := by
    refine hlinked.setPhase (fun hunclaimed => by cases hunclaimed) fun at_ hat => ?_
    rw [hcall]
    exact hat
  cases accepted with
  | false =>
    rw [if_neg Bool.false_ne_true, List.append_nil]
    exact ⟨hsent, t, hlinked'⟩
  | true =>
    refine ⟨hsent.tell (phase_setPhase_self ..) (fun notice hmem => ?_) hle,
      t, hlinked'.tell (phase_setPhase_self ..)⟩
    exact hremembered.ne_of_mem huntold hmem

variable [DecidableEq ι]

theorem Kept.finish (hshort : maxRunMs < stateUnreadableNoticeMs) (h : Kept host maxRunMs s told)
    {startedAt : ℤ} {claim : Claim} {accepted carriedOut : Bool}
    (hcall : s.phase call = .sent startedAt claim accepted) (hle : s.now ≤ startedAt + maxRunMs) :
    Kept host maxRunMs (s.afterSend (host call) call startedAt claim accepted carriedOut)
      told := by
  obtain ⟨hremembered, t, hlinked⟩ := h
  have hsound := hremembered.sound call
  rw [hcall] at hsound
  cases accepted with
  | true =>
    refine ⟨hremembered.remember hle, t, ?_⟩
    have hframe : Linked { s with
        memoryHolds := Function.update s.memoryHolds (host call) (some startedAt) } told t :=
      hlinked.frame rfl rfl (fun _ => id) fun _ _ => id
    exact hframe.leave s.now
  | false =>
    have huntold : ¬(s.phase call).Told := by
      rw [hcall]
      exact Bool.false_ne_true
    rw [State.afterSend, if_neg Bool.false_ne_true]
    refine ⟨?_, ?_⟩
    · have hframe : Remembered host maxRunMs { s with
          noticeHold := if claim.claimed = some true ∧ carriedOut then none else s.noticeHold }
          told := hremembered.frame le_rfl rfl hremembered.sound (fun _ _ => rfl) fun _ _ => id
      exact hframe.leave huntold
    · split_ifs with hrelease
      · obtain ⟨takenAt, htaken⟩ := Option.isSome_iff_exists.mp (hsound.2.1 hrelease.1)
        have hstarted := (hsound.2.2 takenAt htaken).1
        have htakenAt : (s.phase call).takenAt = some takenAt := by
          rw [hcall]
          exact htaken
        exact hlinked.release htakenAt (by omega) fun notice hmem =>
          hremembered.ne_of_mem huntold hmem
      · exact ⟨t, hlinked.leave s.now⟩

/-- **Every step keeps it.** -/
theorem Kept.step (hshort : maxRunMs < stateUnreadableNoticeMs) (h : Kept host maxRunMs s told)
    {ownerChatId : Option String} {event : Event κ}
    (hlegal : (calls host ownerChatId maxRunMs).legal s event) :
    Kept host maxRunMs ((calls host ownerChatId maxRunMs).next s event)
      (told ++ (calls host ownerChatId maxRunMs).out s event) := by
  cases event with
  | start call =>
    obtain ⟨hremembered, t, hlinked⟩ := h
    have hidle : s.phase call = .idle := hlegal
    have huntold : ¬(s.phase call).Told := by
      rw [hidle]
      exact id
    have hunclaimed : (s.phase call).Unclaimed := by
      rw [hidle]
      trivial
    simp only [calls, List.append_nil]
    refine ⟨hremembered.setPhase huntold (le_refl s.now) fun at_ hat => ?_, t,
      hlinked.setPhase (fun _ => hunclaimed) fun at_ hat => ?_⟩
    · cases hat
    · cases hat
  | check call =>
    obtain ⟨startedAt, hcall, -⟩ := hlegal
    simp only [calls, hcall, List.append_nil]
    exact h.check hcall
  | claim call carriedOut answered =>
    obtain ⟨⟨startedAt, hcall, -⟩, hreply⟩ := hlegal
    simp only [calls, hcall, List.append_nil]
    exact h.claim hcall hreply
  | send call accepted =>
    obtain ⟨startedAt, claim, hcall, hle⟩ := hlegal
    simp only [calls, hcall]
    exact h.send hcall hle
  | finish call carriedOut =>
    obtain ⟨startedAt, claim, accepted, hcall, hle⟩ := hlegal
    simp only [calls, hcall, List.append_nil]
    exact h.finish hshort hcall hle
  | tick ms =>
    obtain ⟨hremembered, t, hlinked⟩ := h
    have hnow : s.now ≤ s.now + (ms : ℤ) := by omega
    simp only [calls, List.append_nil]
    exact ⟨hremembered.frame hnow rfl (fun call => (hremembered.sound call).mono hnow)
      (fun _ _ => rfl) fun _ _ => id, hlinked.tick ms⟩

omit [DecidableEq ι] [DecidableEq κ] in
theorem kept_start (host : κ → ι) (maxRunMs now : ℤ) :
    Kept host maxRunMs (start now) [] := by
  refine ⟨⟨fun _ => trivial, ?_, ?_, ?_, ?_, List.Pairwise.nil, List.Pairwise.nil⟩,
    Lease.start now, Lease.valid_start _ now, rfl, rfl, fun _ _ => rfl, fun _ _ h => ?_, ?_⟩
  · intro notice hmem
    cases hmem
  · intro notice hmem
    cases hmem
  · intro notice hmem
    cases hmem
  · intro notice hmem
    cases hmem
  · cases h
  · intro notice hmem
    cases hmem

end Steps

section Apart

variable [DecidableEq ι] [DecidableEq κ] {host : κ → ι} {ownerChatId : Option String}
  {maxRunMs now : ℤ} {events : List (Event κ)}

theorem kept_run (hshort : maxRunMs < stateUnreadableNoticeMs)
    (hrun : (calls host ownerChatId maxRunMs).Run (start now) events) :
    Kept host maxRunMs ((calls host ownerChatId maxRunMs).final (start now) events)
      ((calls host ownerChatId maxRunMs).outputs (start now) events) := by
  have hkept := System.Run.history (J := Kept host maxRunMs)
    (fun _ _ _ h hlegal => h.step hshort hlegal) (kept_start host maxRunMs now) hrun
  rwa [List.nil_append] at hkept

/-- **Two notices are an hour apart, less what a run can last**: two notices of calls that Redis
gave the hold, on whatever instances; and, whatever Redis does, two notices of one instance if the
call of the first has ended before the run of the second begins. -/
theorem unreadable_notices_apart (hshort : maxRunMs < stateUnreadableNoticeMs)
    (hrun : (calls host ownerChatId maxRunMs).Run (start now) events) :
    ((calls host ownerChatId maxRunMs).outputs (start now) events).Pairwise fun notice later =>
      (notice.takenAt.isSome = true → later.takenAt.isSome = true →
        notice.sentAt + (stateUnreadableNoticeMs - maxRunMs) ≤ later.sentAt) ∧
      (host notice.call = host later.call → ∀ endedAt,
        ((calls host ownerChatId maxRunMs).final (start now) events).phase notice.call =
            .ended endedAt → endedAt < later.startedAt →
          endedAt + (stateUnreadableNoticeMs - maxRunMs) ≤ later.startedAt) := by
  obtain ⟨hremembered, t, hlinked⟩ := kept_run hshort hrun
  refine (hremembered.ordered.and hremembered.apart).imp_of_mem ?_
  rintro notice later hmem hmem' ⟨⟨hne, hle⟩, hhost⟩
  refine ⟨fun htaken htaken' => ?_, fun hsame endedAt hended hlt => ?_⟩
  · obtain ⟨takenAt, htaken⟩ := Option.isSome_iff_exists.mp htaken
    obtain ⟨takenAt', htaken'⟩ := Option.isSome_iff_exists.mp htaken'
    have hheld := hlinked.told notice hmem takenAt htaken
    have hheld' := hlinked.told later hmem' takenAt' htaken'
    obtain ⟨-, hlasts, -, htimes⟩ := hremembered.times notice hmem
    obtain ⟨-, hlasts', -, htimes'⟩ := hremembered.times later hmem'
    have hbefore := htimes takenAt htaken
    have hbefore' := htimes' takenAt' htaken'
    rcases hlinked.valid.apart notice.call later.call takenAt takenAt' hne hheld hheld' with
      hapart | hapart
    · omega
    · -- Taken in the other order, the second notice would have been sent first.
      omega
  · have happart := hhost hsame endedAt hended hlt
    omega

end Apart

/-- A notice, and another one by another instance an hour later. -/
def twoInstances : List (Event Bool) :=
  [.start false, .check false, .claim false true true, .send false true, .finish false true,
    .tick 3600000, .start true, .check true, .claim true true true, .send true true]

theorem unreadable_notices_apart_twoInstances :
    ((calls id (some "owner") 60000).outputs (start 0) twoInstances).map (·.sentAt) = [0, 3600000] ∧
      (0 : ℤ) + (stateUnreadableNoticeMs - 60000) ≤ 3600000 := by
  have hrun : (calls id (some "owner") 60000).Run (start 0) twoInstances :=
    ⟨rfl, ⟨0, rfl, by decide⟩, ⟨⟨0, rfl, by decide⟩, fun _ => rfl⟩, ⟨0, _, rfl, by decide⟩,
      ⟨0, _, _, rfl, by decide⟩, trivial, rfl, ⟨3600000, rfl, by decide⟩,
      ⟨⟨3600000, rfl, by decide⟩, fun _ => rfl⟩, ⟨3600000, _, rfl, by decide⟩, trivial⟩
  have houtputs : (calls id (some "owner") 60000).outputs (start 0) twoInstances =
      [⟨false, 0, some 0, 0⟩, ⟨true, 3600000, some 3600000, 3600000⟩] := rfl
  have hapart := unreadable_notices_apart (by decide) hrun
  rw [houtputs, List.pairwise_pair] at hapart
  exact ⟨by rw [houtputs]; rfl, hapart.1 rfl rfl⟩

/-! ### Why a call is silent -/

/-- Redis carries out what it is asked, and answers. -/
def Event.Carried : Event κ → Prop
  | .claim _ carriedOut answered => carriedOut = true ∧ answered = true
  | .finish _ carriedOut => carriedOut = true
  | _ => True

/-- What is known of a call that took the hold, or told the owner. -/
def Phase.Explained (told : List (Notice κ)) (call : κ) : Phase → Prop
  | .claimed _ claim => claim.takenAt.isSome = true → claim.claimed = some true
  | .sent startedAt claim accepted =>
    (claim.takenAt.isSome = true → claim.claimed = some true) ∧
      (accepted = true → ∃ notice ∈ told, notice.call = call ∧ notice.startedAt = startedAt ∧
        notice.takenAt = claim.takenAt)
  | _ => True

/-- **Where the holds come from**, as long as Redis carries out what it is asked. -/
structure Explained (host : κ → ι) (s : State ι κ) (told : List (Notice κ)) : Prop where
  phases : ∀ call, (s.phase call).Explained told call
  /-- The hold was taken by a call that is going on, or that told the owner. -/
  hold : ∀ expiry, s.noticeHold = some expiry → ∃ call takenAt,
    expiry = takenAt + stateUnreadableNoticeMs ∧ ((s.phase call).takenAt = some takenAt ∨
      ∃ notice ∈ told, notice.call = call ∧ notice.takenAt = some takenAt)
  memory : ∀ instanceId at_, s.memoryHolds instanceId = some at_ →
    ∃ notice ∈ told, host notice.call = instanceId ∧ notice.startedAt = at_

section Explained

variable {host : κ → ι} {s : State ι κ} {told : List (Notice κ)} {call : κ}

theorem explained_start (host : κ → ι) (now : ℤ) : Explained host (start now) [] := by
  refine ⟨fun _ => trivial, fun expiry h => ?_, fun instanceId at_ h => ?_⟩
  · cases h
  · cases h

theorem Phase.Explained.mono {phase : Phase} (h : phase.Explained told call)
    (later : List (Notice κ)) : phase.Explained (told ++ later) call := by
  cases phase with
  | sent startedAt claim accepted =>
    refine ⟨h.1, fun haccepted => ?_⟩
    obtain ⟨notice, hmem, hnotice⟩ := h.2 haccepted
    exact ⟨notice, List.mem_append_left _ hmem, hnotice⟩
  | _ => exact h

variable [DecidableEq κ]

/-- A call that does not have the hold goes on, or ends. -/
theorem Explained.setPhase (h : Explained host s told) {phase : Phase}
    (hnone : (s.phase call).takenAt = none) (hphase : phase.Explained told call) :
    Explained host (s.setPhase call phase) told := by
  refine ⟨forall_setPhase h.phases hphase, fun expiry hexpiry => ?_, h.memory⟩
  obtain ⟨other, takenAt, heq, hwhy⟩ := h.hold expiry hexpiry
  refine ⟨other, takenAt, heq, hwhy.imp_left fun htaken => ?_⟩
  have hne : other ≠ call := by
    rintro rfl
    rw [hnone] at htaken
    cases htaken
  rwa [phase_setPhase_of_ne s phase hne]

/-- A free hold is taken. -/
theorem Explained.take (h : Explained host s told) {startedAt : ℤ} :
    Explained host ({ s with noticeHold := some (s.now + stateUnreadableNoticeMs) }.setPhase call
      (.claimed startedAt ⟨some true, some s.now⟩)) told := by
  refine ⟨forall_setPhase h.phases fun _ => rfl, fun expiry hexpiry => ?_, h.memory⟩
  obtain rfl := Option.some.inj hexpiry
  refine ⟨call, s.now, rfl, Or.inl ?_⟩
  rw [phase_setPhase_self]
  rfl

/-- A notice is sent, and delivered or not. -/
theorem Explained.send (h : Explained host s told) {startedAt : ℤ} {claim : Claim}
    {accepted : Bool} (hcall : s.phase call = .claimed startedAt claim) :
    Explained host (s.setPhase call (.sent startedAt claim accepted))
      (told ++ if accepted then [⟨call, startedAt, claim.takenAt, s.now⟩] else []) := by
  have hclaim := h.phases call
  rw [hcall] at hclaim
  refine ⟨forall_setPhase (fun other => (h.phases other).mono _) ⟨hclaim, fun haccepted => ?_⟩,
    fun expiry hexpiry => ?_, fun instanceId at_ hat => ?_⟩
  · rw [if_pos haccepted]
    exact ⟨_, List.mem_append_right _ (List.mem_singleton_self _), rfl, rfl, rfl⟩
  · obtain ⟨other, takenAt, heq, hwhy⟩ := h.hold expiry hexpiry
    refine ⟨other, takenAt, heq, ?_⟩
    rcases hwhy with htaken | ⟨notice, hmem, hnotice⟩
    · left
      rcases eq_or_ne other call with rfl | hne
      · rw [phase_setPhase_self]
        rwa [hcall] at htaken
      · rwa [phase_setPhase_of_ne _ _ hne]
    · exact Or.inr ⟨notice, List.mem_append_left _ hmem, hnotice⟩
  · obtain ⟨notice, hmem, hnotice⟩ := h.memory instanceId at_ hat
    exact ⟨notice, List.mem_append_left _ hmem, hnotice⟩

/-- A delivered notice is kept in memory. -/
theorem Explained.remember [DecidableEq ι] (h : Explained host s told) {startedAt : ℤ}
    {claim : Claim} (hcall : s.phase call = .sent startedAt claim true) :
    Explained host ({ s with
      memoryHolds := Function.update s.memoryHolds (host call) (some startedAt) }.setPhase call
        (.ended s.now)) told := by
  have hsent := h.phases call
  rw [hcall] at hsent
  obtain ⟨notice, hmem, hnotice, hstarted, htakenAt⟩ := hsent.2 rfl
  refine ⟨forall_setPhase h.phases trivial, fun expiry hexpiry => ?_, fun instanceId at_ hat => ?_⟩
  · obtain ⟨other, takenAt, heq, hwhy⟩ := h.hold expiry hexpiry
    refine ⟨other, takenAt, heq, ?_⟩
    rcases hwhy with htaken | htold
    · rcases eq_or_ne other call with rfl | hne
      · rw [hcall] at htaken
        exact Or.inr ⟨notice, hmem, hnotice, htakenAt.trans htaken⟩
      · rw [phase_setPhase_of_ne _ _ hne]
        exact Or.inl htaken
    · exact Or.inr htold
  · have hupdated : Function.update s.memoryHolds (host call) (some startedAt) instanceId =
        some at_ := hat
    rcases eq_or_ne instanceId (host call) with rfl | hne
    · rw [Function.update_self] at hupdated
      exact ⟨notice, hmem, congrArg host hnotice, hstarted.trans (Option.some.inj hupdated)⟩
    · rw [Function.update_of_ne hne] at hupdated
      exact h.memory instanceId at_ hupdated

/-- **Every step that Redis carries out keeps it.** -/
theorem Explained.step [DecidableEq ι] (h : Explained host s told) {ownerChatId : Option String}
    {maxRunMs : ℤ} {event : Event κ} (hcarried : event.Carried)
    (hlegal : (calls host ownerChatId maxRunMs).legal s event) :
    Explained host ((calls host ownerChatId maxRunMs).next s event)
      (told ++ (calls host ownerChatId maxRunMs).out s event) := by
  cases event with
  | start call =>
    have hidle : s.phase call = .idle := hlegal
    simp only [calls, List.append_nil]
    refine h.setPhase ?_ trivial
    rw [hidle]
    rfl
  | check call =>
    obtain ⟨startedAt, hcall, -⟩ := hlegal
    simp only [calls, hcall, List.append_nil]
    refine h.setPhase ?_ ?_
    · rw [hcall]
      rfl
    · split_ifs <;> trivial
  | claim call carriedOut answered =>
    obtain ⟨⟨startedAt, hcall, -⟩, -⟩ := hlegal
    obtain ⟨rfl, rfl⟩ := hcarried
    simp only [calls, hcall, List.append_nil]
    cases hhold : s.getNoticeHold with
    | none =>
      simp only [State.afterClaim, State.claim, State.claimNoticeHold, hhold]
      exact h.take
    | some expiry =>
      simp only [State.afterClaim, State.claim, State.claimNoticeHold, hhold]
      refine h.setPhase ?_ trivial
      rw [hcall]
      rfl
  | send call accepted =>
    obtain ⟨startedAt, claim, hcall, -⟩ := hlegal
    simp only [calls, hcall]
    exact h.send hcall
  | finish call carriedOut =>
    obtain ⟨startedAt, claim, accepted, hcall, -⟩ := hlegal
    obtain rfl : carriedOut = true := hcarried
    simp only [calls, hcall, List.append_nil]
    cases accepted with
    | true => exact h.remember hcall
    | false =>
      have hsent := h.phases call
      rw [hcall] at hsent
      by_cases hclaimed : claim.claimed = some true
      · -- The claim is given back, and the hold with it.
        simp only [State.afterSend, hclaimed, and_self, if_true]
        refine ⟨forall_setPhase h.phases trivial, fun expiry hexpiry => ?_, h.memory⟩
        cases hexpiry
      · have hnone : (s.phase call).takenAt = none := by
          rw [hcall]
          exact Option.not_isSome_iff_eq_none.mp fun htaken => hclaimed (hsent.1 htaken)
        simp only [State.afterSend, hclaimed, false_and, if_false]
        exact h.setPhase hnone trivial
  | tick ms =>
    simp only [calls, List.append_nil]
    exact ⟨h.phases, h.hold, h.memory⟩

end Explained

section Silence

variable [DecidableEq ι] [DecidableEq κ] {host : κ → ι} {ownerChatId : Option String}
  {maxRunMs now : ℤ} {events : List (Event κ)}

theorem explained_run (hrun : (calls host ownerChatId maxRunMs).Run (start now) events)
    (hcarried : ∀ event ∈ events, event.Carried) :
    Explained host ((calls host ownerChatId maxRunMs).final (start now) events)
      ((calls host ownerChatId maxRunMs).outputs (start now) events) := by
  refine System.Run.induction_concat (P := fun events => (∀ event ∈ events, event.Carried) →
    Explained host ((calls host ownerChatId maxRunMs).final (start now) events)
      ((calls host ownerChatId maxRunMs).outputs (start now) events))
    (fun _ => explained_start host now) (fun events event _ hlegal ih hcarried => ?_) hrun hcarried
  rw [System.final_concat, System.outputs_concat]
  refine (ih fun e he => hcarried e (List.mem_append_left _ he)).step ?_ hlegal
  exact hcarried event (List.mem_append_right _ (List.mem_singleton_self _))

/-- **The owner hears of it**: as long as Redis carries out what it is asked, a call that ends
without sending does so because the owner was told in the last hour (and what a run can last), or
because a call that took the hold in the last hour is still telling. -/
theorem silent_explained (hshort : maxRunMs < stateUnreadableNoticeMs)
    {event : Event κ} {call : κ} {endedAt : ℤ}
    (hrun : (calls host ownerChatId maxRunMs).Run (start now) (events ++ [event]))
    (hcarried : ∀ e ∈ events, e.Carried)
    (hevent : event = .check call ∨ ∃ carriedOut answered, event = .claim call carriedOut answered)
    (hended : ((calls host ownerChatId maxRunMs).final (start now) (events ++ [event])).phase call =
      .ended endedAt) :
    (∃ notice ∈ (calls host ownerChatId maxRunMs).outputs (start now) events,
      endedAt < notice.sentAt + (stateUnreadableNoticeMs + maxRunMs)) ∨
    ∃ other takenAt,
      (((calls host ownerChatId maxRunMs).final (start now) events).phase other).takenAt =
        some takenAt ∧ endedAt < takenAt + stateUnreadableNoticeMs := by
  obtain ⟨hrun, hlegal, -⟩ := (System.run_append _ _ _ _).mp hrun
  obtain ⟨hremembered, -⟩ := kept_run hshort hrun
  have hexplained := explained_run hrun hcarried
  rw [System.final_append, System.final_cons, System.final_nil] at hended
  generalize (calls host ownerChatId maxRunMs).final (start now) events = s at *
  generalize (calls host ownerChatId maxRunMs).outputs (start now) events = told at *
  have hsound := hremembered.sound call
  rcases hevent with rfl | ⟨carriedOut, answered, rfl⟩
  · obtain ⟨startedAt, hcall, hle⟩ := hlegal
    simp only [calls, hcall, phase_setPhase_self] at hended
    split_ifs at hended with hheld
    obtain rfl := Phase.ended.inj hended
    rw [State.memoryHold, Option.any_eq_true] at hheld
    obtain ⟨at_, hat, hlive⟩ := hheld
    obtain ⟨notice, hmem, -, rfl⟩ := hexplained.memory (host call) at_ hat
    obtain ⟨-, -, hstarted, -⟩ := hremembered.times notice hmem
    rw [decide_eq_true_eq] at hlive
    exact Or.inl ⟨notice, hmem, by omega⟩
  · obtain ⟨⟨startedAt, hcall, hle⟩, -⟩ := hlegal
    rw [hcall] at hsound
    have hpositive : startedAt ≤ s.now := hsound
    simp only [calls, hcall, State.afterClaim, phase_setPhase_self] at hended
    split_ifs at hended with hrefused
    obtain rfl := Phase.ended.inj hended
    obtain ⟨expiry, hexpiry⟩ : ∃ expiry, s.getNoticeHold = some expiry := by
      cases hhold : s.getNoticeHold with
      | none => cases answered <;> simp [State.claim, hhold] at hrefused
      | some expiry => exact ⟨expiry, rfl⟩
    obtain ⟨hhold, hlive⟩ := Option.filter_eq_some_iff.mp hexpiry
    rw [decide_eq_true_eq] at hlive
    obtain ⟨other, takenAt, rfl, hwhy⟩ := hexplained.hold expiry hhold
    rcases hwhy with htaken | ⟨notice, hmem, -, htaken⟩
    · exact Or.inr ⟨other, takenAt, htaken, hlive⟩
    · obtain ⟨-, -, -, htimes⟩ := hremembered.times notice hmem
      have hsent := htimes takenAt htaken
      exact Or.inl ⟨notice, hmem, by omega⟩

end Silence

/-- A notice that is just being sent, and another instance that would send one. -/
def twoAtOnce : List (Event Bool) :=
  [.start false, .check false, .claim false true true, .start true, .check true]

theorem silent_explained_twoAtOnce :
    ∃ other takenAt, (((calls id (some "owner") 60000).final (start 0) twoAtOnce).phase
      other).takenAt = some takenAt ∧ 0 < takenAt + stateUnreadableNoticeMs := by
  have hrun : (calls id (some "owner") 60000).Run (start 0)
      (twoAtOnce ++ [.claim true true true]) :=
    ⟨rfl, ⟨0, rfl, by decide⟩, ⟨⟨0, rfl, by decide⟩, fun _ => rfl⟩, rfl, ⟨0, rfl, by decide⟩,
      ⟨⟨0, rfl, by decide⟩, fun _ => rfl⟩, trivial⟩
  have hcarried : ∀ e ∈ twoAtOnce, e.Carried := by
    simp [twoAtOnce, Event.Carried]
  have hended : ((calls id (some "owner") 60000).final (start 0)
      (twoAtOnce ++ [.claim true true true])).phase true = .ended 0 := rfl
  rcases silent_explained (by decide) hrun hcarried (Or.inr ⟨true, true, rfl⟩) hended with
    ⟨notice, hmem, -⟩ | hother
  · cases hmem
  · exact hother

end Unreadable

end Monitor

end CryptoZaloBot
