import Mathlib.Data.List.Pairwise
import CryptoZaloBot.PriceAlerts.Service

/-!
# The ids of the alerts

Three structures in Redis know of an alert: its key, the set of all alerts, and the set of
its chat. They agree in every reachable state (`CryptoZaloBot.PriceAlerts.Sound`), however
the commands and checks are interleaved. What carries this is that an id which was issued
is **settled** once its alert is stored: no `create` is going to store it again, so that
whoever read the id can only find it with the same owner or gone
(`CryptoZaloBot.PriceAlerts.Owned`).

What this means to a chat is `CryptoZaloBot.PriceAlerts.alert_ids`: a deleted alert never
comes back, nobody else can delete it, and the number a new alert is given is the one under
which the chat finds it.
-/

namespace CryptoZaloBot

namespace PriceAlerts

/-! ### Owners -/

/-- The chat of a stored alert. -/
def AlertRedis.ownerOf (r : AlertRedis) (id : ℕ) : Option String :=
  (r.alerts.alerts id).map PriceAlert.chatId

theorem ownerOf_eq_some {r : AlertRedis} {id : ℕ} {chatId : String} :
    r.ownerOf id = some chatId ↔ ∃ a ∈ r.alerts.alerts id, a.chatId = chatId :=
  Option.map_eq_some_iff

@[simp] theorem isSome_ownerOf {r : AlertRedis} {id : ℕ} :
    (r.ownerOf id).isSome = (r.alerts.alerts id).isSome :=
  Option.isSome_map

theorem ownerOf_insert (r : AlertRedis) (alert : PriceAlert) :
    (r.insert alert).ownerOf = Function.update r.ownerOf alert.id (some alert.chatId) := by
  funext id
  change (Function.update r.alerts.alerts alert.id (some alert) id).map _ = _
  rcases eq_or_ne id alert.id with rfl | hne
  · rw [Function.update_self, Function.update_self]
    rfl
  · rw [Function.update_of_ne hne, Function.update_of_ne hne]
    rfl

theorem ownerOf_remove (r : AlertRedis) (chatId : String) (id : ℕ) :
    (r.remove chatId id).ownerOf = Function.update r.ownerOf id none := by
  funext id'
  change (Function.update r.alerts.alerts id none id').map _ = _
  rcases eq_or_ne id' id with rfl | hne
  · rw [Function.update_self, Function.update_self]
    rfl
  · rw [Function.update_of_ne hne, Function.update_of_ne hne]
    rfl

/-- An alert that is written over itself stays with its chat. -/
theorem ownerOf_updateState (r : AlertRedis) {alert : PriceAlert}
    (howner : ∀ chatId ∈ r.ownerOf alert.id, alert.chatId = chatId) :
    (r.updateState alert).ownerOf = r.ownerOf := by
  funext id
  change ((r.alerts.updateState alert).alerts id).map _ = _
  cases hstored : r.alerts.alerts alert.id with
  | none => simp [AlertStore.updateState, hstored, AlertRedis.ownerOf]
  | some a =>
    rw [AlertStore.alerts_updateState (by simp [hstored])]
    rcases eq_or_ne id alert.id with rfl | hne
    · rw [Function.update_self]
      have howns : r.ownerOf alert.id = some a.chatId := by rw [AlertRedis.ownerOf, hstored]; rfl
      rw [howns, ← howner _ howns]
      rfl
    · rw [Function.update_of_ne hne]
      rfl

/-! ### The invariant -/

/-- **The id was issued and is not waiting to be stored.** -/
def Settled (id : ℕ) (s : AlertServer) : Prop :=
  id ≤ s.redis.nextId ∧ ∀ i, ∀ alert ∈ (s.commands i).pending, alert.id ≠ id

/-- **The alert belongs to the chat** if it is stored, and never to another one. -/
structure Owned (id : ℕ) (chatId : String) (s : AlertServer) : Prop where
  settled : Settled id s
  owner : ∀ c ∈ s.redis.ownerOf id, c = chatId

/-- **The three structures agree**, and every command is right about the owners of what it is
going to act on. -/
structure Sound (s : AlertServer) : Prop where
  all : ∀ id, id ∈ s.redis.allIds ↔ (s.redis.ownerOf id).isSome
  chats : ∀ id chatId, id ∈ s.redis.chatIds chatId ↔ s.redis.ownerOf id = some chatId
  stored : ∀ id, (s.redis.ownerOf id).isSome → Settled id s
  issued : ∀ i, ∀ alert ∈ (s.commands i).pending, alert.id ≤ s.redis.nextId
  distinct : ∀ i j, ∀ a ∈ (s.commands i).pending, ∀ b ∈ (s.commands j).pending,
    a.id = b.id → i = j
  targets : ∀ i, ∀ p ∈ (s.commands i).targets, Owned p.1 p.2 s

theorem sound_newAlertServer : Sound newAlertServer where
  all id := by simp [newAlertServer]
  chats id chatId := by simp [newAlertServer, AlertRedis.ownerOf]
  stored id h := by simp [newAlertServer] at h
  issued i alert h := by cases h
  distinct i j a h := by cases h
  targets i p h := by cases h

section Step

variable {s : AlertServer} {e : AlertEvent} {i id : ℕ} {chatId : String} {r : AlertRedis}
  {command : AlertCommand}

/-- The service after a call of the command `i`. -/
def AlertServer.after (s : AlertServer) (i : ℕ) (r : AlertRedis) (command : AlertCommand) :
    AlertServer :=
  ⟨r, Function.update s.commands i command⟩

theorem commands_after_of_ne {j : ℕ} (hne : j ≠ i) :
    (s.after i r command).commands j = s.commands j :=
  Function.update_of_ne hne _ _

@[simp] theorem commands_after_self : (s.after i r command).commands i = command :=
  Function.update_self _ _ _

theorem effect_advances {answer : AlertAnswer} (hleg : alertServing.legal s (.advances i answer)) :
    Effect s.redis (s.commands i) (advance s.redis answer (s.commands i)).1
      (advance s.redis answer (s.commands i)).2 := by
  refine advance_effect s.redis _ fun ids hids id hid => ?_
  rw [← (hleg ids hids).2]
  exact List.mem_toFinset.mpr hid

/-- **Every event is a call of some command.** -/
theorem exists_effect (hleg : alertServing.legal s e) :
    ∃ i r command, alertServing.next s e = s.after i r command ∧
      Effect s.redis (s.commands i) r command := by
  cases e with
  | arrives i command =>
    refine ⟨i, s.redis, command, rfl, ?_⟩
    rw [hleg.1]
    cases command with
    | create => exact .read rfl rfl (by simp [AlertCommand.targets])
    | deleteByIndex => exact .read rfl rfl (by simp [AlertCommand.targets])
    | listByChat => exact .read rfl rfl (by simp [AlertCommand.targets])
    | runCheck => exact .read rfl rfl (by simp [AlertCommand.targets])
    | _ => exact hleg.2.elim
  | advances i answer => exact ⟨i, _, _, rfl, effect_advances hleg⟩

/-- Ids are issued in order. -/
theorem Effect.counter (h : Effect s.redis (s.commands i) r command) :
    s.redis.nextId ≤ r.nextId ∧
      ∀ alert ∈ command.pending, s.redis.nextId < alert.id ∧ alert.id ≤ r.nextId := by
  have hnone {command' : AlertCommand} (hpending : command'.pending = none)
      {P : PriceAlert → Prop} : ∀ alert ∈ command'.pending, P alert := by simp [hpending]
  cases h with
  | read same pending => exact ⟨same ▸ le_rfl, hnone pending⟩
  | issued _ left next =>
    subst left next
    refine ⟨Nat.le_succ _, fun alert halert => ?_⟩
    obtain rfl := Option.some.inj halert
    exact ⟨Nat.lt_succ_self _, le_rfl⟩
  | created _ left next =>
    subst left next
    exact ⟨le_rfl, hnone rfl⟩
  | deleted _ left next =>
    subst left next
    exact ⟨le_rfl, hnone rfl⟩
  | written _ _ left next =>
    subst left next
    exact ⟨le_rfl, hnone rfl⟩

/-- **Settled once and for all.** -/
theorem Settled.after (h : Settled id s) (heffect : Effect s.redis (s.commands i) r command) :
    Settled id (s.after i r command) := by
  obtain ⟨hle, hpending⟩ := heffect.counter
  refine ⟨h.1.trans hle, fun j alert halert => ?_⟩
  -- The id was issued before, so what is pending now has a greater one.
  rcases eq_or_ne j i with rfl | hne
  · rw [commands_after_self] at halert
    have := (hpending alert halert).1
    have := h.1
    omega
  · rw [commands_after_of_ne hne] at halert
    exact h.2 j alert halert

/-- **What a call does to the owners**: nothing; it stores an alert whose id is not settled; or
it removes an alert of its own chat. -/
inductive OwnerStep (s : AlertServer) (i : ℕ) (r : AlertRedis) (command : AlertCommand) : Prop
  | same (owners : r.ownerOf = s.redis.ownerOf) (allIds : r.allIds = s.redis.allIds)
      (chatIds : r.chatIds = s.redis.chatIds)
  | created {alert : PriceAlert} {n : ℕ} {priceUsd : ℚ}
      (pending : s.commands i = .createIssued alert n priceUsd) (left : r = s.redis.insert alert)
      (next : command = .answered (.created ⟨alert, n + 1, priceUsd⟩))
      (absent : s.redis.ownerOf alert.id = none)
  | deleted {chatId : String} {alert : PriceAlert}
      (found : s.commands i = .deleteFound chatId alert)
      (left : r = s.redis.remove chatId alert.id) (next : command = .answered (.deleted alert))
      (owned : Owned alert.id chatId s)

theorem Sound.ownerStep (hs : Sound s) (h : Effect s.redis (s.commands i) r command) :
    OwnerStep s i r command := by
  cases h with
  | read same => exact .same (same ▸ rfl) (same ▸ rfl) (same ▸ rfl)
  | issued _ left => exact .same (left ▸ rfl) (left ▸ rfl) (left ▸ rfl)
  | @created alert n priceUsd pending left next =>
    refine .created pending left next ?_
    rw [← Option.not_isSome_iff_eq_none]
    intro hstored
    refine (hs.stored _ hstored).2 i alert ?_ rfl
    rw [pending]
    rfl
  | @deleted chatId alert found left next =>
    refine .deleted found left next (hs.targets i (alert.id, chatId) ?_)
    rw [found]
    exact List.mem_singleton_self _
  | @written alert a alerts loaded sameTerms left next =>
    subst left
    refine .same (ownerOf_updateState _ fun c hc => ?_) rfl rfl
    have howned := hs.targets i (alert.id, alert.chatId) (by rw [loaded]; exact List.mem_cons_self)
    rw [sameTerms.1] at hc
    rw [sameTerms.2, howned.owner c hc]

/-- An owner never changes, and an alert that is gone does not come back. -/
theorem OwnerStep.ownerOf (h : OwnerStep s i r command) (hsettled : Settled id s) :
    ∀ c ∈ r.ownerOf id, c ∈ s.redis.ownerOf id := by
  cases h with
  | same owners => exact fun c hc => owners ▸ hc
  | @created alert _ _ pending left =>
    have hne : id ≠ alert.id := (hsettled.2 i alert (by rw [pending]; rfl)).symm
    rw [left, ownerOf_insert, Function.update_of_ne hne]
    exact fun c hc => hc
  | @deleted _ alert _ left =>
    rw [left, ownerOf_remove]
    intro c hc
    rcases eq_or_ne id alert.id with rfl | hne
    · simp at hc
    · rwa [Function.update_of_ne hne] at hc

theorem Owned.after (h : Owned id chatId s) (hs : Sound s)
    (heffect : Effect s.redis (s.commands i) r command) :
    Owned id chatId (s.after i r command) where
  settled := h.settled.after heffect
  owner c hc := h.owner c ((hs.ownerStep heffect).ownerOf h.settled c hc)

/-- The sets of ids follow the keys. -/
theorem OwnerStep.agree (h : OwnerStep s i r command) (hs : Sound s) :
    (∀ id, id ∈ r.allIds ↔ (r.ownerOf id).isSome) ∧
      ∀ id chatId, id ∈ r.chatIds chatId ↔ r.ownerOf id = some chatId := by
  cases h with
  | same owners allIds chatIds =>
    rw [owners, allIds, chatIds]
    exact ⟨hs.all, hs.chats⟩
  | @created alert n priceUsd _ left _ absent =>
    subst left
    rw [ownerOf_insert]
    constructor
    · intro id
      rcases eq_or_ne id alert.id with rfl | hne
      · simp [AlertRedis.insert]
      · rw [Function.update_of_ne hne, ← hs.all]
        simp [AlertRedis.insert, hne]
    · intro id chatId
      change id ∈ Function.update s.redis.chatIds alert.chatId _ chatId ↔ _
      rcases eq_or_ne chatId alert.chatId with rfl | hchat
      -- The set of the owner gains the id.
      · rw [Function.update_self, Finset.mem_insert, hs.chats]
        rcases eq_or_ne id alert.id with rfl | hne
        · simp
        · simp [hne]
      · rw [Function.update_of_ne hchat, hs.chats]
        -- No other set had it: the alert was not stored.
        rcases eq_or_ne id alert.id with rfl | hne
        · simp [absent, hchat.symm]
        · rw [Function.update_of_ne hne]
  | @deleted chatId' alert _ left _ owned =>
    subst left
    rw [ownerOf_remove]
    constructor
    · intro id
      change id ∈ s.redis.allIds.erase alert.id ↔ _
      rw [Finset.mem_erase, hs.all]
      rcases eq_or_ne id alert.id with rfl | hne
      · simp
      · simp [hne]
    · intro id chatId
      change id ∈ Function.update s.redis.chatIds chatId' _ chatId ↔ _
      rcases eq_or_ne chatId chatId' with rfl | hchat
      · rw [Function.update_self, Finset.mem_erase, hs.chats]
        rcases eq_or_ne id alert.id with rfl | hne
        · simp
        · simp [hne]
      · rw [Function.update_of_ne hchat, hs.chats]
        rcases eq_or_ne id alert.id with rfl | hne
        · -- The alert is in the set of its owner only.
          rw [Function.update_self]
          refine iff_of_false (fun howner => hchat (owned.owner chatId howner)) (by simp)
        · rw [Function.update_of_ne hne]

theorem Sound.owned (hs : Sound s) (h : s.redis.ownerOf id = some chatId) :
    Owned id chatId s where
  settled := hs.stored id (by rw [h]; rfl)
  owner c hc := (Option.some.inj (h.symm.trans hc)).symm

/-- A command reads its targets, with their owners. -/
theorem Effect.owned (h : Effect s.redis (s.commands i) r command) (hs : Sound s) :
    ∀ p ∈ command.targets, Owned p.1 p.2 s := by
  intro p hp
  cases h with
  | read _ _ targets =>
    rcases targets p hp with hold | hmem | hstored
    · exact hs.targets i p hold
    · exact hs.owned ((hs.chats _ _).mp hmem)
    · exact hs.owned (ownerOf_eq_some.mpr hstored)
  | issued _ _ next =>
    rw [next] at hp
    cases hp
  | created _ _ next =>
    rw [next] at hp
    cases hp
  | deleted _ _ next =>
    rw [next] at hp
    cases hp
  | written loaded _ _ next =>
    refine hs.targets i p ?_
    rw [loaded]
    rw [next] at hp
    exact List.mem_cons_of_mem _ hp

/-- What is stored is settled. -/
theorem OwnerStep.stored (h : OwnerStep s i r command)
    (heffect : Effect s.redis (s.commands i) r command) (hs : Sound s)
    (hstored : (r.ownerOf id).isSome) : Settled id (s.after i r command) := by
  cases h with
  | same owners =>
    rw [owners] at hstored
    exact (hs.stored id hstored).after heffect
  | @created alert _ _ pending left next =>
    rw [left, ownerOf_insert] at hstored
    rcases eq_or_ne id alert.id with rfl | hne
    · have hmem : alert ∈ (s.commands i).pending := by
        rw [pending]
        rfl
      refine ⟨(hs.issued i alert hmem).trans heffect.counter.1, fun j b hb heq => ?_⟩
      rcases eq_or_ne j i with rfl | hj
      · rw [commands_after_self, next] at hb
        cases hb
      · rw [commands_after_of_ne hj] at hb
        exact hj (hs.distinct j i b hb alert hmem heq)
    · rw [Function.update_of_ne hne] at hstored
      exact (hs.stored id hstored).after heffect
  | @deleted _ alert _ left =>
    rw [left, ownerOf_remove] at hstored
    rcases eq_or_ne id alert.id with rfl | hne
    · simp at hstored
    · rw [Function.update_of_ne hne] at hstored
      exact (hs.stored id hstored).after heffect

/-- **The invariant stays.** -/
theorem Sound.after (hs : Sound s) (heffect : Effect s.redis (s.commands i) r command) :
    Sound (s.after i r command) := by
  have hstep := hs.ownerStep heffect
  obtain ⟨hall, hchats⟩ := hstep.agree hs
  obtain ⟨hle, hpending⟩ := heffect.counter
  refine ⟨hall, hchats, fun id hstored => hstep.stored heffect hs hstored, fun j a ha => ?_,
    fun j k a ha b hb heq => ?_, fun j p hp => ?_⟩
  · rcases eq_or_ne j i with rfl | hne
    · rw [commands_after_self] at ha
      exact (hpending a ha).2
    · rw [commands_after_of_ne hne] at ha
      exact (hs.issued j a ha).trans hle
  · rcases eq_or_ne j i with rfl | hj
    · rcases eq_or_ne k j with rfl | hk
      · rfl
      · rw [commands_after_self] at ha
        rw [commands_after_of_ne hk] at hb
        have := (hpending a ha).1
        have := hs.issued k b hb
        omega
    · rw [commands_after_of_ne hj] at ha
      rcases eq_or_ne k i with rfl | hk
      · rw [commands_after_self] at hb
        have := (hpending b hb).1
        have := hs.issued j a ha
        omega
      · rw [commands_after_of_ne hk] at hb
        exact hs.distinct j k a ha b hb heq
  · rcases eq_or_ne j i with rfl | hne
    · rw [commands_after_self] at hp
      exact (heffect.owned hs p hp).after hs heffect
    · rw [commands_after_of_ne hne] at hp
      exact (hs.targets j p hp).after hs heffect

theorem keeps_sound : alertServing.Keeps Sound := by
  intro s e hs hleg
  obtain ⟨i, r, command, hnext, heffect⟩ := exists_effect hleg
  rw [hnext]
  exact hs.after heffect

/-- A stored alert is in the set of its owner, and in no other. -/
theorem Sound.existsUnique_chat (hs : Sound s) (id : ℕ) :
    id ∈ s.redis.allIds ↔ ∃! chatId, id ∈ s.redis.chatIds chatId := by
  rw [hs.all, Option.isSome_iff_exists]
  constructor
  · rintro ⟨chatId, howner⟩
    refine ⟨chatId, (hs.chats id chatId).mpr howner, fun c hc => ?_⟩
    exact Option.some.inj (((hs.chats id c).mp hc).symm.trans howner)
  · rintro ⟨chatId, hmem, -⟩
    exact ⟨chatId, (hs.chats id chatId).mp hmem⟩

theorem Sound.mem_chatIds (hs : Sound s) {a : PriceAlert}
    (ha : a ∈ s.redis.alerts.alerts id) : id ∈ s.redis.chatIds chatId ↔ chatId = a.chatId := by
  rw [hs.chats, AlertRedis.ownerOf, ha]
  exact Option.some_inj.trans eq_comm

/-! ### An alert that was deleted stays deleted -/

/-- **Gone for good**: the id is settled, and no key has it. -/
def Gone (id : ℕ) (s : AlertServer) : Prop := Settled id s ∧ s.redis.ownerOf id = none

theorem Gone.next (h : Gone id s) (hs : Sound s) (hleg : alertServing.legal s e) :
    Gone id (alertServing.next s e) := by
  obtain ⟨i, r, command, hnext, heffect⟩ := exists_effect hleg
  rw [hnext]
  refine ⟨h.1.after heffect, Option.eq_none_iff_forall_not_mem.mpr fun c hc => ?_⟩
  have howner := (hs.ownerStep heffect).ownerOf h.1 c hc
  rw [h.2] at howner
  cases howner

/-- What is gone is in none of the three structures. -/
theorem Gone.absent (h : Gone id s) (hs : Sound s) :
    id ∉ s.redis.allIds ∧ (∀ chatId, id ∉ s.redis.chatIds chatId) ∧
      s.redis.alerts.alerts id = none := by
  refine ⟨?_, fun chatId => ?_, Option.map_eq_none_iff.mp h.2⟩
  · rw [hs.all, h.2]
    exact Bool.false_ne_true
  · rw [hs.chats, h.2]
    exact (Option.some_ne_none chatId).symm

/-- **A delete that is answered has removed the alert.** -/
theorem gone_of_deleted (hs : Sound s) (hleg : alertServing.legal s e) {alert : PriceAlert}
    (hout : (i, .deleted alert) ∈ alertServing.out s e) :
    Gone alert.id (alertServing.next s e) := by
  obtain ⟨answer, rfl, hreply, hopen⟩ := mem_out_alertServing hout
  obtain ⟨chatId, hfound⟩ := (deleted_of_advance hreply).resolve_right (hopen _)
  have heffect := effect_advances hleg
  have howned : Owned alert.id chatId s := hs.targets i (alert.id, chatId) (by
    rw [hfound]
    exact List.mem_singleton_self _)
  refine ⟨howned.settled.after heffect, ?_⟩
  change (advance s.redis answer (s.commands i)).1.ownerOf alert.id = none
  rw [hfound, advance, ownerOf_remove, Function.update_self]

/-- **Only a `deleteByIndex` for the chat of an alert removes it.** -/
theorem exists_of_removed (hs : Sound s) (hleg : alertServing.legal s e) {a : PriceAlert}
    (hstored : s.redis.alerts.alerts id = some a)
    (hremoved : (alertServing.next s e).redis.alerts.alerts id = none) :
    ∃ i answer alert, e = .advances i answer ∧ s.commands i = .deleteFound a.chatId alert ∧
      alert.id = id := by
  have howner : s.redis.ownerOf id = some a.chatId := by rw [AlertRedis.ownerOf, hstored]; rfl
  cases e with
  | arrives i command =>
    change s.redis.alerts.alerts id = none at hremoved
    cases hstored.symm.trans hremoved
  | advances i answer =>
    refine ⟨i, answer, ?_⟩
    have hgone : (advance s.redis answer (s.commands i)).1.ownerOf id = none :=
      Option.map_eq_none_iff.mpr hremoved
    cases hs.ownerStep (effect_advances hleg) with
    | same owners => cases howner.symm.trans ((congrFun owners id).symm.trans hgone)
    | @created alert _ _ _ left =>
      rw [left, ownerOf_insert] at hgone
      rcases eq_or_ne id alert.id with rfl | hne
      · simp at hgone
      · rw [Function.update_of_ne hne] at hgone
        cases howner.symm.trans hgone
    | @deleted chatId alert found left _ owned =>
      rw [left, ownerOf_remove] at hgone
      rcases eq_or_ne id alert.id with rfl | hne
      · obtain rfl := owned.owner _ howner
        exact ⟨alert, rfl, found, rfl⟩
      · rw [Function.update_of_ne hne] at hgone
        cases howner.symm.trans hgone

/-- The chat a `deleteByIndex` is for. -/
def AlertCommand.deletesFor : AlertCommand → Option String
  | deleteByIndex chatId _ => some chatId
  | deleteListed chatId _ _ => some chatId
  | deleteFound chatId _ => some chatId
  | _ => none

theorem deletesFor_advance {r : AlertRedis} {answer : AlertAnswer} {command : AlertCommand}
    (h : (advance r answer command).2.deletesFor = some chatId) :
    command.deletesFor = some chatId := by
  have hstep := goesOn r answer command
  generalize (advance r answer command).2 = command' at h hstep
  cases hstep with
  | toDelete => exact h
  | found => exact h
  | _ => cases h

/-- **A `deleteByIndex` is for the chat that asked for it**, from its arrival on. -/
theorem exists_arrives {es : List AlertEvent} (hr : alertServing.Run s es)
    (h : ((alertServing.final s es).commands i).deletesFor = some chatId) :
    (s.commands i).deletesFor = some chatId ∨
      ∃ index, .arrives i (.deleteByIndex chatId index) ∈ es := by
  induction es generalizing s with
  | nil => exact .inl h
  | cons e es ih =>
    rcases ih hr.2 h with hfirst | ⟨index, hmem⟩
    · cases e with
      | arrives j command =>
        rcases eq_or_ne i j with rfl | hne
        · -- Of the commands that can arrive, only this one deletes.
          rw [show (alertServing.next s (.arrives i command)).commands i = command from
            Function.update_self _ _ _] at hfirst
          have hstarts : command.starts := hr.1.2
          cases command with
          | deleteByIndex chatId' index =>
            obtain rfl := Option.some.inj hfirst
            exact .inr ⟨index, List.mem_cons_self⟩
          | deleteListed => exact hstarts.elim
          | deleteFound => exact hstarts.elim
          | _ => cases hfirst
        · rw [show (alertServing.next s (.arrives j command)).commands i = s.commands i from
            Function.update_of_ne hne _ _] at hfirst
          exact .inl hfirst
      | advances j answer =>
        rcases eq_or_ne i j with rfl | hne
        · rw [show (alertServing.next s (.advances i answer)).commands i = _ from
            Function.update_self _ _ _] at hfirst
          exact .inl (deletesFor_advance hfirst)
        · rw [show (alertServing.next s (.advances j answer)).commands i = s.commands i from
            Function.update_of_ne hne _ _] at hfirst
          exact .inl hfirst
    · exact .inr ⟨index, List.mem_cons_of_mem _ hmem⟩

/-! ### The position of a new alert -/

/-- No other command that changes the alerts of the chat is at work. -/
def Undisturbed (chatId : String) (i : ℕ) (s : AlertServer) : AlertEvent → Prop
  | .arrives .. => True
  | .advances j _ => (s.commands j).changes = some chatId → j = i

/-- The alert is the newest one of the chat, and its position is the last one. -/
structure Newest (created : CreatedAlert) (chatId : String) (s : AlertServer) : Prop where
  mem : created.alert.id ∈ s.redis.chatIds chatId
  count : created.position = (s.redis.chatIds chatId).card
  newest : ∀ id ∈ s.redis.chatIds chatId, id ≤ created.alert.id

/-- **How far a `create` of the chat has come**, while no other command changes the alerts of
the chat. -/
inductive Creating (i : ℕ) (chatId : String) (s : AlertServer) : Prop
  | asked {request : CreateRequest} (command : s.commands i = .create request)
      (chat : request.chatId = chatId)
  | counted {request : CreateRequest} {n : ℕ} (command : s.commands i = .createCounted request n)
      (chat : request.chatId = chatId) (count : n = (s.redis.chatIds chatId).card)
  | issued {alert : PriceAlert} {n : ℕ} {priceUsd : ℚ}
      (command : s.commands i = .createIssued alert n priceUsd) (chat : alert.chatId = chatId)
      (count : n = (s.redis.chatIds chatId).card)
      (newest : ∀ id ∈ s.redis.chatIds chatId, id < alert.id)
  | created {created : CreatedAlert} (command : s.commands i = .answered (.created created))
      (newest : Newest created chatId s)
  | refused {reply : AlertReply} (command : s.commands i = .answered reply)
      (refused : ∀ created, reply ≠ .created created)

theorem Creating.ne_idle (h : Creating i chatId s) : s.commands i ≠ .idle := by
  cases h with
  | asked command => simp [command]
  | counted command => simp [command]
  | issued command => simp [command]
  | created command => simp [command]
  | refused command => simp [command]

theorem Newest.frame {s' : AlertServer} {created : CreatedAlert} (h : Newest created chatId s)
    (hids : s'.redis.chatIds chatId = s.redis.chatIds chatId) : Newest created chatId s' :=
  ⟨hids ▸ h.mem, hids ▸ h.count, hids ▸ h.newest⟩

theorem Creating.frame {s' : AlertServer} (h : Creating i chatId s)
    (hcommand : s'.commands i = s.commands i)
    (hids : s'.redis.chatIds chatId = s.redis.chatIds chatId) : Creating i chatId s' := by
  cases h with
  | asked command chat => exact .asked (hcommand.trans command) chat
  | counted command chat count => exact .counted (hcommand.trans command) chat (hids ▸ count)
  | issued command chat count newest =>
    exact .issued (hcommand.trans command) chat (hids ▸ count) (hids ▸ newest)
  | created command newest => exact .created (hcommand.trans command) (newest.frame hids)
  | refused command refused => exact .refused (hcommand.trans command) refused

/-- A command of another chat leaves the ids of the chat alone. -/
theorem Effect.chatIds_eq {command' : AlertCommand} {r' : AlertRedis}
    (h : Effect r command r' command') (hother : command.changes ≠ some chatId) :
    r'.chatIds chatId = r.chatIds chatId := by
  cases h with
  | read same => rw [same]
  | issued _ left => rw [left]
  | created pending left =>
    rw [pending] at hother
    rw [left]
    exact Function.update_of_ne (fun heq => hother (congrArg some heq.symm)) _ _
  | deleted found left =>
    rw [found] at hother
    rw [left]
    exact Function.update_of_ne (fun heq => hother (congrArg some heq.symm)) _ _
  | written _ _ left =>
    rw [left]
    rfl

/-- **A call of the `create` itself.** -/
theorem Creating.advances {answer : AlertAnswer} (h : Creating i chatId s) (hs : Sound s) :
    Creating i chatId (alertServing.next s (.advances i answer)) := by
  have hcommand : (alertServing.next s (.advances i answer)).commands i =
      (advance s.redis answer (s.commands i)).2 := commands_after_self
  have hredis : (alertServing.next s (.advances i answer)).redis =
      (advance s.redis answer (s.commands i)).1 := rfl
  cases h with
  | @asked request command chat =>
    rw [command, advance] at hcommand
    rw [command, advance] at hredis
    dsimp only at hcommand
    split_ifs at hcommand
    · exact .refused hcommand (by simp)
    · exact .counted hcommand chat (by rw [hredis, chat])
  | @counted request n command chat count =>
    rw [command, advance] at hcommand
    rw [command, advance] at hredis
    cases hprice : answer.priceUsd with
    | none =>
      rw [hprice] at hcommand
      exact .refused hcommand (by simp)
    | some priceUsd =>
      rw [hprice] at hcommand hredis
      dsimp only at hcommand hredis
      split_ifs at hcommand hredis
      · exact .refused hcommand (by simp)
      -- Every id of the chat was issued earlier, so the new one is greater.
      · refine .issued hcommand chat (by rw [hredis, count]) fun id hid => ?_
        rw [hredis] at hid
        have hstored := (hs.chats id chatId).mp hid
        exact Nat.lt_succ_of_le (hs.stored id (by rw [hstored]; rfl)).1
  | @issued alert n priceUsd command chat count newest =>
    rw [command] at hcommand hredis
    have hids : (alertServing.next s (.advances i answer)).redis.chatIds chatId =
        Insert.insert alert.id (s.redis.chatIds chatId) := by
      rw [hredis, ← chat]
      exact Function.update_self _ _ _
    refine .created hcommand ⟨?_, ?_, ?_⟩
    · rw [hids]
      exact Finset.mem_insert_self _ _
    -- The set grows by one, so that the count of before is one short of it.
    · rw [hids, Finset.card_insert_of_notMem fun hmem => lt_irrefl _ (newest _ hmem), ← count]
    · rw [hids]
      intro id hid
      rcases Finset.mem_insert.mp hid with rfl | hid
      · exact le_rfl
      · exact (newest id hid).le
  | created command newest =>
    rw [command] at hcommand hredis
    exact .created hcommand (newest.frame (by rw [hredis]; rfl))
  | refused command refused =>
    rw [command] at hcommand
    exact .refused hcommand refused

theorem Creating.next (h : Creating i chatId s) (hs : Sound s) (hleg : alertServing.legal s e)
    (hquiet : Undisturbed chatId i s e) : Creating i chatId (alertServing.next s e) := by
  cases e with
  | arrives j command =>
    have hne : i ≠ j := by
      rintro rfl
      exact h.ne_idle hleg.1
    exact h.frame (Function.update_of_ne hne _ _) rfl
  | advances j answer =>
    rcases eq_or_ne j i with rfl | hne
    · exact h.advances hs
    · exact h.frame (Function.update_of_ne hne.symm _ _)
        ((effect_advances hleg).chatIds_eq fun hchanges => hne (hquiet hchanges))

theorem alertAt_length {alerts : List PriceAlert} (hne : alerts ≠ []) :
    alertAt alerts alerts.length = some (alerts.getLast hne) := by
  obtain ⟨n, hn⟩ := Nat.exists_eq_succ_of_ne_zero (List.length_pos_iff.mpr hne).ne'
  rw [← List.getLast?_eq_some_getLast, List.getLast?_eq_getElem?, hn]
  rfl

/-- **The newest alert of a list is its last one.** -/
theorem alertAt_listAll (store : AlertStore) {ids : List ℕ} {newest : ℕ} (hmem : newest ∈ ids)
    (hnewest : ∀ id ∈ ids, id ≤ newest) (hstored : ∀ id ∈ ids, (store.alerts id).isSome) :
    ∃ a, alertAt (store.listAll ids) ids.length = some a ∧ a.id = newest := by
  have hlength : (store.listAll ids).length = ids.length := by
    rw [AlertStore.listAll, List.length_insertionSort]
    exact List.filterMap_length_eq_length.mpr hstored
  have hsorted : (store.listAll ids).Pairwise fun a b => a.id ≤ b.id :=
    List.pairwise_insertionSort _ _
  obtain ⟨b, hb⟩ := Option.isSome_iff_exists.mp (hstored newest hmem)
  have hbid : b.id = newest := store.keyed newest b hb
  have hlisted : b ∈ store.listAll ids := mem_listAll.mpr (hbid.symm ▸ ⟨hmem, hb⟩)
  have hne : store.listAll ids ≠ [] := List.ne_nil_of_mem hlisted
  refine ⟨(store.listAll ids).getLast hne, ?_, le_antisymm ?_ ?_⟩
  · rw [← hlength]
    exact alertAt_length hne
  · exact hnewest _ (mem_listAll.mp (List.getLast_mem hne)).1
  · rw [← hbid]
    exact hsorted.rel_getLast_of_rel_getLast_getLast hlisted le_rfl

/-- What a `listByChat` has read is what is stored. -/
def Listing (j : ℕ) (chatId : String) (s : AlertServer) : Prop :=
  ∀ ids, s.commands j = .listListed chatId ids →
    ids.Nodup ∧ ids.toFinset = s.redis.chatIds chatId

theorem Listing.next {j : ℕ} (h : Listing j chatId s) (hleg : alertServing.legal s e)
    (hids : (alertServing.next s e).redis.chatIds chatId = s.redis.chatIds chatId) :
    Listing j chatId (alertServing.next s e) := by
  intro ids hlisted
  rw [hids]
  cases e with
  | arrives k command =>
    rcases eq_or_ne j k with rfl | hne
    · have hstarts : command.starts := hleg.2
      have hcommand : command = .listListed chatId ids :=
        (Function.update_self _ _ _).symm.trans hlisted
      rw [hcommand] at hstarts
      exact hstarts.elim
    · exact h ids ((Function.update_of_ne hne _ _).symm.trans hlisted)
  | advances k answer =>
    rcases eq_or_ne j k with rfl | hne
    · obtain ⟨hcommand, rfl⟩ :=
        listListed_of_advance ((Function.update_self _ _ _).symm.trans hlisted)
      exact hleg (s.redis.chatIds chatId) (by rw [hcommand]; rfl)
    · exact h ids ((Function.update_of_ne hne _ _).symm.trans hlisted)

/-- Nothing changes the ids of the chat once the `create` is answered. -/
theorem chatIds_eq_of_answered {reply : AlertReply} (hleg : alertServing.legal s e)
    (hquiet : Undisturbed chatId i s e) (hanswered : s.commands i = .answered reply) :
    (alertServing.next s e).redis.chatIds chatId = s.redis.chatIds chatId ∧
      (alertServing.next s e).commands i = .answered reply := by
  cases e with
  | arrives j command =>
    have hne : i ≠ j := by
      rintro rfl
      cases hanswered.symm.trans hleg.1
    exact ⟨rfl, (Function.update_of_ne hne _ _).trans hanswered⟩
  | advances j answer =>
    rcases eq_or_ne j i with rfl | hne
    · have hnext : (alertServing.next s (.advances j answer)).redis = s.redis := by
        change (advance s.redis answer (s.commands j)).1 = _
        rw [hanswered, advance]
      have hcommand : (alertServing.next s (.advances j answer)).commands j =
          (advance s.redis answer (s.commands j)).2 := commands_after_self
      rw [hnext, hcommand, hanswered]
      exact ⟨rfl, rfl⟩
    · refine ⟨?_, (Function.update_of_ne hne.symm _ _).trans hanswered⟩
      exact (effect_advances hleg).chatIds_eq fun hchanges => hne (hquiet hchanges)

/-- **The list shows the newest alert at its position.** -/
theorem Newest.listed {j : ℕ} {created : CreatedAlert} {alerts : List PriceAlert}
    (h : Newest created chatId s) (hs : Sound s) (hleg : alertServing.legal s e)
    (hlisting : Listing j chatId s)
    (hout : (j, .listed chatId alerts) ∈ alertServing.out s e) :
    ∃ a, alertAt alerts created.position = some a ∧ a.id = created.alert.id := by
  obtain ⟨answer, rfl, hreply, hopen⟩ := mem_out_alertServing hout
  rcases listed_of_advance hreply with ⟨hcommand, hempty⟩ | ⟨ids, hcommand, rfl⟩ | hanswered
  · -- An empty set would not have the alert.
    have hids := (hleg (s.redis.chatIds chatId) (by rw [hcommand]; rfl)).2
    have hmem := h.mem
    rw [← hids, hempty] at hmem
    simp at hmem
  · obtain ⟨hnodup, hids⟩ := hlisting ids hcommand
    have hin {id : ℕ} : id ∈ ids ↔ id ∈ s.redis.chatIds chatId := by
      rw [← hids, List.mem_toFinset]
    have hcount : created.position = ids.length := by
      rw [h.count, ← hids, List.toFinset_card_of_nodup hnodup]
    rw [hcount]
    refine alertAt_listAll _ (hin.mpr h.mem) (fun id hid => h.newest id (hin.mp hid)) ?_
    intro id hid
    rw [← isSome_ownerOf, (hs.chats id chatId).mp (hin.mp hid)]
    rfl
  · exact absurd hanswered (hopen _)

/-- **The position of a new alert is the one at which the next list shows it**, if no other
command changes the alerts of the chat in between. -/
theorem position_of_created (hs : Sound s) {j : ℕ} {request : CreateRequest}
    {mid post : List AlertEvent} {e e' : AlertEvent} {created : CreatedAlert}
    {alerts : List PriceAlert} (hask : s.commands i = .create request)
    (hr : (alertServing.restrict (Undisturbed request.chatId i)).Run s
      (mid ++ e :: post ++ [e']))
    (hcreated : (i, .created created) ∈ alertServing.out (alertServing.final s mid) e)
    (hfresh : ∀ ids, (alertServing.final s (mid ++ [e])).commands j ≠
      .listListed request.chatId ids)
    (hlisted : (j, .listed request.chatId alerts) ∈
      alertServing.out (alertServing.final s (mid ++ e :: post)) e') :
    ∃ a, alertAt alerts created.position = some a ∧ a.id = created.alert.id := by
  rw [System.run_append, System.run_append, System.run_cons] at hr
  obtain ⟨⟨hmid, hleg, hpost⟩, hleg', -⟩ := hr
  rw [System.final_restrict] at hleg hpost hleg'
  -- Up to the answer, the `create` counts the ids of the chat.
  have hcreating : Sound (alertServing.final s mid) ∧
      Creating i request.chatId (alertServing.final s mid) := by
    have hkeeps : (alertServing.restrict (Undisturbed request.chatId i)).Keeps
        fun s => Sound s ∧ Creating i request.chatId s := fun s e hs hleg =>
      ⟨keeps_sound s e hs.1 hleg.1, hs.2.next hs.1 hleg.1 hleg.2⟩
    have hinv := hmid.invariant hkeeps ⟨hs, .asked hask rfl⟩
    rwa [System.final_restrict] at hinv
  have hnext := hcreating.2.next hcreating.1 hleg.1 hleg.2
  have hanswered : (alertServing.next (alertServing.final s mid) e).commands i =
      .answered (.created created) := by
    obtain ⟨answer, rfl, hreply, -⟩ := mem_out_alertServing hcreated
    exact commands_after_self.trans hreply
  have hnewest :
      Newest created request.chatId (alertServing.next (alertServing.final s mid) e) := by
    cases hnext with
    | asked command => cases hanswered.symm.trans command
    | counted command => cases hanswered.symm.trans command
    | issued command => cases hanswered.symm.trans command
    | created command newest =>
      obtain rfl := AlertReply.created.inj
        (AlertCommand.answered.inj (hanswered.symm.trans command))
      exact newest
    | refused command refused =>
      exact absurd (AlertCommand.answered.inj (hanswered.symm.trans command)).symm (refused created)
  -- From the answer on, nothing changes them.
  have hkeeps : (alertServing.restrict (Undisturbed request.chatId i)).Keeps fun s =>
      Sound s ∧ s.commands i = .answered (.created created) ∧
        Newest created request.chatId s ∧ Listing j request.chatId s := by
    rintro s e ⟨hs, hanswered, hnewest, hlisting⟩ ⟨hleg, hquiet⟩
    obtain ⟨hids, hcommand⟩ := chatIds_eq_of_answered hleg hquiet hanswered
    exact ⟨keeps_sound s e hs hleg, hcommand, hnewest.frame hids, hlisting.next hleg hids⟩
  have hlisting : Listing j request.chatId (alertServing.next (alertServing.final s mid) e) := by
    rw [System.final_append] at hfresh
    exact fun ids hids => absurd hids (hfresh ids)
  have hinv := hpost.invariant hkeeps
    ⟨keeps_sound _ e hcreating.1 hleg.1, hanswered, hnewest, hlisting⟩
  rw [System.final_restrict, ← System.final_cons, ← System.final_append] at hinv
  exact hinv.2.2.1.listed hinv.1 hleg'.1 hinv.2.2.2 hlisted

end Step

/-! ### Any interleaving -/

section Runs

variable {pre post : List AlertEvent} {e : AlertEvent}

theorem sound_final {es : List AlertEvent} (hr : alertServing.Run newAlertServer es) :
    Sound (alertServing.final newAlertServer es) :=
  hr.invariant keeps_sound sound_newAlertServer

/-- What was deleted is gone for the rest of the run. -/
theorem gone_final (hr : alertServing.Run newAlertServer (pre ++ e :: post)) {i : ℕ}
    {alert : PriceAlert}
    (hout : (i, .deleted alert) ∈ alertServing.out (alertServing.final newAlertServer pre) e) :
    Gone alert.id (alertServing.final newAlertServer (pre ++ e :: post)) := by
  rw [System.run_append, System.run_cons] at hr
  obtain ⟨hpre, hleg, hpost⟩ := hr
  have hkeeps : alertServing.Keeps fun s => Sound s ∧ Gone alert.id s := by
    rintro s e ⟨hs, hgone⟩ hleg
    exact ⟨keeps_sound s e hs hleg, hgone.next hs hleg⟩
  have hs := sound_final hpre
  have hinv := hpost.invariant hkeeps ⟨keeps_sound _ e hs hleg, gone_of_deleted hs hleg hout⟩
  rw [← System.final_cons, ← System.final_append] at hinv
  exact hinv.2

/-- Whoever removed an alert had arrived as a `deleteByIndex` for its chat. -/
theorem arrived_of_removed (hr : alertServing.Run newAlertServer (pre ++ e :: post)) {id : ℕ}
    {a : PriceAlert}
    (hstored : (alertServing.final newAlertServer pre).redis.alerts.alerts id = some a)
    (hremoved : (alertServing.final newAlertServer (pre ++ [e])).redis.alerts.alerts id = none) :
    ∃ i answer index, e = .advances i answer ∧
      .arrives i (.deleteByIndex a.chatId index) ∈ pre := by
  rw [System.run_append, System.run_cons] at hr
  obtain ⟨hpre, hleg, -⟩ := hr
  rw [System.final_append] at hremoved
  obtain ⟨i, answer, alert, rfl, hcommand, -⟩ :=
    exists_of_removed (sound_final hpre) hleg hstored hremoved
  have hdeletes : ((alertServing.final newAlertServer pre).commands i).deletesFor =
      some a.chatId := by
    rw [hcommand]
    rfl
  rcases exists_arrives hpre hdeletes with hnew | ⟨index, hmem⟩
  · cases hnew
  · exact ⟨i, answer, index, rfl, hmem⟩

end Runs

/-- **The ids agree in every reachable state.** An id is in the set of all alerts if and only
if its key exists, and if and only if it is in the set of exactly one chat, its owner's; an id
whose delete was answered is in none of them, whatever was written since; an alert is removed
only by a `deleteByIndex` its own chat asked for; and the position of a new alert is the one
at which the next list of its chat shows it, if no other command changes the alerts of the
chat in between. -/
theorem alert_ids {es : List AlertEvent} (hr : alertServing.Run newAlertServer es) :
    let s := alertServing.final newAlertServer es
    (∀ id, (id ∈ s.redis.allIds ↔ (s.redis.alerts.alerts id).isSome) ∧
      (id ∈ s.redis.allIds ↔ ∃! chatId, id ∈ s.redis.chatIds chatId) ∧
      ∀ a ∈ s.redis.alerts.alerts id, ∀ chatId, id ∈ s.redis.chatIds chatId ↔ chatId = a.chatId) ∧
    (∀ pre e post i alert, es = pre ++ e :: post →
      (i, .deleted alert) ∈ alertServing.out (alertServing.final newAlertServer pre) e →
      alert.id ∉ s.redis.allIds ∧ (∀ chatId, alert.id ∉ s.redis.chatIds chatId) ∧
        s.redis.alerts.alerts alert.id = none) ∧
    (∀ pre e post id a, es = pre ++ e :: post →
      (alertServing.final newAlertServer pre).redis.alerts.alerts id = some a →
      (alertServing.final newAlertServer (pre ++ [e])).redis.alerts.alerts id = none →
      ∃ i answer index, e = .advances i answer ∧
        .arrives i (.deleteByIndex a.chatId index) ∈ pre) ∧
    ∀ i j request mid e post e' created alerts, s.commands i = .create request →
      (alertServing.restrict (Undisturbed request.chatId i)).Run s (mid ++ e :: post ++ [e']) →
      (i, .created created) ∈ alertServing.out (alertServing.final s mid) e →
      (∀ ids, (alertServing.final s (mid ++ [e])).commands j ≠ .listListed request.chatId ids) →
      (j, .listed request.chatId alerts) ∈
        alertServing.out (alertServing.final s (mid ++ e :: post)) e' →
      ∃ a, alertAt alerts created.position = some a ∧ a.id = created.alert.id := by
  intro s
  have hs : Sound s := sound_final hr
  refine ⟨fun id => ⟨?_, hs.existsUnique_chat id, fun a ha chatId => hs.mem_chatIds ha⟩, ?_, ?_, ?_⟩
  · rw [hs.all, isSome_ownerOf]
  · rintro pre e post i alert rfl hout
    exact (gone_final hr hout).absent hs
  · rintro pre e post id a rfl hstored hremoved
    exact arrived_of_removed hr hstored hremoved
  · intro i j request mid e post e' created alerts hask hrun hcreated hfresh hlisted
    exact position_of_created hs hask hrun hcreated hfresh hlisted

/-! ### A check that writes what was deleted -/

instance (chatId : String) (i : ℕ) (s : AlertServer) : ∀ e, Decidable (Undisturbed chatId i s e)
  | .arrives .. => .isTrue trivial
  | .advances j _ => inferInstanceAs (Decidable ((s.commands j).changes = some chatId → j = i))

/-- Two chats ask at once. -/
def twoChats : List AlertEvent :=
  [.arrives 0 (.create ⟨"a", "btc", .above, 100⟩), .arrives 1 (.create ⟨"b", "btc", .above, 100⟩)]

/-- Chat "b" gets the first id. -/
def twoCreates : List AlertEvent :=
  [.advances 0 {}, .advances 1 {}, .advances 1 { priceUsd := some 50 },
    .advances 0 { priceUsd := some 50 }]

/-- A check loads both alerts, and chat "a" deletes its own. -/
def checkAndDelete : List AlertEvent :=
  [.arrives 2 .runCheck, .advances 2 { ids := [2, 1] }, .advances 2 {},
    .arrives 3 (.deleteByIndex "a" 1), .advances 3 { ids := [2] }, .advances 3 {}]

/-- The check writes both alerts back. -/
def staleWrites : List AlertEvent :=
  [.advances 2 { priceUsd := some 200 }, .advances 2 { priceUsd := some 200 }]

/-- Chat "a" lists its alerts. -/
def listOfA : List AlertEvent :=
  [.advances 1 {}, .arrives 4 (.listByChat "a"), .advances 4 { ids := [2] }]

/-- The list shows alert 2 at the position its `create` returned, and what the check writes
back does not bring it back once it is deleted. -/
theorem alert_ids_twoChats :
    let stored := twoChats ++ twoCreates ++ .advances 0 {} :: listOfA
    let pre := stored ++ .advances 4 {} :: checkAndDelete
    let s := alertServing.final newAlertServer (pre ++ .advances 3 {} :: staleWrites)
    let alert := newAlert 2 ⟨"a", "btc", .above, 100⟩ 0
    ((4, .listed "a" [alert]) ∈
        alertServing.out (alertServing.final newAlertServer stored) (.advances 4 {}) ∧
      ∃ a, alertAt [alert] 1 = some a ∧ a.id = 2) ∧
    2 ∉ s.redis.allIds ∧ (∀ chatId, 2 ∉ s.redis.chatIds chatId) ∧
      s.redis.alerts.alerts 2 = none := by
  intro stored pre s alert
  constructor
  · have hr : alertServing.Run newAlertServer twoChats := by decide +kernel
    have hlisted : (4, .listed "a" [alert]) ∈ alertServing.out
        (alertServing.final newAlertServer stored) (.advances 4 {}) := by
      decide +kernel
    have hfresh (ids : List ℕ) : (alertServing.final (alertServing.final newAlertServer twoChats)
        (twoCreates ++ [.advances 0 {}])).commands 4 ≠ .listListed "a" ids := by
      rw [show (alertServing.final (alertServing.final newAlertServer twoChats)
        (twoCreates ++ [.advances 0 {}])).commands 4 = .idle by decide +kernel]
      exact AlertCommand.noConfusion
    exact ⟨hlisted, (alert_ids hr).2.2.2 0 4 ⟨"a", "btc", .above, 100⟩ twoCreates (.advances 0 {})
      listOfA (.advances 4 {}) ⟨alert, 1, 50⟩ [alert] rfl (by decide +kernel) (by decide +kernel)
      hfresh hlisted⟩
  · have hr : alertServing.Run newAlertServer (pre ++ .advances 3 {} :: staleWrites) := by
      decide +kernel
    exact (alert_ids hr).2.1 pre _ _ 3 alert rfl (by decide +kernel)

end PriceAlerts

end CryptoZaloBot
