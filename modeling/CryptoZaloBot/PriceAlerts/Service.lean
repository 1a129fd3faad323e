import Mathlib.Data.Finset.Card
import CryptoZaloBot.PriceAlerts.Check

/-!
# The price alert service

`PriceAlertsService`: the alerts in Redis. An alert has its own key, and its id is in two
sets, that of all alerts and that of its chat. A command reads first and writes later, and
in between any other command may run, a check of the alerts among them: a command is cut
here at its calls to Redis, each of which is atomic (`CryptoZaloBot.PriceAlerts.advance`).

What one call can do is read off `CryptoZaloBot.PriceAlerts.advance_effect`.
-/

namespace CryptoZaloBot

namespace PriceAlerts

def maxAlertsPerChat : ℕ := 10

/-! ### Redis -/

/-- **The alerts in Redis**: the counter of ids, the alert keys, and the sets of ids. -/
structure AlertRedis where
  nextId : ℕ
  alerts : AlertStore
  allIds : Finset ℕ
  chatIds : String → Finset ℕ

/-- `SET`. -/
def AlertStore.set (store : AlertStore) (alert : PriceAlert) : AlertStore where
  alerts := Function.update store.alerts alert.id (some alert)
  keyed := store.keyed_update alert

/-- `DEL`. -/
def AlertStore.del (store : AlertStore) (id : ℕ) : AlertStore where
  alerts := Function.update store.alerts id none
  keyed id' a h := by
    rcases eq_or_ne id' id with rfl | hne
    · rw [Function.update_self] at h
      cases h
    · rw [Function.update_of_ne hne] at h
      exact store.keyed id' a h

namespace AlertRedis

variable (r : AlertRedis)

/-- The transaction of a `create`. -/
def insert (alert : PriceAlert) : AlertRedis :=
  { r with
    alerts := r.alerts.set alert
    allIds := Insert.insert alert.id r.allIds
    chatIds := Function.update r.chatIds alert.chatId
      (Insert.insert alert.id (r.chatIds alert.chatId)) }

/-- The transaction of a `deleteByIndex`. -/
def remove (chatId : String) (id : ℕ) : AlertRedis :=
  { r with
    alerts := r.alerts.del id
    allIds := r.allIds.erase id
    chatIds := Function.update r.chatIds chatId ((r.chatIds chatId).erase id) }

/-- `SET … XX`. -/
def updateState (alert : PriceAlert) : AlertRedis :=
  { r with alerts := r.alerts.updateState alert }

end AlertRedis

/-! ### Commands -/

structure CreateRequest where
  chatId : String
  symbol : String
  direction : AlertDirection
  threshold : ℚ
  deriving DecidableEq

structure CreatedAlert where
  alert : PriceAlert
  /-- 1-based position in the chat's list. -/
  position : ℕ
  currentPriceUsd : ℚ
  deriving DecidableEq

/-- How a command ends. -/
inductive AlertReply where
  | created (created : CreatedAlert)
  | limitReached
  | conditionAlreadyMet (currentPriceUsd : ℚ)
  | pricesUnavailable
  | deleted (alert : PriceAlert)
  | notFound (index : ℕ)
  | listed (chatId : String) (alerts : List PriceAlert)
  | checked
  deriving DecidableEq

/-- **A command between two of its calls to Redis.** -/
inductive AlertCommand where
  | idle
  | create (request : CreateRequest)
  | createCounted (request : CreateRequest) (existingCount : ℕ)
  | createIssued (alert : PriceAlert) (existingCount : ℕ) (currentPriceUsd : ℚ)
  | deleteByIndex (chatId : String) (index : ℕ)
  | deleteListed (chatId : String) (index : ℕ) (ids : List ℕ)
  | deleteFound (chatId : String) (alert : PriceAlert)
  | listByChat (chatId : String)
  | listListed (chatId : String) (ids : List ℕ)
  | runCheck
  | checkListed (ids : List ℕ)
  | checking (alerts : List PriceAlert)
  | answered (reply : AlertReply)
  deriving DecidableEq

/-- What a command meets between two calls: the order in which Redis lists a set, the price
of the coin if it can be looked up, and what a check meets when it processes an alert. -/
structure AlertAnswer where
  ids : List ℕ := []
  priceUsd : Option ℚ := none
  now : ℤ := 0
  env : AlertEnv := ⟨0, .delivered, true⟩
  deriving DecidableEq

/-- The alert a `create` stores. -/
def newAlert (id : ℕ) (request : CreateRequest) (now : ℤ) : PriceAlert where
  id := id
  chatId := request.chatId
  symbol := request.symbol
  direction := request.direction
  threshold := request.threshold
  state := .armed
  lastFiredAt := none
  lastFailedAt := none
  consecutiveFailures := none
  createdAt := now

/-- The alert at a 1-based position. -/
def alertAt (alerts : List PriceAlert) : ℕ → Option PriceAlert
  | 0 => none
  | n + 1 => alerts[n]?

/-- What a check writes back of an alert it loaded. -/
def checkWrite (alert : PriceAlert) (answer : AlertAnswer) : Option PriceAlert :=
  answer.priceUsd.bind fun priceUsd =>
    (processAlert alert priceUsd answer.now answer.env { outcome := .healthy }).written

/-- **One call of a command to Redis**, and what the command does up to its next one. -/
def advance (r : AlertRedis) (answer : AlertAnswer) : AlertCommand → AlertRedis × AlertCommand
  | .idle => (r, .idle)
  | .create request =>
    let existingCount := (r.chatIds request.chatId).card
    (r, if maxAlertsPerChat ≤ existingCount then .answered .limitReached
      else .createCounted request existingCount)
  | .createCounted request existingCount =>
    match answer.priceUsd with
    | none => (r, .answered .pricesUnavailable)
    | some priceUsd =>
      if isConditionMet request.direction request.threshold priceUsd then
        (r, .answered (.conditionAlreadyMet priceUsd))
      else
        let id := r.nextId + 1
        ({ r with nextId := id },
          .createIssued (newAlert id request answer.now) existingCount priceUsd)
  | .createIssued alert existingCount priceUsd =>
    (r.insert alert, .answered (.created ⟨alert, existingCount + 1, priceUsd⟩))
  | .deleteByIndex chatId index =>
    -- An empty set is not followed by a read of its alerts.
    (r, if answer.ids = [] then .answered (.notFound index)
      else .deleteListed chatId index answer.ids)
  | .deleteListed chatId index ids =>
    match alertAt (r.alerts.listAll ids) index with
    | none => (r, .answered (.notFound index))
    | some alert => (r, .deleteFound chatId alert)
  | .deleteFound chatId alert => (r.remove chatId alert.id, .answered (.deleted alert))
  | .listByChat chatId =>
    (r, if answer.ids = [] then .answered (.listed chatId []) else .listListed chatId answer.ids)
  | .listListed chatId ids => (r, .answered (.listed chatId (r.alerts.listAll ids)))
  | .runCheck => (r, if answer.ids = [] then .answered .checked else .checkListed answer.ids)
  | .checkListed ids => (r, .checking (r.alerts.listAll ids))
  | .checking [] => (r, .answered .checked)
  | .checking (alert :: alerts) =>
    ((checkWrite alert answer).elim r r.updateState, .checking alerts)
  | .answered reply => (r, .answered reply)

namespace AlertCommand

/-- The set a command lists next. -/
def members (r : AlertRedis) : AlertCommand → Option (Finset ℕ)
  | deleteByIndex chatId _ => some (r.chatIds chatId)
  | listByChat chatId => some (r.chatIds chatId)
  | runCheck => some r.allIds
  | _ => none

/-- The alert of a `create` whose id is issued, but which is not stored. -/
def pending : AlertCommand → Option PriceAlert
  | createIssued alert _ _ => some alert
  | _ => none

/-- The ids a command is going to act on, with the chats it takes them to belong to. -/
def targets : AlertCommand → List (ℕ × String)
  | deleteListed chatId _ ids => ids.map (·, chatId)
  | deleteFound chatId alert => [(alert.id, chatId)]
  | listListed chatId ids => ids.map (·, chatId)
  | checking alerts => alerts.map fun a => (a.id, a.chatId)
  | _ => []

/-- How a command starts. -/
def starts : AlertCommand → Prop
  | create _ => True
  | deleteByIndex .. => True
  | listByChat _ => True
  | runCheck => True
  | _ => False

instance : ∀ command, Decidable (starts command)
  | idle => .isFalse id
  | create _ => .isTrue trivial
  | createCounted .. => .isFalse id
  | createIssued .. => .isFalse id
  | deleteByIndex .. => .isTrue trivial
  | deleteListed .. => .isFalse id
  | deleteFound .. => .isFalse id
  | listByChat _ => .isTrue trivial
  | listListed .. => .isFalse id
  | runCheck => .isTrue trivial
  | checkListed _ => .isFalse id
  | checking _ => .isFalse id
  | answered _ => .isFalse id

/-- The chat whose alerts a command may change. -/
def changes : AlertCommand → Option String
  | create request => some request.chatId
  | createCounted request _ => some request.chatId
  | createIssued alert _ _ => some alert.chatId
  | deleteByIndex chatId _ => some chatId
  | deleteListed chatId _ _ => some chatId
  | deleteFound chatId _ => some chatId
  | _ => none

end AlertCommand

/-! ### What a call does -/

theorem checkWrite_sameTerms {alert a : PriceAlert} {answer : AlertAnswer}
    (h : checkWrite alert answer = some a) : a.id = alert.id ∧ a.chatId = alert.chatId := by
  obtain ⟨priceUsd, -, h⟩ := Option.bind_eq_some_iff.mp h
  rw [processAlert] at h
  cases he : evaluateAlert alert priceUsd answer.now with
  | none => simp [he] at h
  | rearm =>
    rw [he] at h
    obtain rfl := Option.some.inj h
    exact ⟨rfl, rfl⟩
  | fire =>
    rw [he] at h
    dsimp only at h
    by_cases hbudget : runSendBudgetMs < answer.env.elapsedMs
    · simp [hbudget] at h
    · rw [if_neg hbudget] at h
      cases hsend : answer.env.send with
      | threw => simp [hsend] at h
      | delivered =>
        rw [hsend] at h
        obtain rfl := Option.some.inj h
        exact ⟨rfl, rfl⟩
      | refused =>
        rw [hsend] at h
        obtain rfl := Option.some.inj h
        exact ⟨rfl, rfl⟩

/-- **What one call can do to Redis**, and to what its command is going to do. -/
inductive Effect (r : AlertRedis) (command : AlertCommand) (r' : AlertRedis)
    (command' : AlertCommand) : Prop
  /-- Targets are kept, or read in a set of a chat or in a stored alert. -/
  | read (same : r' = r) (pending : command'.pending = none)
      (targets : ∀ p ∈ command'.targets, p ∈ command.targets ∨ p.1 ∈ r.chatIds p.2 ∨
        ∃ a ∈ r.alerts.alerts p.1, a.chatId = p.2)
  | issued {request : CreateRequest} {n : ℕ} {now : ℤ} {priceUsd : ℚ}
      (counted : command = .createCounted request n)
      (left : r' = { r with nextId := r.nextId + 1 })
      (next : command' = .createIssued (newAlert (r.nextId + 1) request now) n priceUsd)
  | created {alert : PriceAlert} {n : ℕ} {priceUsd : ℚ}
      (pending : command = .createIssued alert n priceUsd) (left : r' = r.insert alert)
      (next : command' = .answered (.created ⟨alert, n + 1, priceUsd⟩))
  | deleted {chatId : String} {alert : PriceAlert} (found : command = .deleteFound chatId alert)
      (left : r' = r.remove chatId alert.id) (next : command' = .answered (.deleted alert))
  | written {alert a : PriceAlert} {alerts : List PriceAlert}
      (loaded : command = .checking (alert :: alerts))
      (sameTerms : a.id = alert.id ∧ a.chatId = alert.chatId) (left : r' = r.updateState a)
      (next : command' = .checking alerts)

theorem mem_of_alertAt {alerts : List PriceAlert} {index : ℕ} {a : PriceAlert}
    (h : alertAt alerts index = some a) : a ∈ alerts := by
  cases index with
  | zero => cases h
  | succ n => exact List.mem_of_getElem? h

theorem advance_effect (r : AlertRedis) (command : AlertCommand) {answer : AlertAnswer}
    (hids : ∀ ids ∈ command.members r, ∀ id ∈ answer.ids, id ∈ ids) :
    Effect r command (advance r answer command).1 (advance r answer command).2 := by
  have hquiet {command' : AlertCommand} (hpending : command'.pending = none)
      (htargets : command'.targets = []) : Effect r command r command' :=
    .read rfl hpending (by simp [htargets])
  cases command with
  | idle => exact hquiet rfl rfl
  | answered reply => exact hquiet rfl rfl
  | create request =>
    rw [advance]
    dsimp only
    split_ifs
    · exact hquiet rfl rfl
    · exact hquiet rfl rfl
  | createCounted request n =>
    rw [advance]
    cases answer.priceUsd with
    | none => exact hquiet rfl rfl
    | some priceUsd =>
      dsimp only
      split_ifs
      · exact hquiet rfl rfl
      · exact .issued rfl rfl rfl
  | createIssued alert n priceUsd => exact .created rfl rfl rfl
  | deleteByIndex chatId index =>
    rw [advance]
    split_ifs
    · exact hquiet rfl rfl
    · refine .read rfl rfl fun p hp => .inr (.inl ?_)
      obtain ⟨id, hid, rfl⟩ := List.mem_map.mp hp
      exact hids _ rfl id hid
  | deleteListed chatId index ids =>
    rw [advance]
    cases hfound : alertAt (r.alerts.listAll ids) index with
    | none => exact hquiet rfl rfl
    | some alert =>
      refine .read rfl rfl fun p hp => .inl ?_
      -- The alert was loaded from one of the ids.
      obtain rfl := List.mem_singleton.mp hp
      exact List.mem_map_of_mem (mem_listAll.mp (mem_of_alertAt hfound)).1
  | deleteFound chatId alert => exact .deleted rfl rfl rfl
  | listByChat chatId =>
    rw [advance]
    split_ifs
    · exact hquiet rfl rfl
    · refine .read rfl rfl fun p hp => .inr (.inl ?_)
      obtain ⟨id, hid, rfl⟩ := List.mem_map.mp hp
      exact hids _ rfl id hid
  | listListed chatId ids => exact hquiet rfl rfl
  | runCheck =>
    rw [advance]
    split_ifs
    · exact hquiet rfl rfl
    · exact hquiet rfl rfl
  | checkListed ids =>
    refine .read rfl rfl fun p hp => .inr (.inr ?_)
    obtain ⟨a, ha, rfl⟩ := List.mem_map.mp hp
    exact ⟨a, (mem_listAll.mp ha).2, rfl⟩
  | checking alerts =>
    cases alerts with
    | nil => exact hquiet rfl rfl
    | cons alert alerts =>
      rw [advance]
      cases hwrite : checkWrite alert answer with
      | none => exact .read rfl rfl fun p hp => .inl (List.mem_cons_of_mem _ hp)
      | some a => exact .written rfl (checkWrite_sameTerms hwrite) rfl rfl

/-! ### How a command goes on -/

/-- **What a command can be after its next call to Redis**, by what it was. -/
inductive GoesOn (r : AlertRedis) (answer : AlertAnswer) : AlertCommand → AlertCommand → Prop
  | idle : GoesOn r answer .idle .idle
  | limitReached {request : CreateRequest} :
      GoesOn r answer (.create request) (.answered .limitReached)
  | counted {request : CreateRequest} {n : ℕ} :
      GoesOn r answer (.create request) (.createCounted request n)
  | unpriced {request : CreateRequest} {n : ℕ} :
      GoesOn r answer (.createCounted request n) (.answered .pricesUnavailable)
  | alreadyMet {request : CreateRequest} {n : ℕ} {priceUsd : ℚ} :
      GoesOn r answer (.createCounted request n) (.answered (.conditionAlreadyMet priceUsd))
  | issued {request : CreateRequest} {n : ℕ} {priceUsd : ℚ} :
      GoesOn r answer (.createCounted request n)
        (.createIssued (newAlert (r.nextId + 1) request answer.now) n priceUsd)
  | created {alert : PriceAlert} {n : ℕ} {priceUsd : ℚ} :
      GoesOn r answer (.createIssued alert n priceUsd)
        (.answered (.created ⟨alert, n + 1, priceUsd⟩))
  | noneToDelete {chatId : String} {index : ℕ} :
      GoesOn r answer (.deleteByIndex chatId index) (.answered (.notFound index))
  | toDelete {chatId : String} {index : ℕ} :
      GoesOn r answer (.deleteByIndex chatId index) (.deleteListed chatId index answer.ids)
  | notFound {chatId : String} {index : ℕ} {ids : List ℕ} :
      GoesOn r answer (.deleteListed chatId index ids) (.answered (.notFound index))
  | found {chatId : String} {index : ℕ} {ids : List ℕ} {alert : PriceAlert} :
      GoesOn r answer (.deleteListed chatId index ids) (.deleteFound chatId alert)
  | deleted {chatId : String} {alert : PriceAlert} :
      GoesOn r answer (.deleteFound chatId alert) (.answered (.deleted alert))
  | noneToList {chatId : String} (empty : answer.ids = []) :
      GoesOn r answer (.listByChat chatId) (.answered (.listed chatId []))
  | toList {chatId : String} :
      GoesOn r answer (.listByChat chatId) (.listListed chatId answer.ids)
  | listed {chatId : String} {ids : List ℕ} :
      GoesOn r answer (.listListed chatId ids) (.answered (.listed chatId (r.alerts.listAll ids)))
  | noneToCheck : GoesOn r answer .runCheck (.answered .checked)
  | toCheck : GoesOn r answer .runCheck (.checkListed answer.ids)
  | loaded {ids : List ℕ} :
      GoesOn r answer (.checkListed ids) (.checking (r.alerts.listAll ids))
  | processed {alert : PriceAlert} {alerts : List PriceAlert} :
      GoesOn r answer (.checking (alert :: alerts)) (.checking alerts)
  | checked : GoesOn r answer (.checking []) (.answered .checked)
  | answered {reply : AlertReply} : GoesOn r answer (.answered reply) (.answered reply)

theorem goesOn (r : AlertRedis) (answer : AlertAnswer) (command : AlertCommand) :
    GoesOn r answer command (advance r answer command).2 := by
  cases command with
  | idle => exact .idle
  | create request =>
    rw [advance]
    dsimp only
    split_ifs
    · exact .limitReached
    · exact .counted
  | createCounted request n =>
    rw [advance]
    cases answer.priceUsd with
    | none => exact .unpriced
    | some priceUsd =>
      dsimp only
      split_ifs
      · exact .alreadyMet
      · exact .issued
  | createIssued alert n priceUsd => exact .created
  | deleteByIndex chatId index =>
    rw [advance]
    split_ifs
    · exact .noneToDelete
    · exact .toDelete
  | deleteListed chatId index ids =>
    rw [advance]
    cases alertAt (r.alerts.listAll ids) index with
    | none => exact .notFound
    | some alert => exact .found
  | deleteFound chatId alert => exact .deleted
  | listByChat chatId =>
    rw [advance]
    split_ifs with hempty
    · exact .noneToList hempty
    · exact .toList
  | listListed chatId ids => exact .listed
  | runCheck =>
    rw [advance]
    split_ifs
    · exact .noneToCheck
    · exact .toCheck
  | checkListed ids => exact .loaded
  | checking alerts =>
    cases alerts with
    | nil => exact .checked
    | cons alert alerts => exact .processed
  | answered reply => exact .answered

section GoesOn

variable {r : AlertRedis} {answer : AlertAnswer} {command : AlertCommand}

theorem deleted_of_advance {alert : PriceAlert}
    (h : (advance r answer command).2 = .answered (.deleted alert)) :
    (∃ chatId, command = .deleteFound chatId alert) ∨ command = .answered (.deleted alert) := by
  have hstep := goesOn r answer command
  rw [h] at hstep
  cases hstep with
  | deleted => exact .inl ⟨_, rfl⟩
  | answered => exact .inr rfl

theorem listed_of_advance {chatId : String} {alerts : List PriceAlert}
    (h : (advance r answer command).2 = .answered (.listed chatId alerts)) :
    (command = .listByChat chatId ∧ answer.ids = []) ∨
      (∃ ids, command = .listListed chatId ids ∧ alerts = r.alerts.listAll ids) ∨
      command = .answered (.listed chatId alerts) := by
  have hstep := goesOn r answer command
  rw [h] at hstep
  cases hstep with
  | noneToList empty => exact .inl ⟨rfl, empty⟩
  | listed => exact .inr (.inl ⟨_, rfl, rfl⟩)
  | answered => exact .inr (.inr rfl)

theorem listListed_of_advance {chatId : String} {ids : List ℕ}
    (h : (advance r answer command).2 = .listListed chatId ids) :
    command = .listByChat chatId ∧ ids = answer.ids := by
  have hstep := goesOn r answer command
  rw [h] at hstep
  cases hstep with
  | toList => exact ⟨rfl, rfl⟩

theorem checkListed_of_advance {ids : List ℕ}
    (h : (advance r answer command).2 = .checkListed ids) :
    command = .runCheck ∧ ids = answer.ids := by
  have hstep := goesOn r answer command
  rw [h] at hstep
  cases hstep with
  | toCheck => exact ⟨rfl, rfl⟩

/-- What a check loads is stored, or was loaded before. -/
theorem checking_of_advance {alerts : List PriceAlert}
    (h : (advance r answer command).2 = .checking alerts) :
    (∃ ids, command = .checkListed ids ∧ alerts = r.alerts.listAll ids) ∨
      ∃ alert, command = .checking (alert :: alerts) := by
  have hstep := goesOn r answer command
  rw [h] at hstep
  cases hstep with
  | loaded => exact .inl ⟨_, rfl, rfl⟩
  | @processed alert => exact .inr ⟨alert, rfl⟩

theorem idle_of_advance (h : (advance r answer command).2 = .idle) : command = .idle := by
  have hstep := goesOn r answer command
  rw [h] at hstep
  cases hstep with
  | idle => rfl

end GoesOn

/-! ### The service over time -/

/-- Redis, and every command there ever was. -/
structure AlertServer where
  redis : AlertRedis
  commands : ℕ → AlertCommand

inductive AlertEvent where
  /-- A command arrives, or a check starts. -/
  | arrives (i : ℕ) (command : AlertCommand)
  | advances (i : ℕ) (answer : AlertAnswer)

/-- **The service**: commands of all chats and checks, call by call, in any order. -/
def alertServing : System AlertServer AlertEvent (ℕ × AlertReply) where
  legal s e :=
    match e with
    | .arrives i command => s.commands i = .idle ∧ command.starts
    | .advances i answer =>
      ∀ ids ∈ (s.commands i).members s.redis, answer.ids.Nodup ∧ answer.ids.toFinset = ids
  next s e :=
    match e with
    | .arrives i command => { s with commands := Function.update s.commands i command }
    | .advances i answer =>
      { redis := (advance s.redis answer (s.commands i)).1
        commands := Function.update s.commands i (advance s.redis answer (s.commands i)).2 }
  out s e :=
    match e with
    | .arrives .. => []
    | .advances i answer =>
      match s.commands i, (advance s.redis answer (s.commands i)).2 with
      | .answered _, _ => []
      | _, .answered reply => [(i, reply)]
      | _, _ => []

/-- A reply ends its command. -/
theorem mem_out_alertServing {s : AlertServer} {e : AlertEvent} {i : ℕ} {reply : AlertReply}
    (h : (i, reply) ∈ alertServing.out s e) :
    ∃ answer, e = .advances i answer ∧
      (advance s.redis answer (s.commands i)).2 = .answered reply ∧
      ∀ reply', s.commands i ≠ .answered reply' := by
  cases e with
  | arrives => cases h
  | advances j answer =>
    simp only [alertServing] at h
    split at h
    · cases h
    next hreply hopen =>
      obtain ⟨rfl, rfl⟩ := Prod.mk.inj (List.mem_singleton.mp h)
      exact ⟨answer, rfl, hreply, hopen⟩
    · cases h

instance (s : AlertServer) : ∀ e, Decidable (alertServing.legal s e)
  | .arrives i command => inferInstanceAs (Decidable (s.commands i = .idle ∧ command.starts))
  | .advances i answer =>
    inferInstanceAs (Decidable (∀ ids ∈ (s.commands i).members s.redis,
      answer.ids.Nodup ∧ answer.ids.toFinset = ids))

/-- Nothing is stored, and nobody has asked for anything. -/
def newAlertServer : AlertServer where
  redis := ⟨0, ⟨fun _ => none, by simp⟩, ∅, fun _ => ∅⟩
  commands _ := .idle

end PriceAlerts

end CryptoZaloBot
