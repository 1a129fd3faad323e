import CryptoZaloBot.PriceAlerts.Cap

/-!
# The numbers of the alerts

A chat deletes an alert by the number under which a list showed it. The number is not stored: the
list and the delete each read the alerts of the chat, oldest first, and count. What was shown is
what is deleted (`CryptoZaloBot.PriceAlerts.deleted_as_shown`) as long as nobody else deletes an
alert of the chat in between. Checks and new alerts do not disturb the numbers: ids are issued in
order, so that what is new comes last, unless a `create` was overtaken by another one of its chat
before the list was read (`CryptoZaloBot.PriceAlerts.InOrder`).
-/

namespace CryptoZaloBot

namespace PriceAlerts

/-! ### Sorted lists -/

/-- What is in a sorted list comes first in a longer one if everything else there is greater. -/
theorem prefix_of_pairwise_lt {l l' : List ℕ} (hl : l.Pairwise (· < ·)) (hl' : l'.Pairwise (· < ·))
    (hsub : ∀ n ∈ l, n ∈ l') (hrest : ∀ n ∈ l', n ∈ l ∨ ∀ m ∈ l, m < n) : l <+: l' := by
  induction l generalizing l' with
  | nil => exact List.nil_prefix
  | cons n l ih =>
    cases l' with
    | nil => cases hsub n List.mem_cons_self
    | cons n' l' =>
      rw [List.pairwise_cons] at hl hl'
      -- The two least elements are the same.
      have hle : n' ≤ n := by
        rcases List.mem_cons.mp (hsub n List.mem_cons_self) with heq | hmem
        · exact heq.ge
        · exact (hl'.1 n hmem).le
      have hge : n ≤ n' := by
        rcases hrest n' List.mem_cons_self with hmem | hgreater
        · rcases List.mem_cons.mp hmem with heq | hmem
          · exact heq.ge
          · exact (hl.1 n' hmem).le
        · exact (hgreater n List.mem_cons_self).le
      obtain rfl := le_antisymm hle hge
      refine List.cons_prefix_cons.mpr ⟨rfl, ih hl.2 hl'.2 (fun m hm => ?_) fun m hm => ?_⟩
      · rcases List.mem_cons.mp (hsub m (List.mem_cons_of_mem _ hm)) with rfl | hmem
        · exact absurd (hl.1 m hm) (lt_irrefl m)
        · exact hmem
      · rcases hrest m (List.mem_cons_of_mem _ hm) with hmem | hgreater
        · rcases List.mem_cons.mp hmem with rfl | hmem
          · exact absurd (hl'.1 m hm) (lt_irrefl m)
          · exact .inl hmem
        · exact .inr fun k hk => hgreater k (List.mem_cons_of_mem _ hk)

theorem pairwise_listAll (store : AlertStore) {ids : List ℕ} (h : ids.Nodup) :
    ((store.listAll ids).map PriceAlert.id).Pairwise (· < ·) := by
  have hsorted : (store.listAll ids).Pairwise fun a b => a.id ≤ b.id :=
    List.pairwise_insertionSort _ _
  have hne := nodup_listAll store h
  rw [List.Nodup, List.pairwise_map] at hne
  rw [List.pairwise_map]
  exact hsorted.imp₂ (fun a b hle hne => lt_of_le_of_ne hle hne) hne

/-! ### The terms of an alert -/

/-- **What never changes about an alert.** -/
def PriceAlert.terms (a : PriceAlert) : String × String × AlertDirection × ℚ :=
  (a.chatId, a.symbol, a.direction, a.threshold)

theorem checkWrite_terms {alert a : PriceAlert} {answer : AlertAnswer}
    (h : checkWrite alert answer = some a) : a.terms = alert.terms := by
  obtain ⟨priceUsd, -, h⟩ := Option.bind_eq_some_iff.mp h
  rw [processAlert] at h
  cases he : evaluateAlert alert priceUsd answer.now with
  | none => simp [he] at h
  | rearm =>
    rw [he] at h
    obtain rfl := Option.some.inj h
    rfl
  | fire =>
    rw [he] at h
    dsimp only at h
    by_cases hbudget : runSendBudgetMs < answer.env.elapsedMs
    · simp [hbudget] at h
    · rw [if_neg hbudget] at h
      cases hsend : answer.env.send with
      | threw => simp [hsend] at h
      | delivered | refused =>
        rw [hsend] at h
        obtain rfl := Option.some.inj h
        rfl

/-- **Where a stored alert comes from**: it was stored, its `create` stored it, or a check wrote
back what it had loaded. -/
inductive Origin (r : AlertRedis) (command : AlertCommand) (b : PriceAlert) : Prop
  | stored (stored : r.alerts.alerts b.id = some b)
  | created {n : ℕ} {priceUsd : ℚ} (issued : command = .createIssued b n priceUsd)
  | written {alert : PriceAlert} {alerts : List PriceAlert}
      (loaded : command = .checking (alert :: alerts)) (sameId : alert.id = b.id)
      (sameTerms : b.terms = alert.terms) (found : (r.alerts.alerts b.id).isSome)

theorem origin_of_advance {r : AlertRedis} {answer : AlertAnswer} {command : AlertCommand}
    {b : PriceAlert} (h : (advance r answer command).1.alerts.alerts b.id = some b) :
    Origin r command b := by
  cases command with
  | createCounted request n =>
    rw [advance] at h
    cases hprice : answer.priceUsd with
    | none =>
      rw [hprice] at h
      exact .stored h
    | some priceUsd =>
      rw [hprice] at h
      dsimp only at h
      split_ifs at h
      · exact .stored h
      · exact .stored h
  | createIssued alert n priceUsd =>
    change Function.update r.alerts.alerts alert.id (some alert) b.id = some b at h
    rcases eq_or_ne b.id alert.id with heq | hne
    · rw [heq, Function.update_self] at h
      obtain rfl := Option.some.inj h
      exact .created rfl
    · rw [Function.update_of_ne hne] at h
      exact .stored h
  | deleteListed chatId index ids =>
    rw [advance] at h
    cases hfound : alertAt (r.alerts.listAll ids) index with
    | none =>
      rw [hfound] at h
      exact .stored h
    | some alert =>
      rw [hfound] at h
      exact .stored h
  | deleteFound chatId alert =>
    change Function.update r.alerts.alerts alert.id none b.id = some b at h
    rcases eq_or_ne b.id alert.id with heq | hne
    · rw [heq, Function.update_self] at h
      cases h
    · rw [Function.update_of_ne hne] at h
      exact .stored h
  | checking alerts =>
    cases alerts with
    | nil => exact .stored h
    | cons alert alerts =>
      rw [advance] at h
      cases hwrite : checkWrite alert answer with
      | none =>
        rw [hwrite] at h
        exact .stored h
      | some a =>
        rw [hwrite] at h
        change (r.alerts.updateState a).alerts b.id = some b at h
        cases hstored : r.alerts.alerts a.id with
        | none =>
          rw [AlertStore.updateState, hstored] at h
          exact .stored h
        | some old =>
          rw [AlertStore.alerts_updateState (by rw [hstored]; rfl)] at h
          rcases eq_or_ne b.id a.id with heq | hne
          · rw [heq, Function.update_self] at h
            obtain rfl := Option.some.inj h
            exact .written rfl (checkWrite_sameTerms hwrite).1.symm (checkWrite_terms hwrite)
              (by rw [hstored]; rfl)
          · rw [Function.update_of_ne hne] at h
            exact .stored h
  | _ => exact .stored h

variable {s : AlertServer} {e : AlertEvent} {i j k id index : ℕ} {chatId : String}

/-- **A check knows the terms of what it loaded.** -/
def Loaded (s : AlertServer) : Prop :=
  ∀ i alerts, s.commands i = .checking alerts → ∀ a ∈ alerts,
    ∀ b ∈ s.redis.alerts.alerts a.id, b.terms = a.terms

/-- The id of what a check loaded is not going to be stored again. -/
theorem Sound.settled_of_loaded (hs : Sound s) {alerts : List PriceAlert}
    (hloaded : s.commands i = .checking alerts) {a : PriceAlert} (ha : a ∈ alerts) :
    Settled a.id s := by
  refine (hs.targets i (a.id, a.chatId) ?_).settled
  rw [hloaded]
  exact List.mem_map_of_mem ha

/-- A call leaves the terms of what a check loaded as they are. -/
theorem Loaded.origin (h : Loaded s) (hs : Sound s) {alerts : List PriceAlert}
    (hloaded : s.commands j = .checking alerts) {a b : PriceAlert} (ha : a ∈ alerts)
    (hid : b.id = a.id) (horigin : Origin s.redis (s.commands i) b) : b.terms = a.terms := by
  cases horigin with
  | stored stored =>
    rw [hid] at stored
    exact h j alerts hloaded a ha b stored
  | created issued =>
    refine absurd hid ((hs.settled_of_loaded hloaded ha).2 i b ?_)
    rw [issued]
    rfl
  | written loaded sameId sameTerms found =>
    -- Both checks agree with what is stored now.
    obtain ⟨old, hold⟩ := Option.isSome_iff_exists.mp found
    have hthis := h i _ loaded _ List.mem_cons_self old (by rwa [sameId])
    rw [sameTerms, ← hthis]
    exact h j alerts hloaded a ha old (by rwa [← hid])

theorem Loaded.next (h : Loaded s) (hs : Sound s) (hleg : alertServing.legal s e) :
    Loaded (alertServing.next s e) := by
  intro j alerts hloaded a ha b hb
  cases e with
  | arrives i command =>
    rcases eq_or_ne j i with rfl | hne
    · have hcommand : command = .checking alerts := (Function.update_self _ _ _).symm.trans hloaded
      have hstarts : command.starts := hleg.2
      rw [hcommand] at hstarts
      exact hstarts.elim
    · exact h j alerts ((Function.update_of_ne hne _ _).symm.trans hloaded) a ha b hb
  | advances i answer =>
    have hid : b.id = a.id :=
      (alertServing.next s (.advances i answer)).redis.alerts.keyed a.id b hb
    have horigin : Origin s.redis (s.commands i) b := origin_of_advance (by rw [hid]; exact hb)
    rcases eq_or_ne j i with rfl | hne
    · have hcommand : (advance s.redis answer (s.commands j)).2 = .checking alerts :=
        (Function.update_self _ _ _).symm.trans hloaded
      rcases checking_of_advance hcommand with ⟨ids, hlisted, rfl⟩ | ⟨alert, hchecking⟩
      · -- Loading changes nothing.
        change (advance s.redis answer (s.commands j)).1.alerts.alerts a.id = some b at hb
        rw [hlisted] at hb
        have hstored : s.redis.alerts.alerts a.id = some a := (mem_listAll.mp ha).2
        rw [Option.some.inj (hstored.symm.trans hb)]
      · exact h.origin hs hchecking (List.mem_cons_of_mem _ ha) hid horigin
    · exact h.origin hs ((Function.update_of_ne hne _ _).symm.trans hloaded) ha hid horigin

theorem loaded_newAlertServer : Loaded newAlertServer := by
  intro i alerts h
  cases h

/-- **An alert keeps its terms** until a `deleteByIndex` of its chat removes it. -/
theorem Loaded.keeps_terms (h : Loaded s) (hs : Sound s) (hleg : alertServing.legal s e)
    {b : PriceAlert} (hb : s.redis.alerts.alerts id = some b) :
    (∃ b' ∈ (alertServing.next s e).redis.alerts.alerts id, b'.terms = b.terms) ∨
      ∃ i answer alert, e = .advances i answer ∧ s.commands i = .deleteFound b.chatId alert := by
  cases hnext : (alertServing.next s e).redis.alerts.alerts id with
  | none =>
    obtain ⟨i, answer, alert, he, hfound, -⟩ := exists_of_removed hs hleg hb hnext
    exact .inr ⟨i, answer, alert, he, hfound⟩
  | some b' =>
    refine .inl ⟨b', rfl, ?_⟩
    cases e with
    | arrives =>
      change s.redis.alerts.alerts id = some b' at hnext
      rw [Option.some.inj (hb.symm.trans hnext)]
    | advances i answer =>
      have hid : b'.id = id := (alertServing.next s _).redis.alerts.keyed id b' hnext
      obtain rfl := hid
      cases origin_of_advance hnext with
      | stored stored => rw [Option.some.inj (hb.symm.trans stored)]
      | created issued =>
        have hsettled := hs.stored b'.id (by rw [isSome_ownerOf, hb]; rfl)
        refine absurd rfl (hsettled.2 i b' ?_)
        rw [issued]
        rfl
      | written loaded sameId sameTerms =>
        rw [sameTerms]
        exact (h i _ loaded _ List.mem_cons_self b (by rwa [sameId])).symm

/-! ### What was there comes first -/

/-- **No `create` of the chat was overtaken**: what it is going to store is the newest. -/
def InOrder (chatId : String) (s : AlertServer) : Prop :=
  ∀ i, ∀ alert ∈ (s.commands i).pending, alert.chatId = chatId →
    ∀ id ∈ s.redis.chatIds chatId, id < alert.id

/-- **The ids come first** among those the chat has and is going to have. -/
structure Oldest (ids : Set ℕ) (chatId : String) (s : AlertServer) : Prop where
  issued : ∀ id ∈ ids, id ≤ s.redis.nextId
  stored : ∀ id ∈ s.redis.chatIds chatId, id ∈ ids ∨ ∀ id' ∈ ids, id' < id
  pending : ∀ i, ∀ alert ∈ (s.commands i).pending, alert.chatId = chatId →
    ∀ id ∈ ids, id < alert.id

/-- Whatever the chat has comes first. -/
theorem InOrder.oldest (h : InOrder chatId s) (hs : Sound s) :
    Oldest {id | id ∈ s.redis.chatIds chatId} chatId s where
  issued id hid := by
    refine (hs.stored id ?_).1
    rw [(hs.chats id chatId).mp hid]
    rfl
  stored id hid := .inl hid
  pending := h

/-- **An id is new to a chat** only when a `create` of the chat stores it. -/
theorem Effect.mem_chatIds {r r' : AlertRedis} {command command' : AlertCommand}
    (h : Effect r command r' command') (hid : id ∈ r'.chatIds chatId) :
    id ∈ r.chatIds chatId ∨ ∃ alert n priceUsd created,
      command = .createIssued alert n priceUsd ∧ command' = .answered (.created created) ∧
        alert.chatId = chatId ∧ alert.id = id := by
  cases h with
  | read same =>
    rw [same] at hid
    exact .inl hid
  | issued _ left =>
    rw [left] at hid
    exact .inl hid
  | @created alert n priceUsd pending left next =>
    rw [left] at hid
    change id ∈ Function.update r.chatIds alert.chatId _ chatId at hid
    rcases eq_or_ne chatId alert.chatId with rfl | hne
    · rw [Function.update_self] at hid
      rcases Finset.mem_insert.mp hid with rfl | hid
      · exact .inr ⟨alert, n, priceUsd, _, pending, next, rfl, rfl⟩
      · exact .inl hid
    · rw [Function.update_of_ne hne] at hid
      exact .inl hid
  | @deleted chatId' alert _ left =>
    rw [left] at hid
    change id ∈ Function.update r.chatIds chatId' _ chatId at hid
    rcases eq_or_ne chatId chatId' with rfl | hne
    · rw [Function.update_self] at hid
      exact .inl (Finset.mem_of_mem_erase hid)
    · rw [Function.update_of_ne hne] at hid
      exact .inl hid
  | written _ _ left =>
    rw [left] at hid
    exact .inl hid

/-- Ids are issued in order. -/
theorem Oldest.after {ids : Set ℕ} {r : AlertRedis} {command : AlertCommand}
    (h : Oldest ids chatId s) (heffect : Effect s.redis (s.commands i) r command) :
    Oldest ids chatId (s.after i r command) := by
  obtain ⟨hle, hpending⟩ := heffect.counter
  refine ⟨fun id hid => (h.issued id hid).trans hle, fun id hid => ?_,
    fun j alert halert hchat => ?_⟩
  · rcases heffect.mem_chatIds hid with hold | ⟨alert, n, priceUsd, _, hcommand, -, hchat, rfl⟩
    · exact h.stored id hold
    · exact .inr (h.pending i alert (by rw [hcommand]; rfl) hchat)
  · rcases eq_or_ne j i with rfl | hne
    · rw [commands_after_self] at halert
      exact fun id hid => (h.issued id hid).trans_lt (hpending alert halert).1
    · rw [commands_after_of_ne hne] at halert
      exact h.pending j alert halert hchat

theorem Oldest.next {ids : Set ℕ} (h : Oldest ids chatId s) (hleg : alertServing.legal s e) :
    Oldest ids chatId (alertServing.next s e) := by
  obtain ⟨i, r, command, hnext, heffect⟩ := exists_effect hleg
  rw [hnext]
  exact h.after heffect

theorem counted_of_pending {command : AlertCommand} {alert : PriceAlert}
    (h : alert ∈ command.pending) : command.Counted alert.chatId := by
  cases command with
  | createIssued a n priceUsd =>
    obtain rfl := Option.some.inj h
    rfl
  | _ => cases h

/-- A chat whose creates do not overlap past the check stores its alerts in order. -/
theorem InOrder.next (h : InOrder chatId s) (hs : Sound s)
    (halone : (counted chatId s).Subsingleton) (hleg : alertServing.legal s e) :
    InOrder chatId (alertServing.next s e) := by
  obtain ⟨i, r, command, hnext, heffect⟩ := exists_effect hleg
  rw [hnext]
  intro j alert halert hchat id hid
  rcases heffect.mem_chatIds hid with hmem | ⟨a, n, priceUsd, _, hcommand, hanswered, ha, rfl⟩
  · exact ((h.oldest hs).after heffect).pending j alert halert hchat id hmem
  · rcases eq_or_ne j i with rfl | hne
    · rw [commands_after_self, hanswered] at halert
      cases halert
    -- Two creates of the chat would be past the check.
    · rw [commands_after_of_ne hne] at halert
      have hj : j ∈ counted chatId s := hchat ▸ counted_of_pending halert
      have hi : i ∈ counted chatId s := ha ▸ counted_of_pending (by rw [hcommand]; rfl)
      exact absurd (halone hj hi) hne

theorem inOrder_final (chatId : String) {es : List AlertEvent}
    (hr : alertServing.Run newAlertServer es)
    (halone : ∀ pre, pre <+: es →
      (counted chatId (alertServing.final newAlertServer pre)).Subsingleton) :
    InOrder chatId (alertServing.final newAlertServer es) := by
  refine System.Run.induction_concat (P := fun es => (∀ pre, pre <+: es →
    (counted chatId (alertServing.final newAlertServer pre)).Subsingleton) →
      InOrder chatId (alertServing.final newAlertServer es)) ?_ ?_ hr halone
  · intro _ i alert halert
    cases halert
  · intro es e hes hleg ih halone
    rw [System.final_concat]
    have hbefore : es <+: es ++ [e] := List.prefix_append es [e]
    exact (ih fun pre hpre => halone pre (hpre.trans hbefore)).next (sound_final hes)
      (halone es hbefore) hleg

/-! ### What was shown -/

/-- **The list is still right**: what it showed is there, on the same terms, and comes first. -/
structure Shown (chatId : String) (alerts : List PriceAlert) (s : AlertServer) : Prop where
  sorted : (alerts.map PriceAlert.id).Pairwise (· < ·)
  oldest : Oldest {id | id ∈ alerts.map PriceAlert.id} chatId s
  chat : ∀ a ∈ alerts, a.chatId = chatId
  kept : ∀ a ∈ alerts, ∃ b ∈ s.redis.alerts.alerts a.id, b.terms = a.terms

/-- Nobody but the command `k` removes an alert of the chat. -/
def Undeleted (chatId : String) (k : ℕ) (s : AlertServer) : AlertEvent → Prop
  | .arrives .. => True
  | .advances j _ => ∀ alert, s.commands j = .deleteFound chatId alert → j = k

theorem chatId_eq_of_terms {a b : PriceAlert} (h : a.terms = b.terms) : a.chatId = b.chatId :=
  congrArg Prod.fst h

theorem Shown.next {alerts : List PriceAlert} (h : Shown chatId alerts s) (hs : Sound s)
    (hloaded : Loaded s) (hleg : alertServing.legal s e)
    (hquiet : ∀ i answer alert, e = .advances i answer → s.commands i ≠ .deleteFound chatId alert) :
    Shown chatId alerts (alertServing.next s e) where
  sorted := h.sorted
  oldest := h.oldest.next hleg
  chat := h.chat
  kept a ha := by
    obtain ⟨b, hb, hterms⟩ := h.kept a ha
    rcases hloaded.keeps_terms hs hleg hb with ⟨b', hb', hsame⟩ | ⟨i, answer, alert, rfl, hfound⟩
    · exact ⟨b', hb', hsame.trans hterms⟩
    · rw [chatId_eq_of_terms hterms, h.chat a ha] at hfound
      exact absurd hfound (hquiet i answer alert rfl)

/-- What was shown is in the set of its chat. -/
theorem Shown.mem_chatIds {alerts : List PriceAlert} (h : Shown chatId alerts s) (hs : Sound s)
    {a : PriceAlert} (ha : a ∈ alerts) : a.id ∈ s.redis.chatIds chatId := by
  obtain ⟨b, hb, hterms⟩ := h.kept a ha
  rw [hs.mem_chatIds hb, chatId_eq_of_terms hterms, h.chat a ha]

/-- **What a delete has to do with the list**: it deletes what the number showed, and a number
that showed nothing deletes something newer, if anything. -/
def AsShown (alerts : List PriceAlert) (index : ℕ) (deleted : Option PriceAlert) : Prop :=
  (∀ a ∈ alertAt alerts index, ∃ b ∈ deleted, b.id = a.id ∧ b.terms = a.terms) ∧
    (alertAt alerts index = none → ∀ b ∈ deleted, ∀ a ∈ alerts, a.id < b.id)

/-- What a `deleteByIndex` counts off now is what the list showed. -/
theorem Shown.asShown {alerts : List PriceAlert} (h : Shown chatId alerts s) {ids : List ℕ}
    (hnodup : ids.Nodup) (hcovers : ∀ a ∈ alerts, a.id ∈ ids)
    (hrest : ∀ id ∈ ids, id ∈ alerts.map PriceAlert.id ∨ ∀ a ∈ alerts, a.id < id) :
    AsShown alerts index (alertAt (s.redis.alerts.listAll ids) index) := by
  have hsorted := pairwise_listAll s.redis.alerts hnodup
  have hlisted {b : PriceAlert} (hb : b ∈ s.redis.alerts.listAll ids) : b.id ∈ ids :=
    (mem_listAll.mp hb).1
  have hprefix : alerts.map PriceAlert.id <+: (s.redis.alerts.listAll ids).map PriceAlert.id := by
    refine prefix_of_pairwise_lt h.sorted hsorted (fun id hid => ?_) fun id hid => ?_
    · obtain ⟨a, ha, rfl⟩ := List.mem_map.mp hid
      obtain ⟨b, hb, -⟩ := h.kept a ha
      have hkey : b.id = a.id := s.redis.alerts.keyed a.id b hb
      rw [← hkey]
      refine List.mem_map_of_mem (mem_listAll.mpr ?_)
      rw [hkey]
      exact ⟨hcovers a ha, hb⟩
    · obtain ⟨b, hb, rfl⟩ := List.mem_map.mp hid
      refine (hrest b.id (hlisted hb)).imp id fun hgreater m hm => ?_
      obtain ⟨a, ha, rfl⟩ := List.mem_map.mp hm
      exact hgreater a ha
  cases index with
  | zero =>
    constructor
    · intro a ha
      cases ha
    · intro _ b hb
      cases hb
  | succ n =>
    constructor
    · intro a ha
      have hat : (alerts.map PriceAlert.id)[n]? = some a.id := by
        rw [List.getElem?_map]
        exact congrArg _ ha
      -- The prefix has the same id at the same place.
      have hat' := (List.prefix_iff_getElem?.mp hprefix) n
        (List.getElem?_eq_some_iff.mp hat).1
      rw [List.getElem?_eq_some_iff.mp hat |>.2, List.getElem?_map] at hat'
      obtain ⟨b, hb, hid⟩ := Option.map_eq_some_iff.mp hat'
      have hmem := List.mem_of_getElem? hb
      obtain ⟨b', hb', hterms⟩ := h.kept a (List.mem_of_getElem? ha)
      have hsame := (mem_listAll.mp hmem).2
      rw [hid] at hsame
      obtain rfl := Option.some.inj (hsame.symm.trans hb')
      exact ⟨b, hb, hid, hterms⟩
    · intro hnone b hb a ha
      have hmem := List.mem_of_getElem? hb
      rcases hrest b.id (hlisted hmem) with hold | hgreater
      · -- It would stand earlier in the list as well.
        obtain ⟨m, hm, hmid⟩ := List.getElem_of_mem hold
        have hm' := (List.prefix_iff_getElem?.mp hprefix) m hm
        have hn' : ((s.redis.alerts.listAll ids).map PriceAlert.id)[n]? = some b.id := by
          rw [List.getElem?_map]
          exact congrArg _ hb
        rw [hmid] at hm'
        obtain ⟨hlt, hmeq⟩ := List.getElem?_eq_some_iff.mp hm'
        obtain ⟨hlt', hneq⟩ := List.getElem?_eq_some_iff.mp hn'
        have hne : ((s.redis.alerts.listAll ids).map PriceAlert.id).Nodup :=
          hsorted.imp fun h => h.ne
        have hmn : m = n := hne.getElem_inj_iff.mp (hmeq.trans hneq.symm)
        have hlength := List.getElem?_eq_none_iff.mp hnone
        rw [List.length_map] at hm
        omega
      · exact hgreater a ha

/-- What a `deleteByIndex` answers. -/
def deletedReply (index : ℕ) : Option PriceAlert → AlertReply
  | none => .notFound index
  | some alert => .deleted alert

/-- **How far a `deleteByIndex` has come** that was asked for after the list was shown. -/
inductive Deleting (k : ℕ) (chatId : String) (index : ℕ) (alerts : List PriceAlert)
    (s : AlertServer) : Prop
  | asked (command : s.commands k = .deleteByIndex chatId index) (shown : Shown chatId alerts s)
  | listed {ids : List ℕ} (command : s.commands k = .deleteListed chatId index ids)
      (shown : Shown chatId alerts s) (nodup : ids.Nodup) (covers : ∀ a ∈ alerts, a.id ∈ ids)
      (rest : ∀ id ∈ ids, id ∈ alerts.map PriceAlert.id ∨ ∀ a ∈ alerts, a.id < id)
  | found {alert : PriceAlert} (command : s.commands k = .deleteFound chatId alert)
      (right : AsShown alerts index (some alert))
  | answered {reply : AlertReply} (command : s.commands k = .answered reply)

section Delete

variable {alerts : List PriceAlert}

theorem Deleting.ne_idle (h : Deleting k chatId index alerts s) : s.commands k ≠ .idle := by
  cases h with
  | asked command => simp [command]
  | listed command => simp [command]
  | found command => simp [command]
  | answered command => simp [command]

/-- What the delete reads is what was shown, and newer alerts. -/
theorem Shown.covers (h : Shown chatId alerts s) (hs : Sound s) {ids : List ℕ}
    (hids : ids.toFinset = s.redis.chatIds chatId) :
    (∀ a ∈ alerts, a.id ∈ ids) ∧
      ∀ id ∈ ids, id ∈ alerts.map PriceAlert.id ∨ ∀ a ∈ alerts, a.id < id := by
  have hmem {id : ℕ} : id ∈ ids ↔ id ∈ s.redis.chatIds chatId := by
    rw [← hids, List.mem_toFinset]
  refine ⟨fun a ha => hmem.mpr (h.mem_chatIds hs ha), fun id hid => ?_⟩
  exact (h.oldest.stored id (hmem.mp hid)).imp_right fun hgreater a ha =>
    hgreater a.id (List.mem_map_of_mem ha)

/-- **A call of the delete itself** reads what was shown, finds the alert, or answers. -/
theorem Deleting.advances (h : Deleting k chatId index alerts s) (hs : Sound s)
    (hloaded : Loaded s) {answer : AlertAnswer} (hleg : alertServing.legal s (.advances k answer)) :
    Deleting k chatId index alerts (alertServing.next s (.advances k answer)) ∧
      ∀ reply, (k, reply) ∈ alertServing.out s (.advances k answer) →
        ∃ deleted, reply = deletedReply index deleted ∧ AsShown alerts index deleted := by
  have hcommand : (alertServing.next s (.advances k answer)).commands k =
      (advance s.redis answer (s.commands k)).2 := commands_after_self
  have hreply {reply : AlertReply} (hout : (k, reply) ∈ alertServing.out s (.advances k answer)) :
      (advance s.redis answer (s.commands k)).2 = .answered reply ∧
        ∀ reply', s.commands k ≠ .answered reply' := by
    obtain ⟨answer', he, hanswered, hopen⟩ := mem_out_alertServing hout
    obtain ⟨-, rfl⟩ := AlertEvent.advances.inj he
    exact ⟨hanswered, hopen⟩
  have hkept (hother : ∀ alert, s.commands k ≠ .deleteFound chatId alert)
      (hshown : Shown chatId alerts s) :
      Shown chatId alerts (alertServing.next s (.advances k answer)) := by
    refine hshown.next hs hloaded hleg fun i answer' alert he => ?_
    obtain ⟨rfl, -⟩ := AlertEvent.advances.inj he
    exact hother alert
  cases h with
  | asked command shown =>
    obtain ⟨hnodup, hids⟩ := hleg (s.redis.chatIds chatId) (by rw [command]; rfl)
    obtain ⟨hcovers, hrest⟩ := shown.covers hs hids
    have hnext := hkept (by simp [command]) shown
    rw [command, advance] at hcommand
    split_ifs at hcommand with hempty
    · refine ⟨.answered hcommand, fun reply hout => ⟨none, ?_, fun a ha => ?_, fun _ b hb => ?_⟩⟩
      · have hanswered := (hreply hout).1
        rw [command, advance, if_pos hempty] at hanswered
        exact (AlertCommand.answered.inj hanswered).symm
      · have hmem := hcovers a (mem_of_alertAt ha)
        rw [hempty] at hmem
        cases hmem
      · cases hb
    · refine ⟨.listed hcommand hnext hnodup hcovers hrest, fun reply hout => ?_⟩
      have hanswered := (hreply hout).1
      rw [command, advance, if_neg hempty] at hanswered
      cases hanswered
  | @listed ids command shown nodup covers rest =>
    have hright : AsShown alerts index _ := shown.asShown nodup covers rest
    rw [command, advance] at hcommand
    cases hfound : alertAt (s.redis.alerts.listAll ids) index with
    | none =>
      rw [hfound] at hcommand hright
      refine ⟨.answered hcommand, fun reply hout => ⟨none, ?_, hright⟩⟩
      have hanswered := (hreply hout).1
      rw [command, advance, hfound] at hanswered
      exact (AlertCommand.answered.inj hanswered).symm
    | some alert =>
      rw [hfound] at hcommand hright
      refine ⟨.found hcommand hright, fun reply hout => ?_⟩
      have hanswered := (hreply hout).1
      rw [command, advance, hfound] at hanswered
      cases hanswered
  | @found alert command right =>
    rw [command, advance] at hcommand
    refine ⟨.answered hcommand, fun reply hout => ⟨some alert, ?_, right⟩⟩
    have hanswered := (hreply hout).1
    rw [command, advance] at hanswered
    exact (AlertCommand.answered.inj hanswered).symm
  | @answered reply command =>
    rw [command, advance] at hcommand
    exact ⟨.answered hcommand, fun reply' hout => absurd command ((hreply hout).2 reply)⟩

theorem Deleting.next (h : Deleting k chatId index alerts s) (hs : Sound s) (hloaded : Loaded s)
    (hleg : alertServing.legal s e) (hquiet : Undeleted chatId k s e) :
    Deleting k chatId index alerts (alertServing.next s e) := by
  -- Another command neither moves the delete nor removes what was shown.
  have hother {j : ℕ} (hcommand : (alertServing.next s e).commands k = s.commands k)
      (hsame : ∀ i answer, e = .advances i answer → i = j) (hne : j ≠ k) :
      Deleting k chatId index alerts (alertServing.next s e) := by
    have hkept (hshown : Shown chatId alerts s) : Shown chatId alerts (alertServing.next s e) := by
      refine hshown.next hs hloaded hleg fun i answer alert he hfound => ?_
      subst he
      exact hne ((hsame i answer rfl).symm.trans (hquiet alert hfound))
    cases h with
    | asked command shown => exact .asked (hcommand.trans command) (hkept shown)
    | listed command shown nodup covers rest =>
      exact .listed (hcommand.trans command) (hkept shown) nodup covers rest
    | found command right => exact .found (hcommand.trans command) right
    | answered command => exact .answered (hcommand.trans command)
  cases e with
  | arrives j command =>
    have hne : j ≠ k := by
      rintro rfl
      exact h.ne_idle hleg.1
    refine hother (j := j) (Function.update_of_ne hne.symm _ _) (fun i answer he => ?_) hne
    cases he
  | advances j answer =>
    rcases eq_or_ne j k with rfl | hne
    · exact (h.advances hs hloaded hleg).1
    · refine hother (j := j) (Function.update_of_ne hne.symm _ _) (fun i answer' he => ?_) hne
      exact (AlertEvent.advances.inj he).1.symm

/-- **How far a `listByChat` has come** whose chat had stored its alerts in order. -/
inductive Reading (j : ℕ) (chatId : String) (s : AlertServer) : Prop
  | listed {ids : List ℕ} (command : s.commands j = .listListed chatId ids) (nodup : ids.Nodup)
      (oldest : Oldest {id | id ∈ ids} chatId s)
  | answered {reply : AlertReply} (command : s.commands j = .answered reply)

theorem Reading.next (h : Reading j chatId s) (hleg : alertServing.legal s e) :
    Reading j chatId (alertServing.next s e) := by
  have hother (hcommand : (alertServing.next s e).commands j = s.commands j) :
      Reading j chatId (alertServing.next s e) := by
    cases h with
    | listed command nodup oldest =>
      exact .listed (hcommand.trans command) nodup (oldest.next hleg)
    | answered command => exact .answered (hcommand.trans command)
  cases e with
  | arrives i command =>
    refine hother (Function.update_of_ne ?_ _ _)
    rintro rfl
    cases h with
    | listed command => cases command.symm.trans hleg.1
    | answered command => cases command.symm.trans hleg.1
  | advances i answer =>
    rcases eq_or_ne j i with rfl | hne
    · have hcommand : (alertServing.next s (.advances j answer)).commands j =
          (advance s.redis answer (s.commands j)).2 := commands_after_self
      cases h with
      | listed command =>
        rw [command, advance] at hcommand
        exact .answered hcommand
      | answered command =>
        rw [command, advance] at hcommand
        exact .answered hcommand
    · exact hother (Function.update_of_ne hne _ _)

/-- The list is read in order. -/
theorem InOrder.reading (h : InOrder chatId s) (hs : Sound s) {answer : AlertAnswer}
    (hcommand : s.commands j = .listByChat chatId)
    (hleg : alertServing.legal s (.advances j answer)) :
    Reading j chatId (alertServing.next s (.advances j answer)) := by
  have hnext : (alertServing.next s (.advances j answer)).commands j =
      (advance s.redis answer (s.commands j)).2 := commands_after_self
  obtain ⟨hnodup, hids⟩ := hleg (s.redis.chatIds chatId) (by rw [hcommand]; rfl)
  rw [hcommand, advance] at hnext
  split_ifs at hnext
  · exact .answered hnext
  · refine .listed hnext hnodup ?_
    have hset : {id | id ∈ answer.ids} = {id | id ∈ s.redis.chatIds chatId} := by
      ext id
      rw [Set.mem_ofPred_eq, Set.mem_ofPred_eq, ← hids, List.mem_toFinset]
    rw [hset]
    exact (h.oldest hs).next hleg

/-- **What a list shows is right when it is shown.** -/
theorem Reading.shown (h : Reading j chatId s) (hs : Sound s) (hleg : alertServing.legal s e)
    (hout : (j, .listed chatId alerts) ∈ alertServing.out s e) :
    Shown chatId alerts (alertServing.next s e) := by
  obtain ⟨answer, rfl, hreply, hopen⟩ := mem_out_alertServing hout
  cases h with
  | answered command => exact absurd command (hopen _)
  | @listed ids command nodup oldest =>
    have hredis : (alertServing.next s (.advances j answer)).redis = s.redis := by
      change (advance s.redis answer (s.commands j)).1 = _
      rw [command, advance]
    rw [command, advance] at hreply
    obtain ⟨-, rfl⟩ := AlertReply.listed.inj (AlertCommand.answered.inj hreply)
    have howned {a : PriceAlert} (ha : a ∈ s.redis.alerts.listAll ids) : a.chatId = chatId := by
      obtain ⟨hid, hstored⟩ := mem_listAll.mp ha
      have htarget : (a.id, chatId) ∈ (s.commands j).targets := by
        rw [command]
        exact List.mem_map_of_mem hid
      exact (hs.targets j _ htarget).owner a.chatId (ownerOf_eq_some.mpr ⟨a, hstored, rfl⟩)
    have hsub {id : ℕ} (hid : id ∈ (s.redis.alerts.listAll ids).map PriceAlert.id) : id ∈ ids := by
      obtain ⟨a, ha, rfl⟩ := List.mem_map.mp hid
      exact (mem_listAll.mp ha).1
    refine ⟨pairwise_listAll _ nodup, Oldest.next ?_ hleg, fun a ha => howned ha, fun a ha => ?_⟩
    · refine ⟨fun id hid => oldest.issued id (hsub hid), fun id hid => ?_,
        fun i alert halert hchat id hid => oldest.pending i alert halert hchat id (hsub hid)⟩
      rcases oldest.stored id hid with hmem | hgreater
      · obtain ⟨b, hb, -⟩ := ownerOf_eq_some.mp ((hs.chats id chatId).mp hid)
        obtain rfl := s.redis.alerts.keyed id b hb
        exact .inl (List.mem_map_of_mem (mem_listAll.mpr ⟨hmem, hb⟩))
      · exact .inr fun id' hid' => hgreater id' (hsub hid')
    · rw [hredis]
      exact ⟨a, (mem_listAll.mp ha).2, rfl⟩

end Delete

/-! ### Any interleaving -/

theorem loaded_final {es : List AlertEvent} (hr : alertServing.Run newAlertServer es) :
    Loaded (alertServing.final newAlertServer es) := by
  have hkeeps : alertServing.Keeps fun s => Sound s ∧ Loaded s := by
    rintro s e ⟨hs, hloaded⟩ hleg
    exact ⟨keeps_sound s e hs hleg, hloaded.next hs hleg⟩
  exact (hr.invariant hkeeps ⟨sound_newAlertServer, loaded_newAlertServer⟩).2

/-- Who has not asked yet had not asked before. -/
theorem idle_of_next (hleg : alertServing.legal s e)
    (h : (alertServing.next s e).commands k = .idle) : s.commands k = .idle := by
  cases e with
  | arrives i command =>
    rcases eq_or_ne k i with rfl | hne
    · exact hleg.1
    · exact (Function.update_of_ne hne _ _).symm.trans h
  | advances i answer =>
    rcases eq_or_ne k i with rfl | hne
    · exact idle_of_advance ((Function.update_self _ _ _).symm.trans h)
    · exact (Function.update_of_ne hne _ _).symm.trans h

/-- A delete that is asked for while the list is right. -/
theorem Shown.deleted {alerts : List PriceAlert} (h : Shown chatId alerts s) (hs : Sound s)
    (hloaded : Loaded s) {during : List AlertEvent} {reply : AlertReply}
    (hr : (alertServing.restrict (Undeleted chatId k)).Run s
      (.arrives k (.deleteByIndex chatId index) :: during ++ [e]))
    (hreply : (k, reply) ∈ alertServing.out (alertServing.final s
      (.arrives k (.deleteByIndex chatId index) :: during)) e) :
    ∃ deleted, reply = deletedReply index deleted ∧ AsShown alerts index deleted := by
  rw [List.cons_append, System.run_cons, System.run_append] at hr
  obtain ⟨harrives, hduring, hlast, -⟩ := hr
  have hkeeps : (alertServing.restrict (Undeleted chatId k)).Keeps fun s =>
      Sound s ∧ Loaded s ∧ Deleting k chatId index alerts s := by
    rintro s e ⟨hs, hloaded, hdeleting⟩ ⟨hleg, hquiet⟩
    exact ⟨keeps_sound s e hs hleg, hloaded.next hs hleg, hdeleting.next hs hloaded hleg hquiet⟩
  have hstart : Deleting k chatId index alerts
      (alertServing.next s (.arrives k (.deleteByIndex chatId index))) := by
    refine .asked (Function.update_self _ _ _) (h.next hs hloaded harrives.1 ?_)
    intro i answer alert he
    cases he
  obtain ⟨hs', hloaded', hdeleting⟩ := hduring.invariant hkeeps
    ⟨keeps_sound s _ hs harrives.1, hloaded.next hs harrives.1, hstart⟩
  rw [System.final_restrict] at hlast hs' hloaded' hdeleting
  obtain ⟨answer, rfl, -, -⟩ := mem_out_alertServing hreply
  exact (hdeleting.advances hs' hloaded' hlast.1).2 reply hreply

/-- **What was shown is what is deleted**, whatever commands of all chats and checks run in
between: a `deleteByIndex` that is asked for after a list was shown deletes the alert which the
list showed at its number, on the same terms, or, past the end of the list, something newer. This
holds if nobody else removed an alert of the chat since, and if no `create` of the chat had been
overtaken when the list was read; none ever is if the creates of the chat do not overlap past the
check. -/
theorem deleted_as_shown (chatId : String) {es : List AlertEvent}
    (hr : alertServing.Run newAlertServer es) :
    let s := alertServing.final newAlertServer es
    ((∀ pre, pre <+: es → (counted chatId (alertServing.final newAlertServer pre)).Subsingleton) →
      InOrder chatId s) ∧
    ∀ j answer mid shown alerts between k index during deletes reply,
      s.commands j = .listByChat chatId → InOrder chatId s →
      alertServing.Run s (.advances j answer :: mid) →
      (j, .listed chatId alerts) ∈
        alertServing.out (alertServing.final s (.advances j answer :: mid)) shown →
      (alertServing.restrict (Undeleted chatId k)).Run
        (alertServing.final s (.advances j answer :: mid))
        (shown :: between ++ (.arrives k (.deleteByIndex chatId index) :: during ++ [deletes])) →
      (k, reply) ∈ alertServing.out (alertServing.final s (.advances j answer :: mid ++
        (shown :: between ++ (.arrives k (.deleteByIndex chatId index) :: during)))) deletes →
      ∃ deleted, reply = deletedReply index deleted ∧ AsShown alerts index deleted := by
  intro s
  have hs : Sound s := sound_final hr
  have hloaded : Loaded s := loaded_final hr
  refine ⟨inOrder_final chatId hr, ?_⟩
  intro j answer mid shown alerts between k index during deletes reply hasked horder hread hlisted
    hrest hreply
  -- Up to the moment it is shown, the list is read in order.
  have hkeeps : alertServing.Keeps fun s => Sound s ∧ Loaded s ∧ Reading j chatId s := by
    rintro s e ⟨hs, hloaded, hreading⟩ hleg
    exact ⟨keeps_sound s e hs hleg, hloaded.next hs hleg, hreading.next hleg⟩
  obtain ⟨hs', hloaded', hreading⟩ := hread.2.invariant hkeeps
    ⟨keeps_sound s _ hs hread.1, hloaded.next hs hread.1, horder.reading hs hasked hread.1⟩
  rw [← System.final_cons] at hs' hloaded' hreading
  rw [System.final_append] at hreply
  generalize alertServing.final s (.advances j answer :: mid) = t at *
  rw [System.run_append] at hrest
  obtain ⟨⟨hshown, hbetween⟩, hdelete⟩ := hrest
  rw [System.final_restrict] at hdelete
  rw [System.final_append] at hreply
  -- From then on, nobody removes what it showed.
  have hkeeps : (alertServing.restrict (Undeleted chatId k)).Keeps fun s =>
      Sound s ∧ Loaded s ∧ (s.commands k = .idle → Shown chatId alerts s) := by
    rintro s e ⟨hs, hloaded, hshown⟩ ⟨hleg, hquiet⟩
    refine ⟨keeps_sound s e hs hleg, hloaded.next hs hleg, fun hidle => ?_⟩
    have hbefore := idle_of_next hleg hidle
    refine (hshown hbefore).next hs hloaded hleg fun i answer alert he hfound => ?_
    subst he
    rw [hquiet alert hfound, hbefore] at hfound
    cases hfound
  obtain ⟨hs', hloaded', hkept⟩ := hbetween.invariant hkeeps ⟨keeps_sound _ _ hs' hshown.1,
    hloaded'.next hs' hshown.1, fun _ => hreading.shown hs' hshown.1 hlisted⟩
  rw [System.final_restrict, ← System.final_cons] at hs' hloaded' hkept
  exact (hkept hdelete.1.1.1).deleted hs' hloaded' hdelete hreply

/-! ### A list that is no longer complete -/

/-- The command an event is about. -/
def AlertEvent.command : AlertEvent → ℕ
  | .arrives i _ => i
  | .advances i _ => i

theorem commands_final_of_forall_ne {es : List AlertEvent} (h : ∀ e ∈ es, e.command ≠ i) :
    (alertServing.final s es).commands i = s.commands i := by
  induction es generalizing s with
  | nil => rfl
  | cons e es ih =>
    rw [System.final_cons, ih fun e' he => h e' (List.mem_cons_of_mem _ he)]
    have hne := (h e List.mem_cons_self).symm
    cases e with
    | arrives => exact Function.update_of_ne hne _ _
    | advances => exact Function.update_of_ne hne _ _

instance (chatId : String) (k : ℕ) (s : AlertServer) : ∀ e, Decidable (Undeleted chatId k s e)
  | .arrives .. => .isTrue trivial
  | .advances j _ =>
    match h : s.commands j with
    | .deleteFound chatId' alert =>
      decidable_of_iff (chatId' = chatId → j = k) (by simp [Undeleted, h])
    | .idle | .create _ | .createCounted .. | .createIssued .. | .deleteByIndex ..
    | .deleteListed .. | .listByChat _ | .listListed .. | .runCheck | .checkListed _
    | .checking _ | .answered _ => .isTrue (by simp [Undeleted, h])

/-- Two alerts of chat "a", which asks for its list. -/
def askedForList : List AlertEvent :=
  createAlone 0 ++ createAlone 1 ++ [.arrives 2 (.listByChat "a")]

/-- After the list is shown, a third alert is stored and a check writes the first one. -/
def createAndCheck : List AlertEvent :=
  createAlone 3 ++ [.arrives 4 .runCheck, .advances 4 { ids := [3, 1, 2] }, .advances 4 {},
    .advances 4 { priceUsd := some 200 }]

/-- Number 2 of a list of two, while there are three. -/
theorem deleted_as_shown_askedForList :
    let alerts := [newAlert 1 ⟨"a", "btc", .above, 100⟩ 0, newAlert 2 ⟨"a", "btc", .above, 100⟩ 0]
    ∃ deleted, AlertReply.deleted (newAlert 2 ⟨"a", "btc", .above, 100⟩ 0) =
      deletedReply 2 deleted ∧ AsShown alerts 2 deleted := by
  intro alerts
  have hr : alertServing.Run newAlertServer askedForList := by decide +kernel
  have horder : InOrder "a" (alertServing.final newAlertServer askedForList) := by
    intro i alert halert
    have hasked : ∀ i < 3,
        ((alertServing.final newAlertServer askedForList).commands i).pending = none := by
      decide +kernel
    have hnone : ((alertServing.final newAlertServer askedForList).commands i).pending = none := by
      by_cases hi : i < 3
      · exact hasked i hi
      · have hne : ∀ e ∈ askedForList, e.command < 3 := by decide
        rw [commands_final_of_forall_ne fun e he => ((hne e he).trans_le (not_lt.mp hi)).ne]
        rfl
    rw [hnone] at halert
    cases halert
  exact (deleted_as_shown "a" hr).2 2 { ids := [2, 1] } [] (.advances 2 {}) alerts createAndCheck
    5 2 [.advances 5 { ids := [3, 2, 1] }, .advances 5 {}] (.advances 5 {}) _ (by decide +kernel)
    horder (by decide +kernel) (by decide +kernel) (by decide +kernel) (by decide +kernel)

end PriceAlerts

end CryptoZaloBot
