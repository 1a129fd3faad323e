import Mathlib.Data.Set.Card
import CryptoZaloBot.PriceAlerts.Ids

/-!
# The cap on the alerts of a chat

`create` counts the alerts of its chat first and stores a new one three calls later. Creates
of one chat that overlap can all pass the check, and the chat then has more than
`CryptoZaloBot.PriceAlerts.maxAlertsPerChat` alerts. How many more is bounded by how many of
them were ever past the check at the same time
(`CryptoZaloBot.PriceAlerts.card_alerts_le`): a chat whose creates do not overlap never has
more than ten.
-/

namespace CryptoZaloBot

namespace PriceAlerts

/-- A `create` of the chat that has passed the check, and is not answered yet. -/
def AlertCommand.Counted (chatId : String) : AlertCommand → Prop
  | createCounted request _ => request.chatId = chatId
  | createIssued alert _ _ => alert.chatId = chatId
  | _ => False

/-- **The creates of a chat that are past the check.** -/
def counted (chatId : String) (s : AlertServer) : Set ℕ := {i | (s.commands i).Counted chatId}

/-- What a chat has and what is on its way. -/
noncomputable def expected (chatId : String) (s : AlertServer) : ℕ∞ :=
  (s.redis.chatIds chatId).card + (counted chatId s).encard

variable {chatId : String} {s : AlertServer} {i : ℕ} {r : AlertRedis} {command : AlertCommand}

theorem counted_after :
    counted chatId (s.after i r command) =
      {j | j = i ∧ command.Counted chatId} ∪ (counted chatId s \ {i}) := by
  ext j
  simp only [counted, Set.mem_ofPred_eq, Set.mem_union, Set.mem_sdiff, Set.mem_singleton_iff]
  rcases eq_or_ne j i with rfl | hne
  · rw [commands_after_self]
    tauto
  · rw [commands_after_of_ne hne]
    tauto

/-- A call that does not pass the check adds nobody. -/
theorem counted_after_subset (h : command.Counted chatId → (s.commands i).Counted chatId) :
    counted chatId (s.after i r command) ⊆ counted chatId s := by
  rw [counted_after]
  rintro j (⟨rfl, hj⟩ | ⟨hj, -⟩)
  · exact h hj
  · exact hj

/-- A `create` that is answered is past the check no more. -/
theorem encard_counted_after (h : (s.commands i).Counted chatId)
    (hanswered : ¬command.Counted chatId) :
    (counted chatId (s.after i r command)).encard + 1 = (counted chatId s).encard := by
  have hleft : counted chatId (s.after i r command) = counted chatId s \ {i} := by
    rw [counted_after]
    simp [hanswered]
  rw [hleft]
  exact Set.encard_sdiff_singleton_add_one h

/-- A call that neither stores an alert of the chat nor passes the check. -/
theorem expected_after_le (hids : r.chatIds chatId ⊆ s.redis.chatIds chatId)
    (h : command.Counted chatId → (s.commands i).Counted chatId) :
    expected chatId (s.after i r command) ≤ expected chatId s :=
  add_le_add (Nat.cast_le.mpr (Finset.card_le_card hids)) (Set.encard_mono (counted_after_subset h))

/-- A `create` that stores its alert takes the room it had reserved. -/
theorem expected_insert_le {alert : PriceAlert} {n : ℕ} {priceUsd : ℚ} {reply : AlertReply}
    (hissued : s.commands i = .createIssued alert n priceUsd) :
    expected chatId (s.after i (s.redis.insert alert) (.answered reply)) ≤ expected chatId s := by
  rcases eq_or_ne chatId alert.chatId with rfl | hne
  · have hcounted : (s.commands i).Counted alert.chatId := by
      rw [hissued]
      rfl
    have hcard : ((s.redis.insert alert).chatIds alert.chatId).card ≤
        (s.redis.chatIds alert.chatId).card + 1 := by
      change (Function.update s.redis.chatIds alert.chatId _ alert.chatId).card ≤ _
      rw [Function.update_self]
      exact Finset.card_insert_le _ _
    have hleft : (counted alert.chatId (s.after i (s.redis.insert alert)
        (.answered reply))).encard + 1 = (counted alert.chatId s).encard :=
      encard_counted_after hcounted not_false
    calc expected alert.chatId (s.after i (s.redis.insert alert) (.answered reply))
        ≤ ((s.redis.chatIds alert.chatId).card + 1 : ℕ) + (counted alert.chatId
            (s.after i (s.redis.insert alert) (.answered reply))).encard := by
          exact add_le_add_left (Nat.cast_le.mpr hcard) _
      _ = expected alert.chatId s := by
          rw [expected, ← hleft]
          push_cast
          rw [add_assoc, add_comm 1]
  · refine expected_after_le ?_ False.elim
    change Function.update s.redis.chatIds alert.chatId _ chatId ⊆ _
    rw [Function.update_of_ne hne]

/-- **What one call does to a chat**: it passes the check, with room for one more, or what the
chat has and what is on its way does not grow. -/
theorem expected_step (answer : AlertAnswer) :
    (s.redis.chatIds chatId).card < maxAlertsPerChat ∧
        (advance s.redis answer (s.commands i)).1 = s.redis ∨
      expected chatId (s.after i (advance s.redis answer (s.commands i)).1
        (advance s.redis answer (s.commands i)).2) ≤ expected chatId s := by
  cases hcommand : s.commands i with
  | create request =>
    rw [advance]
    by_cases hfull : maxAlertsPerChat ≤ (s.redis.chatIds request.chatId).card
    · rw [if_pos hfull]
      exact .inr (expected_after_le subset_rfl False.elim)
    · rcases eq_or_ne request.chatId chatId with rfl | hne
      · exact .inl ⟨not_le.mp hfull, rfl⟩
      · rw [if_neg hfull]
        exact .inr (expected_after_le subset_rfl fun h => (hne h).elim)
  | createCounted request n =>
    right
    rw [advance]
    have hkept {command : AlertCommand} (h : command.Counted chatId → request.chatId = chatId) :
        command.Counted chatId → (s.commands i).Counted chatId := by
      rw [hcommand]
      exact h
    cases answer.priceUsd with
    | none => exact expected_after_le subset_rfl (hkept False.elim)
    | some priceUsd =>
      dsimp only
      split_ifs
      · exact expected_after_le subset_rfl (hkept False.elim)
      · exact expected_after_le subset_rfl (hkept id)
  | createIssued alert n priceUsd => exact .inr (expected_insert_le hcommand)
  | deleteFound chatId' alert =>
    refine .inr (expected_after_le ?_ False.elim)
    change Function.update s.redis.chatIds chatId' _ chatId ⊆ _
    rcases eq_or_ne chatId chatId' with rfl | hne
    · rw [Function.update_self]
      exact Finset.erase_subset _ _
    · rw [Function.update_of_ne hne]
  | checking alerts =>
    right
    cases alerts with
    | nil => exact expected_after_le subset_rfl False.elim
    | cons alert alerts =>
      rw [advance]
      cases checkWrite alert answer with
      | none => exact expected_after_le subset_rfl False.elim
      | some a => exact expected_after_le subset_rfl False.elim
  | deleteByIndex | runCheck | listByChat =>
    right
    rw [advance]
    split_ifs <;> exact expected_after_le subset_rfl False.elim
  | deleteListed chatId' index ids =>
    right
    rw [advance]
    cases alertAt (s.redis.alerts.listAll ids) index with
    | none => exact expected_after_le subset_rfl False.elim
    | some alert => exact expected_after_le subset_rfl False.elim
  | idle | listListed | checkListed | answered =>
    exact .inr (expected_after_le subset_rfl False.elim)

theorem expected_next (chatId : String) {e : AlertEvent} (hleg : alertServing.legal s e) :
    (s.redis.chatIds chatId).card < maxAlertsPerChat ∧ (alertServing.next s e).redis = s.redis ∨
      expected chatId (alertServing.next s e) ≤ expected chatId s := by
  cases e with
  | arrives i command =>
    refine .inr (expected_after_le subset_rfl fun h => ?_)
    -- A command starts before the check.
    have hstarts : command.starts := hleg.2
    cases command with
    | createCounted => exact hstarts.elim
    | createIssued => exact hstarts.elim
    | _ => exact h.elim
  | advances i answer => exact expected_step answer

theorem exists_expected_le (chatId : String) {es : List AlertEvent}
    (hr : alertServing.Run newAlertServer es) :
    ∃ pre, pre <+: es ∧ expected chatId (alertServing.final newAlertServer es) ≤
      (maxAlertsPerChat - 1 : ℕ) +
        (counted chatId (alertServing.final newAlertServer pre)).encard := by
  refine System.Run.induction_concat (P := fun es => ∃ pre, pre <+: es ∧
    expected chatId (alertServing.final newAlertServer es) ≤ (maxAlertsPerChat - 1 : ℕ) +
      (counted chatId (alertServing.final newAlertServer pre)).encard) ?_ ?_ hr
  · exact ⟨[], List.prefix_rfl, by simp [expected, newAlertServer]⟩
  · rintro es e hes hleg ⟨pre, hpre, hle⟩
    rcases expected_next chatId hleg with ⟨hroom, hkept⟩ | hless
    -- The check is passed here: what the chat has is at most nine.
    · refine ⟨es ++ [e], List.prefix_rfl, ?_⟩
      rw [System.final_concat, expected, hkept]
      exact add_le_add_left (Nat.cast_le.mpr (Nat.le_sub_one_of_lt hroom)) _
    · refine ⟨pre, hpre.trans (List.prefix_append es [e]), ?_⟩
      rw [System.final_concat]
      exact hless.trans hle

/-- **The cap on the alerts of a chat**: it never has more than nine and the most creates that
were past the check together. In particular it never has more than ten if its creates never
overlap there. -/
theorem card_alerts_le (chatId : String) {es : List AlertEvent}
    (hr : alertServing.Run newAlertServer es) :
    (∃ pre, pre <+: es ∧
      ((alertServing.final newAlertServer es).redis.chatIds chatId).card ≤
        (maxAlertsPerChat - 1 : ℕ) +
          (counted chatId (alertServing.final newAlertServer pre)).encard) ∧
    ((∀ pre, pre <+: es →
        (counted chatId (alertServing.final newAlertServer pre)).Subsingleton) →
      ((alertServing.final newAlertServer es).redis.chatIds chatId).card ≤ maxAlertsPerChat) := by
  obtain ⟨pre, hpre, hle⟩ := exists_expected_le chatId hr
  have hcard := (le_self_add (a := (((alertServing.final newAlertServer es).redis.chatIds
    chatId).card : ℕ∞))).trans hle
  refine ⟨⟨pre, hpre, hcard⟩, fun halone => ?_⟩
  have hone := Set.encard_le_one_iff_subsingleton.mpr (halone pre hpre)
  have hten := hcard.trans (add_le_add_right hone _)
  exact_mod_cast hten

/-- A `create` nothing comes in between of. -/
def createAlone (i : ℕ) : List AlertEvent :=
  [.arrives i (.create ⟨"a", "btc", .above, 100⟩), .advances i {},
    .advances i { priceUsd := some 50 }, .advances i {}]

/-- Two creates of the same chat, step by step together. -/
def createTogether (i j : ℕ) : List AlertEvent :=
  [.arrives i (.create ⟨"a", "btc", .above, 100⟩), .arrives j (.create ⟨"a", "eth", .above, 100⟩),
    .advances i {}, .advances j {}, .advances i { priceUsd := some 50 },
    .advances j { priceUsd := some 50 }, .advances i {}, .advances j {}]

/-- The eleventh alert: two creates pass the check while the chat has nine. -/
theorem card_alerts_le_eleven :
    ∃ pre, pre <+: (List.range 9).flatMap createAlone ++ createTogether 9 10 ∧
      (11 : ℕ∞) ≤ (maxAlertsPerChat - 1 : ℕ) +
        (counted "a" (alertServing.final newAlertServer pre)).encard := by
  have hr : alertServing.Run newAlertServer
      ((List.range 9).flatMap createAlone ++ createTogether 9 10) := by
    decide +kernel
  have hcard : ((alertServing.final newAlertServer ((List.range 9).flatMap createAlone ++
      createTogether 9 10)).redis.chatIds "a").card = 11 := by
    decide +kernel
  obtain ⟨pre, hpre, hle⟩ := (card_alerts_le "a" hr).1
  rw [hcard] at hle
  exact ⟨pre, hpre, hle⟩

end PriceAlerts

end CryptoZaloBot
