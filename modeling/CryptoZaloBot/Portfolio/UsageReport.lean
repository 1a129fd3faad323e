import CryptoZaloBot.Base.Collect
import CryptoZaloBot.Base.IsoTime
import CryptoZaloBot.Portfolio.Outcomes
import CryptoZaloBot.Portfolio.Views

/-!
# The report on the use of the portfolio

`npm run portfolio:report` asks whether anybody but the owner came back: it reads the rows of
`portfolio_usage` (in whatever order the database lists them), summarizes them by chat
(`CryptoZaloBot.Portfolio.summarizeUsage`) and names the chats that recorded a trade and used
their portfolio on another day (`CryptoZaloBot.Portfolio.successMetric`).

The rows are counters. What they count is said by the calls and their answers: a call that
recorded a new trade, and a call that was shown its trades, each on the Vietnamese day of its
transaction (`CryptoZaloBot.Portfolio.Answered.uses`). A refused trade, a redelivered message and
a failed call count nothing, and deleting or clearing the trades takes nothing back. So the
report says what the chats did (`CryptoZaloBot.Portfolio.usage_report`).
-/

namespace CryptoZaloBot

namespace Portfolio

/-! ### The report -/

/-- **`dayOf`**: the text of a `DATE`, which is its midnight. -/
def dayOf (day : ℤ) : List Char := IsoTime.dayText (day * IsoTime.dayMs)

/-- A day whose year has four digits. -/
def DayInRange (day : ℤ) : Prop := IsoTime.InRange (day * IsoTime.dayMs)

/-- **`localeCompare`**: an order of texts in which dates come in their order. -/
structure Collation where
  localeCompare : String → String → ℤ
  swap : ∀ a b, localeCompare a b < 0 ↔ 0 < localeCompare b a
  trans : ∀ a b c, localeCompare a b ≤ 0 → localeCompare b c ≤ 0 → localeCompare a c ≤ 0
  dates : ∀ day day', DayInRange day → DayInRange day' → day < day' →
    localeCompare (String.ofList (dayOf day)) (String.ofList (dayOf day')) < 0

/-- What the loop of `summarizeUsage` keeps of a chat. -/
structure ChatDays where
  days : List (List Char)
  views : ℕ
  writes : ℕ

/-- One turn of the loop. -/
def addUsage (chat : Option ChatDays) (row : UsageRow) : ChatDays :=
  let chat := chat.getD ⟨[], 0, 0⟩
  { days := if dayOf row.day ∈ chat.days then chat.days else chat.days ++ [dayOf row.day]
    views := chat.views + row.views
    writes := chat.writes + row.writes }

/-- A chat of the report. -/
structure ChatUsage where
  chatId : String
  firstDay : List Char
  activeDays : ℕ
  views : ℕ
  writes : ℕ
  usedAfterFirstDay : Bool
  deriving DecidableEq

/-- A sorted array of texts. -/
def sortTexts (texts : List (List Char)) : List (List Char) := texts.insertionSort fun a b => ¬b < a

def ChatDays.toUsage (chatId : String) (chat : ChatDays) : ChatUsage :=
  let days := sortTexts chat.days
  { chatId := chatId
    firstDay := days.headD []
    activeDays := days.length
    views := chat.views
    writes := chat.writes
    usedAfterFirstDay := 1 < days.length }

/-- By the first day, and then by the id. -/
def Collation.compareChats (locale : Collation) (a b : ChatUsage) : ℤ :=
  let byDay := locale.localeCompare (String.ofList a.firstDay) (String.ofList b.firstDay)
  if byDay ≠ 0 then byDay else locale.localeCompare a.chatId b.chatId

/-- **`summarizeUsage`**: one entry per chat. -/
def summarizeUsage (locale : Collation) (rows : List UsageRow) : List ChatUsage :=
  ((Collect.collect (·.chatId) addUsage InsertionMap.empty rows).entries.map fun e =>
    e.2.toUsage e.1).insertionSort fun a b => locale.compareChats a b ≤ 0

structure SuccessMetric where
  qualifying : List String
  met : Bool
  deriving DecidableEq

/-- **`successMetric`**: the chats other than the owner that recorded a portfolio and used it
again. -/
def successMetric (chats : List ChatUsage) (ownerChatId : Option String) : SuccessMetric :=
  let qualifying := chats.filter fun chat =>
    some chat.chatId ≠ ownerChatId && 0 < chat.writes && chat.usedAfterFirstDay
  { qualifying := qualifying.map (·.chatId)
    met := 1 ≤ qualifying.length }

/-! ### What is counted -/

/-- A call that changes the trades, or one that shows them. -/
inductive UsageCall where
  | change (call : Call)
  | view (context : Context)

/-- A call and what it answered. -/
inductive Answered where
  | changed (call : Call) (reply : Except PortfolioError Reply)
  | viewed (context : Context) (trades : Except SqlError (List PortfolioTrade))

def Answered.context : Answered → Context
  | .changed call _ => call.toContext
  | .viewed context _ => context

def UsageCall.context : UsageCall → Context
  | .change call => call.toContext
  | .view context => context

/-- **The service**, with the calls that show trades. -/
def countedCalls : System Database UsageCall Answered where
  legal _ _ := True
  next
    | db, .change call => (db.run call).1
    | db, .view context => (db.listTrades context).2
  out
    | db, .change call => [.changed call (db.run call).2]
    | db, .view context => [.viewed context (db.listTrades context).1]

inductive UseKind where
  | view
  | write
  deriving DecidableEq

/-- **A use of the portfolio.** -/
structure Use where
  chatId : String
  day : ℤ
  kind : UseKind
  deriving DecidableEq

/-- What a call comes to: a trade that was recorded by it, or trades that were shown. -/
def Answered.uses : Answered → List Use
  | .changed call (.ok (.recorded result)) =>
    if result.duplicate then [] else [⟨call.chatId, call.day, .write⟩]
  | .changed _ _ => []
  | .viewed context (.ok _) => [⟨context.chatId, context.day, .view⟩]
  | .viewed _ (.error _) => []

/-- **What the chats did** in a run from the empty database. -/
def usesOf (calls : List UsageCall) : List Use :=
  (countedCalls.outputs {} calls).flatMap Answered.uses

/-- The days on which a chat used its portfolio. -/
def daysOf (uses : List Use) (chatId : String) : Set ℤ :=
  {day | ∃ use ∈ uses, use.chatId = chatId ∧ use.day = day}

/-- The chat recorded a trade, and used its portfolio on more than one day. -/
def CameBack (uses : List Use) (chatId : String) : Prop :=
  (∃ use ∈ uses, use.chatId = chatId ∧ use.kind = .write) ∧ (daysOf uses chatId).Nontrivial

/-- **An entry says what the chat did.** -/
structure Summarizes (uses : List Use) (chat : ChatUsage) : Prop where
  firstDay : ∃ day, IsLeast (daysOf uses chat.chatId) day ∧ chat.firstDay = dayOf day
  activeDays : chat.activeDays = (daysOf uses chat.chatId).ncard
  views : chat.views = uses.countP fun use => use.chatId = chat.chatId ∧ use.kind = .view
  writes : chat.writes = uses.countP fun use => use.chatId = chat.chatId ∧ use.kind = .write
  usedAfterFirstDay : chat.usedAfterFirstDay = true ↔ (daysOf uses chat.chatId).Nontrivial

/-! ### The counters -/

section Counters

variable {use : Use} {uses : List Use} {usage rows : List UsageRow} {chatId : String}

/-- The counters of a day on which this is the only use. -/
def Use.row (use : Use) : UsageRow where
  chatId := use.chatId
  day := use.day
  views := if use.kind = .view then 1 else 0
  writes := if use.kind = .write then 1 else 0

/-- A use added to the counters of its day. -/
def Use.addTo (use : Use) (u : UsageRow) : UsageRow :=
  { u with views := u.views + use.row.views, writes := u.writes + use.row.writes }

/-- Counting a use: in the row of its chat and day, or in a new one. -/
def countUse (usage : List UsageRow) (use : Use) : List UsageRow :=
  match usage with
  | [] => [use.row]
  | u :: us =>
    if u.chatId = use.chatId ∧ u.day = use.day then use.addTo u :: us else u :: countUse us use

theorem countView_eq (chatId : String) (day : ℤ) (usage : List UsageRow) :
    countView chatId day usage = countUse usage ⟨chatId, day, .view⟩ := by
  induction usage with
  | nil => rfl
  | cons u us ih =>
    rw [countView, countUse, ih]
    rfl

theorem countWrite_eq (chatId : String) (day : ℤ) (usage : List UsageRow) :
    countWrite chatId day usage = countUse usage ⟨chatId, day, .write⟩ := by
  induction usage with
  | nil => rfl
  | cons u us ih =>
    rw [countWrite, countUse, ih]
    rfl

/-- A counter of a chat that a use adds to. -/
theorem sum_countUse (counter : UsageRow → ℕ)
    (hadd : ∀ u, counter (use.addTo u) = counter u + counter use.row) :
    (((countUse usage use).filter (·.chatId = chatId)).map counter).sum =
      ((usage.filter (·.chatId = chatId)).map counter).sum +
        if use.chatId = chatId then counter use.row else 0 := by
  induction usage with
  | nil =>
    by_cases hc : use.chatId = chatId <;> simp [countUse, Use.row, hc]
  | cons u us ih =>
    rw [countUse]
    split_ifs with hu hc hc
    · have hmine : u.chatId = chatId := hu.1.trans hc
      have hkept : (use.addTo u).chatId = chatId := hmine
      simp only [hmine, hkept, decide_true, List.filter_cons_of_pos, List.map_cons, List.sum_cons,
        hadd]
      omega
    · have hother : u.chatId ≠ chatId := fun h => hc (hu.1.symm.trans h)
      have hkept : (use.addTo u).chatId ≠ chatId := hother
      simp [hother, hkept]
    · rw [if_pos hc] at ih
      by_cases hmine : u.chatId = chatId
      · simp only [hmine, decide_true, List.filter_cons_of_pos, List.map_cons, List.sum_cons, ih]
        omega
      · simpa [hmine] using ih
    · rw [if_neg hc] at ih
      by_cases hmine : u.chatId = chatId <;> simp [hmine, ih]

/-- The days of a chat after a use. -/
theorem mem_days_countUse {day : ℤ} :
    (∃ u ∈ countUse usage use, u.chatId = chatId ∧ u.day = day) ↔
      (∃ u ∈ usage, u.chatId = chatId ∧ u.day = day) ∨ use.chatId = chatId ∧ use.day = day := by
  induction usage with
  | nil => simp [countUse, Use.row]
  | cons u us ih =>
    rw [countUse]
    split_ifs with hu
    · simp only [List.exists_mem_cons_iff, Use.addTo, hu.1, hu.2]
      exact (or_iff_left_of_imp Or.inl).symm
    · simp only [List.exists_mem_cons_iff, ih, or_assoc]

/-- **The rows count the uses.** -/
theorem sum_counters (uses : List Use) (counter : UsageRow → ℕ) (kind : UseKind)
    (hadd : ∀ (use : Use) u, counter (use.addTo u) = counter u + counter use.row)
    (hrow : ∀ use : Use, counter use.row = if use.kind = kind then 1 else 0) :
    (((uses.foldl countUse []).filter (·.chatId = chatId)).map counter).sum =
      uses.countP fun use => use.chatId = chatId ∧ use.kind = kind := by
  induction uses using List.reverseRecOn with
  | nil => rfl
  | append_singleton uses use ih =>
    rw [List.foldl_append, List.foldl_cons, List.foldl_nil, sum_countUse counter (hadd use), ih,
      List.countP_append, List.countP_singleton, hrow]
    by_cases hc : use.chatId = chatId <;> by_cases hk : use.kind = kind <;> simp [hc, hk]

/-- **The rows have the days of the uses.** -/
theorem mem_days {day : ℤ} :
    (∃ u ∈ uses.foldl countUse [], u.chatId = chatId ∧ u.day = day) ↔
      ∃ use ∈ uses, use.chatId = chatId ∧ use.day = day := by
  induction uses using List.reverseRecOn with
  | nil => simp
  | append_singleton uses use ih =>
    rw [List.foldl_append, List.foldl_cons, List.foldl_nil, mem_days_countUse, ih]
    simp only [List.mem_append, List.mem_singleton, or_and_right, exists_or, exists_eq_left]

end Counters

/-! ### A run -/

theorem usage_applyWrites_deletes (db : Database) (chatId : String) (targets : List TradeRow) :
    (db.applyWrites (targets.map fun t => .deleteTrade chatId t.seq)).usage = db.usage := by
  induction targets generalizing db with
  | nil => rfl
  | cons target targets ih => exact ih (db.applyWrite (.deleteTrade chatId target.seq))

theorem uses_finishDelete (call : Call) (index : ℕ) (deleted rows : List TradeRow) :
    (Answered.changed call (finishDelete index deleted rows)).uses = [] := by
  cases deleted with
  | cons row deleted => rfl
  | nil =>
    simp only [finishDelete]
    cases (rows.map toTrade).find? (·.seq = index) <;> rfl

/-- **A call counts what it comes to.** -/
theorem usage_next (db : Database) (call : UsageCall) :
    (countedCalls.next db call).usage =
      ((countedCalls.out db call).flatMap Answered.uses).foldl countUse db.usage := by
  cases call with
  | view context =>
    by_cases hfits : ViewFits context (db.usageOf context.chatId)
    · simp only [countedCalls, Database.listTrades, if_pos hfits, Answered.uses, countView_eq,
        List.flatMap_cons, List.flatMap_nil, List.append_nil, List.foldl_cons, List.foldl_nil]
    · simp only [countedCalls, Database.listTrades, if_neg hfits, Answered.uses,
        List.flatMap_cons, List.flatMap_nil, List.append_nil, List.foldl_nil]
  | change call =>
    obtain ⟨context, command⟩ := call
    show (db.run ⟨context, command⟩).1.usage =
      ([Answered.changed ⟨context, command⟩ (db.run ⟨context, command⟩).2].flatMap
        Answered.uses).foldl countUse db.usage
    rw [List.flatMap_singleton]
    cases command with
    | recordTrade args =>
      by_cases h : havingClause (db.tradesOf context.chatId) args.newTrade
      · by_cases hok : (newColumns context (db.tradesOf context.chatId) args.newTrade).Checks ∧
          Fresh (db.tradesOf context.chatId)
            (newColumns context (db.tradesOf context.chatId) args.newTrade) ∧
          CountFits (db.usageOf context.chatId) context.day
        · obtain ⟨hc, hfresh, hcount⟩ := hok
          rw [run_recordTrade_recorded ⟨_, hc⟩ h rfl hfresh hcount]
          exact countWrite_eq context.chatId context.day db.usage
        · rw [run_recordTrade_rejected h hok]
          rfl
      · rw [run_recordTrade_refused h]
        cases (alreadyRecorded (db.tradesOf context.chatId) args.newTrade.messageId).map
          (·.seq) with
        | nil => rfl
        | cons seq seqs => rfl
    | deleteTrade index =>
      rw [run_deleteTrade]
      refine (usage_applyWrites_deletes db context.chatId _).trans ?_
      rw [uses_finishDelete]
      rfl
    | clearTrades =>
      rw [run_clearTrades]
      exact usage_applyWrites_deletes db context.chatId _

/-- **The rows of a run count its uses.** -/
theorem usage_final (db : Database) (calls : List UsageCall) :
    (countedCalls.final db calls).usage =
      ((countedCalls.outputs db calls).flatMap Answered.uses).foldl countUse db.usage := by
  induction calls generalizing db with
  | nil => rfl
  | cons call calls ih =>
    rw [System.final_cons, System.outputs_cons, ih, usage_next, List.flatMap_append,
      List.foldl_append]

/-- A use is of the chat and the day of its call. -/
theorem context_of_mem_uses {answered : Answered} {use : Use} (h : use ∈ answered.uses) :
    answered.context.chatId = use.chatId ∧ answered.context.day = use.day := by
  unfold Answered.uses at h
  split at h
  · split_ifs at h
    · cases h
    · rw [List.mem_singleton.mp h]
      exact ⟨rfl, rfl⟩
  · cases h
  · rw [List.mem_singleton.mp h]
    exact ⟨rfl, rfl⟩
  · cases h

theorem exists_call_of_mem {calls : List UsageCall} {use : Use} (h : use ∈ usesOf calls) :
    ∃ call ∈ calls, call.context.day = use.day := by
  obtain ⟨answered, hanswered, huse⟩ := List.mem_flatMap.mp h
  obtain ⟨before, call, after, rfl, hout⟩ := countedCalls.exists_of_mem_outputs hanswered
  refine ⟨call, List.mem_append_right _ List.mem_cons_self, ?_⟩
  have hcontext : answered.context = call.context := by
    cases call <;> rw [List.mem_singleton.mp hout] <;> rfl
  exact hcontext ▸ (context_of_mem_uses huse).2

/-! ### The summary -/

section Summary

variable {rows : List UsageRow} {chatId : String} {days : Set ℤ}

theorem dayOf_lt_iff {day day' : ℤ} (h : DayInRange day)
    (h' : DayInRange day') : dayOf day < dayOf day' ↔ day < day' := by
  have hpos : IsoTime.dayMs ≠ 0 := by decide
  rw [dayOf, dayOf, IsoTime.dayText_lt_iff h h', Int.mul_ediv_cancel _ hpos,
    Int.mul_ediv_cancel _ hpos]

theorem dayOf_inj {day day' : ℤ} (h : DayInRange day)
    (h' : DayInRange day') : dayOf day = dayOf day' ↔ day = day' := by
  have hpos : IsoTime.dayMs ≠ 0 := by decide
  rw [dayOf, dayOf, IsoTime.dayText_inj h h', Int.mul_ediv_cancel _ hpos,
    Int.mul_ediv_cancel _ hpos]

/-- **What the loop keeps of a chat with rows.** -/
theorem addAll_addUsage (hne : rows ≠ []) :
    Collect.addAll addUsage none rows =
      some ⟨unique (rows.map fun u => dayOf u.day), (rows.map (·.views)).sum,
        (rows.map (·.writes)).sum⟩ := by
  induction rows using List.reverseRecOn with
  | nil => exact absurd rfl hne
  | append_singleton rows u ih =>
    have hkept : (Collect.addAll addUsage none rows).getD ⟨[], 0, 0⟩ =
        ⟨unique (rows.map fun u => dayOf u.day), (rows.map (·.views)).sum,
          (rows.map (·.writes)).sum⟩ := by
      rcases eq_or_ne rows [] with rfl | hrows
      · rfl
      · rw [ih hrows, Option.getD_some]
    rw [Collect.addAll_concat, addUsage, hkept]
    simp only [List.map_append, List.map_cons, List.map_nil, unique_concat, List.sum_append,
      List.sum_cons, List.sum_nil, Nat.add_zero]
    by_cases hmem : dayOf u.day ∈ unique (rows.map fun u => dayOf u.day)
    · rw [if_pos hmem, if_pos hmem]
    · rw [if_neg hmem, if_neg hmem]

theorem perm_sortTexts (texts : List (List Char)) : (sortTexts texts).Perm texts :=
  List.perm_insertionSort _ _

theorem pairwise_sortTexts (texts : List (List Char)) :
    (sortTexts texts).Pairwise fun a b => ¬b < a := by
  have htotal : Std.Total fun a b : List Char => ¬b < a :=
    ⟨fun _ _ => or_iff_not_imp_left.mpr fun h => List.lt_asymm (not_not.mp h)⟩
  have htrans : IsTrans (List Char) fun a b => ¬b < a :=
    ⟨fun _ _ _ hab hbc => List.not_lt.mpr
      (List.le_trans (List.not_lt.mp hab) (List.not_lt.mp hbc))⟩
  exact List.pairwise_insertionSort _ _

/-- What the texts of some days say of the days. -/
theorem toUsage_spec {chat : ChatDays} (hnodup : chat.days.Nodup)
    (htexts : {text | text ∈ chat.days} = dayOf '' days) (hne : days.Nonempty)
    (hrange : ∀ day ∈ days, DayInRange day) :
    (∃ day, IsLeast days day ∧ (chat.toUsage chatId).firstDay = dayOf day) ∧
      (chat.toUsage chatId).activeDays = days.ncard ∧
      ((chat.toUsage chatId).usedAfterFirstDay = true ↔ days.Nontrivial) := by
  have hinj : Set.InjOn dayOf days := fun day hday day' hday' heq =>
    (dayOf_inj (hrange day hday) (hrange day' hday')).mp heq
  have hcard : chat.days.length = days.ncard := by
    rw [length_eq_ncard hnodup, htexts, hinj.ncard_image]
  have hfinite : days.Finite := by
    refine Set.Finite.of_finite_image (f := dayOf) ?_ hinj
    rw [← htexts]
    exact chat.days.finite_toSet
  refine ⟨?_, ?_, ?_⟩
  · have hsorted := pairwise_sortTexts chat.days
    cases hdays : sortTexts chat.days with
    | nil =>
      have hlength := congrArg List.length hdays
      rw [(perm_sortTexts _).length_eq, hcard, List.length_nil,
        Set.ncard_eq_zero hfinite] at hlength
      exact absurd hlength hne.ne_empty
    | cons text texts =>
      have hmem : ∀ t, t ∈ text :: texts ↔ t ∈ dayOf '' days := by
        intro t
        rw [← hdays, (perm_sortTexts _).mem_iff, ← htexts]
        exact Iff.rfl
      obtain ⟨day, hday, rfl⟩ := (hmem text).mp List.mem_cons_self
      refine ⟨day, ⟨hday, fun day' hday' => not_lt.mp fun hlt => ?_⟩, ?_⟩
      · rw [hdays, List.pairwise_cons] at hsorted
        have htext := (dayOf_lt_iff (hrange day' hday') (hrange day hday)).mpr hlt
        rcases List.mem_cons.mp ((hmem (dayOf day')).mpr ⟨day', hday', rfl⟩) with heq | hrest
        · exact List.lt_irrefl _ (heq ▸ htext)
        · exact hsorted.1 _ hrest htext
      · rw [ChatDays.toUsage, hdays]
        rfl
  · rw [ChatDays.toUsage, (perm_sortTexts _).length_eq, hcard]
  · rw [ChatDays.toUsage, (perm_sortTexts _).length_eq, decide_eq_true_iff, hcard]
    have := hfinite.to_subtype
    exact Set.one_lt_ncard_iff_nontrivial

end Summary

/-! ### The order of the chats -/

section Order

variable {locale : Collation}

theorem Collation.localeCompare_self (locale : Collation) (a : String) :
    locale.localeCompare a a = 0 := by
  have h := locale.swap a a
  omega

theorem compareChats_nonpos_iff {a b : ChatUsage} :
    locale.compareChats a b ≤ 0 ↔
      locale.localeCompare (String.ofList a.firstDay) (String.ofList b.firstDay) < 0 ∨
        locale.localeCompare (String.ofList a.firstDay) (String.ofList b.firstDay) = 0 ∧
          locale.localeCompare a.chatId b.chatId ≤ 0 := by
  rw [Collation.compareChats]
  split_ifs with h <;> omega

theorem compareChats_total (a b : ChatUsage) :
    locale.compareChats a b ≤ 0 ∨ locale.compareChats b a ≤ 0 := by
  rw [compareChats_nonpos_iff, compareChats_nonpos_iff]
  have hday := locale.swap (String.ofList a.firstDay) (String.ofList b.firstDay)
  have hday' := locale.swap (String.ofList b.firstDay) (String.ofList a.firstDay)
  have hid := locale.swap b.chatId a.chatId
  omega

theorem compareChats_trans {a b c : ChatUsage} (hab : locale.compareChats a b ≤ 0)
    (hbc : locale.compareChats b c ≤ 0) : locale.compareChats a c ≤ 0 := by
  rw [compareChats_nonpos_iff] at hab hbc ⊢
  generalize String.ofList a.firstDay = x at hab ⊢
  generalize String.ofList b.firstDay = y at hab hbc
  generalize String.ofList c.firstDay = z at hbc ⊢
  have hac := locale.trans x y z (by omega) (by omega)
  rcases hac.lt_or_eq with hlt | heq
  · exact Or.inl hlt
  · -- Texts that compare as equal do so with all between them.
    have hca : locale.localeCompare z x ≤ 0 := by
      have h := locale.swap x z
      omega
    have hcb := locale.trans z x y hca (by omega)
    have hba := locale.trans y z x (by omega) hca
    have hxy := locale.swap x y
    have hyz := locale.swap y z
    refine Or.inr ⟨heq, locale.trans a.chatId b.chatId c.chatId ?_ ?_⟩ <;> omega

/-- The chats of the report are in the order of `compareChats`. -/
theorem pairwise_summarizeUsage (locale : Collation) (rows : List UsageRow) :
    (summarizeUsage locale rows).Pairwise fun a b => locale.compareChats a b ≤ 0 := by
  have htotal : Std.Total fun a b : ChatUsage => locale.compareChats a b ≤ 0 :=
    ⟨compareChats_total⟩
  have htrans : IsTrans ChatUsage fun a b => locale.compareChats a b ≤ 0 :=
    ⟨fun _ _ _ => compareChats_trans⟩
  exact List.pairwise_insertionSort _ _

end Order

/-! ### What the report says -/

section Report

variable {locale : Collation} {uses : List Use} {rows : List UsageRow} {chat : ChatUsage}
  {chatId : String}

theorem mem_summarizeUsage :
    chat ∈ summarizeUsage locale rows ↔
      ∃ kept, Collect.addAll addUsage none (rows.filter (·.chatId = chat.chatId)) = some kept ∧
        chat = kept.toUsage chat.chatId := by
  rw [summarizeUsage, List.mem_insertionSort, List.mem_map]
  constructor
  · rintro ⟨⟨id, kept⟩, hmem, rfl⟩
    exact ⟨kept, Collect.mem_entries_collect.mp hmem, rfl⟩
  · rintro ⟨kept, hkept, hchat⟩
    exact ⟨(chat.chatId, kept), Collect.mem_entries_collect.mpr hkept, hchat.symm⟩

/-- **One entry for each chat with a row.** -/
theorem perm_chatIds (locale : Collation) (rows : List UsageRow) :
    ((summarizeUsage locale rows).map (·.chatId)).Perm (unique (rows.map (·.chatId))) := by
  have hkeys : (Collect.collect (·.chatId) addUsage InsertionMap.empty rows).entries.map Prod.fst =
      unique (rows.map (·.chatId)) := Collect.keys_collect_empty rows
  rw [← hkeys]
  refine ((List.perm_insertionSort _ _).map _).trans ?_
  rw [List.map_map]
  exact List.Perm.refl _

/-- **An entry of the report says what its chat did.** -/
theorem summarizes_of_mem (hrows : rows.Perm (uses.foldl countUse []))
    (hrange : ∀ use ∈ uses, DayInRange use.day)
    (h : chat ∈ summarizeUsage locale rows) : Summarizes uses chat := by
  obtain ⟨kept, hkept, hchat⟩ := mem_summarizeUsage.mp h
  have hmine := hrows.filter (·.chatId = chat.chatId)
  have hne : rows.filter (·.chatId = chat.chatId) ≠ [] := by
    intro hnil
    rw [hnil] at hkept
    cases hkept
  rw [addAll_addUsage hne, Option.some_inj] at hkept
  have hdays : ∀ day, day ∈ daysOf uses chat.chatId ↔
      ∃ u ∈ rows, u.chatId = chat.chatId ∧ u.day = day := by
    intro day
    refine mem_days.symm.trans (exists_congr fun u => and_congr_left fun _ => ?_)
    exact hrows.mem_iff.symm
  have htexts : {text | text ∈ kept.days} = dayOf '' daysOf uses chat.chatId := by
    ext text
    rw [← hkept, Set.mem_ofPred_eq, mem_unique, List.mem_map, Set.mem_image]
    constructor
    · rintro ⟨u, hu, rfl⟩
      obtain ⟨hmem, hid⟩ := List.mem_filter.mp hu
      exact ⟨u.day, (hdays u.day).mpr ⟨u, hmem, of_decide_eq_true hid, rfl⟩, rfl⟩
    · rintro ⟨day, hday, rfl⟩
      obtain ⟨u, hmem, hid, rfl⟩ := (hdays day).mp hday
      exact ⟨u, List.mem_filter.mpr ⟨hmem, decide_eq_true hid⟩, rfl⟩
  have hnonempty : (daysOf uses chat.chatId).Nonempty := by
    obtain ⟨u, hu⟩ := List.exists_mem_of_ne_nil _ hne
    obtain ⟨hmem, hid⟩ := List.mem_filter.mp hu
    exact ⟨u.day, (hdays u.day).mpr ⟨u, hmem, of_decide_eq_true hid, rfl⟩⟩
  have hinRange : ∀ day ∈ daysOf uses chat.chatId, DayInRange day := by
    rintro day ⟨use, huse, -, rfl⟩
    exact hrange use huse
  have hnodup : kept.days.Nodup := hkept ▸ nodup_unique _
  obtain ⟨⟨day, hleast, hfirst⟩, hactive, hafter⟩ :=
    @toUsage_spec chat.chatId _ kept hnodup htexts hnonempty hinRange
  refine ⟨⟨day, hleast, ?_⟩, ?_, ?_, ?_, ?_⟩
  · exact (congrArg ChatUsage.firstDay hchat).trans hfirst
  · exact (congrArg ChatUsage.activeDays hchat).trans hactive
  · refine (congrArg ChatUsage.views hchat).trans ?_
    show kept.views = _
    rw [← hkept]
    exact ((hmine.map _).sum_eq).trans
      (sum_counters uses (·.views) .view (fun _ _ => rfl) fun _ => rfl)
  · refine (congrArg ChatUsage.writes hchat).trans ?_
    show kept.writes = _
    rw [← hkept]
    exact ((hmine.map _).sum_eq).trans
      (sum_counters uses (·.writes) .write (fun _ _ => rfl) fun _ => rfl)
  · rw [congrArg ChatUsage.usedAfterFirstDay hchat]
    exact hafter

theorem mem_qualifying {ownerChatId : Option String} :
    chatId ∈ (successMetric (summarizeUsage locale rows) ownerChatId).qualifying ↔
      ∃ chat ∈ summarizeUsage locale rows, chat.chatId = chatId ∧ some chatId ≠ ownerChatId ∧
        0 < chat.writes ∧ chat.usedAfterFirstDay = true := by
  simp only [successMetric, List.mem_map, List.mem_filter, Bool.and_eq_true, decide_eq_true_eq,
    and_assoc]
  constructor
  · rintro ⟨chat, hmem, howner, hwrites, hafter, rfl⟩
    exact ⟨chat, hmem, rfl, howner, hwrites, hafter⟩
  · rintro ⟨chat, hmem, rfl, howner, hwrites, hafter⟩
    exact ⟨chat, hmem, howner, hwrites, hafter, rfl⟩

/-- The chats of the report are those that used their portfolio. -/
theorem mem_chatIds (hrows : rows.Perm (uses.foldl countUse [])) :
    chatId ∈ (summarizeUsage locale rows).map (·.chatId) ↔
      ∃ use ∈ uses, use.chatId = chatId := by
  rw [(perm_chatIds locale rows).mem_iff, mem_unique, List.mem_map]
  constructor
  · rintro ⟨u, hu, hid⟩
    obtain ⟨use, huse, hid', -⟩ := mem_days.mp ⟨u, hrows.mem_iff.mp hu, hid, rfl⟩
    exact ⟨use, huse, hid'⟩
  · rintro ⟨use, huse, hid⟩
    obtain ⟨u, hu, hid', -⟩ := mem_days.mpr ⟨use, huse, hid, rfl⟩
    exact ⟨u, hrows.mem_iff.mpr hu, hid'⟩

/-- **The chats that meet the success metric.** -/
theorem mem_qualifying_iff (hrows : rows.Perm (uses.foldl countUse []))
    (hrange : ∀ use ∈ uses, DayInRange use.day)
    {ownerChatId : Option String} :
    chatId ∈ (successMetric (summarizeUsage locale rows) ownerChatId).qualifying ↔
      some chatId ≠ ownerChatId ∧ CameBack uses chatId := by
  have hwrote : ∀ chat ∈ summarizeUsage locale rows, 0 < chat.writes ↔
      ∃ use ∈ uses, use.chatId = chat.chatId ∧ use.kind = .write := by
    intro chat hchat
    rw [(summarizes_of_mem hrows hrange hchat).writes, List.countP_pos_iff]
    simp only [decide_eq_true_eq]
  rw [mem_qualifying]
  constructor
  · rintro ⟨chat, hchat, rfl, howner, hwrites, hafter⟩
    refine ⟨howner, (hwrote chat hchat).mp hwrites, ?_⟩
    exact (summarizes_of_mem hrows hrange hchat).usedAfterFirstDay.mp hafter
  · rintro ⟨howner, ⟨use, huse, hid, hkind⟩, hdays⟩
    have hlisted : chatId ∈ (summarizeUsage locale rows).map (·.chatId) :=
      (mem_chatIds hrows).mpr ⟨use, huse, hid⟩
    obtain ⟨chat, hchat, rfl⟩ := List.mem_map.mp hlisted
    refine ⟨chat, hchat, rfl, howner, (hwrote chat hchat).mpr ⟨use, huse, hid, hkind⟩, ?_⟩
    exact (summarizes_of_mem hrows hrange hchat).usedAfterFirstDay.mpr hdays

theorem met_iff {chats : List ChatUsage} {ownerChatId : Option String} :
    (successMetric chats ownerChatId).met = true ↔
      ∃ chatId, chatId ∈ (successMetric chats ownerChatId).qualifying := by
  rw [successMetric]
  dsimp only
  rw [decide_eq_true_iff, Nat.one_le_iff_ne_zero, Ne, List.length_eq_zero_iff]
  exact ⟨fun hne => List.exists_mem_of_ne_nil _ fun hnil => hne (List.map_eq_nil_iff.mp hnil),
    fun ⟨_, hmem⟩ hnil => List.ne_nil_of_mem hmem (List.map_eq_nil_iff.mpr hnil)⟩

/-- **Listed before**: seen on an earlier day, or on the same day with an id that comes first. -/
def ListedBefore (locale : Collation) (a b : ChatUsage) : Prop :=
  a.firstDay < b.firstDay ∨
    a.firstDay = b.firstDay ∧ locale.localeCompare a.chatId b.chatId ≤ 0

theorem listedBefore {a b : ChatUsage} (h : locale.compareChats a b ≤ 0)
    (hrange : ∀ use ∈ uses, DayInRange use.day) (ha : Summarizes uses a)
    (hb : Summarizes uses b) : ListedBefore locale a b := by
  obtain ⟨day, ⟨⟨use, huse, -, rfl⟩, -⟩, hday⟩ := ha.firstDay
  obtain ⟨day', ⟨⟨use', huse', -, rfl⟩, -⟩, hday'⟩ := hb.firstDay
  rw [compareChats_nonpos_iff, hday, hday'] at h
  rw [ListedBefore, hday, hday']
  rcases lt_trichotomy use.day use'.day with hlt | heq | hgt
  · exact Or.inl ((dayOf_lt_iff (hrange use huse) (hrange use' huse')).mpr hlt)
  · rw [heq] at h ⊢
    have hself := locale.localeCompare_self (String.ofList (dayOf use'.day))
    exact Or.inr ⟨rfl, by omega⟩
  · have hbefore := locale.dates use'.day use.day (hrange use' huse') (hrange use huse) hgt
    have hswap := (locale.swap _ _).mp hbefore
    omega

end Report

/-- Texts in the order of their characters. -/
def characterOrder : Collation where
  localeCompare a b := if a.toList < b.toList then -1 else if b.toList < a.toList then 1 else 0
  swap a b := by
    have hasymm : a.toList < b.toList → ¬b.toList < a.toList := List.lt_asymm
    split_ifs <;> simp_all
  trans a b c hab hbc := by
    have hba : ¬b.toList < a.toList := fun h => by
      rw [if_neg (List.lt_asymm h), if_pos h] at hab
      exact absurd hab (by decide)
    have hcb : ¬c.toList < b.toList := fun h => by
      rw [if_neg (List.lt_asymm h), if_pos h] at hbc
      exact absurd hbc (by decide)
    have hca : ¬c.toList < a.toList := List.not_lt.mpr
      (List.le_trans (List.not_lt.mp hba) (List.not_lt.mp hcb))
    split_ifs
    · decide
    · decide
  dates day day' h h' hlt := by
    rw [String.toList_ofList, String.toList_ofList, if_pos ((dayOf_lt_iff h h').mpr hlt)]
    decide

/-- A trade on the first day, and a look at the portfolio on the second. -/
def boughtAndLooked : List UsageCall :=
  [.change ⟨⟨"a", 0⟩, .recordTrade buyOneBitcoin⟩, .view ⟨"a", IsoTime.dayMs⟩]

end Portfolio

end CryptoZaloBot
