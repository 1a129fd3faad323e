import CryptoZaloBot.Signals.Backfill

/-!
# Whose turn it is

Calls of `backfill` for the same coins, one after the other, work on a queue: the coins that
are due, in the order in which they are given
(`CryptoZaloBot.Signals.Backfills.queue`). A call takes coins off its front only, one at least
and three at most, whatever CoinGecko answers
(`CryptoZaloBot.Signals.Backfills.queue_of_serial`).

That holds while no flag expires. The shortest hold is the ten minutes of a coin that was
asked for when CoinGecko limited the rate, and it lets the coin back in at its old place. So
calls that are further apart can come to the first coins again and again, and never to the
others (`CryptoZaloBot.Signals.Backfills.queue_stuck`).
-/

namespace CryptoZaloBot

namespace Signals

namespace Backfills

/-! ### The queue -/

/-- **The coins that are due**, in the order in which a call takes them on. -/
def queue (symbols : List String) (flags : Flags) : List String :=
  symbols.filter fun symbol => flags.Due symbol

/-- The coin is due, or has a flag that stands beyond the time. -/
def Lasting (flags : Flags) (time : ℤ) (symbol : String) : Prop :=
  flags.Due symbol ∨ (∃ expiry ∈ flags.backfilled symbol, time < expiry) ∨
    ∃ held ∈ flags.backfillFailed symbol, time < held.2

section Flags

variable {flags : Flags} {symbols : List String} {symbol symbol' : String} {time : ℤ} {d : ℕ}

theorem busy_le_holdMs (decision : Decision) :
    (Decision.held .busy).holdMs ≤ decision.holdMs := by
  rcases decision with _ | (_ | _) <;> decide

theorem holdMs_pos (decision : Decision) : 0 < decision.holdMs :=
  lt_of_lt_of_le (by decide) (busy_le_holdMs decision)

/-- **A decision takes its coin off**, and no other. -/
theorem due_decide (flags : Flags) (symbol symbol' : String) (decision : Decision) :
    (flags.decide symbol decision).Due symbol' ↔ flags.Due symbol' ∧ symbol' ≠ symbol := by
  have hpos := holdMs_pos decision
  rcases eq_or_ne symbol' symbol with rfl | hne
  · refine iff_of_false (fun hdue => ?_) fun h => h.2 rfl
    cases decision with
    | filled =>
      have hover := hdue.1 _ (Function.update_self symbol' _ flags.backfilled)
      change flags.now + _ ≤ flags.now at hover
      omega
    | held failure =>
      have hover := hdue.2 _ (Function.update_self symbol' _ flags.backfillFailed)
      change flags.now + _ ≤ flags.now at hover
      omega
  · rw [and_iff_left hne]
    cases decision with
    | filled =>
      simp only [Flags.Due, Flags.decide, Function.update_of_ne hne]
    | held failure =>
      simp only [Flags.Due, Flags.decide, Function.update_of_ne hne]

theorem queue_decide (flags : Flags) (symbol : String) (decision : Decision) :
    queue symbols (flags.decide symbol decision) =
      (queue symbols flags).filter (· ≠ symbol) := by
  rw [queue, queue, List.filter_filter]
  refine List.filter_congr fun symbol' _ => ?_
  rw [decide_eq_decide.mpr (due_decide flags symbol symbol' decision), Bool.decide_and,
    Bool.and_comm]

/-- The flag of a decision stands beyond the time, too. -/
theorem Lasting.decide (h : Lasting flags time symbol')
    (htime : time < flags.now + (Decision.held .busy).holdMs) (symbol : String)
    (decision : Decision) : Lasting (flags.decide symbol decision) time symbol' := by
  have hle := busy_le_holdMs decision
  rcases eq_or_ne symbol' symbol with rfl | hne
  · right
    cases decision with
    | filled => exact .inl ⟨_, Function.update_self symbol' _ _, by omega⟩
    | held failure =>
      exact .inr ⟨_, Function.update_self symbol' _ _, show time < flags.now + _ by omega⟩
  · rcases h with hdue | ⟨expiry, hmem, hlt⟩ | ⟨held, hmem, hlt⟩
    · exact .inl ((due_decide flags symbol symbol' decision).mpr ⟨hdue, hne⟩)
    · refine .inr (.inl ⟨expiry, ?_, hlt⟩)
      cases decision with
      | filled => exact (Function.update_of_ne hne _ _).trans hmem
      | held failure => exact hmem
    · refine .inr (.inr ⟨held, ?_, hlt⟩)
      cases decision with
      | filled => exact hmem
      | held failure => exact (Function.update_of_ne hne _ _).trans hmem

/-- Time passes. -/
def Flags.later (flags : Flags) (d : ℕ) : Flags := { flags with now := flags.now + d }

theorem due_later (h : Lasting flags time symbol) (htime : flags.now + d ≤ time) :
    (flags.later d).Due symbol ↔ flags.Due symbol := by
  constructor
  · intro hdue
    rcases h with hdue' | ⟨expiry, hmem, hlt⟩ | ⟨held, hmem, hlt⟩
    · exact hdue'
    · have hover : expiry ≤ flags.now + d := hdue.1 expiry hmem
      omega
    · have hover : held.2 ≤ flags.now + d := hdue.2 held hmem
      omega
  · rintro ⟨hfilled, hfailed⟩
    refine ⟨fun expiry hmem => ?_, fun held hmem => ?_⟩
    · have hover := hfilled expiry hmem
      show expiry ≤ flags.now + d
      omega
    · have hover := hfailed held hmem
      show held.2 ≤ flags.now + d
      omega

theorem Lasting.later (h : Lasting flags time symbol) (htime : flags.now + d ≤ time) :
    Lasting (flags.later d) time symbol := by
  rcases h with hdue | hflag
  · exact .inl ((due_later (.inl hdue) htime).mpr hdue)
  · exact .inr hflag

end Flags

/-! ### A call that runs alone -/

/-- **A flag that is to be written is written.** -/
def FlagsStored (s : State) : Event → Prop
  | .steps i (.writes ok) => ok = true ∨ ∃ symbol due filled, s.calls i = .filling symbol due filled
  | _ => True

/-- CoinGecko limits the rate, or a history is not stored. -/
def Event.Limits : Event → Prop
  | .steps _ (.charts (some .unavailable)) => True
  | .steps _ (.writes false) => True
  | _ => False

/-- Time passes, or the call goes on. -/
def Event.OfCall (i : ℕ) : Event → Prop
  | .steps j _ => j = i
  | .arrives .. => False
  | .ticks _ => True

/-- **How much of a queue a call took**, by how far it is: what it has not come to is left. -/
inductive Taken (symbols q : List String) (limited : Prop) : Call → List String → Prop
  | reading : Taken symbols q limited (.reading symbols) q
  | charting {n : ℕ} {symbol : String} {due filled : List String}
      (left : (q.take maxBackfillPerRun).drop n = symbol :: due) :
      Taken symbols q limited (.charting symbol due filled) (q.drop n)
  | filling {n : ℕ} {symbol : String} {due filled : List String}
      (left : (q.take maxBackfillPerRun).drop n = symbol :: due) :
      Taken symbols q limited (.filling symbol due filled) (q.drop n)
  | holding {n : ℕ} {symbol : String} {failure : BackfillFailure} {due filled : List String}
      (left : (q.take maxBackfillPerRun).drop n = symbol :: due)
      (why : failure = .busy → limited) :
      Taken symbols q limited (.holding symbol failure due filled) (q.drop n)
  | done {n : ℕ} {filled : List String} (most : n ≤ maxBackfillPerRun)
      (some : min 1 q.length ≤ n) (all : ¬limited → min maxBackfillPerRun q.length ≤ n) :
      Taken symbols q limited (.done filled) (q.drop n)

section Alone

variable {flags : Flags} {symbols q : List String} {limited : Prop} {n i : ℕ} {symbol : String}
  {due filled : List String} {call : Call} {step : Step} {s : State} {e : Event} {time : ℤ}

/-- What comes first in what is left of those a call takes on. -/
theorem drop_of_take_drop (h : (q.take maxBackfillPerRun).drop n = symbol :: due) :
    n < maxBackfillPerRun ∧ q.drop n = symbol :: q.drop (n + 1) ∧
      (q.take maxBackfillPerRun).drop (n + 1) = due := by
  have hlength := congrArg List.length h
  rw [List.length_drop, List.length_take, List.length_cons] at hlength
  have hlt : n < q.length := by omega
  have hlt' : n < (q.take maxBackfillPerRun).length := by rw [List.length_take]; omega
  rw [List.drop_eq_getElem_cons hlt'] at h
  obtain ⟨hhead, hrest⟩ := List.cons.inj h
  refine ⟨by omega, ?_, hrest⟩
  rw [List.drop_eq_getElem_cons hlt, ← hhead, List.getElem_take]

/-- The next turn of the loop. -/
theorem taken_loop (hleft : (q.take maxBackfillPerRun).drop n = due)
    (hmost : n ≤ maxBackfillPerRun) (hsome : min 1 q.length ≤ n ∨ due ≠ []) :
    Taken symbols q limited (loop due filled) (q.drop n) := by
  cases due with
  | cons symbol due => exact .charting hleft
  | nil =>
    have hlength := congrArg List.length hleft
    rw [List.length_drop, List.length_take, List.length_nil] at hlength
    exact .done hmost (hsome.resolve_right fun hne => hne rfl) fun _ => by omega

/-- The flag of the first coin of the queue takes it off. -/
theorem queue_decide_first (hnodup : q.Nodup) (hqueue : queue symbols flags = q.drop n)
    (hfirst : q.drop n = symbol :: q.drop (n + 1)) (decision : Decision) :
    queue symbols (flags.decide symbol decision) = q.drop (n + 1) := by
  rw [queue_decide, hqueue, hfirst, List.filter_cons_of_neg (by simp)]
  have hrest : (symbol :: q.drop (n + 1)).Nodup := hfirst ▸ hnodup.sublist (List.drop_sublist n q)
  refine List.filter_eq_self.mpr fun symbol' hmem => decide_eq_true ?_
  rintro rfl
  exact (List.nodup_cons.mp hrest).1 hmem

/-- **What a step of the call leaves of the queue.** -/
theorem Taken.act (h : Taken symbols q limited call (queue symbols flags)) (hnodup : q.Nodup)
    (hawaits : call.Awaits step)
    (hstored : ∀ symbol failure due filled, call = .holding symbol failure due filled →
      step = .writes true)
    (hlimits : (Event.steps i step).Limits → limited) :
    Taken symbols q limited (call.act flags i step).call
      (queue symbols (call.act flags i step).flags) := by
  generalize hqueue : queue symbols flags = left at h
  cases h with
  | reading =>
    cases step with
    | reads =>
      show Taken symbols q limited (loop (dueOf flags symbols) []) (queue symbols flags)
      have hdue : dueOf flags symbols = q.take maxBackfillPerRun := by rw [← hqueue]; rfl
      rw [hqueue, hdue]
      refine taken_loop (n := 0) rfl (Nat.zero_le _) ?_
      cases q with
      | nil => exact .inl le_rfl
      | cons symbol q => exact .inr (List.cons_ne_nil _ _)
    | _ => exact hawaits.elim
  | charting hleft =>
    cases step with
    | charts answer =>
      cases answer with
      | none => exact hqueue ▸ .filling hleft
      | some error =>
        cases error with
        | coinNotFound => exact hqueue ▸ .holding hleft nofun
        | unavailable => exact hqueue ▸ .holding hleft fun _ => hlimits trivial
    | _ => exact hawaits.elim
  | @filling n symbol due filled hleft =>
    obtain ⟨hlt, hfirst, hrest⟩ := drop_of_take_drop hleft
    cases step with
    | writes ok =>
      cases ok with
      | true =>
        show Taken symbols q limited (loop due _) (queue symbols (flags.decide symbol .filled))
        rw [queue_decide_first hnodup hqueue hfirst]
        exact taken_loop hrest hlt (.inl (by omega))
      | false => exact hqueue ▸ .holding hleft fun _ => hlimits trivial
    | _ => exact hawaits.elim
  | @holding n symbol failure due filled hleft why =>
    obtain ⟨hlt, hfirst, hrest⟩ := drop_of_take_drop hleft
    obtain rfl := hstored _ _ _ _ rfl
    cases failure with
    | notfound =>
      show Taken symbols q limited (loop due _)
        (queue symbols (flags.decide symbol (.held .notfound)))
      rw [queue_decide_first hnodup hqueue hfirst]
      exact taken_loop hrest hlt (.inl (by omega))
    | busy =>
      show Taken symbols q limited (.done _) (queue symbols (flags.decide symbol (.held .busy)))
      rw [queue_decide_first hnodup hqueue hfirst]
      exact .done hlt (by omega) fun hnot => absurd (why rfl) hnot
  | done => cases step <;> exact hawaits.elim

/-- **The call alone with the queue**: what it took, and that nothing comes back until the
time. -/
structure Alone (symbols q : List String) (limited : Prop) (time : ℤ) (i : ℕ) (s : State) :
    Prop where
  taken : Taken symbols q limited (s.calls i) (queue symbols s.flags)
  lasting : ∀ symbol ∈ symbols, Lasting s.flags time symbol
  soon : time < s.flags.now + (Decision.held .busy).holdMs

theorem Alone.next (h : Alone symbols q limited time i s) (hnodup : q.Nodup)
    (hleg : (system.restrict FlagsStored).legal s e) (hcall : e.OfCall i)
    (htime : (system.next s e).flags.now ≤ time) (hlimits : e.Limits → limited) :
    Alone symbols q limited time i (system.next s e) := by
  obtain ⟨taken, lasting, soon⟩ := h
  obtain ⟨hawaits, hstored⟩ := hleg
  cases e with
  | arrives => exact hcall.elim
  | ticks d =>
    have hqueue : queue symbols (s.flags.later d) = queue symbols s.flags :=
      List.filter_congr fun symbol hmem =>
        decide_eq_decide.mpr (due_later (lasting symbol hmem) htime)
    refine ⟨?_, fun symbol hmem => (lasting symbol hmem).later htime, ?_⟩
    · show Taken symbols q limited (s.calls i) (queue symbols (s.flags.later d))
      rwa [hqueue]
    · show time < s.flags.now + d + _
      omega
  | steps j step =>
    obtain rfl : j = i := hcall
    have hflags : (system.next s (.steps j step)).flags =
        ((s.calls j).act s.flags j step).flags := rfl
    have htaken : Taken symbols q limited ((system.next s (.steps j step)).calls j)
        (queue symbols (system.next s (.steps j step)).flags) := by
      rw [calls_steps, hflags]
      refine taken.act hnodup hawaits (fun symbol failure due filled hholding => ?_) hlimits
      have hawaits' : (s.calls j).Awaits step := hawaits
      rw [hholding] at hawaits'
      cases step with
      | writes ok =>
        rcases hstored with rfl | ⟨_, _, _, hfilling⟩
        · rfl
        · cases hholding.symm.trans hfilling
      | _ => exact hawaits'.elim
    cases written_act s.flags j (s.calls j) step with
    | none same =>
      rw [← hflags] at same
      exact ⟨htaken, same ▸ lasting, same ▸ soon⟩
    | decided symbol decision left =>
      rw [← hflags] at left
      refine ⟨htaken, ?_, ?_⟩
      · rw [left]
        exact fun symbol' hmem => (lasting symbol' hmem).decide soon symbol decision
      · rw [left]
        cases decision <;> exact soon

/-- The clock does not go back. -/
theorem now_le_next (s : State) (e : Event) : s.flags.now ≤ (system.next s e).flags.now := by
  cases e with
  | arrives => exact le_rfl
  | ticks d =>
    show s.flags.now ≤ s.flags.now + d
    omega
  | steps i step =>
    show s.flags.now ≤ ((s.calls i).act s.flags i step).flags.now
    cases written_act s.flags i (s.calls i) step with
    | none same => rw [same]
    | decided symbol decision left =>
      rw [left]
      cases decision <;> exact le_rfl

theorem now_le_final (s : State) (es : List Event) :
    s.flags.now ≤ (system.final s es).flags.now := by
  induction es generalizing s with
  | nil => exact le_rfl
  | cons e es ih => exact (now_le_next s e).trans (ih _)

/-- **What a call alone leaves of the queue.** -/
theorem Alone.final {es : List Event} (h : Alone symbols q limited time i s) (hnodup : q.Nodup)
    (hr : (system.restrict FlagsStored).Run s es) (hcall : ∀ e ∈ es, e.OfCall i)
    (htime : (system.final s es).flags.now ≤ time) (hlimits : ∀ e ∈ es, e.Limits → limited) :
    Alone symbols q limited time i (system.final s es) := by
  induction es generalizing s with
  | nil => exact h
  | cons e es ih =>
    have hnext := h.next hnodup hr.1 (hcall e List.mem_cons_self)
      ((now_le_final _ es).trans htime) (hlimits e List.mem_cons_self)
    exact ih hnext hr.2 (fun e' he' => hcall e' (List.mem_cons_of_mem _ he')) htime
      fun e' he' => hlimits e' (List.mem_cons_of_mem _ he')

end Alone

/-! ### Calls one after the other -/

/-- A call that arrives and then runs alone, while time passes. -/
structure LoneCall where
  i : ℕ
  events : List Event

def LoneCall.all (symbols : List String) (call : LoneCall) : List Event :=
  .arrives call.i symbols :: call.events

/-- **Calls for the same coins, one after the other**: only the steps of a call happen between
its arrival and its end. -/
def Serial (symbols : List String) : State → List LoneCall → Prop
  | _, [] => True
  | s, call :: calls =>
    (system.restrict FlagsStored).Run s (call.all symbols) ∧
      (∀ e ∈ call.events, e.OfCall call.i) ∧
      (∃ filled, (system.final s (call.all symbols)).calls call.i = .done filled) ∧
      Serial symbols (system.final s (call.all symbols)) calls

section Serial

variable {symbols : List String} {s : State} {call : LoneCall} {calls : List LoneCall} {time : ℤ}

/-- A call arrives, and has taken nothing yet. -/
theorem taken_arrives (s : State) (i : ℕ) (symbols : List String) (limited : Prop) :
    Taken symbols (queue symbols s.flags) limited
      ((system.next s (.arrives i symbols)).calls i) (queue symbols s.flags) := by
  rw [show (system.next s (.arrives i symbols)).calls i =
    if symbols = [] then .done [] else .reading symbols from Function.update_self _ _ _]
  split_ifs with hempty
  · subst hempty
    exact .done (n := 0) (Nat.zero_le _) le_rfl fun _ => le_rfl
  · exact .reading

/-- **One call takes coins off the front of the queue.** -/
theorem queue_of_call (hnodup : symbols.Nodup)
    (hr : (system.restrict FlagsStored).Run s (call.all symbols))
    (hcall : ∀ e ∈ call.events, e.OfCall call.i)
    (hdone : ∃ filled, (system.final s (call.all symbols)).calls call.i = .done filled)
    (hlasting : ∀ symbol ∈ symbols, Lasting s.flags time symbol)
    (htime : (system.final s (call.all symbols)).flags.now ≤ time)
    (hsoon : time < s.flags.now + (Decision.held .busy).holdMs) :
    (∃ n, queue symbols (system.final s (call.all symbols)).flags =
        (queue symbols s.flags).drop n ∧ n ≤ maxBackfillPerRun ∧
      min 1 (queue symbols s.flags).length ≤ n ∧
      ((∀ e ∈ call.events, ¬e.Limits) →
        min maxBackfillPerRun (queue symbols s.flags).length ≤ n)) ∧
    ∀ symbol ∈ symbols, Lasting (system.final s (call.all symbols)).flags time symbol := by
  have harrived : Alone symbols (queue symbols s.flags) (∃ e ∈ call.events, e.Limits) time call.i
      (system.next s (.arrives call.i symbols)) :=
    ⟨taken_arrives s call.i symbols _, hlasting, hsoon⟩
  have hended := harrived.final (hnodup.filter _) hr.2 hcall htime
    fun e he hlimits => ⟨e, he, hlimits⟩
  refine ⟨?_, hended.lasting⟩
  obtain ⟨filled, hfilled⟩ := hdone
  have htaken := hended.taken
  rw [show (system.final (system.next s (.arrives call.i symbols)) call.events).calls call.i =
    .done filled from hfilled] at htaken
  generalize hleft : queue symbols (system.final _ call.events).flags = left at htaken
  cases htaken with
  | @done n _ most some all =>
    refine ⟨n, hleft, most, some, fun hnone => all ?_⟩
    rintro ⟨e, he, hlimits⟩
    exact hnone e he hlimits

/-- **Every coin gets its turn**, as long as no flag expires: each call takes the first coin of
the queue off it at least, and three of them if CoinGecko does not limit the rate. -/
theorem queue_of_serial (hnodup : symbols.Nodup) (hserial : Serial symbols s calls)
    (hsoon : (system.final s (calls.flatMap (·.all symbols))).flags.now <
      s.flags.now + (Decision.held .busy).holdMs)
    (hlasting : ∀ symbol ∈ symbols,
      Lasting s.flags (system.final s (calls.flatMap (·.all symbols))).flags.now symbol) :
    ∃ n, queue symbols (system.final s (calls.flatMap (·.all symbols))).flags =
        (queue symbols s.flags).drop n ∧
      n ≤ maxBackfillPerRun * calls.length ∧
      min calls.length (queue symbols s.flags).length ≤ n ∧
      ((∀ call ∈ calls, ∀ e ∈ call.events, ¬e.Limits) →
        min (maxBackfillPerRun * calls.length) (queue symbols s.flags).length ≤ n) := by
  induction calls generalizing s with
  | nil => exact ⟨0, rfl, le_rfl, by simp, by simp⟩
  | cons call calls ih =>
    obtain ⟨hr, hcall, hdone, hrest⟩ := hserial
    rw [List.flatMap_cons, System.final_append] at hsoon hlasting ⊢
    obtain ⟨⟨m, hqueue, hmost, hsome, hall⟩, hlasting'⟩ :=
      queue_of_call hnodup hr hcall hdone hlasting (now_le_final _ _) hsoon
    have hnow : s.flags.now ≤ (system.final s (call.all symbols)).flags.now := now_le_final s _
    obtain ⟨n, hqueue', hmost', hsome', hall'⟩ := ih hrest (by omega) hlasting'
    rw [hqueue, List.length_drop] at hsome' hall'
    refine ⟨m + n, ?_, ?_, ?_, fun hnone => ?_⟩
    · rw [hqueue', hqueue, List.drop_drop]
    · rw [List.length_cons, Nat.mul_succ]
      omega
    · rw [List.length_cons]
      omega
    · have hfirst := hall (hnone call List.mem_cons_self)
      have hothers := hall' fun call' hmem => hnone call' (List.mem_cons_of_mem _ hmem)
      rw [List.length_cons, Nat.mul_succ]
      omega

end Serial

instance (i : ℕ) : ∀ e : Event, Decidable (e.OfCall i)
  | .steps j _ => inferInstanceAs (Decidable (j = i))
  | .arrives .. => .isFalse id
  | .ticks _ => .isTrue trivial

instance : ∀ e : Event, Decidable e.Limits
  | .steps _ (.charts (some .unavailable)) => .isTrue trivial
  | .steps _ (.writes false) => .isTrue trivial
  | .steps _ .reads => .isFalse id
  | .steps _ (.charts none) => .isFalse id
  | .steps _ (.charts (some .coinNotFound)) => .isFalse id
  | .steps _ (.writes true) => .isFalse id
  | .arrives .. => .isFalse id
  | .ticks _ => .isFalse id

instance (s : State) : ∀ e, Decidable (FlagsStored s e)
  | .steps i (.writes ok) =>
    if hok : ok = true then .isTrue (.inl hok)
    else match h : s.calls i with
      | .filling symbol due filled => .isTrue (.inr ⟨symbol, due, filled, h⟩)
      | .idle | .reading _ | .charting .. | .holding .. | .done _ =>
        .isFalse fun hstored => by
          obtain ⟨_, _, _, hfilling⟩ := hstored.resolve_left hok
          cases h.symm.trans hfilling
  | .steps _ .reads => .isTrue trivial
  | .steps _ (.charts _) => .isTrue trivial
  | .arrives .. => .isTrue trivial
  | .ticks _ => .isTrue trivial

def fiveCoins : List String := ["a", "b", "c", "d", "e"]

/-- A call that finds `n` coins not known, half a second each. -/
def unknownCall (i n : ℕ) : LoneCall where
  i := i
  events := .steps i .reads :: (List.replicate n
    [.steps i (.charts (some .coinNotFound)), .ticks 500, .steps i (.writes true)]).flatten

/-- CoinGecko knows none of five coins, and is not limited: two calls are enough. -/
theorem queue_of_serial_unknown :
    ∃ n, queue fiveCoins (system.final (start 0)
        ([unknownCall 0 3, unknownCall 1 2].flatMap (·.all fiveCoins))).flags =
      (queue fiveCoins (start 0).flags).drop n ∧ 5 ≤ n := by
  have hserial : Serial fiveCoins (start 0) [unknownCall 0 3, unknownCall 1 2] :=
    ⟨by decide +kernel, by decide +kernel, ⟨[], by decide +kernel⟩, by decide +kernel,
      by decide +kernel, ⟨[], by decide +kernel⟩, trivial⟩
  obtain ⟨n, hqueue, -, -, hall⟩ := queue_of_serial (by decide) hserial (by decide +kernel)
    fun symbol _ => .inl ⟨nofun, nofun⟩
  exact ⟨n, hqueue, hall (by decide +kernel)⟩

/-! ### Calls further apart -/

/-- A call that is limited at its first coin, and a pause. -/
def limitedCall (i pause : ℕ) : LoneCall where
  i := i
  events := [.steps i .reads, .steps i (.charts (some .unavailable)), .steps i (.writes true),
    .ticks pause]

section Stuck

variable {first : String} {rest : List String} {s : State} {i pause : ℕ}

theorem queue_eq_self {symbols : List String} {flags : Flags} :
    queue symbols flags = symbols ↔ ∀ symbol ∈ symbols, flags.Due symbol := by
  rw [queue, List.filter_eq_self]
  simp only [decide_eq_true_eq]

/-- A flag that is over lets its coin back in. -/
theorem due_of_over {flags : Flags} {symbol symbol' : String}
    (h : flags.Due symbol') (hpause : (Decision.held .busy).holdMs ≤ pause) :
    ((flags.decide symbol (.held .busy)).later pause).Due symbol' := by
  refine ⟨fun expiry hmem => ?_, fun held hmem => ?_⟩
  · have hover : expiry ≤ flags.now := h.1 expiry hmem
    show expiry ≤ flags.now + pause
    omega
  · show held.2 ≤ flags.now + pause
    rcases eq_or_ne symbol' symbol with rfl | hne
    · obtain rfl := Option.some.inj ((Function.update_self symbol' _ _).symm.trans hmem)
      show flags.now + _ ≤ flags.now + pause
      omega
    · have hover : held.2 ≤ flags.now := h.2 held ((Function.update_of_ne hne _ _).symm.trans hmem)
      omega

/-- The call has come to the chart of the first coin. -/
def chartingFirst (s : State) (i : ℕ) (first : String) (rest : List String) : State where
  flags := s.flags
  calls := Function.update s.calls i (.charting first (rest.take 2) [])

theorem next_reads (hqueue : queue (first :: rest) s.flags = first :: rest) :
    let s' := system.next s (.arrives i (first :: rest))
    system.next s' (.steps i .reads) = chartingFirst s i first rest ∧
      system.out s' (.steps i .reads) =
        [.read i (first :: rest) (first :: rest.take 2) s.flags.now,
          .asked i first s.flags.now] := by
  intro s'
  have hcall : s'.calls i = .reading (first :: rest) := Function.update_self i _ _
  have hdue : dueOf s.flags (first :: rest) = first :: rest.take 2 :=
    congrArg (List.take maxBackfillPerRun) hqueue
  constructor
  · show State.mk _ (Function.update (Function.update s.calls i _) i _) = _
    rw [hcall, Function.update_idem]
    show State.mk s.flags (Function.update s.calls i (loop (dueOf s.flags (first :: rest)) [])) = _
    rw [hdue]
    rfl
  · show ((s'.calls i).act s.flags i .reads).out = _
    rw [hcall]
    show .read i (first :: rest) (dueOf s.flags (first :: rest)) s.flags.now ::
      asks i s.flags.now (loop (dueOf s.flags (first :: rest)) []) = _
    rw [hdue]
    rfl

/-- What is left of a call whose first chart is limited. -/
def limitedEvents (i pause : ℕ) : List Event :=
  [.steps i (.charts (some .unavailable)), .steps i (.writes true), .ticks pause]

/-- The call is limited and leaves its flag. -/
theorem final_limited (s : State) (i : ℕ) (first : String) (rest : List String) (pause : ℕ) :
    (system.restrict FlagsStored).Run (chartingFirst s i first rest) (limitedEvents i pause) ∧
      system.final (chartingFirst s i first rest) (limitedEvents i pause) =
        ⟨(s.flags.decide first (.held .busy)).later pause, Function.update s.calls i (.done [])⟩ ∧
      system.outputs (chartingFirst s i first rest) (limitedEvents i pause) =
        [.decided i first (.held .busy) s.flags.now] := by
  have hcall : (chartingFirst s i first rest).calls i = .charting first (rest.take 2) [] :=
    Function.update_self i _ _
  have hcharts : system.next (chartingFirst s i first rest)
      (.steps i (.charts (some .unavailable))) =
        ⟨s.flags, Function.update s.calls i (.holding first .busy (rest.take 2) [])⟩ := by
    show State.mk _ (Function.update (chartingFirst s i first rest).calls i _) = _
    rw [hcall]
    show State.mk s.flags (Function.update (Function.update s.calls i _) i _) = _
    rw [Function.update_idem]
    rfl
  generalize hheld : State.mk s.flags
    (Function.update s.calls i (.holding first .busy (rest.take 2) [])) = held at hcharts
  have hholding : held.calls i = .holding first .busy (rest.take 2) [] := by
    rw [← hheld]
    exact Function.update_self i _ _
  have hwrites : system.next held (.steps i (.writes true)) =
      ⟨s.flags.decide first (.held .busy), Function.update s.calls i (.done [])⟩ := by
    show State.mk _ (Function.update held.calls i _) = _
    rw [hholding, ← hheld]
    show State.mk _ (Function.update (Function.update s.calls i _) i _) = _
    rw [Function.update_idem]
    rfl
  refine ⟨⟨⟨?_, trivial⟩, ⟨?_, .inl rfl⟩, ⟨trivial, trivial⟩, trivial⟩, ?_, ?_⟩
  · show ((chartingFirst s i first rest).calls i).Awaits _
    rw [hcall]
    trivial
  · show ((system.next (chartingFirst s i first rest)
      (.steps i (.charts (some .unavailable)))).calls i).Awaits _
    rw [hcharts, hholding]
    trivial
  · rw [limitedEvents, System.final_cons, hcharts, System.final_cons, hwrites]
    rfl
  · have hsilent : system.out (chartingFirst s i first rest)
        (.steps i (.charts (some .unavailable))) = [] := by
      show (((chartingFirst s i first rest).calls i).act _ i _).out = []
      rw [hcall]
      rfl
    have hdecided : system.out held (.steps i (.writes true)) =
        [.decided i first (.held .busy) s.flags.now] := by
      show ((held.calls i).act held.flags i _).out = _
      rw [hholding, ← hheld]
      rfl
    rw [limitedEvents, System.outputs_cons, hsilent, hcharts, System.outputs_cons, hdecided,
      hwrites]
    rfl

/-- **A limited call asks for the first coin only**, and once its pause is over all coins are
due again. -/
theorem limitedCall_spec (hidle : s.calls i = .idle)
    (hqueue : queue (first :: rest) s.flags = first :: rest)
    (hpause : (Decision.held .busy).holdMs ≤ pause) :
    (system.restrict FlagsStored).Run s ((limitedCall i pause).all (first :: rest)) ∧
      queue (first :: rest)
          (system.final s ((limitedCall i pause).all (first :: rest))).flags = first :: rest ∧
      (∀ j symbol time,
        .asked j symbol time ∈ system.outputs s ((limitedCall i pause).all (first :: rest)) →
          symbol = first) ∧
      ∀ j ≠ i, (system.final s ((limitedCall i pause).all (first :: rest))).calls j =
        s.calls j := by
  obtain ⟨hreads, hout⟩ := next_reads (i := i) hqueue
  obtain ⟨hrun, hfinal, houts⟩ := final_limited s i first rest pause
  have hcall : (system.next s (.arrives i (first :: rest))).calls i = .reading (first :: rest) :=
    Function.update_self i _ _
  have hlast : system.final s ((limitedCall i pause).all (first :: rest)) =
      ⟨(s.flags.decide first (.held .busy)).later pause,
        Function.update s.calls i (.done [])⟩ := by
    rw [← hfinal, ← hreads]
    rfl
  rw [hlast]
  refine ⟨⟨⟨hidle, trivial⟩, ⟨?_, trivial⟩, ?_⟩, ?_, fun j symbol time hmem => ?_, ?_⟩
  · show ((system.next s (.arrives i (first :: rest))).calls i).Awaits .reads
    rw [hcall]
    trivial
  · show (system.restrict FlagsStored).Run (system.next
      (system.next s (.arrives i (first :: rest))) (.steps i .reads)) (limitedEvents i pause)
    rw [hreads]
    exact hrun
  · refine queue_eq_self.mpr fun symbol hmem => due_of_over ?_ hpause
    exact queue_eq_self.mp hqueue symbol hmem
  · change .asked j symbol time ∈
      system.out (system.next s (.arrives i (first :: rest))) (.steps i .reads) ++
        system.outputs (system.next (system.next s (.arrives i (first :: rest)))
          (.steps i .reads)) (limitedEvents i pause) at hmem
    rw [hreads, hout, houts] at hmem
    simp at hmem
    exact hmem.2.1
  · exact fun j hne => Function.update_of_ne hne _ _

/-- **Calls more than ten minutes apart can be stuck**: if CoinGecko limits the rate of each,
they only ever ask for the first coin, and all coins are still due after any number of them. -/
theorem queue_stuck {calls : List (ℕ × ℕ)} (hidle : ∀ call ∈ calls, s.calls call.1 = .idle)
    (hnodup : (calls.map Prod.fst).Nodup)
    (hqueue : queue (first :: rest) s.flags = first :: rest)
    (hpause : ∀ call ∈ calls, (Decision.held .busy).holdMs ≤ call.2) :
    let events := calls.flatMap fun call => (limitedCall call.1 call.2).all (first :: rest)
    (system.restrict FlagsStored).Run s events ∧
      queue (first :: rest) (system.final s events).flags = first :: rest ∧
      ∀ j symbol time, .asked j symbol time ∈ system.outputs s events → symbol = first := by
  intro events
  induction calls generalizing s with
  | nil => exact ⟨trivial, hqueue, nofun⟩
  | cons call calls ih =>
    obtain ⟨hfirst, hothers⟩ := List.forall_mem_cons.mp hidle
    obtain ⟨hnew, hnodup⟩ := List.nodup_cons.mp hnodup
    obtain ⟨hpause, hpauses⟩ := List.forall_mem_cons.mp hpause
    obtain ⟨hrun, hqueue', hasked, hcalls⟩ := limitedCall_spec hfirst hqueue hpause
    obtain ⟨hruns, hqueues, hasks⟩ := ih (fun call' hmem => by
      rw [hcalls call'.1 fun heq => hnew (heq ▸ List.mem_map_of_mem hmem)]
      exact hothers call' hmem) hnodup hqueue' hpauses
    have hevents : events = (limitedCall call.1 call.2).all (first :: rest) ++
        calls.flatMap fun call => (limitedCall call.1 call.2).all (first :: rest) := rfl
    rw [hevents, System.run_append, System.final_append, System.outputs_append,
      System.final_restrict]
    refine ⟨⟨hrun, hruns⟩, hqueues, fun j symbol time hmem => ?_⟩
    rcases List.mem_append.mp hmem with hmem | hmem
    · exact hasked j symbol time hmem
    · exact hasks j symbol time hmem

end Stuck

end Backfills

end Signals

end CryptoZaloBot
