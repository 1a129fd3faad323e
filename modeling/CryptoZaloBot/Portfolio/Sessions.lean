import Mathlib.Logic.Function.Basic
import CryptoZaloBot.Portfolio.Service

/-!
# Transactions that overlap

Any number of the service's transactions can be open at once, of one chat or of many,
and their statements come to the database in any order. What keeps them apart is the
advisory lock: the first statement of each waits until nobody else holds the lock of
the chat's key, and the lock is let go only when the transaction ends. Two chats can
share a key, as `hashtext` has only 32 bits; they then wait on each other, and nothing
else happens.

The theorem of this file is `CryptoZaloBot.Portfolio.server_serializable`: the committed
database is always what the committed calls make of it **one after the other**, in the
order of their commits, and they get the replies they would have got. Everything else
about the portfolio is then a matter of serial runs
(`CryptoZaloBot.Portfolio.store`).

The invariant behind it is that an open transaction could as well be starting now: its
statements so far, replayed alone on the committed database, make the writes they made
(`CryptoZaloBot.Portfolio.Session.Replays`). A commit of another chat keeps it, since a
statement reads its own chat only, and a commit of the same chat cannot happen.
-/

namespace CryptoZaloBot

namespace Portfolio

/-! ### The server -/

/-- **An open transaction**: the rows its statements returned so far, and what they
wrote, which nobody else sees yet. -/
structure Session where
  call : Call
  results : List Rows := []
  writes : List Write := []
  /-- A statement was refused: the transaction can only be rolled back. -/
  failed : Bool := false

/-- The statement to execute next. -/
def Session.next? (s : Session) : Option Statement := s.call.command.statements[s.results.length]?

/-- The chat's lock is taken by the first statement and held from then on. -/
def Session.Locked (s : Session) : Prop := s.results ≠ []

structure Server where
  committed : Database := {}
  sessions : ℕ → Option Session := fun _ => none

/-- The server with one session started, changed or ended. -/
def Server.put (v : Server) (id : ℕ) (session : Option Session) : Server :=
  { v with sessions := Function.update v.sessions id session }

@[simp] theorem Server.put_committed (v : Server) (id : ℕ) (session : Option Session) :
    (v.put id session).committed = v.committed := rfl

@[simp] theorem Server.put_sessions_self (v : Server) (id : ℕ) (session : Option Session) :
    (v.put id session).sessions id = session := by
  simp [Server.put]

theorem Server.put_sessions_of_ne (v : Server) {id id' : ℕ} (session : Option Session)
    (h : id' ≠ id) : (v.put id session).sessions id' = v.sessions id' := by
  simp [Server.put, h]

inductive ServerEvent where
  | begin (id : ℕ) (call : Call)
  | execute (id : ℕ)
  | commit (id : ℕ)
  /-- Rolled back: after a refused statement, or because the connection was lost. -/
  | abort (id : ℕ)

/-- What the caller of a transaction gets to know. -/
inductive ServerOutput where
  | committed (call : Call) (reply : Except PortfolioError Reply)
  | aborted (call : Call)

/-- The reply of a call whose transaction committed. -/
def ServerOutput.reply? : ServerOutput → Option (Call × Except PortfolioError Reply)
  | .committed call reply => some (call, reply)
  | .aborted _ => none

/-- **Nobody else holds the lock** a session asks for. -/
def Server.LockFree (hashtext : String → ℤ) (v : Server) (id : ℕ) (chatId : String) : Prop :=
  ∀ id' s', v.sessions id' = some s' → id' ≠ id → s'.Locked →
    hashtext s'.call.chatId ≠ hashtext chatId

/-- When an event can happen. The lock is the only statement that waits. -/
def Server.legal (hashtext : String → ℤ) (v : Server) : ServerEvent → Prop
  | .begin id _ => v.sessions id = none
  | .execute id => ∃ s statement, v.sessions id = some s ∧ s.failed = false ∧
      s.next? = some statement ∧
      (statement = .lockChat → v.LockFree hashtext id s.call.chatId)
  | .commit id => ∃ s, v.sessions id = some s ∧ s.failed = false ∧ s.next? = none
  | .abort id => ∃ s, v.sessions id = some s

/-- A session after one more statement: it sees what is committed and its own
writes. -/
def Session.execute (s : Session) (committed : Database) (statement : Statement) : Session :=
  match exec s.call.toContext (committed.applyWrites s.writes) statement with
  | .error _ => { s with failed := true }
  | .ok (ws, r) => { s with results := s.results ++ [r], writes := s.writes ++ ws }

def Server.next (v : Server) : ServerEvent → Server
  | .begin id call => v.put id (some { call })
  | .execute id =>
    match v.sessions id with
    | none => v
    | some s =>
      match s.next? with
      | none => v
      | some statement => v.put id (some (s.execute v.committed statement))
  | .commit id =>
    match v.sessions id with
    | none => v
    | some s => { v.put id none with committed := v.committed.applyWrites s.writes }
  | .abort id => v.put id none

def Server.out (v : Server) : ServerEvent → List ServerOutput
  | .commit id =>
    (v.sessions id).toList.map fun s => .committed s.call (s.call.command.finish s.results)
  | .abort id => (v.sessions id).toList.map fun s => .aborted s.call
  | _ => []

/-- **The database server**, for a hash of its own. -/
def server (hashtext : String → ℤ) : System Server ServerEvent ServerOutput where
  legal := Server.legal hashtext
  next := Server.next
  out := Server.out

/-! ### An open transaction could be starting now -/

/-- **Replayed alone on the committed database, the session's statements make the
writes they made.** -/
def Session.Replays (s : Session) (committed : Database) : Prop :=
  execAll s.call.toContext committed (s.call.command.statements.take s.results.length) =
    .ok (s.writes, s.results)

/-- The first statement of a transaction is the lock. -/
theorem Session.next?_of_not_locked {s : Session} (h : ¬s.Locked) : s.next? = some .lockChat := by
  have hnil : s.results = [] := not_not.mp h
  cases hc : s.call.command <;> simp [Session.next?, hnil, hc, Command.statements]

theorem Session.replays_begin (call : Call) (db : Database) :
    Session.Replays { call } db := rfl

theorem Session.Replays.writes_eq_nil {s : Session} {db : Database} (h : s.Replays db)
    (hs : ¬s.Locked) : s.writes = [] := by
  have hnil : s.results = [] := not_not.mp hs
  rw [Session.Replays, hnil] at h
  exact (Prod.mk.inj (Except.ok.inj h)).1.symm

theorem Session.Replays.execute {s : Session} {db : Database} (h : s.Replays db)
    {statement : Statement} (hnext : s.next? = some statement) :
    (s.execute db statement).Replays db := by
  rw [Session.execute]
  cases he : exec s.call.toContext (db.applyWrites s.writes) statement with
  | error error => exact h
  | ok result =>
    have hall := execAll_concat h he
    rw [Session.next?] at hnext
    simpa [Session.Replays, List.take_add_one, hnext] using hall

/-- A commit of another chat changes nothing for this one. -/
theorem Session.Replays.applyWrites {s : Session} {db : Database} (h : s.Replays db)
    {ws : List Write} (hws : s.Locked → ∀ w ∈ ws, w.chatId ≠ s.call.chatId) :
    s.Replays (db.applyWrites ws) := by
  by_cases hl : s.Locked
  · rw [Session.Replays, execAll_congr (view_applyWrites_of_ne (hws hl) db)]
    exact h
  · have hw := h.writes_eq_nil hl
    have hnil : s.results = [] := not_not.mp hl
    rw [Session.Replays, hw, hnil]
    rfl

/-- **A session that ran to its end** did what its call does alone. -/
theorem Session.Replays.run_eq {s : Session} {db : Database} (h : s.Replays db)
    (hend : s.next? = none) :
    db.run s.call = (db.applyWrites s.writes, s.call.command.finish s.results) := by
  have hlen : s.call.command.statements.length ≤ s.results.length := by
    simpa [Session.next?] using hend
  rw [Session.Replays, List.take_of_length_le hlen] at h
  rw [Database.run, h]

theorem Session.locked_of_next?_eq_none {s : Session} (hend : s.next? = none) : s.Locked := by
  intro hnil
  have hlock := Session.next?_of_not_locked (s := s) (not_not.mpr hnil)
  rw [hend] at hlock
  exact absurd hlock (by simp)

/-! ### Serializability -/

/-- **The simulation**: the committed database is the serial one, every open session
replays on it, and no two sessions hold one lock. -/
structure Serial (hashtext : String → ℤ) (v : Server) (db : Database) : Prop where
  committed : v.committed = db
  replays : ∀ id s, v.sessions id = some s → s.Replays db
  exclusive : ∀ id id' s s', v.sessions id = some s → v.sessions id' = some s' → id' ≠ id →
    s.Locked → s'.Locked → hashtext s'.call.chatId ≠ hashtext s.call.chatId

variable {hashtext : String → ℤ} {v : Server} {db : Database}

/-- A session after another one was replaced: the new one, or one that was there. -/
theorem Server.sessions_of_put {id id' : ℕ} {new : Option Session} {s : Session}
    (h : (v.put id new).sessions id' = some s) :
    (id' = id ∧ new = some s) ∨ (id' ≠ id ∧ v.sessions id' = some s) := by
  rcases eq_or_ne id' id with rfl | hne
  · rw [Server.put_sessions_self] at h
    exact Or.inl ⟨rfl, h⟩
  · rw [Server.put_sessions_of_ne v new hne] at h
    exact Or.inr ⟨hne, h⟩

/-- Replacing one session by one that replays, and whose lock nobody else holds, keeps
the simulation; so does ending it. -/
theorem Serial.put (h : Serial hashtext v db) {id : ℕ} {new : Option Session}
    (hs : ∀ s, new = some s → s.Replays db ∧ (s.Locked → v.LockFree hashtext id s.call.chatId)) :
    Serial hashtext (v.put id new) db := by
  refine ⟨h.committed, fun id₁ s₁ h₁ => ?_, fun id₁ id₂ s₁ s₂ h₁ h₂ hne hl₁ hl₂ => ?_⟩
  · rcases Server.sessions_of_put h₁ with ⟨-, hnew⟩ | ⟨-, hold⟩
    · exact (hs s₁ hnew).1
    · exact h.replays id₁ s₁ hold
  · rcases Server.sessions_of_put h₁ with ⟨rfl, hnew₁⟩ | ⟨hid₁, hold₁⟩ <;>
      rcases Server.sessions_of_put h₂ with ⟨rfl, hnew₂⟩ | ⟨hid₂, hold₂⟩
    · exact absurd rfl hne
    · exact (hs s₁ hnew₁).2 hl₁ id₂ s₂ hold₂ hne hl₂
    · exact ((hs s₂ hnew₂).2 hl₂ id₁ s₁ hold₁ hid₁ hl₁).symm
    · exact h.exclusive id₁ id₂ s₁ s₂ hold₁ hold₂ hne hl₁ hl₂

/-- A session that holds its lock is alone with it. -/
theorem Serial.lockFree (h : Serial hashtext v db) {id : ℕ} {s : Session}
    (hs : v.sessions id = some s) (hl : s.Locked) : v.LockFree hashtext id s.call.chatId :=
  fun id' s' hs' hne hl' => h.exclusive id id' s s' hs hs' hne hl hl'

/-- The chat of a session stays the same. -/
theorem Session.call_execute (s : Session) (db : Database) (statement : Statement) :
    (s.execute db statement).call = s.call := by
  rw [Session.execute]
  cases exec s.call.toContext (db.applyWrites s.writes) statement <;> rfl

/-- **A commit**: the other sessions belong to other chats, or have not read anything
yet. -/
theorem Serial.commit (h : Serial hashtext v db) {id : ℕ} {s : Session}
    (hs : v.sessions id = some s) (hl : s.Locked) :
    Serial hashtext { v.put id none with committed := v.committed.applyWrites s.writes }
      (db.applyWrites s.writes) := by
  have hput : Serial hashtext (v.put id none) db := h.put (by simp)
  refine ⟨congrArg (·.applyWrites s.writes) h.committed, fun id' s' hs' => ?_, hput.exclusive⟩
  refine (hput.replays id' s' hs').applyWrites fun hl' w hw => ?_
  rcases Server.sessions_of_put hs' with ⟨-, hnone⟩ | ⟨hne, hold⟩
  · exact absurd hnone (by simp)
  · rw [chatId_of_execAll (h.replays id s hs) w hw]
    exact fun heq => h.exclusive id id' s s' hs hold hne hl hl' (congrArg hashtext heq.symm)

/-- **One event of the server** is either nothing to the serial store, or one call. -/
theorem Serial.step (h : Serial hashtext v db) (e : ServerEvent) (hleg : v.legal hashtext e) :
    ∃ calls, store.Run db calls ∧ Serial hashtext (v.next e) (store.final db calls) ∧
      store.outputs db calls = (v.out e).filterMap ServerOutput.reply? := by
  cases e with
  | begin id call =>
    refine ⟨[], trivial, h.put fun s hs => ?_, rfl⟩
    obtain rfl := Option.some.inj hs
    exact ⟨Session.replays_begin call db, fun hl => absurd rfl hl⟩
  | execute id =>
    obtain ⟨s, statement, hs, -, hnext, hfree⟩ := hleg
    refine ⟨[], trivial, ?_, rfl⟩
    simp only [Server.next, hs, hnext, h.committed]
    refine h.put fun s' hs' => ?_
    obtain rfl := Option.some.inj hs'
    refine ⟨(h.replays id s hs).execute hnext, fun _ => ?_⟩
    rw [Session.call_execute]
    -- A session without its lock is about to take it; one with it holds it alone.
    by_cases hl : s.Locked
    · exact h.lockFree hs hl
    · rw [Session.next?_of_not_locked hl] at hnext
      exact hfree (Option.some.inj hnext).symm
  | commit id =>
    obtain ⟨s, hs, -, hend⟩ := hleg
    have hrun := (h.replays id s hs).run_eq hend
    have hl := Session.locked_of_next?_eq_none hend
    refine ⟨[s.call], ⟨trivial, trivial⟩, ?_, ?_⟩
    · have hfinal : store.final db [s.call] = db.applyWrites s.writes := by
        simp [store, hrun]
      rw [hfinal]
      simp only [Server.next, hs]
      exact h.commit hs hl
    · simp [store, hrun, Server.out, hs, ServerOutput.reply?]
  | abort id =>
    obtain ⟨s, hs⟩ := hleg
    refine ⟨[], trivial, h.put (by simp), ?_⟩
    simp [Server.out, hs, ServerOutput.reply?]

/-- **Serializability**: however the transactions interleave, the committed database and
the replies are those of the committed calls, one after the other. -/
theorem server_serializable {es : List ServerEvent} (hr : (server hashtext).Run {} es) :
    ∃ calls, ((server hashtext).final {} es).committed = store.final {} calls ∧
      store.outputs {} calls =
        ((server hashtext).outputs {} es).filterMap ServerOutput.reply? := by
  have h₀ : Serial hashtext {} {} := ⟨rfl, by simp, by simp⟩
  obtain ⟨calls, -, hser, hout⟩ :=
    System.Run.simulated (fun _ _ e hst hleg => hst.step e hleg) h₀ hr
  exact ⟨calls, hser.committed, hout⟩

end Portfolio

end CryptoZaloBot
