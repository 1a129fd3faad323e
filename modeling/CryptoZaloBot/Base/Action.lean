/-!
# Actions that may throw

A program that calls services is an action: from a state it returns or throws, and in either
case it leaves a state. What was done before an exception stays done.

Three kinds of statements about actions are made compositional here.

* An action *keeps* a view of the state (`CryptoZaloBot.Action.Keeps`), or changes it in one way
  (`CryptoZaloBot.Action.Moves`).
* It *replies*: it adds one entry to a log if it returns and none if it throws. Caught by a
  handler that always adds one, it adds exactly one (`CryptoZaloBot.Action.Replies.tryCatch`).
* Two runs of it, or runs of two actions, are *alike*: from states that belong together they come
  to states that belong together, and end the same way (`CryptoZaloBot.Action.Alike`). An action
  that is alike to itself *respects* what belongs together (`CryptoZaloBot.Action.Respects`).
-/

namespace CryptoZaloBot

/-- **An action**: what it returns or throws, and the state it leaves. -/
def Action (σ ε α : Type) : Type := σ → Except ε α × σ

namespace Action

variable {σ ρ ε α β γ μ : Type}

instance : Monad (Action σ ε) where
  pure a s := (.ok a, s)
  bind x f s :=
    match x s with
    | (.ok a, s') => f a s'
    | (.error e, s') => (.error e, s')

/-- `throw`. -/
def throw (e : ε) : Action σ ε α := fun s => (.error e, s)

/-- `try … catch`. -/
def tryCatch (x : Action σ ε α) (handler : ε → Action σ ε α) : Action σ ε α := fun s =>
  match x s with
  | (.ok a, s') => (.ok a, s')
  | (.error e, s') => handler e s'

/-- A value that may be an error. -/
def ofExcept : Except ε α → Action σ ε α
  | .ok a => Pure.pure a
  | .error e => throw e

/-- `for (const a of as)`. -/
def forEach : List α → (α → Action σ ε Unit) → Action σ ε Unit
  | [], _ => Pure.pure ()
  | a :: as, f => f a >>= fun _ => forEach as f

/-- An action on the first of two states. -/
def first (x : Action σ ε α) : Action (σ × ρ) ε α := fun s =>
  match x s.1 with
  | (r, s') => (r, (s', s.2))

/-- A change of the second of two states. -/
def modifySecond (f : ρ → ρ) : Action (σ × ρ) ε Unit := fun s => (.ok (), (s.1, f s.2))

@[simp] theorem pure_run (a : α) (s : σ) : (Pure.pure a : Action σ ε α) s = (.ok a, s) := rfl

@[simp] theorem throw_run (e : ε) (s : σ) : (throw e : Action σ ε α) s = (.error e, s) := rfl

@[simp] theorem first_fst (x : Action σ ε α) (s : σ × ρ) : (x.first s).1 = (x s.1).1 := rfl

@[simp] theorem first_snd (x : Action σ ε α) (s : σ × ρ) : (x.first s).2 = ((x s.1).2, s.2) := rfl

theorem bind_run_ok {x : Action σ ε α} {f : α → Action σ ε β} {s s' : σ} {a : α}
    (h : x s = (.ok a, s')) : (x >>= f) s = f a s' := by
  change (match x s with | (.ok a, s') => f a s' | (.error e, s') => (.error e, s')) = _
  rw [h]

theorem bind_run_error {x : Action σ ε α} {f : α → Action σ ε β} {s s' : σ} {e : ε}
    (h : x s = (.error e, s')) : (x >>= f) s = (.error e, s') := by
  change (match x s with | (.ok a, s') => f a s' | (.error e, s') => (.error e, s')) = _
  rw [h]

theorem tryCatch_run_ok {x : Action σ ε α} {handler : ε → Action σ ε α} {s s' : σ} {a : α}
    (h : x s = (.ok a, s')) : x.tryCatch handler s = (.ok a, s') := by
  rw [tryCatch, h]

theorem tryCatch_run_error {x : Action σ ε α} {handler : ε → Action σ ε α} {s s' : σ} {e : ε}
    (h : x s = (.error e, s')) : x.tryCatch handler s = handler e s' := by
  rw [tryCatch, h]

/-- The two ways an action ends. -/
theorem run_cases (x : Action σ ε α) (s : σ) :
    (∃ a s', x s = (.ok a, s')) ∨ ∃ e s', x s = (.error e, s') := by
  rcases h : x s with ⟨e | a, s'⟩
  · exact Or.inr ⟨e, s', rfl⟩
  · exact Or.inl ⟨a, s', rfl⟩

/-! ### Actions that never throw -/

/-- **The action returns.** -/
def Total (x : Action σ ε α) : Prop := ∀ s, ∃ a, (x s).1 = .ok a

theorem Total.run {x : Action σ ε α} (h : Total x) (s : σ) : ∃ a s', x s = (.ok a, s') := by
  obtain ⟨a, ha⟩ := h s
  exact ⟨a, (x s).2, Prod.ext ha rfl⟩

theorem Total.pure (a : α) : Total (Pure.pure a : Action σ ε α) := fun _ => ⟨a, rfl⟩

theorem Total.modifySecond (f : ρ → ρ) : Total (modifySecond f : Action (σ × ρ) ε Unit) :=
  fun _ => ⟨(), rfl⟩

theorem Total.bind {x : Action σ ε α} {f : α → Action σ ε β} (hx : Total x)
    (hf : ∀ a, Total (f a)) : Total (x >>= f) := by
  intro s
  obtain ⟨a, s', hrun⟩ := hx.run s
  rw [bind_run_ok hrun]
  exact hf a s'

/-- Caught, an action that may throw is one that returns. -/
theorem Total.tryCatch {x : Action σ ε α} {handler : ε → Action σ ε α}
    (h : ∀ e, Total (handler e)) : Total (x.tryCatch handler) := by
  intro s
  rcases x.run_cases s with ⟨a, s', hrun⟩ | ⟨e, s', hrun⟩
  · rw [tryCatch_run_ok hrun]
    exact ⟨a, rfl⟩
  · rw [tryCatch_run_error hrun]
    exact h e s'

/-! ### What an action leaves alone -/

/-- **The action does not change what is seen of the state.** -/
def Keeps (view : σ → μ) (x : Action σ ε α) : Prop := ∀ s, view (x s).2 = view s

section Keeps

variable {view : σ → μ} {x : Action σ ε α}

theorem Keeps.pure (a : α) : Keeps view (Pure.pure a : Action σ ε α) := fun _ => rfl

theorem Keeps.throw (e : ε) : Keeps view (throw e : Action σ ε α) := fun _ => rfl

theorem Keeps.ofExcept (r : Except ε α) : Keeps view (ofExcept r : Action σ ε α) := by
  cases r with
  | error e => exact .throw e
  | ok a => exact .pure a

theorem Keeps.bind {f : α → Action σ ε β} (hx : Keeps view x) (hf : ∀ a, Keeps view (f a)) :
    Keeps view (x >>= f) := by
  intro s
  have hs := hx s
  rcases x.run_cases s with ⟨a, s', hrun⟩ | ⟨e, s', hrun⟩
  · rw [hrun] at hs
    rw [bind_run_ok hrun, hf a s', hs]
  · rw [hrun] at hs
    rw [bind_run_error hrun, hs]

theorem Keeps.tryCatch {handler : ε → Action σ ε α} (hx : Keeps view x)
    (h : ∀ e, Keeps view (handler e)) : Keeps view (x.tryCatch handler) := by
  intro s
  have hs := hx s
  rcases x.run_cases s with ⟨a, s', hrun⟩ | ⟨e, s', hrun⟩
  · rw [hrun] at hs
    rw [tryCatch_run_ok hrun, hs]
  · rw [hrun] at hs
    rw [tryCatch_run_error hrun, h e s', hs]

theorem Keeps.comp {ν : Type} (g : μ → ν) (hx : Keeps view x) : Keeps (g ∘ view) x :=
  fun s => congrArg g (hx s)

/-- Where only the first of two states is seen. -/
theorem Keeps.first (hx : Keeps view x) : Keeps (fun s : σ × ρ => view s.1) x.first :=
  fun s => hx s.1

theorem Keeps.modifySecond (f : ρ → ρ) :
    Keeps (fun s : σ × ρ => view s.1) (modifySecond f : Action (σ × ρ) ε Unit) := fun _ => rfl

end Keeps

/-- **The action changes what is seen of the state in one way**, whether it returns or throws. -/
def Moves (view : σ → μ) (f : μ → μ) (x : Action σ ε α) : Prop := ∀ s, view (x s).2 = f (view s)

section Moves

variable {view : σ → μ} {f : μ → μ} {x : Action σ ε α}

theorem Moves.first (hx : Moves view f x) :
    Moves (fun s : σ × ρ => view s.1) f x.first := fun s => hx s.1

/-- Nothing happens after the change. -/
theorem Moves.bind {g : α → Action σ ε β} (hx : Moves view f x) (hg : ∀ a, Keeps view (g a)) :
    Moves view f (x >>= g) := by
  intro s
  have hs := hx s
  rcases x.run_cases s with ⟨a, s', hrun⟩ | ⟨e, s', hrun⟩
  · rw [hrun] at hs
    rw [bind_run_ok hrun, hg a s', hs]
  · rw [hrun] at hs
    rw [bind_run_error hrun, hs]

/-- Nothing happens before it, and it is sure to come. -/
theorem Moves.after {g : α → Action σ ε β} (hx : Keeps view x) (htotal : Total x)
    (hg : ∀ a, Moves view f (g a)) : Moves view f (x >>= g) := by
  intro s
  obtain ⟨a, s', hrun⟩ := htotal.run s
  have hs := hx s
  rw [hrun] at hs
  rw [bind_run_ok hrun, hg a s', hs]

theorem Moves.tryCatch {handler : ε → Action σ ε α} (hx : Moves view f x)
    (h : ∀ e, Keeps view (handler e)) : Moves view f (x.tryCatch handler) := by
  intro s
  have hs := hx s
  rcases x.run_cases s with ⟨a, s', hrun⟩ | ⟨e, s', hrun⟩
  · rw [hrun] at hs
    rw [tryCatch_run_ok hrun, hs]
  · rw [hrun] at hs
    rw [tryCatch_run_error hrun, h e s', hs]

end Moves

/-! ### One entry in the log -/

/-- The action returns and adds one entry. -/
def Says (log : σ → List μ) (P : μ → Prop) (x : Action σ ε α) : Prop :=
  ∀ s, (∃ a, (x s).1 = .ok a) ∧ ∃ m, P m ∧ log (x s).2 = log s ++ [m]

/-- **The action replies**: one entry if it returns, none if it throws. -/
def Replies (log : σ → List μ) (P : μ → Prop) (x : Action σ ε α) : Prop :=
  ∀ s, match (x s).1 with
    | .ok _ => ∃ m, P m ∧ log (x s).2 = log s ++ [m]
    | .error _ => log (x s).2 = log s

section Replies

variable {log : σ → List μ} {P : μ → Prop} {x : Action σ ε α}

theorem Says.replies (h : Says log P x) : Replies log P x := by
  intro s
  obtain ⟨⟨a, ha⟩, hm⟩ := h s
  rw [ha]
  exact hm

theorem Replies.throw (e : ε) : Replies log P (throw e : Action σ ε α) := fun _ => rfl

/-- What comes before the reply may throw but says nothing. -/
theorem Replies.after {f : α → Action σ ε β} (hx : Keeps log x) (hf : ∀ a, Replies log P (f a)) :
    Replies log P (x >>= f) := by
  intro s
  have hs := hx s
  rcases x.run_cases s with ⟨a, s', hrun⟩ | ⟨e, s', hrun⟩
  · rw [hrun] at hs
    have hrest := hf a s'
    rw [bind_run_ok hrun]
    rwa [show log s' = log s from hs] at hrest
  · rw [hrun] at hs
    rw [bind_run_error hrun]
    exact hs

/-- What comes after the reply neither throws nor says anything. -/
theorem Says.before {f : α → Action σ ε β} (hx : Says log P x) (hf : ∀ a, Keeps log (f a))
    (htotal : ∀ a, Total (f a)) : Says log P (x >>= f) := by
  intro s
  obtain ⟨⟨a, ha⟩, m, hm, hlog⟩ := hx s
  have hrun : x s = (.ok a, (x s).2) := Prod.ext ha rfl
  rw [bind_run_ok hrun, hf a]
  exact ⟨htotal a _, m, hm, hlog⟩

/-- **Exactly one entry**: either the action replies or, when it throws, the handler does. -/
theorem Replies.tryCatch {handler : ε → Action σ ε α} (hx : Replies log P x)
    (h : ∀ e, Says log P (handler e)) : Says log P (x.tryCatch handler) := by
  intro s
  have hs := hx s
  rcases x.run_cases s with ⟨a, s', hrun⟩ | ⟨e, s', hrun⟩
  · rw [hrun] at hs
    rw [tryCatch_run_ok hrun]
    exact ⟨⟨a, rfl⟩, hs⟩
  · rw [hrun] at hs
    rw [tryCatch_run_error hrun, ← show log s' = log s from hs]
    exact h e s'

end Replies

/-! ### Two runs -/

/-- Two ends of a run: the same error, or two results that belong together. -/
def SameEnd (Q : α → β → Prop) : Except ε α → Except ε β → Prop
  | .ok a, .ok b => Q a b
  | .error e, .error e' => e = e'
  | _, _ => False

/-- **Two actions are alike**: from states that belong together they come to states that belong
together, and end the same way. -/
def Alike (R : σ → σ → Prop) (Q : α → β → Prop) (x : Action σ ε α) (y : Action σ ε β) : Prop :=
  ∀ s s', R s s' → R (x s).2 (y s').2 ∧ SameEnd Q (x s).1 (y s').1

/-- **The action is alike to itself**: where states belong together, it tells nothing else apart. -/
abbrev Respects (R : σ → σ → Prop) (x : Action σ ε α) : Prop := Alike R Eq x x

theorem SameEnd.refl (r : Except ε α) : SameEnd Eq r r := by
  cases r <;> rfl

section Alike

variable {R : σ → σ → Prop} {Q : α → β → Prop} {x : Action σ ε α} {y : Action σ ε β}

theorem Alike.pure {a : α} {b : β} (h : Q a b) :
    Alike R Q (Pure.pure a : Action σ ε α) (Pure.pure b) := fun _ _ hs => ⟨hs, h⟩

theorem Alike.throw (e : ε) : Alike R Q (throw e : Action σ ε α) (throw e) :=
  fun _ _ hs => ⟨hs, rfl⟩

theorem Alike.ofExcept (r : Except ε α) : Respects R (ofExcept r : Action σ ε α) := by
  cases r with
  | error e => exact .throw e
  | ok a => exact .pure rfl

/-- Two actions that return: it is enough what they do to the state. -/
theorem Alike.of_total {x y : Action σ ε Unit} (h : ∀ s s', R s s' → R (x s).2 (y s').2)
    (hx : Total x) (hy : Total y) : Alike R Eq x y := by
  intro s s' hs
  obtain ⟨a, ha⟩ := hx s
  obtain ⟨b, hb⟩ := hy s'
  rw [ha, hb]
  exact ⟨h s s' hs, rfl⟩

theorem Alike.bind {α' β' : Type} {P : α' → β' → Prop} {f : α → Action σ ε α'}
    {g : β → Action σ ε β'} (hxy : Alike R Q x y)
    (hfg : ∀ a b, Q a b → Alike R P (f a) (g b)) : Alike R P (x >>= f) (y >>= g) := by
  intro s s' hs
  obtain ⟨hstates, hend⟩ := hxy s s' hs
  rcases x.run_cases s with ⟨a, t, hx⟩ | ⟨e, t, hx⟩ <;>
    rcases y.run_cases s' with ⟨b, t', hy⟩ | ⟨e', t', hy⟩ <;> rw [hx, hy] at hstates hend
  · rw [bind_run_ok hx, bind_run_ok hy]
    exact hfg a b hend t t' hstates
  · exact hend.elim
  · exact hend.elim
  · rw [bind_run_error hx, bind_run_error hy]
    exact ⟨hstates, hend⟩

/-- Both come to the same result and go on from it. -/
theorem Alike.bind_same {β' γ' : Type} {P : β' → γ' → Prop} {x y : Action σ ε α}
    {f : α → Action σ ε β'} {g : α → Action σ ε γ'} (hxy : Alike R Eq x y)
    (hfg : ∀ a, Alike R P (f a) (g a)) : Alike R P (x >>= f) (y >>= g) :=
  hxy.bind fun a _ hab => hab ▸ hfg a

theorem Alike.tryCatch {handler : ε → Action σ ε α} {handler' : ε → Action σ ε β}
    (hxy : Alike R Q x y) (h : ∀ e, Alike R Q (handler e) (handler' e)) :
    Alike R Q (x.tryCatch handler) (y.tryCatch handler') := by
  intro s s' hs
  obtain ⟨hstates, hend⟩ := hxy s s' hs
  rcases x.run_cases s with ⟨a, t, hx⟩ | ⟨e, t, hx⟩ <;>
    rcases y.run_cases s' with ⟨b, t', hy⟩ | ⟨e', t', hy⟩ <;> rw [hx, hy] at hstates hend
  · rw [tryCatch_run_ok hx, tryCatch_run_ok hy]
    exact ⟨hstates, hend⟩
  · exact hend.elim
  · exact hend.elim
  · rw [tryCatch_run_error hx, tryCatch_run_error hy]
    obtain rfl : e = e' := hend
    exact h e t t' hstates

theorem Alike.forEach {as : List γ} {f g : γ → Action σ ε Unit}
    (h : ∀ a ∈ as, Alike R Eq (f a) (g a)) : Alike R Eq (forEach as f) (forEach as g) := by
  induction as with
  | nil => exact .pure rfl
  | cons a as ih =>
    exact (h a List.mem_cons_self).bind fun _ _ _ => ih fun b hb => h b (List.mem_cons_of_mem a hb)

/-- Where only the first of two states counts. -/
theorem Alike.first (hxy : Alike R Q x y) :
    Alike (fun s s' : σ × ρ => R s.1 s'.1) Q x.first y.first := fun s s' hs => hxy s.1 s'.1 hs

theorem Alike.modifySecond (f g : ρ → ρ) :
    Alike (fun s s' : σ × ρ => R s.1 s'.1) Eq (modifySecond f : Action (σ × ρ) ε Unit)
      (modifySecond g) := fun _ _ hs => ⟨hs, rfl⟩

end Alike

end Action

end CryptoZaloBot
