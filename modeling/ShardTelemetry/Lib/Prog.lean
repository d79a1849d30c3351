import Mathlib.Algebra.Order.Ring.Nat

/-!
# Effectful programs and a rely–guarantee logic for them

A `Prog E R α` is a finite tree of effects: it has returned, or it performs one effect `e : E` and
continues with the response `r : R e`.  Between two effects another process may act and a crash may
strike.

`Prog.Safe` is a predicate transformer over a shared state `S`, with a *rely* for what the
environment may do between two effects and a *guarantee* that every single effect satisfies.  A
program interrupted anywhere has only made guaranteed steps, so a guarantee that preserves an
invariant makes it crash-safe.  With `rely := Eq` the logic is the sequential one.

`Cmd` layers a private state and early exit over programs.  An early exit keeps the changes made to
the private state.
-/

/-- A program that performs effects `e : E`, each answered by a response of type `R e`. -/
inductive Prog (E : Type) (R : E → Type) (α : Type) : Type where
  /-- The program has returned. -/
  | ret (a : α) : Prog E R α
  /-- The program performs one effect and continues with the response. -/
  | vis (e : E) (next : R e → Prog E R α) : Prog E R α

namespace Prog

variable {E : Type} {R : E → Type} {α β γ : Type}

/-- Sequential composition. -/
protected def bind : Prog E R α → (α → Prog E R β) → Prog E R β
  | ret a, f => f a
  | vis e next, f => vis e fun r => (next r).bind f

instance : Monad (Prog E R) where
  pure := ret
  bind := Prog.bind

/-- The program that performs one effect and returns its response. -/
def perform (e : E) : Prog E R (R e) := vis e ret

end Prog

/-! ## The logic -/

/-- The rules of a program over the shared state `S`: what its effects do, what its environment may
do between two of them, and what each of its own steps must satisfy. -/
structure Rules (E : Type) (R : E → Type) (S : Type) where
  /-- `step e s r s'`: performing `e` in state `s` may respond `r` and leave `s'`. -/
  step : (e : E) → S → R e → S → Prop
  /-- What the environment may do between two effects. -/
  rely : S → S → Prop
  /-- What every effect of the program guarantees. -/
  guar : S → S → Prop
  /-- The environment may do nothing. -/
  rely_refl : ∀ s, rely s s
  /-- The environment may act repeatedly. -/
  rely_trans : ∀ {s₁ s₂ s₃}, rely s₁ s₂ → rely s₂ s₃ → rely s₁ s₃

namespace Rules

variable {E : Type} {R : E → Type} {S α β : Type} (P : Rules E R S)

/-- `P.Safe p Q s`: started in `s`, every effect of `p` meets the guarantee whatever the environment
does in between, and `Q` holds of the result and the state if `p` returns. -/
def Safe : Prog E R α → (α → S → Prop) → S → Prop
  | .ret a, Q, s => ∀ s', P.rely s s' → Q a s'
  | .vis e next, Q, s =>
    ∀ s₁, P.rely s s₁ → ∀ r s₂, P.step e s₁ r s₂ → P.guar s₁ s₂ ∧ Safe (next r) Q s₂

variable {P} {p : Prog E R α} {Q Q' : α → S → Prop} {s s' : S}

/-- A step of the environment does not disturb a safe program. -/
theorem Safe.of_rely (h : P.Safe p Q s) (hs : P.rely s s') : P.Safe p Q s' := by
  cases p with
  | ret a => exact fun s'' h' => h s'' (P.rely_trans hs h')
  | vis e next => exact fun s₁ h' => h s₁ (P.rely_trans hs h')

/-- The postcondition may be weakened, and it may be used after any further environment step. -/
theorem Safe.consequence (h : P.Safe p Q s)
    (hQ : ∀ a s', (∀ s'', P.rely s' s'' → Q a s'') → Q' a s') : P.Safe p Q' s := by
  induction p generalizing s with
  | ret a => exact fun s' hs => hQ a s' fun s'' hs' => h s'' (P.rely_trans hs hs')
  | vis e next ih =>
    intro s₁ hs r s₂ hstep
    obtain ⟨hg, hnext⟩ := h s₁ hs r s₂ hstep
    exact ⟨hg, ih r hnext⟩

theorem Safe.mono (h : P.Safe p Q s) (hQ : ∀ a s', Q a s' → Q' a s') : P.Safe p Q' s :=
  h.consequence fun a s' hs => hQ a s' (hs s' (P.rely_refl s'))

theorem Safe.bind {f : α → Prog E R β} {Q' : β → S → Prop}
    (h : P.Safe p (fun a s' => P.Safe (f a) Q' s') s) : P.Safe (p >>= f) Q' s := by
  induction p generalizing s with
  | ret a => exact h s (P.rely_refl s)
  | vis e next ih =>
    intro s₁ hs r s₂ hstep
    obtain ⟨hg, hnext⟩ := h s₁ hs r s₂ hstep
    exact ⟨hg, ih r hnext⟩

end Rules

/-! ## Commands: private state and early exit -/

/-- A command over a private state `σ` that may exit early with `ε`; an early exit keeps the private
state as it was left. -/
abbrev Cmd (E : Type) (R : E → Type) (ε σ α : Type) : Type :=
  ExceptT ε (StateT σ (Prog E R)) α

namespace Cmd

variable {E : Type} {R : E → Type} {ε σ α β : Type}

/-- Run a command from a private state. -/
def exec (c : Cmd E R ε σ α) (t : σ) : Prog E R (Except ε α × σ) := c.run.run t

/-- Perform one effect. -/
def perform (e : E) : Cmd E R ε σ (R e) := ExceptT.lift (StateT.lift (Prog.perform e))

/-- Exit early on a failed response. -/
def ofExcept (x : Except ε α) : Cmd E R ε σ α := ExceptT.mk (pure x)

/-- Perform one effect and exit early if its response is a failure. -/
def attempt (e : E) (result : R e → Except ε α) : Cmd E R ε σ α := do
  ofExcept (result (← perform e))

/-- Run a command to its result or its early exit, and go on either way. -/
def observe (c : Cmd E R ε σ α) : Cmd E R ε σ (Except ε α) := ExceptT.lift c.run

variable {S : Type} {P : Rules E R S} {c : Cmd E R ε σ α} {f : α → Cmd E R ε σ β}
  {Q Q' : Except ε α → σ → S → Prop} {Qf : Except ε β → σ → S → Prop} {t : σ} {s : S}

/-- `Cmd.Safe P c t Q s`: run from the private state `t` in the shared state `s`, the command is
safe and leaves its result, private state and shared state in `Q`. -/
def Safe (P : Rules E R S) (c : Cmd E R ε σ α) (t : σ) (Q : Except ε α → σ → S → Prop) (s : S) :
    Prop :=
  P.Safe (c.exec t) (fun x s' => Q x.1 x.2 s') s

theorem Safe.mono (h : Safe P c t Q s) (hQ : ∀ r t' s', Q r t' s' → Q' r t' s') : Safe P c t Q' s :=
  Rules.Safe.mono h fun x s' => hQ x.1 x.2 s'

/-- Sequencing: the second command runs after a result, an early exit leaves at once. -/
theorem Safe.bind (hc : Safe P c t Q s) (hok : ∀ a t' s', Q (.ok a) t' s' → Safe P (f a) t' Qf s')
    (herr : ∀ e t' s', Q (.error e) t' s' → Qf (.error e) t' s') : Safe P (c >>= f) t Qf s := by
  unfold Safe
  refine Rules.Safe.bind (Rules.Safe.consequence hc ?_)
  rintro ⟨r | a, t'⟩ s' h
  · exact fun s'' hs => herr r t' s'' (h s'' hs)
  · exact hok a t' s' (h s' (P.rely_refl s'))

theorem Safe.pure {a : α} (h : ∀ s', P.rely s s' → Q (.ok a) t s') : Safe P (Pure.pure a) t Q s := h

theorem Safe.throw {e : ε} (h : ∀ s', P.rely s s' → Q (.error e) t s') : Safe P (throw e) t Q s := h

theorem Safe.ofExcept {x : Except ε α} (h : ∀ s', P.rely s s' → Q x t s') :
    Safe P (ofExcept x) t Q s := h

theorem Safe.perform {e : E} {Q : Except ε (R e) → σ → S → Prop}
    (h : ∀ s₁, P.rely s s₁ → ∀ r s₂, P.step e s₁ r s₂ →
      P.guar s₁ s₂ ∧ ∀ s₃, P.rely s₂ s₃ → Q (.ok r) t s₃) : Safe P (perform e) t Q s := h

theorem Safe.attempt {e : E} {res : R e → Except ε α}
    (h : ∀ s₁, P.rely s s₁ → ∀ r s₂, P.step e s₁ r s₂ →
      P.guar s₁ s₂ ∧ ∀ s₃, P.rely s₂ s₃ → Q (res r) t s₃) : Safe P (attempt e res) t Q s := h

/-- Observing a command turns both of its exits into a result. -/
theorem Safe.observe {Q : Except ε (Except ε α) → σ → S → Prop}
    (h : Safe P c t (fun r t' s' => Q (.ok r) t' s') s) : Safe P (observe c) t Q s := by
  unfold Safe
  exact Rules.Safe.bind (Rules.Safe.consequence h fun x s' hs => hs)

/-- Going on with an observed outcome, whichever it is. -/
theorem Safe.observe_bind {f : Except ε α → Cmd E R ε σ β} (hc : Safe P c t Q s)
    (hf : ∀ r t' s', Q r t' s' → Safe P (f r) t' Qf s') : Safe P (Cmd.observe c >>= f) t Qf s := by
  refine Safe.bind (Q := fun x t' s' => ∃ r, x = .ok r ∧ Q r t' s')
    (Safe.observe (hc.mono fun r _ _ h => ⟨r, rfl, h⟩)) ?_ ?_
  · rintro _ t' s' ⟨r, heq, h⟩
    cases heq
    exact hf _ t' s' h
  · rintro _ _ _ ⟨_, heq, _⟩
    cases heq

/-- Reading the private state in front of a command. -/
theorem Safe.get_bind {f : σ → Cmd E R ε σ β} (h : Safe P (f t) t Qf s) :
    Safe P (MonadState.get >>= f) t Qf s := h

/-- Changing the private state in front of a command. -/
theorem Safe.modify_bind {g : σ → σ} {f : PUnit → Cmd E R ε σ β} (h : Safe P (f ⟨⟩) (g t) Qf s) :
    Safe P (modify g >>= f) t Qf s := h

/-- Replacing the private state in front of a command. -/
theorem Safe.set_bind {t' : σ} {f : PUnit → Cmd E R ε σ β} (h : Safe P (f ⟨⟩) t' Qf s) :
    Safe P (set t' >>= f) t Qf s := h

/-- A check in front of a command. -/
theorem Safe.ofExcept_bind {x : Except ε α} (hok : ∀ a, x = .ok a → Safe P (f a) t Qf s)
    (herr : ∀ e s', P.rely s s' → Qf (.error e) t s') : Safe P (Cmd.ofExcept x >>= f) t Qf s := by
  cases x with
  | ok a => exact hok a rfl
  | error e => exact herr e

/-! ### Commands that leave their private state alone

Such a command is described by what it leaves in any case and by what its result satisfies, so that
sequencing needs no case for an early exit. -/

/-- The command leaves its private state alone and the shared state in `G`, and a result `a` in
`K a`. -/
def Leaves (P : Rules E R S) (c : Cmd E R ε σ α) (t : σ) (G : S → Prop) (K : α → S → Prop) (s : S) :
    Prop :=
  Safe P c t (fun r t' s' => t' = t ∧ G s' ∧ ∀ a, r = .ok a → K a s') s

/-- The command leaves its private state alone and returns a result `a` in `K a`. -/
def Returns (P : Rules E R S) (c : Cmd E R ε σ α) (t : σ) (K : α → S → Prop) (s : S) : Prop :=
  Safe P c t (fun r t' s' => t' = t ∧ ∃ a, r = .ok a ∧ K a s') s

section Leaves

variable {G G' : S → Prop} {K K' : α → S → Prop} {Kf : β → S → Prop}

theorem Leaves.bind (hc : Leaves P c t G K s) (herr : ∀ e s', G s' → Qf (.error e) t s')
    (hok : ∀ a s', G s' → K a s' → Safe P (f a) t Qf s') : Safe P (c >>= f) t Qf s := by
  refine Safe.bind hc ?_ ?_
  · rintro a _ s' ⟨rfl, hG, hK⟩
    exact hok a s' hG (hK a rfl)
  · rintro e _ s' ⟨rfl, hG, -⟩
    exact herr e s' hG

/-- Sequencing within what is left in any case. -/
theorem Leaves.seq (hc : Leaves P c t G K s) (hG : ∀ s', G s' → G' s')
    (hok : ∀ a s', G s' → K a s' → Leaves P (f a) t G' Kf s') : Leaves P (c >>= f) t G' Kf s :=
  Leaves.bind hc (fun _ s' h => ⟨rfl, hG s' h, nofun⟩) hok

theorem Leaves.mono (hc : Leaves P c t G K s) (hG : ∀ s', G s' → G' s')
    (hK : ∀ a s', G s' → K a s' → K' a s') : Leaves P c t G' K' s :=
  Safe.mono hc fun _ _ s' h => ⟨h.1, hG s' h.2.1, fun a ha => hK a s' h.2.1 (h.2.2 a ha)⟩

theorem Leaves.pure {a : α} (h : ∀ s', P.rely s s' → G s' ∧ K a s') :
    Leaves P (Pure.pure a : Cmd E R ε σ α) t G K s :=
  Safe.pure fun s' hs => ⟨rfl, (h s' hs).1, fun _ ha => Except.ok.inj ha ▸ (h s' hs).2⟩

theorem Leaves.ofExcept_bind {x : Except ε α} (hG : ∀ s', P.rely s s' → G s')
    (hok : ∀ a, x = .ok a → Leaves P (f a) t G Kf s) : Leaves P (Cmd.ofExcept x >>= f) t G Kf s :=
  Safe.ofExcept_bind hok fun _ s' hs => ⟨rfl, hG s' hs, nofun⟩

theorem Leaves.observe_bind {f : Except ε α → Cmd E R ε σ β} (hc : Leaves P c t G K s)
    (hf : ∀ r s', G s' → (∀ a, r = .ok a → K a s') → Safe P (f r) t Qf s') :
    Safe P (Cmd.observe c >>= f) t Qf s := by
  refine Safe.observe_bind hc ?_
  rintro r _ s' ⟨rfl, hG, hK⟩
  exact hf r s' hG hK

theorem Returns.bind (hc : Returns P c t K s) (hok : ∀ a s', K a s' → Safe P (f a) t Qf s') :
    Safe P (c >>= f) t Qf s := by
  refine Safe.bind hc ?_ ?_
  · rintro _ _ s' ⟨rfl, a, heq, hK⟩
    cases heq
    exact hok _ s' hK
  · rintro _ _ _ ⟨-, _, heq, -⟩
    cases heq

end Leaves

/-! ### Commands that keep an invariant

A command that leaves its private state alone and only keeps an invariant is described by what its
result satisfies.  The invariant is indexed: a command may move from one index to another. -/

/-- Run in any state of `I i`, the command leaves its private state alone, ends in some `I j`, and a
result `a` satisfies `K a j`. -/
def Keeps {ι : Type} (P : Rules E R S) (I : ι → S → Prop) (t : σ) (i : ι) (c : Cmd E R ε σ α)
    (K : α → ι → Prop) : Prop :=
  ∀ s, I i s → Safe P c t (fun r t' s' => t' = t ∧ ∃ j, I j s' ∧ ∀ a, r = .ok a → K a j) s

section Keeps

variable {ι : Type} {I : ι → S → Prop} {i : ι} {K K' : α → ι → Prop} {Kf : β → ι → Prop}

theorem Keeps.mono (h : Keeps P I t i c K) (hK : ∀ a j, K a j → K' a j) : Keeps P I t i c K' :=
  fun s hs => (h s hs).mono fun _ _ _ ⟨ht, j, hj, ha⟩ => ⟨ht, j, hj, fun a hr => hK a j (ha a hr)⟩

theorem Keeps.bind (hc : Keeps P I t i c K) (hf : ∀ a j, K a j → Keeps P I t j (f a) Kf) :
    Keeps P I t i (c >>= f) Kf := by
  intro s hs
  refine Safe.bind (hc s hs) ?_ ?_
  · rintro a t' s' ⟨rfl, j, hj, ha⟩
    exact hf a j (ha a rfl) s' hj
  · rintro e t' s' ⟨rfl, j, hj, -⟩
    exact ⟨rfl, j, hj, nofun⟩

variable {x : Except ε α} {a : α} {e : E} {res : R e → Except ε α}

section

variable (hI : ∀ i s s', I i s → P.rely s s' → I i s')
include hI

theorem Keeps.ofExcept (h : ∀ a, x = .ok a → K a i) : Keeps P I t i (ofExcept x) K :=
  fun s hs => Safe.ofExcept fun s' hr => ⟨rfl, i, hI i s s' hs hr, h⟩

theorem Keeps.pure (h : K a i) : Keeps P I t i (Pure.pure a : Cmd E R ε σ α) K :=
  fun s hs => Safe.pure fun s' hr => ⟨rfl, i, hI i s s' hs hr, fun _ heq => Except.ok.inj heq ▸ h⟩

theorem Keeps.attempt
    (h : ∀ s r s', I i s → P.step e s r s' → P.guar s s' ∧ ∃ j, I j s' ∧
      ∀ a, res r = .ok a → K a j) :
    Keeps P I t i (attempt e res) K := by
  intro s hs
  refine Safe.attempt fun s₁ hr r s₂ hstep => ?_
  obtain ⟨hg, j, hj, ha⟩ := h s₁ r s₂ (hI i s s₁ hs hr) hstep
  exact ⟨hg, fun s₃ hr' => ⟨rfl, j, hI j s₂ s₃ hj hr', ha⟩⟩

theorem Keeps.perform {K : R e → ι → Prop}
    (h : ∀ s r s', I i s → P.step e s r s' → P.guar s s' ∧ ∃ j, I j s' ∧ K r j) :
    Keeps P I t i (perform e : Cmd E R ε σ (R e)) K := by
  intro s hs
  refine Safe.perform fun s₁ hr r s₂ hstep => ?_
  obtain ⟨hg, j, hj, hK⟩ := h s₁ r s₂ (hI i s s₁ hs hr) hstep
  exact ⟨hg, fun s₃ hr' => ⟨rfl, j, hI j s₂ s₃ hj hr', fun a heq => Except.ok.inj heq ▸ hK⟩⟩

end

/-- Reading the private state in front of a command. -/
theorem Keeps.get_bind {f : σ → Cmd E R ε σ β} (h : Keeps P I t i (f t) Kf) :
    Keeps P I t i (MonadState.get >>= f) Kf := h

/-- A check in front of a command. -/
theorem Keeps.ofExcept_bind (hI : ∀ i s s', I i s → P.rely s s' → I i s')
    (h : ∀ a, x = .ok a → Keeps P I t i (f a) Kf) : Keeps P I t i (Cmd.ofExcept x >>= f) Kf := by
  refine Keeps.bind (Keeps.ofExcept hI (K := fun a j => j = i ∧ x = .ok a) fun a ha => ⟨rfl, ha⟩) ?_
  rintro a _ ⟨rfl, ha⟩
  exact h a ha

/-- A command that stays at one index of the invariant. -/
def KeepsAt (P : Rules E R S) (I : ι → S → Prop) (t : σ) (i : ι) (c : Cmd E R ε σ α)
    (K : α → Prop) : Prop :=
  Keeps P I t i c fun a j => j = i ∧ K a

theorem KeepsAt.bind {K : α → Prop} (hc : KeepsAt P I t i c K)
    (hf : ∀ a, K a → Keeps P I t i (f a) Kf) : Keeps P I t i (c >>= f) Kf := by
  refine Keeps.bind hc ?_
  rintro a _ ⟨rfl, ha⟩
  exact hf a ha

theorem KeepsAt.mono {K K' : α → Prop} (h : KeepsAt P I t i c K) (hK : ∀ a, K a → K' a) :
    KeepsAt P I t i c K' :=
  Keeps.mono h fun a _ ⟨hj, ha⟩ => ⟨hj, hK a ha⟩

section

variable (hI : ∀ i s s', I i s → P.rely s s' → I i s') {K : α → Prop}
include hI

theorem KeepsAt.pure (h : K a) : KeepsAt P I t i (Pure.pure a : Cmd E R ε σ α) K :=
  Keeps.pure hI ⟨rfl, h⟩

theorem KeepsAt.ofExcept (h : ∀ a, x = .ok a → K a) : KeepsAt P I t i (Cmd.ofExcept x) K :=
  Keeps.ofExcept hI fun a ha => ⟨rfl, h a ha⟩

theorem KeepsAt.attempt
    (h : ∀ s r s', I i s → P.step e s r s' → P.guar s s' ∧ I i s' ∧ ∀ a, res r = .ok a → K a) :
    KeepsAt P I t i (Cmd.attempt e res) K := by
  refine Keeps.attempt hI fun s r s' hs hstep => ?_
  obtain ⟨hg, hs', ha⟩ := h s r s' hs hstep
  exact ⟨hg, i, hs', fun a heq => ⟨rfl, ha a heq⟩⟩

end

end Keeps

end Cmd
