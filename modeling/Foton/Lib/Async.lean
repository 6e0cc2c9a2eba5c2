import Mathlib.Logic.Relation

/-!
# Asynchronous code over a state

A call returns, fails or is dropped at one of its await points. Whatever it did
to the state before that stays done. `Moves` is the rule of reasoning: from a
state in `P` the call changes the state by steps of `R` alone, also when it is
dropped half way, and ends in `Q` when it returns.
-/

namespace Foton

variable {σ τ ε α β : Type}

/-- How a call ends. -/
inductive Outcome (ε α : Type) where
  | ok (a : α)
  | error (e : ε)
  | cancelled
  deriving DecidableEq, Repr

/-- What an await point meets. -/
inductive Fate (ε : Type) where
  | done
  | failed (e : ε)
  | cancelled
  deriving DecidableEq, Repr

def Async (σ ε α : Type) : Type := σ → Outcome ε α × σ

namespace Async

def pure (a : α) : Async σ ε α := fun s => (.ok a, s)

def bind (m : Async σ ε α) (f : α → Async σ ε β) : Async σ ε β := fun s =>
  match m s with
  | (.ok a, t) => f a t
  | (.error e, t) => (.error e, t)
  | (.cancelled, t) => (.cancelled, t)

instance : Monad (Async σ ε) where
  pure := pure
  bind := bind

def throw (e : ε) : Async σ ε α := fun s => (.error e, s)

def get : Async σ ε σ := fun s => (.ok s, s)

def modify (f : σ → σ) : Async σ ε Unit := fun s => (.ok (), f s)

/-- An awaited effect: `full` when it completes, `part` when it does not. -/
def effect (fate : Fate ε) (full part : σ → σ) : Async σ ε Unit := fun s =>
  match fate with
  | .done => (.ok (), full s)
  | .failed e => (.error e, part s)
  | .cancelled => (.cancelled, part s)

/-- An await without an effect on the state. -/
def await (fate : Fate ε) : Async σ ε Unit := effect fate id id

/-- Runs `m` and hands its error to the caller; a dropped call is dropped with its caller. -/
def attempt (m : Async σ ε α) : Async σ ε (Except ε α) := fun s =>
  match m s with
  | (.ok a, t) => (.ok (.ok a), t)
  | (.error e, t) => (.ok (.error e), t)
  | (.cancelled, t) => (.cancelled, t)

/-! ## Moves -/

section
variable (R : σ → σ → Prop)

def Moves (P : σ → Prop) (m : Async σ ε α) (Q : α → σ → Prop) : Prop :=
  ∀ s, P s → Relation.ReflTransGen R s (m s).2 ∧ ∀ a, (m s).1 = .ok a → Q a (m s).2

end

namespace Moves

variable {R : σ → σ → Prop} {P P' : σ → Prop} {m : Async σ ε α} {Q : α → σ → Prop} {S : β → σ → Prop}

theorem pure {a : α} (h : ∀ s, P s → Q a s) : Moves R P (Pure.pure a : Async σ ε α) Q :=
  fun s hs => ⟨.refl, fun _ hb => by cases hb; exact h s hs⟩

theorem throw {e : ε} : Moves R P (Async.throw e : Async σ ε α) Q :=
  fun _ _ => ⟨.refl, fun _ hb => by cases hb⟩

theorem modify {f : σ → σ} {Q : Unit → σ → Prop} (hR : ∀ s, P s → R s (f s)) (h : ∀ s, P s → Q () (f s)) :
    Moves R P (Async.modify f : Async σ ε Unit) Q :=
  fun s hs => ⟨.single (hR s hs), fun _ hb => by cases hb; exact h s hs⟩

theorem effect {fate : Fate ε} {full part : σ → σ} {Q : Unit → σ → Prop}
    (hfull : fate = .done → ∀ s, P s → Relation.ReflTransGen R s (full s) ∧ Q () (full s))
    (hpart : fate ≠ .done → ∀ s, P s → Relation.ReflTransGen R s (part s)) :
    Moves R P (Async.effect fate full part) Q := by
  intro s hs
  cases fate with
  | done => exact ⟨(hfull rfl s hs).1, fun _ _ => (hfull rfl s hs).2⟩
  | failed e => exact ⟨hpart (by simp) s hs, fun _ hb => by cases hb⟩
  | cancelled => exact ⟨hpart (by simp) s hs, fun _ hb => by cases hb⟩

theorem await {fate : Fate ε} {Q : Unit → σ → Prop} (h : ∀ s, P s → Q () s) :
    Moves R P (Async.await fate) Q :=
  effect (fun _ s hs => ⟨.refl, h s hs⟩) (fun _ _ _ => .refl)

theorem bind {f : α → Async σ ε β} (hm : Moves R P m Q) (hf : ∀ a, Moves R (Q a) (f a) S) :
    Moves R P (m >>= f) S := by
  intro s hs
  obtain ⟨hr, hq⟩ := hm s hs
  show Relation.ReflTransGen R s (Async.bind m f s).2 ∧ ∀ b, (Async.bind m f s).1 = .ok b → S b (Async.bind m f s).2
  unfold Async.bind
  rcases hms : m s with ⟨_ | _ | _, t⟩ <;> rw [hms] at hr hq
  · obtain ⟨hr', hs'⟩ := hf _ t (hq _ rfl)
    exact ⟨hr.trans hr', hs'⟩
  · exact ⟨hr, fun _ hb => by cases hb⟩
  · exact ⟨hr, fun _ hb => by cases hb⟩

theorem bind_get {f : σ → Async σ ε β} (hf : ∀ t, P t → Moves R (fun s => s = t) (f t) S) :
    Moves R P (Async.get >>= f) S := fun s hs => hf s hs s rfl

theorem bind_await {fate : Fate ε} {f : Unit → Async σ ε β} (hf : Moves R P (f ()) S) :
    Moves R P (Async.await fate >>= f) S :=
  bind (await fun _ hs => hs) fun _ => hf

theorem pre (hm : Moves R P m Q) (h : ∀ s, P' s → P s) : Moves R P' m Q := fun s hs => hm s (h s hs)

end Moves

end Async

end Foton
