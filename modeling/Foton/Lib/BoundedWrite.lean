import Mathlib.Data.List.Basic

/-!
# Writing under a budget

An action writes to a sink whose remaining bytes are counted, and fails when
they run out or when it refuses its input. A composed action succeeds exactly
when its parts accept and the budget covers their bytes together; where it
fails, part of the bytes may have been written.
-/

namespace Foton

structure BoundedSink where
  written : List UInt8
  remaining : Nat
  deriving DecidableEq, Repr

abbrev BoundedWrite (ε : Type) := BoundedSink → Except ε Unit × BoundedSink

namespace BoundedWrite

variable {ε : Type}

def skip : BoundedWrite ε := fun s => (.ok (), s)

def fail (error : ε) : BoundedWrite ε := fun s => (.error error, s)

def seq (first second : BoundedWrite ε) : BoundedWrite ε := fun s =>
  match first s with
  | (.error error, s) => (.error error, s)
  | (.ok (), s) => second s

/-- A check, and what follows it. -/
def require (error : ε) (condition : Bool) (next : BoundedWrite ε) : BoundedWrite ε :=
  if condition then next else fail error

/-- A check that the budget has a minimum left. -/
def ensureRemaining (error : ε) (minimum : Nat) (next : BoundedWrite ε) : BoundedWrite ε := fun s =>
  if minimum > s.remaining then (.error error, s) else next s

def writeAll (error : ε) (bytes : List UInt8) : BoundedWrite ε := fun s =>
  if bytes.length > s.remaining then (.error error, s)
  else (.ok (), { written := s.written ++ bytes, remaining := s.remaining - bytes.length })

def seqAll : List (BoundedWrite ε) → BoundedWrite ε
  | [] => skip
  | first :: rest => seq first (seqAll rest)

/-- The action writes the bytes if it accepts and they fit, and fails otherwise. -/
structure Writes (action : BoundedWrite ε) (accepts : Prop) (bytes : List UInt8) : Prop where
  ok : ∀ s, accepts → bytes.length ≤ s.remaining →
    action s = (.ok (), { written := s.written ++ bytes, remaining := s.remaining - bytes.length })
  error : ∀ s, ¬ (accepts ∧ bytes.length ≤ s.remaining) →
    ∃ error extra remaining, action s = (.error error, { written := s.written ++ extra, remaining })

variable {action first second next : BoundedWrite ε} {accepts accepts' : Prop} {bytes bytes' : List UInt8}

theorem Writes.congr (h : Writes action accepts bytes) (heq : accepts ↔ accepts') : Writes action accepts' bytes where
  ok s ha := h.ok s (heq.mpr ha)
  error s hne := h.error s fun ha => hne ⟨heq.mp ha.1, ha.2⟩

theorem writes_skip : Writes (skip : BoundedWrite ε) True [] where
  ok s _ _ := by simp [skip]
  error s hne := absurd ⟨trivial, by simp⟩ hne

theorem writes_fail (error : ε) (bytes : List UInt8) : Writes (fail error) False bytes where
  ok s ha := absurd ha id
  error s _ := ⟨error, [], s.remaining, by simp [fail]⟩

theorem writes_writeAll (error : ε) (bytes : List UInt8) : Writes (writeAll error bytes) True bytes where
  ok s _ hle := by
    unfold writeAll
    rw [if_neg (by omega)]
  error s hne := by
    have hlt : bytes.length > s.remaining := by
      by_contra hle
      exact hne ⟨trivial, by omega⟩
    refine ⟨error, [], s.remaining, ?_⟩
    unfold writeAll
    rw [if_pos hlt]
    simp

theorem Writes.seq (h : Writes first accepts bytes) (h' : Writes second accepts' bytes') :
    Writes (BoundedWrite.seq first second) (accepts ∧ accepts') (bytes ++ bytes') where
  ok s ha hle := by
    rw [List.length_append] at hle
    have hrest : bytes'.length ≤ s.remaining - bytes.length := by omega
    simp only [BoundedWrite.seq, h.ok s ha.1 (by omega)]
    rw [h'.ok { written := s.written ++ bytes, remaining := s.remaining - bytes.length } ha.2 hrest]
    simp [Nat.sub_sub]
  error s hne := by
    by_cases hfirst : accepts ∧ bytes.length ≤ s.remaining
    · have hsecond : ¬ (accepts' ∧ bytes'.length ≤ s.remaining - bytes.length) := by
        intro hs
        apply hne
        rw [List.length_append]
        exact ⟨⟨hfirst.1, hs.1⟩, by omega⟩
      obtain ⟨error, extra, remaining, heq⟩ := h'.error { written := s.written ++ bytes, remaining := s.remaining - bytes.length } hsecond
      refine ⟨error, bytes ++ extra, remaining, ?_⟩
      simp only [BoundedWrite.seq, h.ok s hfirst.1 hfirst.2, heq]
      simp
    · obtain ⟨error, extra, remaining, heq⟩ := h.error s hfirst
      refine ⟨error, extra, remaining, ?_⟩
      simp only [BoundedWrite.seq, heq]

theorem Writes.require (h : Writes next accepts bytes) (error : ε) (condition : Bool) :
    Writes (BoundedWrite.require error condition next) (condition = true ∧ accepts) bytes := by
  cases condition with
  | true => exact h.congr (by simp)
  | false => exact (writes_fail error bytes).congr (by simp)

theorem Writes.ensureRemaining (h : Writes next accepts bytes) (error : ε) {minimum : Nat}
    (hmin : minimum ≤ bytes.length) : Writes (BoundedWrite.ensureRemaining error minimum next) accepts bytes where
  ok s ha hle := by
    unfold BoundedWrite.ensureRemaining
    rw [if_neg (by omega)]
    exact h.ok s ha hle
  error s hne := by
    unfold BoundedWrite.ensureRemaining
    by_cases hlt : minimum > s.remaining
    · exact ⟨error, [], s.remaining, by simp [hlt]⟩
    · rw [if_neg hlt]
      exact h.error s hne

theorem writes_seqAll {α : Type} (write : α → BoundedWrite ε) (accepts : α → Prop) (bytes : α → List UInt8) :
    ∀ {xs : List α}, (∀ x ∈ xs, Writes (write x) (accepts x) (bytes x)) →
      Writes (seqAll (xs.map write)) (∀ x ∈ xs, accepts x) (xs.flatMap bytes) := by
  intro xs
  induction xs with
  | nil =>
    intro _
    exact writes_skip.congr (by simp)
  | cons x xs ih =>
    intro h
    have hx := h x List.mem_cons_self
    have hxs := ih fun y hy => h y (List.mem_cons_of_mem _ hy)
    exact (hx.seq hxs).congr (by simp)

theorem require_seq (error : ε) (condition : Bool) (next second : BoundedWrite ε) :
    BoundedWrite.seq (BoundedWrite.require error condition next) second =
      BoundedWrite.require error condition (BoundedWrite.seq next second) := by
  cases condition <;> rfl

theorem ensureRemaining_seq (error : ε) (minimum : Nat) (next second : BoundedWrite ε) :
    BoundedWrite.seq (BoundedWrite.ensureRemaining error minimum next) second =
      BoundedWrite.ensureRemaining error minimum (BoundedWrite.seq next second) := by
  funext s
  unfold BoundedWrite.seq BoundedWrite.ensureRemaining
  by_cases hlt : minimum > s.remaining
  · simp [hlt]
  · simp [hlt]

end BoundedWrite
end Foton
