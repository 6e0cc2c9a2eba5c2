import Mathlib.Data.List.Basic
import Mathlib.Data.List.Forall2
import Mathlib.Data.List.Induction

/-!
# The signature cache of a player's chat

The server keeps for each player the signatures that the player's client has
cached, so that it can send an index in place of a signature. The client keeps
an array of 128 optional entries; the server keeps a queue, and replaces the
whole queue by the slots a push has visited.
-/

namespace Foton
namespace Chat

abbrev Signature := List UInt8

def maxCachedSignatures : Nat := 128

/-- What one call of `push` is given. -/
structure Push where
  lastSeen : List Signature
  current : Option Signature
  deriving DecidableEq

/-- The signatures to push, the most recent at the end. -/
def Push.deque (p : Push) : List Signature :=
  p.lastSeen ++ p.current.toList

/-- The displaced entry goes back to the old end unless it is pushed anyway. -/
def requeue (pushSet : List Signature) (oldEntry : Option Signature) (deque : List Signature) : List Signature :=
  match oldEntry with
  | some old => if old ∈ pushSet then deque else old :: deque
  | none => deque

/-- The loop of `push`, with the number of slots still to visit. -/
def pushSlots (pushSet fullCache : List Signature) :
    (slots i : Nat) → (deque newCache : List Signature) → List Signature
  | 0, _, _, newCache => newCache
  | slots + 1, i, deque, newCache =>
    match deque.getLast? with
    | none => newCache
    | some newEntry =>
      pushSlots pushSet fullCache slots (i + 1) (requeue pushSet fullCache[i]? deque.dropLast) (newCache ++ [newEntry])

def push (fullCache : List Signature) (p : Push) : List Signature :=
  pushSlots p.deque fullCache maxCachedSignatures 0 p.deque []

structure PreviousMessage where
  id : Int
  signature : Option Signature
  deriving DecidableEq

def indexPreviousMessages (fullCache senderLastSeen : List Signature) : List PreviousMessage :=
  senderLastSeen.map fun signature =>
    match fullCache.idxOf? signature with
    | some index => { id := 1 + index, signature := none }
    | none => { id := 0, signature := some signature }

/-- The reference: the array is walked from the front, and what lies behind the
slot where the queue runs empty stays as it is. -/
def fillEntries (pushSet : List Signature) : (entries : List (Option Signature)) → (deque : List Signature) →
    List (Option Signature)
  | [], _ => []
  | old :: entries, deque =>
    match deque.getLast? with
    | none => old :: entries
    | some newEntry => some newEntry :: fillEntries pushSet entries (requeue pushSet old deque.dropLast)

def clientPush (entries : List (Option Signature)) (p : Push) : List (Option Signature) :=
  fillEntries p.deque entries p.deque

def cacheAfter (pushes : List Push) : List Signature :=
  pushes.foldl push []

def clientAfter (pushes : List Push) : List (Option Signature) :=
  pushes.foldl clientPush (List.replicate maxCachedSignatures none)

/-- An entry of the index stands for the signature, in full or by its place in the client's array. -/
def RefersTo (entries : List (Option Signature)) (signature : Signature) (e : PreviousMessage) : Prop :=
  (e.id = 0 ∧ e.signature = some signature) ∨
    (e.signature = none ∧ ∃ index : Nat, e.id = 1 + index ∧ entries[index]? = some (some signature))

structure Mirrors (fullCache : List Signature) (entries : List (Option Signature)) : Prop where
  size : fullCache.length ≤ maxCachedSignatures
  slots : entries = (List.range maxCachedSignatures).map fun i => fullCache[i]?
  ids : ∀ senderLastSeen, List.Forall₂ (RefersTo entries) senderLastSeen (indexPreviousMessages fullCache senderLastSeen)

/-- Every cached entry before the last makes room for itself, up to one slot
for each pushed signature. -/
def ReachesEnd (fullCache : List Signature) (p : Push) : Prop :=
  fullCache = [] ∨ fullCache.dropLast.countP (· ∈ p.deque) < p.deque.length

/-! ## What a push visits -/

def slotsFrom (fullCache : List Signature) (i slots : Nat) : List (Option Signature) :=
  (List.range' i slots).map fun i => fullCache[i]?

@[simp] theorem length_slotsFrom (fullCache : List Signature) (i slots : Nat) :
    (slotsFrom fullCache i slots).length = slots := by
  simp [slotsFrom]

theorem slotsFrom_succ (fullCache : List Signature) (i slots : Nat) :
    slotsFrom fullCache i (slots + 1) = fullCache[i]? :: slotsFrom fullCache (i + 1) slots := by
  simp [slotsFrom, List.range'_succ]

theorem requeue_length (pushSet : List Signature) (old : Signature) (deque : List Signature) :
    (requeue pushSet (some old) deque).length = deque.length + if old ∈ pushSet then 0 else 1 := by
  by_cases h : old ∈ pushSet
  · simp [requeue, h]
  · simp [requeue, h]

section
variable (pushSet fullCache : List Signature)

/-- What is written to the slots from `i` on, and how much of it. -/
structure Writes (i slots : Nat) (deque written : List Signature) : Prop where
  fits : written.length ≤ slots
  entries : fillEntries pushSet (slotsFrom fullCache i slots) deque =
    written.map some ++ (slotsFrom fullCache i slots).drop written.length
  whole : fullCache.length ≤ i + slots → (fullCache.length ≤ i + written.length ↔
    fullCache.length ≤ i ∨ (fullCache.drop i).dropLast.countP (· ∈ pushSet) < deque.length)

theorem Writes.none_left (i : Nat) (deque : List Signature) : Writes pushSet fullCache i 0 deque [] where
  fits := by simp
  entries := by simp [slotsFrom, fillEntries]
  whole h := by simp at h; simp [h]

theorem Writes.empty (i slots : Nat) : Writes pushSet fullCache i (slots + 1) [] [] where
  fits := by simp
  entries := by simp [slotsFrom_succ, fillEntries]
  whole _ := by simp

/-- An entry before the last costs its pushed signature a slot when it is pushed itself. -/
theorem count_drop (i : Nat) (h : i + 1 < fullCache.length) :
    (fullCache.drop i).dropLast.countP (· ∈ pushSet) =
      (fullCache.drop (i + 1)).dropLast.countP (· ∈ pushSet) + if fullCache[i] ∈ pushSet then 1 else 0 := by
  have hne : fullCache.drop (i + 1) ≠ [] := by simp; omega
  rw [List.drop_eq_getElem_cons (by omega), List.dropLast_cons_of_ne_nil hne, List.countP_cons]
  simp

theorem Writes.cons {i slots : Nat} {deque written : List Signature} {newEntry : Signature}
    (hlast : deque.getLast? = some newEntry)
    (h : Writes pushSet fullCache (i + 1) slots (requeue pushSet fullCache[i]? deque.dropLast) written) :
    Writes pushSet fullCache i (slots + 1) deque (newEntry :: written) where
  fits := by simpa using h.fits
  entries := by simp [slotsFrom_succ, fillEntries, hlast, h.entries]
  whole hslots := by
    have hpos : 0 < deque.length := by
      cases deque with
      | nil => simp at hlast
      | cons _ _ => simp
    by_cases hi : fullCache.length ≤ i
    · simp [hi]; omega
    by_cases hi' : fullCache.length ≤ i + 1
    · have hnil : (fullCache.drop i).dropLast = [] := by
        apply List.eq_nil_of_length_eq_zero
        simp; omega
      simp [hnil, hpos]; omega
    have hget : fullCache[i]? = some fullCache[i] := List.getElem?_eq_getElem _
    have hwhole := h.whole (by omega)
    rw [hget, requeue_length, List.length_dropLast] at hwhole
    rw [count_drop pushSet fullCache i (by omega), List.length_cons]
    by_cases hset : fullCache[i] ∈ pushSet
    · simp [hset] at hwhole ⊢; omega
    · simp [hset] at hwhole ⊢; omega

theorem exists_writes (slots : Nat) : ∀ (i : Nat) (deque newCache : List Signature), ∃ written,
    pushSlots pushSet fullCache slots i deque newCache = newCache ++ written ∧
      Writes pushSet fullCache i slots deque written := by
  induction slots with
  | zero =>
    intro i deque newCache
    exact ⟨[], by simp [pushSlots], Writes.none_left pushSet fullCache i deque⟩
  | succ slots ih =>
    intro i deque newCache
    cases hlast : deque.getLast? with
    | none =>
      have hnil : deque = [] := by simpa using hlast
      subst hnil
      exact ⟨[], by simp [pushSlots], Writes.empty pushSet fullCache i slots⟩
    | some newEntry =>
      obtain ⟨written, heq, hw⟩ := ih (i + 1) (requeue pushSet fullCache[i]? deque.dropLast) (newCache ++ [newEntry])
      refine ⟨newEntry :: written, ?_, Writes.cons pushSet fullCache hlast hw⟩
      simp only [pushSlots, hlast, heq]
      simp

end

/-! ## The array and the queue -/

/-- The slots of the array when the queue holds the entries of its front. -/
def clientSlots (fullCache : List Signature) : List (Option Signature) :=
  slotsFrom fullCache 0 maxCachedSignatures

theorem clientSlots_eq (fullCache : List Signature) :
    clientSlots fullCache = (List.range maxCachedSignatures).map fun i => fullCache[i]? := by
  simp [clientSlots, slotsFrom, List.range_eq_range']

theorem getElem?_clientSlots (fullCache : List Signature) {i : Nat} (h : i < maxCachedSignatures) :
    (clientSlots fullCache)[i]? = some fullCache[i]? := by
  simp [clientSlots_eq, h]

/-- The slots behind what was written are free exactly when all entries were visited. -/
theorem written_slots {fullCache written : List Signature} (hcache : fullCache.length ≤ maxCachedSignatures)
    (hwritten : written.length ≤ maxCachedSignatures) :
    written.map some ++ (clientSlots fullCache).drop written.length = clientSlots written ↔
      fullCache.length ≤ written.length := by
  constructor
  · intro heq
    by_contra hlt
    have hslot := congrArg (fun entries => entries[written.length]?) heq
    have hbound : written.length < maxCachedSignatures := by omega
    rw [List.getElem?_append_right (by simp), List.getElem?_drop] at hslot
    simp [getElem?_clientSlots _ hbound] at hslot
    omega
  · intro hle
    apply List.ext_getElem?
    intro i
    by_cases hi : i < written.length
    · rw [List.getElem?_append_left (by simpa using hi), getElem?_clientSlots _ (by omega)]
      simp [hi]
    by_cases hi' : i < maxCachedSignatures
    · rw [List.getElem?_append_right (by simpa using hi), List.getElem?_drop, getElem?_clientSlots _ hi']
      have hsub : written.length + (i - (written.map some).length) = i := by simp; omega
      rw [hsub, getElem?_clientSlots _ hi', List.getElem?_eq_none (by omega), List.getElem?_eq_none (by omega)]
    · rw [List.getElem?_eq_none, List.getElem?_eq_none]
      · simp [clientSlots]; omega
      · simp [clientSlots]; omega

theorem push_length_le (fullCache : List Signature) (p : Push) : (push fullCache p).length ≤ maxCachedSignatures := by
  obtain ⟨written, heq, hw⟩ := exists_writes p.deque fullCache maxCachedSignatures 0 p.deque []
  simpa [push, heq] using hw.fits

theorem push_slots_iff {fullCache : List Signature} (hsize : fullCache.length ≤ maxCachedSignatures) (p : Push) :
    clientPush (clientSlots fullCache) p = clientSlots (push fullCache p) ↔ ReachesEnd fullCache p := by
  obtain ⟨written, heq, hw⟩ := exists_writes p.deque fullCache maxCachedSignatures 0 p.deque []
  have hpush : push fullCache p = written := by simp [push, heq]
  have hclient : clientPush (clientSlots fullCache) p =
      written.map some ++ (clientSlots fullCache).drop written.length := hw.entries
  rw [hpush, hclient, written_slots hsize hw.fits]
  have hwhole := hw.whole (by omega)
  simp at hwhole
  rw [hwhole, ReachesEnd]

theorem refersTo_index {fullCache : List Signature} (hsize : fullCache.length ≤ maxCachedSignatures)
    (senderLastSeen : List Signature) :
    List.Forall₂ (RefersTo (clientSlots fullCache)) senderLastSeen (indexPreviousMessages fullCache senderLastSeen) := by
  rw [indexPreviousMessages, List.forall₂_map_right_iff, List.forall₂_same]
  intro signature _
  cases h : fullCache.idxOf? signature with
  | none => exact Or.inl ⟨rfl, rfl⟩
  | some index =>
    have hidx := List.idxOf?_eq_some_iff.mp h
    obtain ⟨hlt, hget, _⟩ := hidx
    refine Or.inr ⟨rfl, index, rfl, ?_⟩
    rw [getElem?_clientSlots _ (by omega)]
    simp [hget, hlt]

theorem mirrors_iff {fullCache : List Signature} (hsize : fullCache.length ≤ maxCachedSignatures)
    (entries : List (Option Signature)) : Mirrors fullCache entries ↔ entries = clientSlots fullCache := by
  constructor
  · intro h
    rw [h.slots, clientSlots_eq]
  · intro h
    subst h
    exact ⟨hsize, clientSlots_eq fullCache, refersTo_index hsize⟩

theorem cacheAfter_snoc (pushes : List Push) (p : Push) : cacheAfter (pushes ++ [p]) = push (cacheAfter pushes) p := by
  simp [cacheAfter]

theorem clientAfter_snoc (pushes : List Push) (p : Push) :
    clientAfter (pushes ++ [p]) = clientPush (clientAfter pushes) p := by
  simp [clientAfter]

theorem cacheAfter_length_le (pushes : List Push) : (cacheAfter pushes).length ≤ maxCachedSignatures := by
  induction pushes using List.reverseRecOn with
  | nil => simp [cacheAfter]
  | append_singleton pushes p _ =>
    rw [cacheAfter_snoc]
    exact push_length_le _ p

theorem mirrors_nil : Mirrors (cacheAfter []) (clientAfter []) := by
  rw [mirrors_iff (cacheAfter_length_le [])]
  rfl

/-- One push keeps the two caches together exactly when it visits every entry. -/
theorem Mirrors.push_iff {pushes : List Push} (h : Mirrors (cacheAfter pushes) (clientAfter pushes)) (p : Push) :
    Mirrors (cacheAfter (pushes ++ [p])) (clientAfter (pushes ++ [p])) ↔ ReachesEnd (cacheAfter pushes) p := by
  have hsize := cacheAfter_length_le pushes
  rw [mirrors_iff (cacheAfter_length_le _), clientAfter_snoc, cacheAfter_snoc, (mirrors_iff hsize _).mp h,
    push_slots_iff hsize]

theorem mirrors_throughout_iff (pushes : List Push) :
    (∀ done rest, pushes = done ++ rest → Mirrors (cacheAfter done) (clientAfter done)) ↔
      ∀ done p rest, pushes = done ++ p :: rest → ReachesEnd (cacheAfter done) p := by
  constructor
  · intro h done p rest heq
    have hnow := h done (p :: rest) heq
    rw [← hnow.push_iff p]
    exact h (done ++ [p]) rest (by simp [heq])
  · intro h done
    induction done using List.reverseRecOn with
    | nil =>
      intro rest _
      exact mirrors_nil
    | append_singleton done p ih =>
      intro rest heq
      have hnow := ih (p :: rest) (by simp [heq])
      rw [hnow.push_iff p]
      exact h done p rest (by simp [heq])

/-- Two entries are cached, and the newer one is pushed once more: the older one is gone from the queue. -/
theorem push_again_drops : ¬ ∀ pushes : List Push, Mirrors (cacheAfter pushes) (clientAfter pushes) := by
  intro h
  have hslots := (h [⟨[[1]], some [2]⟩, ⟨[], some [2]⟩]).slots
  have hslot := congrArg (fun entries => entries[1]?) hslots
  revert hslot
  decide

end Chat
end Foton
