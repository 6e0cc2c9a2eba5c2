import Foton.NbtStream.Canonical

/-!
# Bounded output, all or nothing

A value is sized before it is written. Sizing and writing agree for every
finite maximum. Under the unlimited one a compound is sized in stored order and
written in canonical order, which refuses more.
-/

namespace Foton.NbtStream

open BoundedWrite

/-- The writer's allowance covers the tag from the top. -/
def Sized (maximum : Nat) (tag : NbtTag) : Prop :=
  PayloadAccepted (newLimits maximum) scratchMaximum 0 tag ∧
    (tagBytes (newLimits maximum).canonicalCompounds tag).length ≤ maximum

/-- Either nothing is written, or the wire size of the tag and no more than the maximum. -/
def AllOrNothing (tag : NbtTag) (maximum : Nat) (output : List UInt8 → Except NbtError Unit × List UInt8) : Prop :=
  ∀ sink, (∃ error, output sink = (.error error, sink)) ∨
    ∃ bytes, output sink = (.ok (), sink ++ bytes) ∧ wireSize tag maximum = .ok bytes.length ∧ bytes.length ≤ maximum

theorem tagBytes_length (canonical : Bool) (tag : NbtTag) :
    (tagBytes canonical tag).length = (tagBytes false tag).length := by
  simp [tagBytes, payload_size canonical tag]

theorem newLimits_canonical {maximum : Nat} (h : maximum < usizeMax) : (newLimits maximum).canonicalCompounds = true := by
  simp [newLimits, h.ne]

theorem newLimits_eq {maximum maximum' : Nat} (h : maximum < usizeMax) (h' : maximum' < usizeMax) :
    newLimits maximum = newLimits maximum' := by
  simp [newLimits, h.ne, h'.ne]

/-! ## One pass -/

section
variable (action : WriterLimits → Nat → NbtWriter) {accepted : Prop} {bytes : List UInt8} {remaining : Nat}
  (h : Writes (action (newLimits remaining) scratchMaximum) accepted bytes)
include h

theorem runLimited_ok (ha : accepted) (hle : bytes.length ≤ remaining) (sink : List UInt8) :
    runLimited remaining action sink = (.ok (), { written := sink ++ bytes, remaining := remaining - bytes.length }) :=
  h.ok { written := sink, remaining } ha hle

theorem runLimited_error (hne : ¬ (accepted ∧ bytes.length ≤ remaining)) (sink : List UInt8) :
    ∃ error extra left, runLimited remaining action sink = (.error error, { written := sink ++ extra, remaining := left }) :=
  h.error { written := sink, remaining } hne

end

/-! ## Tags -/

theorem wireSize_of_sized {tag : NbtTag} {maximum : Nat} (h : Sized maximum tag) :
    wireSize tag maximum = .ok (tagBytes false tag).length := by
  have hwrites := writeTag_writes (newLimits maximum) scratchMaximum 0 tag
  unfold wireSize
  rw [runLimited_ok (fun limits scratch => writeTag limits scratch 0 tag) hwrites h.1 h.2]
  have hle := h.2
  rw [tagBytes_length] at hle
  simp only [tagBytes_length (newLimits maximum).canonicalCompounds, Except.ok.injEq]
  omega

theorem wireSize_of_not_sized {tag : NbtTag} {maximum : Nat} (h : ¬ Sized maximum tag) :
    ∃ error, wireSize tag maximum = .error error := by
  have hwrites := writeTag_writes (newLimits maximum) scratchMaximum 0 tag
  obtain ⟨error, extra, left, heq⟩ := runLimited_error (fun limits scratch => writeTag limits scratch 0 tag) hwrites h []
  refine ⟨error, ?_⟩
  unfold wireSize
  rw [heq]

theorem writeTagBounded_of_sized {tag : NbtTag} {maximum : Nat} (h : Sized maximum tag) (sink : List UInt8) :
    writeTagBounded tag maximum sink = (.ok (), sink ++ tagBytes (newLimits maximum).canonicalCompounds tag) := by
  have hwrites := writeTag_writes (newLimits maximum) scratchMaximum 0 tag
  unfold writeTagBounded
  rw [wireSize_of_sized h]
  dsimp only
  rw [runLimited_ok (fun limits scratch => writeTag limits scratch 0 tag) hwrites h.1 h.2]

theorem writeTagBounded_of_not_sized {tag : NbtTag} {maximum : Nat} (h : ¬ Sized maximum tag) (sink : List UInt8) :
    ∃ error, writeTagBounded tag maximum sink = (.error error, sink) := by
  obtain ⟨error, heq⟩ := wireSize_of_not_sized h
  refine ⟨error, ?_⟩
  unfold writeTagBounded
  rw [heq]

theorem writeTagBounded_outcome (tag : NbtTag) (maximum : Nat) :
    AllOrNothing tag maximum (writeTagBounded tag maximum) := by
  intro sink
  by_cases h : Sized maximum tag
  · refine Or.inr ⟨_, writeTagBounded_of_sized h sink, ?_, h.2⟩
    rw [wireSize_of_sized h, tagBytes_length (newLimits maximum).canonicalCompounds]
  · exact Or.inl (writeTagBounded_of_not_sized h sink)

/-! ## Compounds -/

variable {v w : NbtCompound} {maximum : Nat}

theorem payloadAccepted_compound (limits : WriterLimits) (scratch : Nat) (v : NbtCompound) :
    PayloadAccepted limits scratch 0 (.compound v) ↔ CompoundAccepted limits scratch 0 v := by
  rw [PayloadAccepted]
  simp [CompoundAccepted]

theorem tagBytes_compound (canonical : Bool) (v : NbtCompound) :
    tagBytes canonical (.compound v) = 10 :: compoundBytes canonical (fieldsBytes canonical v) := by
  rw [tagBytes, payloadBytes, NbtTag.id]

theorem checked_writes (limits : WriterLimits) (scratch : Nat) (v : NbtCompound) :
    Writes (seq (write [10]) (writeCompound limits scratch 0 v)) (PayloadAccepted limits scratch 0 (.compound v))
      (tagBytes limits.canonicalCompounds (.compound v)) := by
  rw [payloadAccepted_compound, tagBytes_compound]
  exact ((writes_write [10]).seq (writeCompound_writes limits scratch 0 v)).congr (by simp)

theorem writeCompoundBounded_of_not_sized (h : ¬ Sized maximum (.compound v)) (sink : List UInt8) :
    ∃ error, writeCompoundBounded v maximum sink = (.error error, sink) := by
  obtain ⟨error, extra, left, heq⟩ := runLimited_error
    (fun limits scratch => seq (write [10]) (writeCompound limits scratch 0 v))
    (checked_writes (newLimits maximum) scratchMaximum v) h []
  refine ⟨error, ?_⟩
  unfold writeCompoundBounded
  rw [heq]

theorem writeCompoundBounded_of_sized (h : Sized maximum (.compound v)) (sink : List UInt8) :
    writeCompoundBounded v maximum sink =
      let second := runLimited (maximum - 1) (fun limits scratch => writeCompound limits scratch 0 v) (sink ++ [10])
      (second.1, second.2.written) := by
  have hok := runLimited_ok (fun limits scratch => seq (write [10]) (writeCompound limits scratch 0 v))
    (checked_writes (newLimits maximum) scratchMaximum v) h.1 h.2 []
  unfold writeCompoundBounded
  rw [hok]

theorem writeCompoundBounded_ok (h : Sized maximum (.compound v))
    (haccepted : PayloadAccepted (newLimits (maximum - 1)) scratchMaximum 0 (.compound v)) (sink : List UInt8) :
    writeCompoundBounded v maximum sink =
      (.ok (), sink ++ tagBytes (newLimits (maximum - 1)).canonicalCompounds (.compound v)) := by
  have hle := h.2
  rw [tagBytes_length, ← tagBytes_length (newLimits (maximum - 1)).canonicalCompounds, tagBytes_compound,
    List.length_cons] at hle
  rw [payloadAccepted_compound] at haccepted
  rw [writeCompoundBounded_of_sized h, tagBytes_compound]
  dsimp only
  rw [runLimited_ok (fun limits scratch => writeCompound limits scratch 0 v)
    (writeCompound_writes (newLimits (maximum - 1)) scratchMaximum 0 v) haccepted (by omega)]
  simp

/-- The id and perhaps more is written where the second pass refuses what the first has sized. -/
theorem writeCompoundBounded_torn (h : Sized maximum (.compound v))
    (hrefused : ¬ PayloadAccepted (newLimits (maximum - 1)) scratchMaximum 0 (.compound v)) (sink : List UInt8) :
    ∃ error extra, writeCompoundBounded v maximum sink = (.error error, sink ++ 10 :: extra) := by
  rw [payloadAccepted_compound] at hrefused
  obtain ⟨error, extra, left, heq⟩ := runLimited_error (fun limits scratch => writeCompound limits scratch 0 v)
    (writeCompound_writes (newLimits (maximum - 1)) scratchMaximum 0 v) (fun ha => hrefused ha.1) (sink ++ [10])
  refine ⟨error, extra, ?_⟩
  rw [writeCompoundBounded_of_sized h]
  dsimp only
  rw [heq]
  simp

theorem writeCompoundBounded_allOrNothing_iff :
    AllOrNothing (.compound v) maximum (writeCompoundBounded v maximum) ↔
      (Sized maximum (.compound v) → PayloadAccepted (newLimits (maximum - 1)) scratchMaximum 0 (.compound v)) := by
  constructor
  · intro hall hsized
    by_contra hrefused
    obtain ⟨error, extra, htorn⟩ := writeCompoundBounded_torn hsized hrefused []
    rcases hall [] with ⟨error', heq⟩ | ⟨bytes, heq, _⟩
    · rw [htorn] at heq
      simp at heq
    · rw [htorn] at heq
      simp at heq
  · intro hagree sink
    by_cases h : Sized maximum (.compound v)
    · refine Or.inr ⟨_, writeCompoundBounded_ok h (hagree h) sink, ?_, ?_⟩
      · rw [wireSize_of_sized h, tagBytes_length (newLimits (maximum - 1)).canonicalCompounds]
      · rw [tagBytes_length, ← tagBytes_length (newLimits maximum).canonicalCompounds]
        exact h.2
    · exact Or.inl (writeCompoundBounded_of_not_sized h sink)

/-! ## Finite maxima -/

/-- Both succeed or both fail, and the sinks are the same. -/
def SameOutcome (a b : Except NbtError Unit × List UInt8) : Prop := (a.1 = .ok () ↔ b.1 = .ok ()) ∧ a.2 = b.2

theorem writeCompoundBounded_finite (hmax : maximum < usizeMax) (h : Sized maximum (.compound v)) (sink : List UInt8) :
    writeCompoundBounded v maximum sink = (.ok (), sink ++ tagBytes true (.compound v)) := by
  have hlimits : newLimits (maximum - 1) = newLimits maximum := newLimits_eq (by omega) hmax
  have haccepted := h.1
  rw [← hlimits] at haccepted
  rw [writeCompoundBounded_ok h haccepted, newLimits_canonical (by omega)]

theorem writeTagBounded_finite {tag : NbtTag} (hmax : maximum < usizeMax) (h : Sized maximum tag) (sink : List UInt8) :
    writeTagBounded tag maximum sink = (.ok (), sink ++ tagBytes true tag) := by
  rw [writeTagBounded_of_sized h, newLimits_canonical hmax]

section
variable {output : List UInt8 → Except NbtError Unit × List UInt8} {output' : List UInt8 → Except NbtError Unit × List UInt8}
  {tag other : NbtTag} {maximum' : Nat}

/-- What both bounded writers do under a finite maximum. -/
def FiniteOutput (tag : NbtTag) (maximum : Nat) (output : List UInt8 → Except NbtError Unit × List UInt8) : Prop :=
  (Sized maximum tag → ∀ sink, output sink = (.ok (), sink ++ tagBytes true tag)) ∧
    (¬ Sized maximum tag → ∀ sink, ∃ error, output sink = (.error error, sink))

theorem writeTagBounded_finiteOutput (hmax : maximum < usizeMax) (tag : NbtTag) :
    FiniteOutput tag maximum (writeTagBounded tag maximum) :=
  ⟨writeTagBounded_finite hmax, writeTagBounded_of_not_sized⟩

theorem writeCompoundBounded_finiteOutput (hmax : maximum < usizeMax) (v : NbtCompound) :
    FiniteOutput (.compound v) maximum (writeCompoundBounded v maximum) :=
  ⟨writeCompoundBounded_finite hmax, writeCompoundBounded_of_not_sized⟩

theorem FiniteOutput.sized (h : FiniteOutput tag maximum output) {sink : List UInt8} (hok : (output sink).1 = .ok ()) :
    Sized maximum tag := by
  by_contra hne
  obtain ⟨error, heq⟩ := h.2 hne sink
  rw [heq] at hok
  cases hok

theorem FiniteOutput.eq (h : FiniteOutput tag maximum output) (h' : FiniteOutput tag maximum' output') {sink : List UInt8}
    (hok : (output sink).1 = .ok ()) (hok' : (output' sink).1 = .ok ()) : output sink = output' sink := by
  rw [h.1 (h.sized hok), h'.1 (h'.sized hok')]

theorem FiniteOutput.same (h : FiniteOutput tag maximum output) (h' : FiniteOutput other maximum output')
    (hsized : Sized maximum tag ↔ Sized maximum other) (hbytes : tagBytes true tag = tagBytes true other)
    (sink : List UInt8) : SameOutcome (output sink) (output' sink) := by
  by_cases hs : Sized maximum tag
  · rw [h.1 hs, h'.1 (hsized.mp hs), hbytes]
    exact ⟨Iff.rfl, rfl⟩
  · obtain ⟨error, heq⟩ := h.2 hs sink
    obtain ⟨error', heq'⟩ := h'.2 (fun hs' => hs (hsized.mpr hs')) sink
    rw [heq, heq']
    exact ⟨by simp, rfl⟩

end

theorem not_sized_of_not_distinct (hmax : maximum < usizeMax) {tag : NbtTag} (h : ¬ Distinct tag) : ¬ Sized maximum tag :=
  fun hsized => h ((distinct_induction (newLimits_canonical hmax)).tag tag _ _ hsized.1)

theorem SameTag.sized_iff (hmax : maximum < usizeMax) {tag other : NbtTag} (h : SameTag tag other)
    (htag : Distinct tag) (hother : Distinct other) :
    (Sized maximum tag ↔ Sized maximum other) ∧ tagBytes true tag = tagBytes true other := by
  have hcanonical := newLimits_canonical hmax
  have hencoding := (same_induction hcanonical).tag tag other h htag hother
  simp only [tagEncoding, Prod.mk.injEq, hcanonical] at hencoding
  obtain ⟨hid, hbytes, haccepted⟩ := hencoding
  have htagBytes : tagBytes true tag = tagBytes true other := by rw [tagBytes, tagBytes, hid, hbytes]
  refine ⟨?_, htagBytes⟩
  unfold Sized
  rw [hcanonical, htagBytes, congrFun (congrFun haccepted scratchMaximum) 0]

/-- The tag writer is all or nothing, the compound writer exactly where its second pass accepts what the
unlimited first one has sized; finite maxima leave nothing open. -/
theorem boundedOutput_exact (maximum : Nat) (hmax : maximum ≤ usizeMax) :
    (∀ tag, AllOrNothing tag maximum (writeTagBounded tag maximum)) ∧
      (∀ v, AllOrNothing (.compound v) maximum (writeCompoundBounded v maximum) ↔
        (maximum = usizeMax → Sized usizeMax (.compound v) →
          PayloadAccepted { containerLimit := 512, canonicalCompounds := true } scratchMaximum 0 (.compound v))) ∧
      (∀ larger, maximum ≤ larger → larger < usizeMax → ∀ sink,
        (∀ tag, (writeTagBounded tag maximum sink).1 = .ok () → (writeTagBounded tag larger sink).1 = .ok () →
          writeTagBounded tag maximum sink = writeTagBounded tag larger sink) ∧
        ∀ v, (writeCompoundBounded v maximum sink).1 = .ok () → (writeCompoundBounded v larger sink).1 = .ok () →
          writeCompoundBounded v maximum sink = writeCompoundBounded v larger sink) ∧
      (maximum < usizeMax → ∀ sink,
        (∀ tag other, SameTag tag other → Distinct tag → Distinct other →
          SameOutcome (writeTagBounded tag maximum sink) (writeTagBounded other maximum sink)) ∧
        (∀ v w, SameCompound v w → Distinct (.compound v) → Distinct (.compound w) →
          SameOutcome (writeCompoundBounded v maximum sink) (writeCompoundBounded w maximum sink)) ∧
        (∀ tag, ¬ Distinct tag → ∃ error, writeTagBounded tag maximum sink = (.error error, sink)) ∧
        ∀ v, ¬ Distinct (.compound v) → ∃ error, writeCompoundBounded v maximum sink = (.error error, sink)) := by
  refine ⟨fun tag => writeTagBounded_outcome tag maximum, ?_, ?_, ?_⟩
  · intro v
    rw [writeCompoundBounded_allOrNothing_iff]
    by_cases heq : maximum = usizeMax
    · subst heq
      simp only [true_imp_iff]
      exact Iff.rfl
    · have hlimits : newLimits (maximum - 1) = newLimits maximum := newLimits_eq (by omega) (by omega)
      rw [hlimits]
      exact ⟨fun _ h => absurd h heq, fun _ hsized => hsized.1⟩
  · intro larger hle hlarger sink
    have hfinite : maximum < usizeMax := by omega
    constructor
    · intro tag hok hok'
      exact (writeTagBounded_finiteOutput hfinite tag).eq (writeTagBounded_finiteOutput hlarger tag) hok hok'
    · intro v hok hok'
      exact (writeCompoundBounded_finiteOutput hfinite v).eq (writeCompoundBounded_finiteOutput hlarger v) hok hok'
  · intro hfinite sink
    refine ⟨?_, ?_, ?_, ?_⟩
    · intro tag other hsame htag hother
      obtain ⟨hsized, hbytes⟩ := hsame.sized_iff hfinite htag hother
      exact (writeTagBounded_finiteOutput hfinite tag).same (writeTagBounded_finiteOutput hfinite other) hsized hbytes sink
    · intro v w hsame hv hw
      obtain ⟨hsized, hbytes⟩ := SameTag.sized_iff hfinite hsame hv hw
      exact (writeCompoundBounded_finiteOutput hfinite v).same (writeCompoundBounded_finiteOutput hfinite w) hsized hbytes
        sink
    · intro tag hdup
      exact writeTagBounded_of_not_sized (not_sized_of_not_distinct hfinite hdup) sink
    · intro v hdup
      exact writeCompoundBounded_of_not_sized (not_sized_of_not_distinct hfinite hdup) sink

theorem boundedOutput_exact_hundred :
    100 ≤ usizeMax ∧ ∀ tag, AllOrNothing tag 100 (writeTagBounded tag 100) :=
  ⟨by decide, (boundedOutput_exact 100 (by decide)).1⟩

def duplicateCompound : NbtCompound := [([97], .byte 1), ([97], .byte 2)]

theorem duplicateCompound_torn :
    ¬ AllOrNothing (.compound duplicateCompound) usizeMax (writeCompoundBounded duplicateCompound usizeMax) := by
  intro h
  have htorn : writeCompoundBounded duplicateCompound usizeMax [] = (.error .duplicateKey, [10]) := by decide +kernel
  rcases h [] with ⟨error, heq⟩ | ⟨bytes, heq, _⟩
  · rw [htorn] at heq
    simp at heq
  · rw [htorn] at heq
    simp at heq

end Foton.NbtStream
