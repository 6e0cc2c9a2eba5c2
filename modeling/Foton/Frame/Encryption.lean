import Foton.Lib.Mealy
import Mathlib.Data.List.Induction

/-!
# The encrypted stream

`StreamEncryptor` encrypts byte by byte and hands each byte to the inner
writer at once. A byte that the writer does not take yet is kept in its
encrypted form, since the cipher has already moved on. The block cipher is a
parameter: `keyByte` is the first byte of the encrypted shift register.
-/

namespace Foton
namespace Frame

inductive WriteAnswer
  | pending
  | written
  | error
  deriving DecidableEq, Repr

/-- The answers of the inner writer, in order; after an error it writes nothing more. -/
structure InnerWriter where
  answer : Nat → WriteAnswer
  stopped : ∀ {i j : Nat}, answer i = .error → i < j → answer j ≠ .written

structure StreamEncryptor where
  /-- The shift register of the cipher. -/
  cipher : List UInt8
  lastUnwrittenEncryptedByte : Option UInt8
  /-- What the inner writer has taken, and how often it was asked. -/
  accepted : List UInt8
  polls : Nat

inductive PollWrite
  | pending
  | ready (written : Nat)
  | error
  deriving DecidableEq, Repr

section
variable (keyByte : List UInt8 → UInt8)

def encryptBlock : Mealy (List UInt8) UInt8 UInt8 := fun register byte =>
  let out := byte ^^^ keyByte register
  (out, register.drop 1 ++ [out])

def decryptBlock : Mealy (List UInt8) UInt8 UInt8 := fun register byte =>
  (byte ^^^ keyByte register, register.drop 1 ++ [byte])

theorem decryptBlock_undoes : (decryptBlock keyByte).Undoes (encryptBlock keyByte) := by
  intro register byte
  simp [decryptBlock, encryptBlock, UInt8.xor_assoc]

/-- The byte to hand over for `block`, and the register afterwards. -/
def StreamEncryptor.outByte (s : StreamEncryptor) (block : UInt8) : UInt8 × List UInt8 :=
  match s.lastUnwrittenEncryptedByte with
  | some out => (out, s.cipher)
  | none => encryptBlock keyByte s.cipher block

variable (write : InnerWriter)

def StreamEncryptor.pollWrite (s : StreamEncryptor) : (buf : List UInt8) → (totalWritten : Nat) →
    PollWrite × StreamEncryptor
  | [], totalWritten => (.ready totalWritten, s)
  | block :: buf, totalWritten =>
    let (out, cipher) := s.outByte keyByte block
    let polls := s.polls + 1
    match write.answer s.polls with
    | .pending =>
      (if totalWritten = 0 then .pending else .ready totalWritten,
        { s with cipher, lastUnwrittenEncryptedByte := some out, polls })
    | .written =>
      StreamEncryptor.pollWrite
        { s with cipher, lastUnwrittenEncryptedByte := none, accepted := s.accepted ++ [out], polls }
        buf (totalWritten + 1)
    | .error => (.error, { s with cipher, lastUnwrittenEncryptedByte := none, polls })

/-- The caller's side: how much of the plaintext was reported written. -/
structure Session where
  encryptor : StreamEncryptor
  reported : Nat

def Session.buf (plaintext : List UInt8) (s : Session) (size : Nat) : List UInt8 :=
  (plaintext.drop s.reported).take size

/-- The caller submits up to `size` of the bytes that were not reported. -/
def Session.call (plaintext : List UInt8) (s : Session) (size : Nat) : Session :=
  match s.encryptor.pollWrite keyByte write (s.buf plaintext size) 0 with
  | (.ready written, encryptor) => { encryptor, reported := s.reported + written }
  | (_, encryptor) => { s with encryptor }

def Session.start (iv : List UInt8) : Session where
  encryptor := { cipher := iv, lastUnwrittenEncryptedByte := none, accepted := [], polls := 0 }
  reported := 0

def afterCalls (iv plaintext : List UInt8) (sizes : List Nat) : Session :=
  sizes.foldl (Session.call keyByte write plaintext) (Session.start iv)

/-! ## The reading end -/

inductive ReadAnswer
  | pending
  | ready (bytes : List UInt8)
  | error

def ReadAnswer.bytes : ReadAnswer → List UInt8
  | .ready bytes => bytes
  | _ => []

/-- One `poll_read` into a buffer that already holds `filled`. -/
def pollRead (cipher filled : List UInt8) (answer : ReadAnswer) : List UInt8 × List UInt8 :=
  let originalFill := filled.length
  match answer with
  | .ready bytes =>
    let filled := filled ++ bytes
    let (plain, cipher) := (decryptBlock keyByte).run cipher (filled.drop originalFill)
    (filled.take originalFill ++ plain, cipher)
  | _ => (filled, cipher)

/-- What the calls add to their buffers, one after the other. -/
def pollReads : (cipher : List UInt8) → List (List UInt8 × ReadAnswer) → List UInt8
  | _, [] => []
  | cipher, (filled, answer) :: reads =>
    let (filled', cipher) := pollRead keyByte cipher filled answer
    filled'.drop filled.length ++ pollReads cipher reads

theorem pollRead_eq (cipher filled : List UInt8) (answer : ReadAnswer) :
    pollRead keyByte cipher filled answer =
      (filled ++ ((decryptBlock keyByte).run cipher answer.bytes).1,
        ((decryptBlock keyByte).run cipher answer.bytes).2) := by
  cases answer <;> simp [pollRead, ReadAnswer.bytes]

theorem pollReads_eq (cipher : List UInt8) (reads : List (List UInt8 × ReadAnswer)) :
    pollReads keyByte cipher reads =
      ((decryptBlock keyByte).run cipher (reads.flatMap fun read => read.2.bytes)).1 := by
  induction reads generalizing cipher with
  | nil => rfl
  | cons read reads ih =>
    obtain ⟨filled, answer⟩ := read
    simp [pollReads, pollRead_eq, ih, Mealy.run_append]

/-! ## What one call does -/

/-- The accepted bytes are the encrypted plaintext up to `pos`, and the next
byte to hand over is the one the cipher makes at `pos`, made already or not. -/
structure Synced (iv plaintext : List UInt8) (s : StreamEncryptor) (pos : Nat) : Prop where
  accepted : s.accepted = ((encryptBlock keyByte).run iv (plaintext.take pos)).1
  next : ∀ byte, plaintext[pos]? = some byte →
    s.outByte keyByte byte = encryptBlock keyByte ((encryptBlock keyByte).run iv (plaintext.take pos)).2 byte

def Dead (s : StreamEncryptor) : Prop := ∃ i < s.polls, write.answer i = .error

/-- A call that handed over `count` bytes of its buffer. -/
structure Wrote (s : StreamEncryptor) (buf : List UInt8) (totalWritten count : Nat) (r : PollWrite × StreamEncryptor) :
    Prop where
  fits : count ≤ buf.length
  written : ∀ i < count, write.answer (s.polls + i) = .written
  accepted : ∃ bytes, bytes.length = count ∧ r.2.accepted = s.accepted ++ bytes
  polls : s.polls ≤ r.2.polls
  ends : (count = buf.length ∧ r.1 = .ready (totalWritten + count)) ∨
    (count < buf.length ∧ write.answer (s.polls + count) = .pending ∧
      r.1 = if totalWritten + count = 0 then .pending else .ready (totalWritten + count)) ∨
    (count < buf.length ∧ write.answer (s.polls + count) = .error ∧ r.1 = .error ∧ Dead write r.2)
  synced : ∀ {iv plaintext : List UInt8} {pos : Nat}, Synced keyByte iv plaintext s pos → buf <+: plaintext.drop pos →
    r.2.accepted = ((encryptBlock keyByte).run iv (plaintext.take (pos + count))).1 ∧
      (r.1 ≠ .error → Synced keyByte iv plaintext r.2 (pos + count))

variable {keyByte write}

theorem Synced.refused {iv plaintext : List UInt8} {s : StreamEncryptor} {pos : Nat} {byte : UInt8}
    (h : Synced keyByte iv plaintext s pos) (hbyte : plaintext[pos]? = some byte) (polls : Nat) :
    Synced keyByte iv plaintext
      { s with cipher := (s.outByte keyByte byte).2, lastUnwrittenEncryptedByte := some (s.outByte keyByte byte).1, polls }
      pos where
  accepted := h.accepted
  next byte' hbyte' := by
    rw [hbyte] at hbyte'
    cases hbyte'
    exact h.next byte hbyte

theorem take_succ_of_getElem? {plaintext : List UInt8} {pos : Nat} {byte : UInt8} (h : plaintext[pos]? = some byte) :
    plaintext.take (pos + 1) = plaintext.take pos ++ [byte] := by
  rw [List.take_add_one, h]
  rfl

theorem Synced.taken {iv plaintext : List UInt8} {s : StreamEncryptor} {pos : Nat} {byte : UInt8}
    (h : Synced keyByte iv plaintext s pos) (hbyte : plaintext[pos]? = some byte) (polls : Nat) :
    Synced keyByte iv plaintext
      { s with
        cipher := (s.outByte keyByte byte).2
        lastUnwrittenEncryptedByte := none
        accepted := s.accepted ++ [(s.outByte keyByte byte).1]
        polls }
      (pos + 1) where
  accepted := by rw [take_succ_of_getElem? hbyte, Mealy.run_snoc, h.next byte hbyte, h.accepted]
  next byte' _ := by
    rw [take_succ_of_getElem? hbyte, Mealy.run_snoc]
    simp [StreamEncryptor.outByte, ← h.next byte hbyte]

theorem getElem?_of_front {plaintext buf : List UInt8} {block : UInt8} {pos : Nat}
    (h : block :: buf <+: plaintext.drop pos) : plaintext[pos]? = some block ∧ buf <+: plaintext.drop (pos + 1) := by
  obtain ⟨rest, hrest⟩ := h
  constructor
  · have hget := congrArg List.head? hrest
    simpa using hget.symm
  · refine ⟨rest, ?_⟩
    rw [← List.tail_drop, ← hrest]
    rfl

theorem pollWrite_wrote (buf : List UInt8) : ∀ (s : StreamEncryptor) (totalWritten : Nat),
    ∃ count, Wrote keyByte write s buf totalWritten count (s.pollWrite keyByte write buf totalWritten) := by
  induction buf with
  | nil =>
    intro s totalWritten
    refine ⟨0, by simp, by simp, ⟨[], by simp [StreamEncryptor.pollWrite]⟩, by simp [StreamEncryptor.pollWrite],
      Or.inl ⟨rfl, rfl⟩, ?_⟩
    intro iv plaintext pos h _
    exact ⟨h.accepted, fun _ => h⟩
  | cons block buf ih =>
    intro s totalWritten
    cases hanswer : write.answer s.polls with
    | pending =>
      refine ⟨0, by simp, by simp, ⟨[], by simp [StreamEncryptor.pollWrite, hanswer]⟩, ?_,
        Or.inr (Or.inl ⟨by simp, hanswer, ?_⟩), ?_⟩
      · simp [StreamEncryptor.pollWrite, hanswer]
      · simp [StreamEncryptor.pollWrite, hanswer]
      intro iv plaintext pos h hfront
      have hsync := h.refused (getElem?_of_front hfront).1 (s.polls + 1)
      simp only [StreamEncryptor.pollWrite, hanswer]
      exact ⟨hsync.accepted, fun _ => hsync⟩
    | error =>
      refine ⟨0, by simp, by simp, ⟨[], by simp [StreamEncryptor.pollWrite, hanswer]⟩, ?_,
        Or.inr (Or.inr ⟨by simp, hanswer, ?_, ?_⟩), ?_⟩
      · simp [StreamEncryptor.pollWrite, hanswer]
      · simp [StreamEncryptor.pollWrite, hanswer]
      · exact ⟨s.polls, by simp [StreamEncryptor.pollWrite, hanswer], hanswer⟩
      intro iv plaintext pos h hfront
      simp only [StreamEncryptor.pollWrite, hanswer]
      exact ⟨h.accepted, fun herr => absurd rfl herr⟩
    | written =>
      obtain ⟨count, h⟩ := ih
        { s with
          cipher := (s.outByte keyByte block).2
          lastUnwrittenEncryptedByte := none
          accepted := s.accepted ++ [(s.outByte keyByte block).1]
          polls := s.polls + 1 } (totalWritten + 1)
      have hfits := h.fits
      obtain ⟨bytes, hbytes, haccepted⟩ := h.accepted
      have hpolls := h.polls
      have hends := h.ends
      have hshift : ∀ i, s.polls + 1 + i = s.polls + (i + 1) := by intro i; omega
      have htotal : totalWritten + 1 + count = totalWritten + (count + 1) := by omega
      simp only [hshift, htotal] at hends hpolls
      refine ⟨count + 1, by simpa using hfits, ?_, ?_, ?_, ?_, ?_⟩
      · intro i hi
        cases i with
        | zero => exact hanswer
        | succ i =>
          rw [← hshift]
          exact h.written i (by omega)
      · refine ⟨(s.outByte keyByte block).1 :: bytes, by simp [hbytes], ?_⟩
        simp only [StreamEncryptor.pollWrite, hanswer]
        simp [haccepted]
      · simp only [StreamEncryptor.pollWrite, hanswer]
        omega
      · simp only [StreamEncryptor.pollWrite, hanswer]
        simpa using hends
      · intro iv plaintext pos hs hfront
        obtain ⟨hbyte, hrest⟩ := getElem?_of_front hfront
        have hnext := h.synced (hs.taken hbyte (s.polls + 1)) hrest
        simp only [StreamEncryptor.pollWrite, hanswer]
        rwa [Nat.add_assoc, Nat.add_comm 1 count] at hnext

/-! ## Sessions -/

variable (keyByte write) in
/-- What is accepted is the encrypted part of the plaintext that is reported,
and the other end reads it back in whatever pieces it comes. -/
structure Delivered (iv plaintext : List UInt8) (s : Session) : Prop where
  bound : s.reported ≤ plaintext.length
  accepted : s.encryptor.accepted = ((encryptBlock keyByte).run iv (plaintext.take s.reported)).1
  decrypted : ∀ reads : List (List UInt8 × ReadAnswer),
    (reads.flatMap fun read => read.2.bytes) = s.encryptor.accepted →
      pollReads keyByte iv reads = plaintext.take s.reported

variable (write) in
/-- The writer fails after it has taken a byte of the same call. -/
def FailsMidway (plaintext : List UInt8) (s : Session) (size : Nat) : Prop :=
  ∃ count, 0 < count ∧ count < (s.buf plaintext size).length ∧
    (∀ i < count, write.answer (s.encryptor.polls + i) = .written) ∧
      write.answer (s.encryptor.polls + count) = .error

variable (keyByte write) in
structure Sound (iv plaintext : List UInt8) (s : Session) : Prop where
  bound : s.reported ≤ plaintext.length
  accepted : s.encryptor.accepted = ((encryptBlock keyByte).run iv (plaintext.take s.reported)).1
  alive : Synced keyByte iv plaintext s.encryptor s.reported ∨ Dead write s.encryptor

theorem Sound.delivered {iv plaintext : List UInt8} {s : Session} (h : Sound keyByte write iv plaintext s) :
    Delivered keyByte iv plaintext s where
  bound := h.bound
  accepted := h.accepted
  decrypted reads hreads := by
    rw [pollReads_eq, hreads, h.accepted, (decryptBlock_undoes keyByte).run]

theorem sound_start (iv plaintext : List UInt8) : Sound keyByte write iv plaintext (Session.start iv) where
  bound := by simp [Session.start]
  accepted := rfl
  alive := by
    refine Or.inl ⟨rfl, ?_⟩
    intro byte _
    rfl

theorem buf_length_le (plaintext : List UInt8) (s : Session) (size : Nat) :
    s.reported + (s.buf plaintext size).length ≤ max s.reported plaintext.length := by
  simp only [Session.buf, List.length_take, List.length_drop]
  omega

theorem Dead.count_eq_zero {s : StreamEncryptor} (h : Dead write s) {count : Nat}
    (hwritten : ∀ i < count, write.answer (s.polls + i) = .written) : count = 0 := by
  obtain ⟨i, hi, herr⟩ := h
  by_contra hne
  exact write.stopped herr hi (hwritten 0 (by omega))

theorem Dead.of_polls_le {s t : StreamEncryptor} (h : Dead write s) (hle : s.polls ≤ t.polls) : Dead write t := by
  obtain ⟨i, hi, herr⟩ := h
  exact ⟨i, by omega, herr⟩

variable (keyByte write) in
/-- The caller's account of a call: what was handed over is reported, unless the writer failed. -/
theorem call_cases (plaintext : List UInt8) (s : Session) (size : Nat) : ∃ count r,
    Wrote keyByte write s.encryptor (s.buf plaintext size) 0 count r ∧
      (s.call keyByte write plaintext size).encryptor = r.2 ∧
      ((r.1 ≠ .error ∧ (s.call keyByte write plaintext size).reported = s.reported + count) ∨
        (r.1 = .error ∧ count < (s.buf plaintext size).length ∧
          write.answer (s.encryptor.polls + count) = .error ∧ Dead write r.2 ∧
          (s.call keyByte write plaintext size).reported = s.reported)) := by
  obtain ⟨count, h⟩ : ∃ count, Wrote keyByte write s.encryptor (s.buf plaintext size) 0 count _ :=
    pollWrite_wrote (s.buf plaintext size) s.encryptor 0
  refine ⟨count, _, h, ?_, ?_⟩
  · unfold Session.call
    split <;> simp_all
  · rcases h.ends with ⟨_, hr⟩ | ⟨_, _, hr⟩ | ⟨hlt, herr, hr, hdead⟩
    · left
      unfold Session.call
      split <;> simp_all
    · left
      by_cases hzero : count = 0
      · unfold Session.call
        split <;> simp_all
      · unfold Session.call
        split <;> simp_all
    · right
      refine ⟨hr, hlt, herr, hdead, ?_⟩
      unfold Session.call
      split <;> simp_all

theorem Sound.call {iv plaintext : List UInt8} {s : Session} (h : Sound keyByte write iv plaintext s) {size : Nat}
    (hfine : ¬ FailsMidway write plaintext s size) :
    Sound keyByte write iv plaintext (s.call keyByte write plaintext size) := by
  obtain ⟨count, r, hw, hr, hends⟩ := call_cases keyByte write plaintext s size
  have hbuf := buf_length_le plaintext s size
  have hfits := hw.fits
  have hbound := h.bound
  have hreported : (s.call keyByte write plaintext size).reported = s.reported + count := by
    rcases hends with ⟨_, hrep⟩ | ⟨_, hlt, herr, _, hrep⟩
    · exact hrep
    · by_cases hzero : count = 0
      · simpa [hzero] using hrep
      · exact absurd ⟨count, by omega, hlt, hw.written, herr⟩ hfine
  rcases h.alive with hsync | hdead
  · have hfront : s.buf plaintext size <+: plaintext.drop s.reported := List.take_prefix _ _
    obtain ⟨haccepted, hnext⟩ := hw.synced hsync hfront
    refine ⟨by omega, by rw [hr, hreported, haccepted], ?_⟩
    rw [hr, hreported]
    rcases hends with ⟨hne, _⟩ | ⟨_, _, _, hdead, _⟩
    · exact Or.inl (hnext hne)
    · exact Or.inr hdead
  · have hzero := hdead.count_eq_zero hw.written
    subst hzero
    obtain ⟨bytes, hbytes, haccepted⟩ := hw.accepted
    have hnil : bytes = [] := by simpa using hbytes
    subst hnil
    refine ⟨by omega, ?_, Or.inr ?_⟩
    · rw [hr, hreported, haccepted]
      simpa using h.accepted
    · rw [hr]
      exact hdead.of_polls_le hw.polls

theorem not_failsMidway {iv plaintext : List UInt8} {s : Session} (h : Delivered keyByte iv plaintext s) {size : Nat}
    (hnext : Delivered keyByte iv plaintext (s.call keyByte write plaintext size)) :
    ¬ FailsMidway write plaintext s size := by
  rintro ⟨failed, hpos, hlt, hwritten, herr⟩
  obtain ⟨count, r, hw, hr, hends⟩ := call_cases keyByte write plaintext s size
  have hcount : count = failed := by
    rcases Nat.lt_trichotomy count failed with hless | heq | hmore
    · rcases hw.ends with ⟨hall, _⟩ | ⟨_, hpend, _⟩ | ⟨_, herr', _⟩
      · omega
      · rw [hwritten count hless] at hpend
        cases hpend
      · rw [hwritten count hless] at herr'
        cases herr'
    · exact heq
    · rw [hw.written failed hmore] at herr
      cases herr
  subst hcount
  have hreported : (s.call keyByte write plaintext size).reported = s.reported := by
    rcases hw.ends with ⟨hall, _⟩ | ⟨_, hpend, _⟩ | ⟨_, _, hres, _⟩
    · omega
    · rw [hpend] at herr
      cases herr
    · rcases hends with ⟨hne, _⟩ | ⟨_, _, _, _, hrep⟩
      · exact absurd hres hne
      · exact hrep
  obtain ⟨bytes, hbytes, haccepted⟩ := hw.accepted
  have hbefore := congrArg List.length h.accepted
  have hafter := congrArg List.length hnext.accepted
  rw [hr, hreported, haccepted] at hafter
  simp only [List.length_append, Mealy.length_run] at hbefore hafter
  omega

variable (keyByte write) in
theorem afterCalls_snoc (iv plaintext : List UInt8) (sizes : List Nat) (size : Nat) :
    afterCalls keyByte write iv plaintext (sizes ++ [size]) =
      (afterCalls keyByte write iv plaintext sizes).call keyByte write plaintext size := by
  simp [afterCalls]

variable (keyByte write) in
/-- The stream survives exactly the sessions in which the writer fails only on the first byte of a call. -/
theorem delivered_throughout_iff (iv plaintext : List UInt8) (sizes : List Nat) :
    (∀ done rest, sizes = done ++ rest →
        Delivered keyByte iv plaintext (afterCalls keyByte write iv plaintext done)) ↔
      ∀ done size rest, sizes = done ++ size :: rest →
        ¬ FailsMidway write plaintext (afterCalls keyByte write iv plaintext done) size := by
  constructor
  · intro h done size rest heq
    have hnext := h (done ++ [size]) rest (by simp [heq])
    rw [afterCalls_snoc] at hnext
    exact not_failsMidway (h done (size :: rest) heq) hnext
  · intro h done
    have hsound : ∀ rest, sizes = done ++ rest →
        Sound keyByte write iv plaintext (afterCalls keyByte write iv plaintext done) := by
      induction done using List.reverseRecOn with
      | nil =>
        intro rest _
        exact sound_start iv plaintext
      | append_singleton done size ih =>
        intro rest heq
        rw [afterCalls_snoc]
        exact (ih (size :: rest) (by simp [heq])).call (h done size rest (by simp [heq]))
    intro rest heq
    exact (hsound rest heq).delivered

/-- A writer that takes one byte and then fails. -/
def takesOne : InnerWriter where
  answer i := if i = 0 then .written else .error
  stopped := by
    intro i j _ hlt
    have hne : j ≠ 0 := by omega
    simp [hne]

theorem failure_midway_unreported : ¬ ∀ (keyByte : List UInt8 → UInt8) (write : InnerWriter) (iv plaintext : List UInt8)
    (sizes : List Nat), Delivered keyByte iv plaintext (afterCalls keyByte write iv plaintext sizes) := by
  intro h
  have haccepted := (h (fun _ => 0) takesOne (List.replicate 16 0) [7, 8] [2]).accepted
  revert haccepted
  decide

end

end Frame
end Foton
