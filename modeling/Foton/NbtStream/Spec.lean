import Foton.NbtStream.Encoding

/-!
# A writer meets its encoding

Each minimum that a writer demands before it goes on is one that the bytes of
an accepted tag reach: it fails early only where it would fail anyway.
-/

namespace Foton.NbtStream

open BoundedWrite KeyedSort

variable {limits : WriterLimits} {scratch depth : Nat}

/-! ## Strings, numbers and elements -/

theorem writes_write (bytes : List UInt8) : Writes (write bytes) True bytes := writes_writeAll _ bytes

theorem writes_string (v : Mutf8) : Writes (writeString limits v) (StringFits limits v) (stringBytes v) := by
  have hbytes : Writes (seq (write (toBeBytes 2 v.length)) (write v)) (True ∧ True) (stringBytes v) :=
    (writes_write _).seq (writes_write v)
  have hmin : 2 + v.length ≤ (stringBytes v).length := by simp [stringBytes]
  apply (((hbytes.require _ _).ensureRemaining _ hmin).require _ _).congr
  simp [StringFits, imp_iff_not_or]

theorem writes_length (length : Nat) : Writes (writeLength length) (length < 2 ^ 31) (lengthBytes length) := by
  apply ((writes_write (toBeBytes 4 length)).require _ _).congr
  simp

theorem writes_byteArray (v : List UInt8) : Writes (writeByteArray v) (v.length < 2 ^ 31) (byteArrayBytes v) := by
  apply ((writes_length v.length).seq (writes_write v)).congr
  simp

section
variable {α : Type} {v : List α}

theorem writes_elements {write : α → NbtWriter} {accepted : α → Prop} {bytes : α → List UInt8}
    (h : ∀ x ∈ v, Writes (write x) (accepted x) (bytes x)) :
    Writes (writeElements (v.map write)) (v.length < 2 ^ 31 ∧ ∀ x ∈ v, accepted x) (elementsBytes (v.map bytes)) := by
  have hlength := writes_length (v.map write).length
  have helements := hlength.seq (writes_seqAll write accepted bytes h)
  rw [List.length_map] at helements
  rw [elementsBytes, List.length_map, ← List.flatMap_def]
  unfold writeElements
  rw [List.length_map]
  exact helements

theorem writes_numbers (bytes : α → List UInt8) (v : List α) :
    Writes (writeNumbers bytes v) (v.length < 2 ^ 31) (numbersBytes bytes v) := by
  have hwrite : ∀ x ∈ v, Writes (write (bytes x)) True (bytes x) := fun x _ => writes_write (bytes x)
  have h := writes_elements hwrite
  unfold writeElements at h
  rw [List.length_map] at h
  apply h.congr
  simp

end

/-! ## Compounds -/

theorem payloadBytes_length_pos (canonical : Bool) (tag : NbtTag) : 1 ≤ (payloadBytes canonical tag).length := by
  cases tag with
  | list v =>
    unfold payloadBytes listBytes
    simp
  | compound v => simp [payloadBytes, compoundBytes]
  | _ => simp [payloadBytes, byteBytes, shortBytes, intBytes, longBytes, floatBytes, doubleBytes, stringBytes,
      byteArrayBytes, numbersBytes, elementsBytes, lengthBytes]; try omega

theorem fieldBytes_length (canonical : Bool) (e : Mutf8 × NbtTag) : e.1.length + 4 ≤ (fieldBytes canonical e).length := by
  have hpos := payloadBytes_length_pos canonical e.2
  simp only [fieldBytes, stringBytes, List.length_cons, List.length_append, toBeBytes_length]
  omega

/-- What the names of a compound alone take, with ids, lengths and at least a byte of payload. -/
def namesSize (names : List Mutf8) : Nat := (names.map fun name => name.length + 4).sum

theorem length_le_namesSize (names : List Mutf8) : names.length * 4 ≤ namesSize names := by
  unfold namesSize
  induction names with
  | nil => simp
  | cons name rest ih =>
    simp only [List.length_cons, List.map_cons, List.sum_cons]
    omega

theorem namesSize_le (canonical : Bool) (v : NbtCompound) :
    namesSize (v.map Prod.fst) ≤ (v.map (fieldBytes canonical)).flatten.length := by
  unfold namesSize
  induction v with
  | nil => simp
  | cons e rest ih =>
    have hfield := fieldBytes_length canonical e
    simp only [List.map_cons, List.sum_cons, List.flatten_cons, List.length_append]
    omega

theorem namesSize_perm {names names' : List Mutf8} (h : names.Perm names') : namesSize names = namesSize names' :=
  (h.map _).sum_nat

theorem nameOrder_injective : Function.Injective nameOrder :=
  List.map_injective_iff.mpr fun _ _ => UInt8.toNat_inj.mp

theorem writes_checkNames {next : NbtWriter} {accepted : Prop} {bytes : List UInt8} (hnext : Writes next accepted bytes) :
    ∀ {names : List Mutf8} {minimum : Nat}, minimum + namesSize names ≤ bytes.length →
      Writes (checkNames minimum names next) ((∀ name ∈ names, name.length ≤ 65535) ∧ accepted) bytes := by
  intro names
  induction names with
  | nil =>
    intro minimum _
    exact hnext.congr (by simp)
  | cons name rest ih =>
    intro minimum hmin
    have hsize : namesSize (name :: rest) = name.length + 4 + namesSize rest := by simp [namesSize]
    have hstep : saturatingAdd (saturatingAdd minimum name.length) 4 ≤ minimum + (name.length + 4) := by
      unfold saturatingAdd
      omega
    have hrest : saturatingAdd (saturatingAdd minimum name.length) 4 + namesSize rest ≤ bytes.length := by omega
    apply (((ih hrest).require _ _).ensureRemaining _ (by omega)).congr
    simp [and_assoc]

theorem checkNames_seq (next second : NbtWriter) (names : List Mutf8) (minimum : Nat) :
    seq (checkNames minimum names next) second = checkNames minimum names (seq next second) := by
  induction names generalizing minimum with
  | nil => rfl
  | cons name rest ih => rw [checkNames, ensureRemaining_seq, require_seq, ih, ← checkNames]

theorem writes_field {e : Mutf8 × NbtTag}
    (h : Writes (writePayload limits scratch (depth + 1) e.2) (PayloadAccepted limits scratch (depth + 1) e.2)
      (payloadBytes limits.canonicalCompounds e.2)) :
    Writes (fieldWriter limits scratch depth e) (FieldAccepted limits scratch depth e)
      (fieldBytes limits.canonicalCompounds e) := by
  apply ((writes_write [e.2.id]).seq ((writes_string e.1).seq h)).congr
  simp [FieldAccepted]

section
variable {v : NbtCompound} (h : ∀ e ∈ v, Writes (fieldWriter limits scratch depth e)
  (FieldAccepted limits scratch depth e) (fieldBytes limits.canonicalCompounds e))
include h

theorem writes_fieldsAndEnd {xs : NbtCompound} (hperm : xs.Perm v) :
    Writes (seq (seqAll (xs.map (fieldWriter limits scratch depth))) (write [0]))
      (∀ e ∈ v, FieldAccepted limits scratch depth e)
      ((xs.map (fieldBytes limits.canonicalCompounds)).flatten ++ [0]) := by
  have hfields : ∀ e ∈ xs, Writes (fieldWriter limits scratch depth e) (FieldAccepted limits scratch depth e)
      (fieldBytes limits.canonicalCompounds e) := fun e he => h e (hperm.mem_iff.mp he)
  have hseq := (writes_seqAll _ _ _ hfields).seq (writes_write [0])
  rw [← List.flatMap_def]
  apply hseq.congr
  simp [hperm.mem_iff]

end

/-- The fields are within a compound whose index has taken its share of the workspace. -/
theorem writes_compound {v : NbtCompound}
    (h : ∀ e ∈ v, Writes (fieldWriter limits (scratchWithin limits scratch v.length) depth e)
      (FieldAccepted limits (scratchWithin limits scratch v.length) depth e)
      (fieldBytes limits.canonicalCompounds e)) :
    Writes (writeCompound limits scratch depth v) (CompoundAccepted limits scratch depth v)
      (compoundBytes limits.canonicalCompounds (fieldsBytes limits.canonicalCompounds v)) := by
  unfold writeCompound writeCompoundFields writeFields compoundBytes CompoundAccepted CompoundFits
  rw [require_seq, ensureRemaining_seq, fieldWriters_eq, fieldsBytes_eq, fieldsAccepted_iff]
  have hmin : saturatingAdd (saturatingMul v.length 4) 1 ≤ namesSize (v.map Prod.fst) + 1 := by
    have hle := length_le_namesSize (v.map Prod.fst)
    rw [List.length_map] at hle
    unfold saturatingAdd saturatingMul
    omega
  rw [List.length_map]
  by_cases hcanonical : limits.canonicalCompounds = true
  · have hperm := sortByKey_perm nameOrder v
    have hfields := writes_fieldsAndEnd h hperm
    have hsize := namesSize_le limits.canonicalCompounds (sortByKey nameOrder v)
    rw [namesSize_perm (hperm.map Prod.fst)] at hsize
    rw [if_pos hcanonical, if_pos hcanonical, sortByKey_map, sortByKey_map, checkNames_seq, require_seq, require_seq,
      map_fst_pair, map_fst_pair, map_snd_pair, map_snd_pair]
    have hbytes : namesSize (v.map Prod.fst) + 1 ≤
        (((sortByKey nameOrder v).map (fieldBytes limits.canonicalCompounds)).flatten ++ [0]).length := by
      rw [List.length_append]
      exact Nat.add_le_add_right hsize 1
    have hrequired := (hfields.require NbtError.duplicateKey
      (!adjacentEqual ((sortByKey nameOrder v).map Prod.fst))).require NbtError.workspaceExceeded
      (requiredScratch v.length ≤ scratch)
    have hminimum : 1 + namesSize (v.map Prod.fst) ≤
        (((sortByKey nameOrder v).map (fieldBytes limits.canonicalCompounds)).flatten ++ [0]).length := by omega
    have hnames := writes_checkNames hrequired hminimum
    apply ((hnames.ensureRemaining NbtError.budgetExceeded (hmin.trans hbytes)).require NbtError.nestingExceeded _).congr
    have hnodup := adjacentEqual_sortByKey nameOrder_injective v
    have hshort : (∀ e ∈ v, FieldAccepted limits (scratchWithin limits scratch v.length) depth e) →
        ∀ name ∈ v.map Prod.fst, name.length ≤ 65535 := by
      intro hfit name hname
      obtain ⟨e, he, rfl⟩ := List.mem_map.mp hname
      exact (hfit e he).1.1
    simp only [decide_eq_true_eq, Bool.not_eq_true', hnodup, List.length_map, hcanonical, forall_const, and_assoc]
    constructor
    · intro hwritten
      obtain ⟨hdepth, _, hscratch, hdistinct, hfit⟩ := hwritten
      exact ⟨hdepth, hscratch, hdistinct, hfit⟩
    · intro haccepted
      obtain ⟨hdepth, hscratch, hdistinct, hfit⟩ := haccepted
      exact ⟨hdepth, hshort hfit, hscratch, hdistinct, hfit⟩
  · have hfields := writes_fieldsAndEnd h (List.Perm.refl v)
    have hsize := namesSize_le limits.canonicalCompounds v
    rw [if_neg hcanonical, if_neg hcanonical, map_snd_pair, map_snd_pair]
    have hbytes : namesSize (v.map Prod.fst) + 1 ≤
        ((v.map (fieldBytes limits.canonicalCompounds)).flatten ++ [0]).length := by
      rw [List.length_append]
      exact Nat.add_le_add_right hsize 1
    apply ((hfields.ensureRemaining NbtError.budgetExceeded (hmin.trans hbytes)).require NbtError.nestingExceeded _).congr
    simp [hcanonical]

/-! ## Tags and lists -/

theorem writes_compound_of_payloads {v : NbtCompound} {scratch depth : Nat}
    (h : ∀ e ∈ v, ∀ scratch depth, Writes (writePayload limits scratch depth e.2)
      (PayloadAccepted limits scratch depth e.2) (payloadBytes limits.canonicalCompounds e.2)) :
    Writes (writeCompound limits scratch depth v) (CompoundAccepted limits scratch depth v)
      (compoundBytes limits.canonicalCompounds (fieldsBytes limits.canonicalCompounds v)) :=
  writes_compound fun e he => writes_field (h e he _ _)

theorem writes_leaf (tag : NbtTag) (hleaf : tag.IsLeaf) (scratch depth : Nat) :
    Writes (writePayload limits scratch depth tag) (PayloadAccepted limits scratch depth tag)
      (payloadBytes limits.canonicalCompounds tag) := by
  unfold writePayload PayloadAccepted payloadBytes
  cases tag with
  | list v => exact absurd hleaf id
  | compound v => exact absurd hleaf id
  | string v => exact ((writes_string v).require _ _).congr (by simp)
  | byteArray v => exact ((writes_byteArray v).require _ _).congr (by simp)
  | intArray v => exact ((writes_numbers intBytes v).require _ _).congr (by simp)
  | longArray v => exact ((writes_numbers longBytes v).require _ _).congr (by simp)
  | _ => exact ((writes_write _).require _ _).congr (by simp)

theorem writes_listOf {id : UInt8} {elements : NbtWriter} {accepted : Prop} {bytes : List UInt8}
    (h : Writes elements accepted bytes) :
    Writes (checkListDepth limits depth id (seq (write [id]) elements)) (ListFits limits depth id ∧ accepted)
      (id :: bytes) := by
  have hseq := (writes_write [id]).seq h
  apply (hseq.require _ _).congr
  rw [Bool.not_eq_true', ← Bool.not_eq_true]
  simp only [ListFits, Bool.and_eq_true, Bool.or_eq_true, decide_eq_true_eq, or_assoc, true_and]

theorem writes_leafList (list : NbtList) (hleaf : list.IsLeaf) (scratch depth : Nat) :
    Writes (writeList limits scratch depth list) (ListAccepted limits scratch depth list)
      (listBytes limits.canonicalCompounds list) := by
  unfold writeList ListAccepted listBytes
  cases list with
  | list v => exact absurd hleaf id
  | compound v => exact absurd hleaf id
  | empty => exact writes_listOf ((writes_length 0).congr (by simp))
  | string v => exact writes_listOf (writes_elements fun x _ => writes_string x)
  | byteArray v => exact writes_listOf (writes_elements fun x _ => writes_byteArray x)
  | intArray v => exact writes_listOf (writes_elements fun x _ => writes_numbers intBytes x)
  | longArray v => exact writes_listOf (writes_elements fun x _ => writes_numbers longBytes x)
  | _ => exact writes_listOf (writes_numbers _ _)

theorem writes_induction (limits : WriterLimits) :
    NbtInduction
      (fun tag => ∀ scratch depth, Writes (writePayload limits scratch depth tag)
        (PayloadAccepted limits scratch depth tag) (payloadBytes limits.canonicalCompounds tag))
      (fun list => ∀ scratch depth, Writes (writeList limits scratch depth list)
        (ListAccepted limits scratch depth list) (listBytes limits.canonicalCompounds list)) where
  leaf := writes_leaf
  leafList := writes_leafList
  list := by
    intro v h scratch depth
    unfold writePayload PayloadAccepted payloadBytes
    exact ((h scratch depth).require _ _).congr (by simp)
  compound := by
    intro v h scratch depth
    unfold writePayload PayloadAccepted payloadBytes
    have hcompound : Writes (writeCompound limits scratch depth v) _ _ := writes_compound_of_payloads h
    exact (hcompound.require _ _).congr (by simp [CompoundAccepted])
  lists := by
    intro v h scratch depth
    unfold writeList ListAccepted listBytes
    apply writes_listOf
    dsimp only
    rw [listWriters_eq, listsAccepted_iff, listsBytes_eq]
    exact writes_elements fun x hx => h x hx scratch (depth + 1)
  compounds := by
    intro v h scratch depth
    unfold writeList ListAccepted listBytes
    apply writes_listOf
    dsimp only
    rw [compoundWriters_eq, compoundsAccepted_iff, compoundsBytes_eq]
    exact writes_elements fun x hx => writes_compound_of_payloads (h x hx)

theorem writes_payload (limits : WriterLimits) (scratch depth : Nat) (tag : NbtTag) :
    Writes (writePayload limits scratch depth tag) (PayloadAccepted limits scratch depth tag)
      (payloadBytes limits.canonicalCompounds tag) :=
  (writes_induction limits).tag tag scratch depth

theorem writeCompound_writes (limits : WriterLimits) (scratch depth : Nat) (v : NbtCompound) :
    Writes (writeCompound limits scratch depth v) (CompoundAccepted limits scratch depth v)
      (compoundBytes limits.canonicalCompounds (fieldsBytes limits.canonicalCompounds v)) :=
  writes_compound_of_payloads fun e _ scratch depth => writes_payload limits scratch depth e.2

theorem writeTag_writes (limits : WriterLimits) (scratch depth : Nat) (tag : NbtTag) :
    Writes (writeTag limits scratch depth tag) (PayloadAccepted limits scratch depth tag)
      (tagBytes limits.canonicalCompounds tag) :=
  ((writes_write [tag.id]).seq (writes_payload limits scratch depth tag)).congr (by simp)

end Foton.NbtStream
