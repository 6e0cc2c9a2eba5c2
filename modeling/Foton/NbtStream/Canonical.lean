import Foton.NbtStream.Spec

/-!
# Canonical compounds

The canonical bytes of a tag are as many as its plain ones, and depend on its
compounds only as maps. A canonical writer accepts no duplicate key anywhere.
-/

namespace Foton.NbtStream

open BoundedWrite KeyedSort

/-! ## Size -/

theorem compoundBytes_length (canonical : Bool) (v : NbtCompound) :
    (compoundBytes canonical (fieldsBytes canonical v)).length =
      (v.map fun e => (fieldBytes canonical e).length).sum + 1 := by
  unfold compoundBytes
  rw [fieldsBytes_eq, sortByKey_map]
  cases canonical with
  | true =>
    have hperm := (sortByKey_perm nameOrder v).map fun e => (fieldBytes true e).length
    simp [Function.comp_def, hperm.sum_nat]
  | false => simp [Function.comp_def]

theorem elementsBytes_length_congr {α : Type} {v : List α} {f g : α → List UInt8}
    (h : ∀ x ∈ v, (f x).length = (g x).length) :
    (elementsBytes (v.map f)).length = (elementsBytes (v.map g)).length := by
  have hmap : v.map (List.length ∘ f) = v.map (List.length ∘ g) := List.map_congr_left h
  simp [elementsBytes, lengthBytes, hmap]

theorem compound_size {v : NbtCompound} (h : ∀ e ∈ v, (payloadBytes true e.2).length = (payloadBytes false e.2).length) :
    (compoundBytes true (fieldsBytes true v)).length = (compoundBytes false (fieldsBytes false v)).length := by
  have hfield : ∀ e ∈ v, (fieldBytes true e).length = (fieldBytes false e).length := by
    intro e he
    simp [fieldBytes, h e he]
  rw [compoundBytes_length, compoundBytes_length, List.map_congr_left hfield]

theorem size_induction :
    NbtInduction (fun tag => (payloadBytes true tag).length = (payloadBytes false tag).length)
      (fun list => (listBytes true list).length = (listBytes false list).length) where
  leaf := by
    intro tag hleaf
    cases tag with
    | list v => exact absurd hleaf id
    | compound v => exact absurd hleaf id
    | _ => simp [payloadBytes]
  leafList := by
    intro list hleaf
    unfold listBytes
    cases list with
    | list v => exact absurd hleaf id
    | compound v => exact absurd hleaf id
    | _ => simp
  list := by
    intro v h
    simpa [payloadBytes] using h
  compound := by
    intro v h
    simpa [payloadBytes] using compound_size h
  lists := by
    intro v h
    unfold listBytes
    dsimp only
    rw [listsBytes_eq, listsBytes_eq, List.length_cons, List.length_cons, elementsBytes_length_congr h]
  compounds := by
    intro v h
    unfold listBytes
    dsimp only
    rw [compoundsBytes_eq, compoundsBytes_eq, List.length_cons, List.length_cons,
      elementsBytes_length_congr fun x hx => compound_size (h x hx)]

theorem payload_size (canonical : Bool) (tag : NbtTag) :
    (payloadBytes canonical tag).length = (payloadBytes false tag).length := by
  cases canonical with
  | true => exact size_induction.tag tag
  | false => rfl

/-! ## Duplicate keys -/

mutual

/-- No compound within the tag has a key twice. -/
def Distinct : NbtTag → Prop
  | .compound v => (v.map Prod.fst).Nodup ∧ DistinctFields v
  | .list v => DistinctList v
  | _ => True

def DistinctList : NbtList → Prop
  | .compound v => DistinctCompounds v
  | .list v => DistinctLists v
  | _ => True

def DistinctFields : NbtCompound → Prop
  | [] => True
  | (_, tag) :: rest => Distinct tag ∧ DistinctFields rest

def DistinctLists : List NbtList → Prop
  | [] => True
  | list :: rest => DistinctList list ∧ DistinctLists rest

def DistinctCompounds : List NbtCompound → Prop
  | [] => True
  | v :: rest => ((v.map Prod.fst).Nodup ∧ DistinctFields v) ∧ DistinctCompounds rest

end

theorem distinctFields_iff (v : NbtCompound) : DistinctFields v ↔ ∀ e ∈ v, Distinct e.2 := by
  induction v with
  | nil => simp [DistinctFields]
  | cons e rest ih => simp [DistinctFields, ih]

theorem distinctLists_iff (v : List NbtList) : DistinctLists v ↔ ∀ x ∈ v, DistinctList x := by
  induction v with
  | nil => simp [DistinctLists]
  | cons x rest ih => simp [DistinctLists, ih]

theorem distinctCompounds_iff (v : List NbtCompound) : DistinctCompounds v ↔ ∀ x ∈ v, Distinct (.compound x) := by
  induction v with
  | nil => simp [DistinctCompounds]
  | cons x rest ih => simp [DistinctCompounds, Distinct, ih]

variable {limits : WriterLimits} {scratch depth : Nat}

theorem distinct_of_compoundAccepted (hcanonical : limits.canonicalCompounds = true) {v : NbtCompound}
    (h : ∀ e ∈ v, ∀ scratch depth, PayloadAccepted limits scratch depth e.2 → Distinct e.2)
    (haccepted : CompoundAccepted limits scratch depth v) : Distinct (.compound v) := by
  obtain ⟨⟨_, hfits⟩, hfields⟩ := haccepted
  rw [fieldsAccepted_iff] at hfields
  unfold Distinct
  rw [distinctFields_iff]
  exact ⟨(hfits hcanonical).2, fun e he => h e he _ _ (hfields e he).2⟩

theorem distinct_induction (hcanonical : limits.canonicalCompounds = true) :
    NbtInduction (fun tag => ∀ scratch depth, PayloadAccepted limits scratch depth tag → Distinct tag)
      (fun list => ∀ scratch depth, ListAccepted limits scratch depth list → DistinctList list) where
  leaf := by
    intro tag hleaf scratch depth _
    cases tag with
    | list v => exact absurd hleaf id
    | compound v => exact absurd hleaf id
    | _ => simp [Distinct]
  leafList := by
    intro list hleaf scratch depth _
    cases list with
    | list v => exact absurd hleaf id
    | compound v => exact absurd hleaf id
    | _ => simp [DistinctList]
  list := by
    intro v h scratch depth haccepted
    unfold PayloadAccepted at haccepted
    unfold Distinct
    exact h _ _ haccepted.2
  compound := by
    intro v h scratch depth haccepted
    unfold PayloadAccepted at haccepted
    exact distinct_of_compoundAccepted hcanonical h haccepted.2
  lists := by
    intro v h scratch depth haccepted
    unfold ListAccepted at haccepted
    have helements := (listsAccepted_iff v).mp haccepted.2.2
    unfold DistinctList
    rw [distinctLists_iff]
    exact fun x hx => h x hx _ _ (helements x hx)
  compounds := by
    intro v h scratch depth haccepted
    unfold ListAccepted at haccepted
    have helements := (compoundsAccepted_iff v).mp haccepted.2.2
    unfold DistinctList
    rw [distinctCompounds_iff]
    exact fun x hx => distinct_of_compoundAccepted hcanonical (h x hx) (helements x hx)

theorem CompoundAccepted.distinct (hcanonical : limits.canonicalCompounds = true) {v : NbtCompound}
    (h : CompoundAccepted limits scratch depth v) : Distinct (.compound v) :=
  distinct_of_compoundAccepted hcanonical (fun e _ => (distinct_induction hcanonical).tag e.2) h

/-! ## Compounds as maps -/

mutual

/-- The tags are the same up to the order of the entries of their compounds. -/
def SameTag : NbtTag → NbtTag → Prop
  | .compound v, .compound w => v.length = w.length ∧ SameFields v w
  | .list v, .list w => SameList v w
  | tag, other => tag = other

def SameList : NbtList → NbtList → Prop
  | .compound v, .compound w => SameCompounds v w
  | .list v, .list w => SameLists v w
  | list, other => list = other

def SameFields : NbtCompound → NbtCompound → Prop
  | [], _ => True
  | (name, tag) :: rest, w => (∃ e ∈ w, name = e.1 ∧ SameTag tag e.2) ∧ SameFields rest w

def SameLists : List NbtList → List NbtList → Prop
  | list :: rest, list' :: rest' => SameList list list' ∧ SameLists rest rest'
  | [], [] => True
  | _, _ => False

def SameCompounds : List NbtCompound → List NbtCompound → Prop
  | v :: rest, w :: rest' => (v.length = w.length ∧ SameFields v w) ∧ SameCompounds rest rest'
  | [], [] => True
  | _, _ => False

end

def SameCompound (v w : NbtCompound) : Prop := SameTag (.compound v) (.compound w)

theorem sameFields_iff (v w : NbtCompound) : SameFields v w ↔ ∀ e ∈ v, ∃ e' ∈ w, e.1 = e'.1 ∧ SameTag e.2 e'.2 := by
  induction v with
  | nil => simp [SameFields]
  | cons e rest ih =>
    obtain ⟨name, tag⟩ := e
    rw [SameFields, ih, List.forall_mem_cons]

theorem sameCompound_iff (v w : NbtCompound) :
    SameCompound v w ↔ v.length = w.length ∧ ∀ e ∈ v, ∃ e' ∈ w, e.1 = e'.1 ∧ SameTag e.2 e'.2 := by
  rw [SameCompound, SameTag, sameFields_iff]

theorem sameLists_iff (v w : List NbtList) : SameLists v w ↔ List.Forall₂ SameList v w := by
  induction v generalizing w with
  | nil => cases w <;> simp [SameLists]
  | cons x rest ih =>
    cases w with
    | nil => simp [SameLists]
    | cons y rest' => simp [SameLists, ih]

theorem sameCompounds_iff (v w : List NbtCompound) : SameCompounds v w ↔ List.Forall₂ SameCompound v w := by
  induction v generalizing w with
  | nil => cases w <;> simp [SameCompounds]
  | cons x rest ih =>
    cases w with
    | nil => simp [SameCompounds]
    | cons y rest' => simp [SameCompounds, SameCompound, SameTag, ih]

/-- Values paired with the keys are the same entries in another order where they agree entry by entry. -/
theorem fields_perm {γ : Type} {v w : NbtCompound} {f : Mutf8 × NbtTag → γ} (hv : (v.map Prod.fst).Nodup)
    (hlength : v.length = w.length) (h : ∀ e ∈ v, ∃ e' ∈ w, e.1 = e'.1 ∧ f e = f e') :
    (v.map fun e => (e.1, f e)).Perm (w.map fun e => (e.1, f e)) := by
  have hnodup : (v.map fun e => (e.1, f e)).Nodup := by
    apply List.Nodup.of_map Prod.fst
    rw [map_fst_pair]
    exact hv
  have hsub : (v.map fun e => (e.1, f e)) ⊆ w.map fun e => (e.1, f e) := by
    intro x hx
    obtain ⟨e, he, rfl⟩ := List.mem_map.mp hx
    obtain ⟨e', he', hname, hf⟩ := h e he
    rw [hname, hf]
    exact List.mem_map.mpr ⟨e', he', rfl⟩
  exact (List.subperm_of_subset hnodup hsub).perm_of_length_le (by simp [hlength])

theorem map_eq_of_same {α γ : Type} {same : α → α → Prop} {distinct : α → Prop} {f : α → γ} {v w : List α}
    (h : ∀ x ∈ v, ∀ y, same x y → distinct x → distinct y → f x = f y) (hsame : List.Forall₂ same v w)
    (hv : ∀ x ∈ v, distinct x) (hw : ∀ y ∈ w, distinct y) : v.map f = w.map f := by
  induction hsame with
  | nil => rfl
  | cons hxy _ ih =>
    have hx := h _ List.mem_cons_self _ hxy (hv _ List.mem_cons_self) (hw _ List.mem_cons_self)
    have hrest := ih (fun x hx => h x (List.mem_cons_of_mem _ hx)) (fun x hx => hv x (List.mem_cons_of_mem _ hx))
      (fun y hy => hw y (List.mem_cons_of_mem _ hy))
    rw [List.map_cons, List.map_cons, hx, hrest]

/-- All that a writer makes of a tag: its id, its bytes, and where it is accepted. -/
def tagEncoding (limits : WriterLimits) (tag : NbtTag) : UInt8 × List UInt8 × (Nat → Nat → Prop) :=
  (tag.id, payloadBytes limits.canonicalCompounds tag, fun scratch depth => PayloadAccepted limits scratch depth tag)

def listEncoding (limits : WriterLimits) (list : NbtList) : UInt8 × List UInt8 × (Nat → Nat → Prop) :=
  (list.id, listBytes limits.canonicalCompounds list, fun scratch depth => ListAccepted limits scratch depth list)

def compoundEncoding (limits : WriterLimits) (v : NbtCompound) : List UInt8 × (Nat → Nat → Prop) :=
  (compoundBytes limits.canonicalCompounds (fieldsBytes limits.canonicalCompounds v),
    fun scratch depth => CompoundAccepted limits scratch depth v)

/-- The names of a compound with what a writer makes of their tags. -/
def fieldEncodings (limits : WriterLimits) (v : NbtCompound) :
    List (Mutf8 × UInt8 × List UInt8 × (Nat → Nat → Prop)) :=
  v.map fun e => (e.1, tagEncoding limits e.2)

theorem fieldsBytes_eq_map (v : NbtCompound) :
    fieldsBytes limits.canonicalCompounds v =
      (fieldEncodings limits v).map fun x => (x.1, x.2.1 :: (stringBytes x.1 ++ x.2.2.1)) := by
  rw [fieldsBytes_eq, fieldEncodings, List.map_map]
  rfl

theorem fieldsAccepted_iff_map (v : NbtCompound) :
    FieldsAccepted limits scratch depth v ↔
      ∀ x ∈ fieldEncodings limits v, StringFits limits x.1 ∧ x.2.2.2 scratch (depth + 1) := by
  rw [fieldsAccepted_iff, fieldEncodings, List.forall_mem_map]
  exact Iff.rfl

theorem compoundEncoding_eq_of_perm (hcanonical : limits.canonicalCompounds = true) {v w : NbtCompound}
    (hv : (v.map Prod.fst).Nodup) (hperm : (fieldEncodings limits v).Perm (fieldEncodings limits w)) :
    compoundEncoding limits v = compoundEncoding limits w := by
  have hnames : (v.map Prod.fst).Perm (w.map Prod.fst) := by
    have hfst := hperm.map Prod.fst
    rwa [fieldEncodings, fieldEncodings, map_fst_pair, map_fst_pair] at hfst
  have hlength : v.length = w.length := by simpa using hnames.length_eq
  have hbytes : compoundBytes limits.canonicalCompounds (fieldsBytes limits.canonicalCompounds v) =
      compoundBytes limits.canonicalCompounds (fieldsBytes limits.canonicalCompounds w) := by
    have hfields : (fieldsBytes limits.canonicalCompounds v).Perm (fieldsBytes limits.canonicalCompounds w) := by
      rw [fieldsBytes_eq_map, fieldsBytes_eq_map]
      exact hperm.map _
    have hdistinct : ((fieldsBytes limits.canonicalCompounds v).map Prod.fst).Nodup := by
      rw [fieldsBytes_eq, map_fst_pair]
      exact hv
    unfold compoundBytes
    rw [if_pos hcanonical, if_pos hcanonical, sortByKey_eq_of_perm nameOrder_injective hfields hdistinct]
  have haccepted : ∀ scratch depth, CompoundAccepted limits scratch depth v ↔ CompoundAccepted limits scratch depth w := by
    intro scratch depth
    unfold CompoundAccepted CompoundFits
    rw [fieldsAccepted_iff_map, fieldsAccepted_iff_map, hnames.length_eq, hnames.nodup_iff, hlength]
    simp only [hperm.mem_iff]
  unfold compoundEncoding
  rw [hbytes]
  simp only [haccepted]

theorem compoundEncoding_eq_of_same (hcanonical : limits.canonicalCompounds = true) {v w : NbtCompound}
    (h : ∀ e ∈ v, ∀ other, SameTag e.2 other → Distinct e.2 → Distinct other →
      tagEncoding limits e.2 = tagEncoding limits other)
    (hsame : SameCompound v w) (hv : Distinct (.compound v)) (hw : Distinct (.compound w)) :
    compoundEncoding limits v = compoundEncoding limits w := by
  obtain ⟨hlength, hfields⟩ := (sameCompound_iff v w).mp hsame
  unfold Distinct at hv hw
  rw [distinctFields_iff] at hv hw
  apply compoundEncoding_eq_of_perm hcanonical hv.1
  apply fields_perm hv.1 hlength
  intro e he
  obtain ⟨e', he', hname, htag⟩ := hfields e he
  exact ⟨e', he', hname, h e he e'.2 htag (hv.2 e he) (hw.2 e' he')⟩

theorem elements_eq {α : Type} (bytes : α → List UInt8) (accepted : α → Nat → Nat → Prop) {v w : List α}
    (h : (v.map fun x => (bytes x, accepted x)) = w.map fun x => (bytes x, accepted x)) :
    v.length = w.length ∧ v.map bytes = w.map bytes ∧
      ∀ scratch depth, (∀ x ∈ v, accepted x scratch depth) ↔ ∀ x ∈ w, accepted x scratch depth := by
  refine ⟨by simpa using congrArg List.length h, ?_, ?_⟩
  · simpa [Function.comp_def] using congrArg (List.map Prod.fst) h
  · intro scratch depth
    have hmem : ∀ x, x ∈ (v.map fun x => (bytes x, accepted x)) ↔ x ∈ w.map fun x => (bytes x, accepted x) := by
      intro x
      rw [h]
    have hall : (∀ x ∈ v.map fun x => (bytes x, accepted x), x.2 scratch depth) ↔
        ∀ x ∈ w.map fun x => (bytes x, accepted x), x.2 scratch depth := by simp only [hmem]
    simpa only [List.forall_mem_map] using hall

theorem tagEncoding_list (v : NbtList) :
    tagEncoding limits (.list v) =
      (9, (listEncoding limits v).2.1, fun scratch depth => depth ≤ 512 ∧ (listEncoding limits v).2.2 scratch depth) := by
  unfold tagEncoding PayloadAccepted payloadBytes
  rfl

theorem tagEncoding_compound (v : NbtCompound) :
    tagEncoding limits (.compound v) =
      (10, (compoundEncoding limits v).1, fun scratch depth => depth ≤ 512 ∧ (compoundEncoding limits v).2 scratch depth) := by
  unfold tagEncoding PayloadAccepted payloadBytes
  rfl

theorem listEncoding_list (v : List NbtList) :
    listEncoding limits (.list v) =
      (9, 9 :: elementsBytes (v.map (listBytes limits.canonicalCompounds)), fun scratch depth =>
        ListFits limits depth 9 ∧ v.length < 2 ^ 31 ∧ ∀ x ∈ v, ListAccepted limits scratch (depth + 1) x) := by
  have haccepted : ∀ scratch depth, ListAccepted limits scratch depth (.list v) ↔
      ListFits limits depth 9 ∧ v.length < 2 ^ 31 ∧ ∀ x ∈ v, ListAccepted limits scratch (depth + 1) x := by
    intro scratch depth
    rw [ListAccepted, listsAccepted_iff, NbtList.id]
  unfold listEncoding
  simp only [haccepted]
  rw [listBytes]
  simp only [listsBytes_eq, NbtList.id]

theorem listEncoding_compound (v : List NbtCompound) :
    listEncoding limits (.compound v) =
      (10, 10 :: elementsBytes (v.map fun x => (compoundEncoding limits x).1), fun scratch depth =>
        ListFits limits depth 10 ∧ v.length < 2 ^ 31 ∧ ∀ x ∈ v, (compoundEncoding limits x).2 scratch (depth + 1)) := by
  unfold listEncoding ListAccepted
  rw [listBytes]
  simp only [compoundsBytes_eq, compoundsAccepted_iff, NbtList.id, compoundEncoding]

theorem same_induction (hcanonical : limits.canonicalCompounds = true) :
    NbtInduction
      (fun tag => ∀ other, SameTag tag other → Distinct tag → Distinct other →
        tagEncoding limits tag = tagEncoding limits other)
      (fun list => ∀ other, SameList list other → DistinctList list → DistinctList other →
        listEncoding limits list = listEncoding limits other) where
  leaf := by
    intro tag hleaf other hsame _ _
    cases tag with
    | list v => exact absurd hleaf id
    | compound v => exact absurd hleaf id
    | _ =>
      have heq := hsame
      unfold SameTag at heq
      rw [heq]
  leafList := by
    intro list hleaf other hsame _ _
    cases list with
    | list v => exact absurd hleaf id
    | compound v => exact absurd hleaf id
    | _ =>
      have heq := hsame
      unfold SameList at heq
      rw [heq]
  list := by
    intro v h other hsame hv hw
    cases other with
    | list w =>
      unfold SameTag at hsame
      unfold Distinct at hv hw
      rw [tagEncoding_list, tagEncoding_list, h w hsame hv hw]
    | _ =>
      unfold SameTag at hsame
      cases hsame
  compound := by
    intro v h other hsame hv hw
    cases other with
    | compound w =>
      rw [tagEncoding_compound, tagEncoding_compound, compoundEncoding_eq_of_same hcanonical h hsame hv hw]
    | _ =>
      unfold SameTag at hsame
      cases hsame
  lists := by
    intro v h other hsame hv hw
    cases other with
    | list w =>
      unfold SameList at hsame
      unfold DistinctList at hv hw
      rw [sameLists_iff] at hsame
      rw [distinctLists_iff] at hv hw
      have hmap := congrArg (List.map Prod.snd) (map_eq_of_same h hsame hv hw)
      rw [List.map_map, List.map_map] at hmap
      obtain ⟨hlength, hbytes, haccepted⟩ := elements_eq (listBytes limits.canonicalCompounds)
        (fun x scratch depth => ListAccepted limits scratch depth x) hmap
      rw [listEncoding_list, listEncoding_list, hlength, hbytes]
      simp only [haccepted]
    | _ =>
      unfold SameList at hsame
      cases hsame
  compounds := by
    intro v h other hsame hv hw
    cases other with
    | compound w =>
      unfold SameList at hsame
      unfold DistinctList at hv hw
      rw [sameCompounds_iff] at hsame
      rw [distinctCompounds_iff] at hv hw
      have hmap := map_eq_of_same (fun x hx y hsame => compoundEncoding_eq_of_same hcanonical (h x hx) hsame) hsame hv hw
      obtain ⟨hlength, hbytes, haccepted⟩ := elements_eq (fun x => (compoundEncoding limits x).1)
        (fun x => (compoundEncoding limits x).2) hmap
      rw [listEncoding_compound, listEncoding_compound, hlength, hbytes]
      simp only [haccepted]
    | _ =>
      unfold SameList at hsame
      cases hsame

theorem SameCompound.encoding_eq (hcanonical : limits.canonicalCompounds = true) {v w : NbtCompound}
    (h : SameCompound v w) (hv : Distinct (.compound v)) (hw : Distinct (.compound w)) :
    compoundEncoding limits v = compoundEncoding limits w :=
  compoundEncoding_eq_of_same hcanonical (fun e _ => (same_induction hcanonical).tag e.2) h hv hw

end Foton.NbtStream
