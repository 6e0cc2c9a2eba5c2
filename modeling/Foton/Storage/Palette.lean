import Foton.Lib.BitPack
import Foton.Lib.Memo
import Foton.Palette.Container
import Mathlib.Data.List.Induction

/-!
# Packed palette indices

Indices are stored with 1, 2, 4, 8 or 16 bits, by the length of their palette.
-/

namespace Foton

/-- `none` for a homogeneous container. -/
def bitsForPaletteLen (paletteLen : Nat) : Option Nat :=
  if paletteLen ≤ 1 then none
  else if paletteLen ≤ 2 then some 1
  else if paletteLen ≤ 4 then some 2
  else if paletteLen ≤ 16 then some 4
  else if paletteLen ≤ 256 then some 8
  else some 16

/-- One word, the first index in the lowest bits. -/
def packWord (bits : Nat) (chunk : List Nat) : Nat :=
  chunk.zipIdx.foldl (fun word e => word ||| e.1 <<< (e.2 * bits) % 2 ^ 64) 0

def packIndices (indices : List Nat) (bits : Nat) : List Nat :=
  let valuesPerU64 := perWord 64 bits
  (List.range ((indices.length + valuesPerU64 - 1) / valuesPerU64)).map fun i =>
    packWord bits ((indices.drop (i * valuesPerU64)).take valuesPerU64)

def unpackIndices (data : List Nat) (bits : Nat) : List Nat := unpack 64 bits data

theorem bitsForPaletteLen_spec {paletteLen bits : Nat} (h : bitsForPaletteLen paletteLen = some bits) :
    0 < bits ∧ bits ≤ 16 ∧ (paletteLen ≤ 2 ^ 16 → paletteLen ≤ 2 ^ bits) := by
  unfold bitsForPaletteLen at h
  split_ifs at h <;> cases h <;> refine ⟨by decide, by decide, fun hlen => ?_⟩ <;> omega

theorem bitsForPaletteLen_two {paletteLen : Nat} (h : 2 ≤ paletteLen) : ∃ bits, bitsForPaletteLen paletteLen = some bits := by
  unfold bitsForPaletteLen
  split_ifs
  · omega
  all_goals exact ⟨_, rfl⟩

theorem packWord_bit (bits : Nat) (chunk : List Nat) (k : Nat) : (packWord bits chunk).testBit k = true ↔
    k < 64 ∧ ∃ j, ∃ h : j < chunk.length, j * bits ≤ k ∧ chunk[j].testBit (k - j * bits) = true := by
  induction chunk using List.reverseRecOn with
  | nil => simp [packWord]
  | append_singleton chunk a ih =>
    have hstep : packWord bits (chunk ++ [a]) = packWord bits chunk ||| a <<< (chunk.length * bits) % 2 ^ 64 := by
      unfold packWord
      rw [List.zipIdx_append, List.foldl_append]
      simp
    rw [hstep, Nat.testBit_or, Bool.or_eq_true, ih, Nat.testBit_mod_two_pow, Nat.testBit_shiftLeft]
    simp only [Bool.and_eq_true, decide_eq_true_eq]
    constructor
    · rintro (⟨hk, j, hj, hle, hbit⟩ | ⟨hk, hle, hbit⟩)
      · refine ⟨hk, j, by rw [List.length_append]; omega, hle, ?_⟩
        rwa [List.getElem_append_left hj]
      · exact ⟨hk, chunk.length, by simp, hle, by simpa using hbit⟩
    · rintro ⟨hk, j, hj, hle, hbit⟩
      by_cases hold : j < chunk.length
      · rw [List.getElem_append_left hold] at hbit
        exact Or.inl ⟨hk, j, hold, hle, hbit⟩
      · obtain rfl : j = chunk.length := by rw [List.length_append, List.length_singleton] at hj; omega
        exact Or.inr ⟨hk, hle, by simpa using hbit⟩

theorem packIndices_word {bits : Nat} (hpos : 0 < perWord 64 bits) (indices : List Nat) (w : Nat) :
    (packIndices indices bits).getD w 0 =
      packWord bits ((indices.drop (w * perWord 64 bits)).take (perWord 64 bits)) := by
  have hlen : (packIndices indices bits).length = (indices.length + perWord 64 bits - 1) / perWord 64 bits := by
    unfold packIndices
    simp
  by_cases hw : w < (packIndices indices bits).length
  · rw [List.getD_eq_getElem?_getD]
    unfold packIndices
    dsimp only
    rw [List.getElem?_map, List.getElem?_range (hlen ▸ hw)]
    rfl
  · have hdiv := Nat.div_add_mod (indices.length + perWord 64 bits - 1) (perWord 64 bits)
    have hmod := Nat.mod_lt (indices.length + perWord 64 bits - 1) hpos
    have hle := Nat.mul_le_mul_left (perWord 64 bits) (Nat.le_of_not_lt hw)
    have hend : indices.length ≤ w * perWord 64 bits := by
      rw [Nat.mul_comm w]
      rw [hlen] at hle
      omega
    rw [List.getD_eq_default _ _ (Nat.le_of_not_lt hw), List.drop_eq_nil_of_le hend, List.take_nil]
    rfl

theorem packIndices_packed {bits : Nat} (hbits : 0 < bits) (hwidth : bits ≤ 64) (indices : List Nat) :
    Packed 64 bits indices (packIndices indices bits) := by
  have hpos : 0 < perWord 64 bits := perWord_pos hbits hwidth
  refine ⟨by unfold packIndices; simp, fun w k => ?_⟩
  rw [packIndices_word hpos, packWord_bit]
  refine and_congr_right fun _ => ?_
  constructor
  · rintro ⟨j, hj, hle, hbit⟩
    rw [List.length_take, List.length_drop, Nat.lt_min] at hj
    have hslot : slot 64 bits (w * perWord 64 bits + j) = j * bits := by
      unfold slot
      rw [Nat.mul_add_mod_self_right, Nat.mod_eq_of_lt hj.1]
    refine ⟨w * perWord 64 bits + j, by omega, ?_, hslot ▸ hle, ?_⟩
    · rw [Nat.mul_comm, Nat.mul_add_div hpos, Nat.div_eq_of_lt hj.1, Nat.add_zero]
    · rw [hslot]
      simpa using hbit
  · rintro ⟨i, hi, rfl, hle, hbit⟩
    have hdiv := Nat.div_add_mod i (perWord 64 bits)
    have hmod := Nat.mod_lt i hpos
    have hi' : i / perWord 64 bits * perWord 64 bits + i % perWord 64 bits = i := by
      rw [Nat.mul_comm]
      exact hdiv
    refine ⟨i % perWord 64 bits, ?_, hle, ?_⟩
    · rw [List.length_take, List.length_drop]
      omega
    · unfold slot at hbit
      simpa [hi'] using hbit

/-!
## Stored palettes

A stored container refers to the tables of its chunk: directly when it is
homogeneous, through a palette of its own otherwise. The two kinds of container
are stored alike, so what is done to one is said once, for values `V` that a
table describes by keys `K`.
-/

inductive LoadFailure where
  | invalidData (message : String)
  | panicked
  deriving DecidableEq

def invalidChunkData {α : Type} (message : String) : Except LoadFailure α := .error (.invalidData message)

inductive PersistentPalette where
  | homogeneous (entry : UInt16)
  | heterogeneous (palette : List UInt16) (bitsPerEntry : Nat) (data : List Nat)
  deriving DecidableEq

def validatePackedPalette (palette : List UInt16) (bitsPerEntry : Nat) (data : List Nat)
    (entryCount globalPaletteLen : Nat) (name : String) : Except LoadFailure Unit :=
  match bitsForPaletteLen palette.length with
  | none => invalidChunkData s!"heterogeneous {name} palette has fewer than two entries"
  | some expectedBits =>
    if bitsPerEntry ≠ expectedBits then
      invalidChunkData s!"heterogeneous {name} palette uses {bitsPerEntry} bits, expected {expectedBits}"
    else
      let valuesPerWord := perWord 64 bitsPerEntry
      let expectedWords := (entryCount + valuesPerWord - 1) / valuesPerWord
      if data.length ≠ expectedWords then
        invalidChunkData s!"heterogeneous {name} data has {data.length} words, expected {expectedWords}"
      else match palette.find? fun index => globalPaletteLen ≤ index.toNat with
        | some invalid => invalidChunkData s!"{name} palette references missing global entry {invalid}"
        | none =>
          match ((unpackIndices data bitsPerEntry).take entryCount).find? fun index => palette.length ≤ index with
          | some invalid => invalidChunkData s!"{name} data references missing local palette entry {invalid}"
          | none => .ok ()

def validatePalette (sectionIndex entryCount globalPaletteLen : Nat) (name : String) :
    PersistentPalette → Except LoadFailure Unit
  | .homogeneous entry =>
    if globalPaletteLen ≤ entry.toNat then
      invalidChunkData s!"section {sectionIndex} references missing {name} entry {entry}"
    else .ok ()
  | .heterogeneous palette bitsPerEntry data =>
    validatePackedPalette palette bitsPerEntry data entryCount globalPaletteLen name

section
variable {V K : Type} {dim : Nat}

/-- The cells in memory order, each the entry of `palette` that the next index names. -/
def fillCells (kind : String) (entryCount : Nat) (palette : List V) : Nat → List Nat → Except LoadFailure (List V)
  | 0, _ => .ok []
  | _ + 1, [] => invalidChunkData s!"section {kind} data holds fewer than the {entryCount} indices a section needs"
  | n + 1, index :: indices =>
    match palette[index]? with
    | none => invalidChunkData s!"section {kind} index {index} is outside its palette"
    | some v => (fillCells kind entryCount palette n indices).map (v :: ·)

variable [DecidableEq V]

/-- The runtime container. `resolve` is the table of the chunk, `initial` fills the cube before it is written. -/
def persistentToContainer (kind : String) (resolve : UInt16 → Except LoadFailure V) (initial : V) :
    PersistentPalette → Except LoadFailure (PalettedContainer V dim)
  | .homogeneous entry => (resolve entry).map .homogeneous
  | .heterogeneous palette bitsPerEntry data => do
    let runtimePalette ← palette.mapM resolve
    let cells ← fillCells kind (Cube.volume dim) runtimePalette (Cube.volume dim) (unpackIndices data bitsPerEntry)
    match PalettedContainer.fromCube (.ofCells fun x y z => cells.getD (Cube.index x y z) initial) with
    | some c => .ok c
    | none => .error .panicked

variable [DecidableEq K]

/-- The place of a value in the table of the chunk; `none` for a value the registry does not know. -/
def ensure (describe : V → Option K) (v : V) (table : List K) : Option (UInt16 × List K) :=
  (describe v).map fun key => (.ofNat (intern key table).1, (intern key table).2)

def ensureAll (describe : V → Option K) : List V → List K → Option (List UInt16 × List K)
  | [], table => some ([], table)
  | v :: vs, table => do
    let (index, table) ← ensure describe v table
    let (indices, table) ← ensureAll describe vs table
    some (index :: indices, table)

/-- The stored container and the table afterwards; `none` where the source panics. -/
def containerToPersistent (describe : V → Option K) (c : PalettedContainer V dim) (table : List K) :
    Option (PersistentPalette × List K) :=
  match c with
  | .homogeneous v => do
    let (index, table) ← ensure describe v table
    some (.homogeneous index, table)
  | .heterogeneous data => do
    let (palette, table) ← ensureAll describe (data.palette.map Prod.fst) table
    let bits ← bitsForPaletteLen palette.length
    let indices := data.cube.cells.map fun v => (data.palette.findIdx? fun e => e.1 = v).getD 0
    some (.heterogeneous palette bits (packIndices indices bits), table)
  | .building _ => none

end

/-! ## The table of a chunk -/

section
variable {V K : Type} {describe : V → Option K} {table table' : List K} {v : V} {index : UInt16}

/-- A table that interning has built. -/
structure Built (describe : V → Option K) (table : List K) : Prop where
  nodup : table.Nodup
  described : ∀ k ∈ table, ∃ v, describe v = some k

/-- The index names the entry of the value. -/
def Refers (describe : V → Option K) (table : List K) (v : V) (index : UInt16) : Prop :=
  ∃ k, describe v = some k ∧ table[index.toNat]? = some k

theorem Refers.mono (h : Refers describe table v index) (hgrow : table <+: table') :
    Refers describe table' v index :=
  have ⟨k, hk, hindex⟩ := h
  ⟨k, hk, place_kept hgrow hindex⟩

theorem Refers.lt (h : Refers describe table v index) : index.toNat < table.length :=
  have ⟨_, _, hindex⟩ := h
  (List.getElem?_eq_some_iff.mp hindex).1

theorem forall₂_refers_mono {vs : List V} {indices : List UInt16} (h : List.Forall₂ (Refers describe table) vs indices)
    (hgrow : table <+: table') : List.Forall₂ (Refers describe table') vs indices :=
  h.imp fun _ _ hrefers => hrefers.mono hgrow

variable [DecidableEq K] (hsmall : ∀ table, Built describe table → table.length ≤ 2 ^ 16)
include hsmall

theorem ensure_ok (h : Built describe table) (hv : (describe v).isSome) : ∃ index table',
    ensure describe v table = some (index, table') ∧ table <+: table' ∧ Built describe table' ∧
      Refers describe table' v index := by
  obtain ⟨k, hk⟩ := Option.isSome_iff_exists.mp hv
  have hplace := intern_spec k table
  have hbuilt : Built describe (intern k table).2 := by
    refine ⟨hplace.nodup h.nodup, fun k' hk' => ?_⟩
    rcases hplace.mem k' hk' with hold | rfl
    · exact h.described k' hold
    · exact ⟨v, hk⟩
  have hlt : (intern k table).1 < 2 ^ 16 :=
    lt_of_lt_of_le (List.getElem?_eq_some_iff.mp hplace.found).1 (hsmall _ hbuilt)
  refine ⟨.ofNat (intern k table).1, (intern k table).2, by simp [ensure, hk], hplace.prefixed, hbuilt, k, hk, ?_⟩
  rw [UInt16.toNat_ofNat_of_lt' hlt]
  exact hplace.found

theorem ensureAll_ok {vs : List V} (h : Built describe table) (hvs : ∀ v ∈ vs, (describe v).isSome) :
    ∃ indices table', ensureAll describe vs table = some (indices, table') ∧ table <+: table' ∧
      Built describe table' ∧ List.Forall₂ (Refers describe table') vs indices := by
  induction vs generalizing table with
  | nil => exact ⟨[], table, rfl, List.prefix_refl table, h, .nil⟩
  | cons v vs ih =>
    obtain ⟨index, table₁, hensure, hgrow₁, hbuilt₁, hrefers⟩ := ensure_ok hsmall h (hvs v (by simp))
    obtain ⟨indices, table₂, hall, hgrow₂, hbuilt₂, hrest⟩ := ih hbuilt₁ fun v hv => hvs v (by simp [hv])
    refine ⟨index :: indices, table₂, ?_, hgrow₁.trans hgrow₂, hbuilt₂, .cons (hrefers.mono hgrow₂) hrest⟩
    simp [ensureAll, hensure, hall]

end

/-! ## Stored containers -/

section
variable {V K : Type} {dim : Nat} {describe : V → Option K} {table table' : List K}
  {c : PalettedContainer V dim} {p : PersistentPalette}

/-- What is stored determines the cells. -/
def Stores (describe : V → Option K) (table : List K) (c : PalettedContainer V dim) : PersistentPalette → Prop
  | .homogeneous index => ∃ v, c = .homogeneous v ∧ Refers describe table v index
  | .heterogeneous palette bits words => ∃ data indices, c = .heterogeneous data ∧
      bitsForPaletteLen palette.length = some bits ∧ palette.length ≤ 2 ^ bits ∧
      List.Forall₂ (Refers describe table) (data.palette.map Prod.fst) palette ∧ Packed 64 bits indices words ∧
      List.Forall₂ (fun v i => (data.palette.map Prod.fst)[i]? = some v) data.cube.cells indices

theorem Stores.mono (h : Stores describe table c p) (hgrow : table <+: table') : Stores describe table' c p := by
  cases p with
  | homogeneous index =>
    obtain ⟨v, hc, hrefers⟩ := h
    exact ⟨v, hc, hrefers.mono hgrow⟩
  | heterogeneous palette bits words =>
    obtain ⟨data, indices, hc, hbits, hfit, hrefers, hpacked, hcells⟩ := h
    exact ⟨data, indices, hc, hbits, hfit, forall₂_refers_mono hrefers hgrow, hpacked, hcells⟩

theorem unpackIndices_take {bits : Nat} {cells : List V} {keys : List V} {indices words : List Nat}
    (hbits : 0 < bits) (hwidth : bits ≤ 64) (hfit : keys.length ≤ 2 ^ bits) (hpacked : Packed 64 bits indices words)
    (hcells : List.Forall₂ (fun v i => keys[i]? = some v) cells indices) :
    (unpackIndices words bits).take cells.length = indices := by
  have hlt : ∀ i ∈ indices, i < 2 ^ bits := fun i hi => by
    obtain ⟨n, hn, rfl⟩ := List.mem_iff_getElem.mp hi
    have hkey := (List.forall₂_iff_get.mp hcells).2 n (by rw [hcells.length_eq]; exact hn) hn
    exact lt_of_lt_of_le (List.getElem?_eq_some_iff.mp hkey).1 hfit
  rw [hcells.length_eq]
  exact hpacked.unpack (perWord_pos hbits hwidth) hlt

theorem Stores.validate (h : Stores describe table c p) (sectionIndex : Nat) (name : String) :
    validatePalette sectionIndex (Cube.volume dim) table.length name p = .ok () := by
  cases p with
  | homogeneous index =>
    obtain ⟨v, -, hrefers⟩ := h
    simp [validatePalette, Nat.not_le.mpr hrefers.lt]
  | heterogeneous palette bits words =>
    obtain ⟨data, indices, -, hbits, hfit, hrefers, hpacked, hcells⟩ := h
    obtain ⟨hpos, hle, -⟩ := bitsForPaletteLen_spec hbits
    have hlength : indices.length = Cube.volume dim := by rw [← hcells.length_eq, Cube.cells_length]
    have hkeys : (data.palette.map Prod.fst).length = palette.length := hrefers.length_eq
    have hglobal : palette.find? (fun index => table.length ≤ index.toNat) = none := by
      refine List.find?_eq_none.mpr fun index hindex => ?_
      obtain ⟨n, hn, rfl⟩ := List.mem_iff_getElem.mp hindex
      simpa using ((List.forall₂_iff_get.mp hrefers).2 n (by rw [hkeys]; exact hn) hn).lt
    have htake := unpackIndices_take hpos (le_trans hle (by decide)) (hkeys.trans_le hfit) hpacked hcells
    rw [Cube.cells_length] at htake
    have hlocal : indices.find? (fun index => palette.length ≤ index) = none := by
      refine List.find?_eq_none.mpr fun index hindex => ?_
      obtain ⟨n, hn, rfl⟩ := List.mem_iff_getElem.mp hindex
      have hkey := (List.forall₂_iff_get.mp hcells).2 n (by rw [hcells.length_eq]; exact hn) hn
      simpa [hkeys] using (List.getElem?_eq_some_iff.mp hkey).1
    simp [validatePalette, validatePackedPalette, hbits, hpacked.length, hlength, hglobal, htake, hlocal]

theorem fillCells_ok (kind : String) (entryCount : Nat) {palette cells : List V} {indices : List Nat}
    (h : List.Forall₂ (fun v i => palette[i]? = some v) cells (indices.take cells.length)) :
    fillCells kind entryCount palette cells.length indices = .ok cells := by
  induction cells generalizing indices with
  | nil => rfl
  | cons v cells ih =>
    cases indices with
    | nil => cases h
    | cons i indices =>
      obtain ⟨hv, hcells⟩ := List.forall₂_cons.mp h
      simp [fillCells, hv, ih hcells, Except.map]

theorem mapM_resolve {resolve : UInt16 → Except LoadFailure V} {vs : List V} {indices : List UInt16}
    (h : List.Forall₂ (fun v i => resolve i = .ok v) vs indices) : indices.mapM resolve = .ok vs := by
  induction h with
  | nil => rfl
  | cons hv _ ih =>
    rw [List.mapM_cons, hv, ih]
    rfl

theorem cells_ofCells {cells : List V} (hlength : cells.length = Cube.volume dim) (initial : V) :
    (Cube.ofCells fun x y z => cells.getD (Cube.index x y z) initial : Cube V dim).cells = cells := by
  symm
  refine Cube.cells_ext hlength fun x y z => ?_
  have hlt := (Cube.index_lt x y z).trans_eq hlength.symm
  simp [List.getElem?_eq_getElem hlt]

variable [DecidableEq V]

theorem Stores.reload (h : Stores describe table c p) (hvolume : 0 < Cube.volume dim)
    (hlimit : Cube.volume dim < countLimit) {resolve : UInt16 → Except LoadFailure V}
    (hresolve : ∀ v i, Refers describe table v i → resolve i = .ok v) (kind : String) (initial : V) :
    ∃ c' : PalettedContainer V dim, persistentToContainer kind resolve initial p = .ok c' ∧ c'.cells = c.cells := by
  cases p with
  | homogeneous index =>
    obtain ⟨v, rfl, hrefers⟩ := h
    exact ⟨.homogeneous v, by simp [persistentToContainer, hresolve v index hrefers, Except.map], rfl⟩
  | heterogeneous palette bits words =>
    obtain ⟨data, indices, rfl, hbits, hfit, hrefers, hpacked, hcells⟩ := h
    obtain ⟨hpos, hle, -⟩ := bitsForPaletteLen_spec hbits
    have hpalette : palette.mapM resolve = .ok (data.palette.map Prod.fst) :=
      mapM_resolve (hrefers.imp fun v i hrefers => hresolve v i hrefers)
    have htake := unpackIndices_take hpos (le_trans hle (by decide)) (hrefers.length_eq.trans_le hfit) hpacked hcells
    have hfill := fillCells_ok kind (Cube.volume dim) (htake ▸ hcells)
    rw [Cube.cells_length] at hfill
    obtain ⟨c', hc', -, -, hsame⟩ := PalettedContainer.fromCube_ok hvolume hlimit
      (.ofCells fun x y z => data.cube.cells.getD (Cube.index x y z) initial)
    refine ⟨c', ?_, hsame.trans (cells_ofCells data.cube.cells_length initial)⟩
    simp only [persistentToContainer, hpalette, hfill, hc', bind, Except.bind]

theorem findIdx?_palette {palette : List (V × Nat)} {v : V} (h : v ∈ palette.map Prod.fst) :
    (palette.map Prod.fst)[(palette.findIdx? fun e => e.1 = v).getD 0]? = some v := by
  obtain ⟨e, he, rfl⟩ := List.mem_map.mp h
  cases hfind : palette.findIdx? fun e' => e'.1 = e.1 with
  | none => simpa using List.findIdx?_eq_none_iff.mp hfind e he
  | some i =>
    obtain ⟨hi, hkey, -⟩ := List.findIdx?_eq_some_iff_getElem.mp hfind
    simpa [List.getElem?_eq_getElem hi] using hkey

variable [DecidableEq K]

theorem containerToPersistent_ok (hsmall : ∀ table, Built describe table → table.length ≤ 2 ^ 16)
    (h : Built describe table) (hexact : c.Exact) (hbuilding : ¬ c.IsBuilding) (hvolume : 0 < Cube.volume dim)
    (hlimit : Cube.volume dim < countLimit) (hknown : ∀ v ∈ c.cells, (describe v).isSome) : ∃ p table',
      containerToPersistent describe c table = some (p, table') ∧ table <+: table' ∧ Built describe table' ∧
        Stores describe table' c p := by
  cases c with
  | homogeneous v =>
    have hv : (describe v).isSome := by
      refine hknown v ?_
      show v ∈ (Cube.filled v : Cube V dim).cells
      rw [Cube.cells_filled]
      exact List.mem_replicate.mpr ⟨hvolume.ne', rfl⟩
    obtain ⟨index, table', hensure, hgrow, hbuilt, hrefers⟩ := ensure_ok hsmall h hv
    exact ⟨.homogeneous index, table', by simp [containerToPersistent, hensure], hgrow, hbuilt, v, rfl, hrefers⟩
  | heterogeneous data =>
    have hmem : ∀ v, v ∈ data.palette.map Prod.fst ↔ v ∈ data.cube.cells := fun v => by
      rw [hexact.tallies.mem_keys, List.count_pos_iff]
    have hkeys : ∀ v ∈ data.palette.map Prod.fst, (describe v).isSome := fun v hv => hknown v ((hmem v).mp hv)
    obtain ⟨palette, table', hensure, hgrow, hbuilt, hrefers⟩ := ensureAll_ok hsmall h hkeys
    have hlength : palette.length = data.palette.length := by rw [← hrefers.length_eq, List.length_map]
    obtain ⟨bits, hbits⟩ := bitsForPaletteLen_two (hlength ▸ hexact.two)
    obtain ⟨hpos, hle, hfit⟩ := bitsForPaletteLen_spec hbits
    have hcount : palette.length ≤ 2 ^ 16 := by
      rw [hlength, PalettedContainer.palette_length hexact]
      exact le_trans (List.dedup_sublist _).length_le (by rw [Cube.cells_length]; exact hlimit.le)
    let indices := data.cube.cells.map fun v => (data.palette.findIdx? fun e => e.1 = v).getD 0
    have hcells : List.Forall₂ (fun v i => (data.palette.map Prod.fst)[i]? = some v) data.cube.cells indices :=
      List.forall₂_map_right_iff.mpr (List.forall₂_same.mpr fun v hv => findIdx?_palette ((hmem v).mpr hv))
    exact ⟨.heterogeneous palette bits (packIndices indices bits), table',
      by simp [containerToPersistent, hensure, hbits, indices], hgrow, hbuilt, data, indices, rfl, hbits, hfit hcount,
      hrefers, packIndices_packed hpos (le_trans hle (by decide)) indices, hcells⟩
  | building cube => exact absurd trivial hbuilding

end

end Foton
