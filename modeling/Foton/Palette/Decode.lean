import Foton.Palette.Write

/-!
# The client reads what was written

A container decodes to its cells unless its ids are direct and one of them does
not fit the fixed width.
-/

namespace Foton

theorem mapM_eq_map {α β : Type*} {f : α → Option β} {g : α → β} {l : List α} (h : ∀ a ∈ l, f a = some (g a)) :
    l.mapM f = some (l.map g) := by
  induction l with
  | nil => rfl
  | cons a l ih =>
    rw [List.mapM_cons, h a List.mem_cons_self, ih fun b hb => h b (List.mem_cons_of_mem _ hb)]
    rfl

/-- The width of direct ids. -/
def directBits (dim : Nat) : Nat := if dim = 16 then 15 else 6

/-- Containers with more values than this use direct ids. -/
def paletteLimit (dim : Nat) : Nat := if dim = 16 then 256 else 8

theorem strategy_spec (dim : Nat) {count : Nat} (h : 2 ≤ count) : ∃ bits mode,
    calculateStrategy dim count = some (bits, mode) ∧ 0 < bits ∧ bits ≤ 15 ∧
      (mode = .global ∧ paletteLimit dim < count ∧ bits = directBits dim ∧ indirect dim bits = false ∨
        mode ≠ .global ∧ count ≤ paletteLimit dim ∧ count ≤ 2 ^ bits ∧ indirect dim bits = true) := by
  unfold calculateStrategy paletteLimit directBits indirect
  by_cases hdim : dim = 16
  · simp only [if_pos hdim]
    repeat' split
    all_goals first | omega | (refine ⟨_, _, rfl, by decide, by decide, ?_⟩; simp; try omega)
  · simp only [if_neg hdim]
    repeat' split
    all_goals first | omega | (refine ⟨_, _, rfl, by decide, by decide, ?_⟩; simp; try omega)

namespace PalettedContainer

variable {V : Type} [DecidableEq V] [ToGlobalId V] {dim : Nat} {c : PalettedContainer V dim}

def globalIds (c : PalettedContainer V dim) : List Nat := c.cells.map fun v => (ToGlobalId.toGlobalId v).toNat

/-- The packet form of `c` is read back as its cells. -/
def Decodes (c : PalettedContainer V dim) : Prop :=
  ∃ bytes ids, c.write = some bytes ∧ readContainer dim bytes = some (ids, []) ∧
    ∀ x y z, ids[Cube.index x y z]? = some (ToGlobalId.toGlobalId (c.get x y z)).toNat

/-- There are few enough values for a palette, or each id fits the width of direct ids. -/
def Fits (c : PalettedContainer V dim) : Prop :=
  c.cells.dedup.length ≤ paletteLimit dim ∨
    ∀ x y z, (ToGlobalId.toGlobalId (c.get x y z)).toNat < 2 ^ directBits dim

end PalettedContainer

/-! ## Reading -/

variable {V : Type} [ToGlobalId V] {dim : Nat}

theorem readFixed_packed {bits : Nat} {entries words : List Nat} (h : Packed 64 bits entries words) :
    readFixed 8 ((entries.length + perWord 64 bits - 1) / perWord 64 bits) (words.flatMap (toBeBytes 8)) =
      some (words, []) := by
  have hread : readFixed 8 words.length (words.flatMap (toBeBytes 8) ++ []) = some (words, []) :=
    readFixed_toBeBytes (fun word hword => h.word_lt hword) []
  rwa [List.append_nil, h.length] at hread

theorem readContainer_indirect {bits : Nat} {ids : List Nat} (cells : List V) (entry : V → Nat) (hbits : 0 < bits)
    (hwidth : bits ≤ 15) (hindirect : indirect dim bits = true) (hcells : cells.length = Cube.volume dim)
    (hcount : ids.length < 2 ^ 32) (hids : ∀ id ∈ ids, id < 2 ^ 32) (hlimit : ids.length ≤ 2 ^ bits)
    (hentry : ∀ v ∈ cells, ids[entry v]? = some (ToGlobalId.toGlobalId v).toNat) :
    readContainer dim (UInt8.ofNat bits :: (writeVarInt ids.length ++ ids.flatMap writeVarInt) ++
      (packBits (cells.map entry) bits).flatMap (toBeBytes 8)) =
        some (cells.map fun v => (ToGlobalId.toGlobalId v).toNat, []) := by
  have hpacked := packBits_packed hbits (by omega) (cells.map entry)
  have hlength : (cells.map entry).length = Cube.volume dim := by rw [List.length_map, hcells]
  have hbyte : (UInt8.ofNat bits).toNat = bits := toNat_byte (by omega)
  have hfit : ∀ e ∈ cells.map entry, e < 2 ^ bits := by
    intro e he
    obtain ⟨v, hv, rfl⟩ := List.mem_map.mp he
    obtain ⟨hlt, -⟩ := List.getElem?_eq_some_iff.mp (hentry v hv)
    omega
  have hunpack := hpacked.unpack (perWord_pos hbits (by omega)) hfit
  have hread := readFixed_packed hpacked
  rw [hlength] at hunpack hread
  have hmap : (cells.map entry).mapM (fun e => ids[e]?) = some (cells.map fun v => (ToGlobalId.toGlobalId v).toNat) := by
    rw [mapM_eq_map (g := fun e => ids.getD e 0)]
    · rw [List.map_map, Option.some.injEq]
      refine List.map_congr_left fun v hv => ?_
      rw [Function.comp_apply, List.getD_eq_getElem?_getD, hentry v hv, Option.getD_some]
    · intro e he
      obtain ⟨v, hv, rfl⟩ := List.mem_map.mp he
      rw [List.getD_eq_getElem?_getD, hentry v hv, Option.getD_some]
  rw [List.cons_append, readContainer, hbyte]
  dsimp only
  rw [if_neg (by omega), if_pos hindirect, List.append_assoc, readVarInt_writeVarInt 4 (by omega)]
  simp only [Option.bind_eq_bind, Option.bind_some]
  rw [readVarInts_writeVarInt 4 fun id hid => lt_trans (hids id hid) (by decide), Option.bind_some]
  dsimp only
  rw [hread, Option.bind_some]
  dsimp only
  rw [hunpack, hmap, Option.bind_some]

theorem readContainer_direct {bits : Nat} {ids : List Nat} (hbits : 0 < bits) (hwidth : bits ≤ 15)
    (hdirect : indirect dim bits = false) (hlength : ids.length = Cube.volume dim) :
    ∃ read, readContainer dim (UInt8.ofNat bits :: [] ++ (packBits ids bits).flatMap (toBeBytes 8)) = some (read, []) ∧
      (∀ id ∈ read, id < 2 ^ bits) ∧ ((∀ id ∈ ids, id < 2 ^ bits) → read = ids) := by
  have hpacked := packBits_packed hbits (by omega) ids
  have hread := readFixed_packed hpacked
  have hbyte : (UInt8.ofNat bits).toNat = bits := toNat_byte (by omega)
  rw [hlength] at hread
  refine ⟨(unpack 64 bits (packBits ids bits)).take (Cube.volume dim), ?_, fun id hid => ?_, fun hfit => ?_⟩
  · rw [List.cons_append, List.nil_append, readContainer, hbyte]
    dsimp only
    rw [if_neg (by omega), if_neg (by rw [hdirect]; exact Bool.false_ne_true), hread]
    rfl
  · exact unpack_lt (List.mem_of_mem_take hid)
  · rw [← hlength]
    exact hpacked.unpack (perWord_pos hbits (by omega)) hfit

namespace PalettedContainer

variable [DecidableEq V] {c : PalettedContainer V dim}

theorem decodes_of_read {bytes : List UInt8} (hwrite : c.write = some bytes)
    (hread : readContainer dim bytes = some (c.globalIds, [])) : c.Decodes := by
  refine ⟨bytes, c.globalIds, hwrite, hread, fun x y z => ?_⟩
  unfold globalIds
  rw [List.getElem?_map, c.cells_get, Option.map_some]

theorem homogeneous_decodes (value : V) : (homogeneous value : PalettedContainer V dim).Decodes := by
  refine decodes_of_read rfl ?_
  have hid : (ToGlobalId.toGlobalId value).toNat < 128 ^ 5 :=
    lt_trans (ToGlobalId.toGlobalId value).toNat_lt (by decide)
  have hread := readVarInt_writeVarInt 4 hid []
  rw [List.append_nil] at hread
  rw [readContainer, UInt8.toNat_zero]
  dsimp only
  rw [if_pos rfl, hread]
  unfold globalIds cells
  dsimp only
  rw [Cube.cells_filled, List.map_replicate]
  rfl

theorem homogeneous_fits (value : V) : (homogeneous value : PalettedContainer V dim).Fits := by
  refine Or.inl ?_
  unfold cells
  dsimp only
  rw [Cube.cells_filled]
  have hlimit : 1 ≤ paletteLimit dim := by
    unfold paletteLimit
    split <;> decide
  by_cases hzero : Cube.volume dim = 0
  · rw [hzero]
    exact Nat.zero_le _
  · rw [List.replicate_dedup hzero]
    exact hlimit

theorem direct_decodes {data : HeterogeneousPalette V dim}
    (hstrategy : calculateStrategy dim data.palette.length = some (directBits dim, .global))
    (hcount : paletteLimit dim < (heterogeneous data).cells.dedup.length) (hpos : 0 < directBits dim)
    (hwidth : directBits dim ≤ 15) (hdirect : indirect dim (directBits dim) = false) :
    (heterogeneous data).Decodes ↔ (heterogeneous data).Fits := by
  have hlength : (heterogeneous data).globalIds.length = Cube.volume dim := by
    unfold globalIds
    rw [List.length_map, cells_length]
  obtain ⟨read, hread, hlow, hsame⟩ := readContainer_direct hpos hwidth hdirect hlength
  have hindices : data.cube.cells.mapM (fun val => if PaletteMode.global = .global then
      some (ToGlobalId.toGlobalId val).toNat else data.palette.findIdx? fun e => e.1 = val) =
        some (heterogeneous data).globalIds := mapM_eq_map fun _ _ => rfl
  have hwrite : (heterogeneous data).write = some (UInt8.ofNat (directBits dim) :: [] ++
      (packBits (heterogeneous data).globalIds (directBits dim)).flatMap (toBeBytes 8)) := by
    unfold write
    dsimp only
    rw [hstrategy, Option.bind_eq_bind, Option.bind_some]
    dsimp only
    rw [hindices]
    rfl
  constructor
  · rintro ⟨bytes, ids, hbytes, hids, hcells⟩
    rw [hwrite] at hbytes
    cases hbytes
    rw [hread] at hids
    cases hids
    exact Or.inr fun x y z => hlow _ (List.mem_of_getElem? (hcells x y z))
  · rintro (hfew | hfit)
    · omega
    · refine decodes_of_read hwrite (hread.trans ?_)
      rw [hsame fun id hid => ?_]
      obtain ⟨v, hv, rfl⟩ := List.mem_map.mp hid
      obtain ⟨x, y, z, rfl⟩ := mem_cells hv
      exact hfit x y z

theorem indirect_decodes {data : HeterogeneousPalette V dim} (h : data.Exact) {bits : Nat} {mode : PaletteMode}
    (hstrategy : calculateStrategy dim data.palette.length = some (bits, mode)) (hmode : mode ≠ .global)
    (hpos : 0 < bits) (hwidth : bits ≤ 15) (hlimit : data.palette.length ≤ 2 ^ bits)
    (hindirect : indirect dim bits = true) : (heterogeneous data).Decodes := by
  let ids := data.palette.map fun e => (ToGlobalId.toGlobalId e.1).toNat
  let entry := fun v => (data.palette.findIdx? fun e => e.1 = v).getD 0
  have hids : ids.length = data.palette.length := List.length_map _
  have hsmall : data.palette.length < 2 ^ 32 :=
    lt_of_le_of_lt hlimit (lt_of_le_of_lt (Nat.pow_le_pow_right (by decide) hwidth) (by decide))
  have hfind : ∀ v ∈ data.cube.cells, data.palette.findIdx? (fun e => e.1 = v) = some (entry v) ∧
      ids[entry v]? = some (ToGlobalId.toGlobalId v).toNat := by
    intro v hv
    obtain ⟨e, he, hev⟩ := List.mem_map.mp (h.tallies.mem_keys.mpr (List.count_pos_iff.mpr hv))
    cases hi : data.palette.findIdx? fun e => e.1 = v with
    | none => exact absurd (List.findIdx?_eq_none_iff.mp hi e he) (by simp [hev])
    | some i =>
      obtain ⟨hlt, hvalue, -⟩ := List.findIdx?_eq_some_iff_getElem.mp hi
      have hentry : entry v = i := by
        show (data.palette.findIdx? fun e => e.1 = v).getD 0 = i
        rw [hi, Option.getD_some]
      refine ⟨by rw [hentry], ?_⟩
      rw [hentry, List.getElem?_map, List.getElem?_eq_getElem hlt, Option.map_some, of_decide_eq_true hvalue]
  have hindices : data.cube.cells.mapM (fun val => if mode = .global then
      some (ToGlobalId.toGlobalId val).toNat else data.palette.findIdx? fun e => e.1 = val) =
        some (data.cube.cells.map entry) :=
    mapM_eq_map fun v hv => by rw [if_neg hmode, (hfind v hv).1]
  have hpalette : writePalette mode data.palette = writeVarInt ids.length ++ ids.flatMap writeVarInt := by
    rw [List.flatMap_map, hids]
    cases mode with
    | linear => rfl
    | hash => rfl
    | global => exact absurd rfl hmode
  have hread := readContainer_indirect data.cube.cells entry hpos hwidth hindirect
    (Cube.cells_length _) (hids ▸ hsmall) (fun id hid => ?_) (hids ▸ hlimit) fun v hv => (hfind v hv).2
  · refine decodes_of_read ?_ hread
    unfold write
    dsimp only
    rw [hstrategy, Option.bind_eq_bind, Option.bind_some]
    dsimp only
    rw [hindices, hpalette]
    rfl
  · obtain ⟨e, -, rfl⟩ := List.mem_map.mp hid
    exact (ToGlobalId.toGlobalId e.1).toNat_lt

theorem decodes_iff (h : c.Exact) (hbuilding : ¬ c.IsBuilding) : c.Decodes ↔ c.Fits := by
  cases c with
  | homogeneous value => exact iff_of_true (homogeneous_decodes value) (homogeneous_fits value)
  | heterogeneous data =>
    obtain ⟨bits, mode, hstrategy, hpos, hwidth, hmode⟩ := strategy_spec dim h.two
    have hpalette : (heterogeneous data).cells.dedup.length = data.palette.length := (palette_length h).symm
    rcases hmode with ⟨rfl, hcount, rfl, hdirect⟩ | ⟨hmode, hcount, hlimit, hindirect⟩
    · exact direct_decodes hstrategy (hpalette ▸ hcount) hpos hwidth hdirect
    · exact iff_of_true (indirect_decodes h hstrategy hmode hpos hwidth hlimit hindirect) (Or.inl (hpalette ▸ hcount))
  | building cube => exact absurd trivial hbuilding

end PalettedContainer

end Foton
