import AlopexOS.Acpi.Tables

/-!
# `Acpi.Ecam` — configuration space in memory (`src/ACPI/ecam.cpp`)

A region of the map has 4096 bytes for every function of every bus it covers, and the address of a register is
put together from bus, slot and function. The first region that covers a bus serves it; the regions may overlap.

## Contents
- **The address** of a register, and the accesses to it.
- **The first region** that covers a bus decides.
- **Inside a region** two registers are apart.
-/

namespace AlopexOS.Acpi

open Packed

/-! ## The address -/

namespace ECAMRegion

/-- The test of the loop. -/
def Covers (r : ECAMRegion) (segment : UInt16) (bus : UInt8) : Prop :=
  r.segmentGroup = segment ∧ r.startBus ≤ bus ∧ bus ≤ r.endBus

instance (r : ECAMRegion) (segment : UInt16) (bus : UInt8) : Decidable (r.Covers segment bus) :=
  inferInstanceAs (Decidable (_ ∧ _ ∧ _))

/-- `base_address + relative_address`. -/
def address (r : ECAMRegion) (bus slot func : UInt8) (offset : UInt16) : UInt64 :=
  let busOffset := bus.toUInt64 - r.startBus.toUInt64
  let relativeAddress := (busOffset <<< 20 ||| slot.toUInt64 <<< 15 ||| func.toUInt64 <<< 12) + offset.toUInt64
  r.baseAddress + relativeAddress

/-- The bytes of its buses. -/
def size (r : ECAMRegion) : Nat := (r.endBus.toNat + 1 - r.startBus.toNat) * 2 ^ 20

/-- The region is somewhere, and ends in the address space. -/
def Placed (r : ECAMRegion) : Prop := r.baseAddress ≠ 0 ∧ r.baseAddress.toNat + r.size ≤ 2 ^ 64

end ECAMRegion

section

variable (map : ECAMMap) (segment : UInt16) (bus slot func : UInt8) (offset : UInt16)

/-- The loop of `get_device_address` from region `i` on, with `n` regions left. There is no result when it
    reads behind `regions`. -/
def addressFrom : Nat → Nat → Option UInt64
  | 0, _ => some 0
  | n + 1, i =>
      if h : i < 16 then
        let region := map.regions ⟨i, h⟩
        if region.Covers segment bus then some (region.address bus slot func offset)
        else addressFrom n (i + 1)
      else none

/-- `get_device_address`; `map` is `g_ecam_map`. -/
def getDeviceAddress : Option UInt64 :=
  if 4096 ≤ offset then some 0 else addressFrom map segment bus slot func offset map.count 0

/-- `read8`, `read16` and `read32`, for their `width`: the value, and the bytes that were touched. -/
def readWidth (m : Mem) (width : Nat) : Option (Nat × List Nat) := do
  let address ← getDeviceAddress map segment bus slot func offset
  if address = 0 then pure (256 ^ width - 1, [])
  else pure (load m address.toNat width, List.range' address.toNat width)

/-- `write8`, `write16` and `write32`, for their `width`: memory afterwards, and the bytes that were touched. -/
def writeWidth (m : Mem) (width value : Nat) : Option (Mem × List Nat) := do
  let address ← getDeviceAddress map segment bus slot func offset
  if address = 0 then pure (m, [])
  else pure (store m address.toNat width value, List.range' address.toNat width)

/-- `ECAM::read8`. -/
def read8 (m : Mem) : Option (UInt8 × List Nat) :=
  (readWidth map segment bus slot func offset m 1).map (Prod.map UInt8.ofNat id)

/-- `ECAM::read16`. -/
def read16 (m : Mem) : Option (UInt16 × List Nat) :=
  (readWidth map segment bus slot func offset m 2).map (Prod.map UInt16.ofNat id)

/-- `ECAM::read32`. -/
def read32 (m : Mem) : Option (UInt32 × List Nat) :=
  (readWidth map segment bus slot func offset m 4).map (Prod.map UInt32.ofNat id)

/-- `ECAM::write8`. -/
def write8 (m : Mem) (value : UInt8) : Option (Mem × List Nat) :=
  writeWidth map segment bus slot func offset m 1 value.toNat

/-- `ECAM::write16`. -/
def write16 (m : Mem) (value : UInt16) : Option (Mem × List Nat) :=
  writeWidth map segment bus slot func offset m 2 value.toNat

/-- `ECAM::write32`. -/
def write32 (m : Mem) (value : UInt32) : Option (Mem × List Nat) :=
  writeWidth map segment bus slot func offset m 4 value.toNat

/-! ## The first region -/

/-- Region `i` is the first that covers the bus. -/
def Resolves (i : Fin 16) : Prop :=
  i.val < map.count ∧ (map.regions i).Covers segment bus
    ∧ ∀ j < i, ¬ (map.regions j).Covers segment bus

/-- No region covers the bus. -/
def Uncovered : Prop := ∀ i : Fin 16, i.val < map.count → ¬ (map.regions i).Covers segment bus

end

variable {map : ECAMMap} {segment : UInt16} {bus slot func : UInt8} {offset : UInt16}

theorem Resolves.not_uncovered {i : Fin 16} (h : Resolves map segment bus i) : ¬ Uncovered map segment bus :=
  fun hnone => hnone i h.1 h.2.1

/-- The first region is one. -/
theorem Resolves.unique {i j : Fin 16} (hi : Resolves map segment bus i) (hj : Resolves map segment bus j) :
    i = j := by
  rcases Nat.lt_trichotomy i.val j.val with hlt | heq | hlt
  · exact absurd hi.2.1 (hj.2.2 i hlt)
  · exact Fin.ext heq
  · exact absurd hj.2.1 (hi.2.2 j hlt)

/-- **The loop** from region `i` on finds the first region, when it has not passed one that covers the bus. -/
theorem addressFrom_spec {n i : Nat} (hcount : map.count ≤ 16) (hi : i + n = map.count)
    (hpassed : ∀ j : Fin 16, j.val < i → ¬ (map.regions j).Covers segment bus) :
    (∃ k, Resolves map segment bus k
        ∧ addressFrom map segment bus slot func offset n i = some ((map.regions k).address bus slot func offset))
      ∨ (Uncovered map segment bus ∧ addressFrom map segment bus slot func offset n i = some 0) := by
  induction n generalizing i with
  | zero =>
      right
      exact ⟨fun j hj => hpassed j (by omega), rfl⟩
  | succ n ih =>
      have hin : i < 16 := by omega
      rw [addressFrom, dif_pos hin]
      by_cases hcovers : (map.regions ⟨i, hin⟩).Covers segment bus
      · left
        refine ⟨⟨i, hin⟩, ⟨by show i < map.count; omega, hcovers, ?_⟩, if_pos hcovers⟩
        intro j hj
        exact hpassed j hj
      · simp only [if_neg hcovers]
        apply ih (by omega)
        intro j hj
        by_cases he : j.val = i
        · rwa [show j = ⟨i, hin⟩ from Fin.ext he]
        · exact hpassed j (by omega)

/-- **`get_device_address`** finds the first region, or none. -/
theorem getDeviceAddress_spec (hcount : map.count ≤ 16) (hoffset : offset < 4096) :
    (∃ k, Resolves map segment bus k
        ∧ getDeviceAddress map segment bus slot func offset = some ((map.regions k).address bus slot func offset))
      ∨ (Uncovered map segment bus ∧ getDeviceAddress map segment bus slot func offset = some 0) := by
  rw [getDeviceAddress, if_neg (UInt16.not_le.mpr hoffset)]
  apply addressFrom_spec hcount (Nat.zero_add _)
  intro j hj
  exact absurd hj (Nat.not_lt_zero _)

theorem getDeviceAddress_of_resolves (hcount : map.count ≤ 16) (hoffset : offset < 4096) {i : Fin 16}
    (hi : Resolves map segment bus i) :
    getDeviceAddress map segment bus slot func offset
      = some ((map.regions i).address bus slot func offset) := by
  rcases getDeviceAddress_spec hcount hoffset with ⟨k, hk, haddress⟩ | ⟨hnone, -⟩
  · rw [haddress, hk.unique hi]
  · exact absurd hnone hi.not_uncovered

/-! ## Inside a region -/

namespace ECAMRegion

variable {r : ECAMRegion}

/-- Where a register is in its region. -/
def registerOffset (r : ECAMRegion) (bus slot func : UInt8) (offset : UInt16) : Nat :=
  (bus.toNat - r.startBus.toNat) * 2 ^ 20 + slot.toNat * 2 ^ 15 + func.toNat * 2 ^ 12 + offset.toNat

theorem registerOffset_lt (hcovers : r.Covers segment bus) (hslot : slot < 32) (hfunc : func < 8)
    (hoffset : offset < 4096) :
    r.registerOffset bus slot func offset + (4096 - offset.toNat) ≤ r.size := by
  obtain ⟨-, hstart, hend⟩ := hcovers
  have hstart' : r.startBus.toNat ≤ bus.toNat := hstart
  have hend' : bus.toNat ≤ r.endBus.toNat := hend
  have hslot' : slot.toNat < 32 := hslot
  have hfunc' : func.toNat < 8 := hfunc
  have hoffset' : offset.toNat < 4096 := hoffset
  unfold registerOffset size
  omega

/-- The fields of the relative address do not overlap. -/
theorem toNat_relative (hcovers : r.Covers segment bus) (hslot : slot < 32) (hfunc : func < 8)
    (hoffset : offset < 4096) :
    (((bus.toUInt64 - r.startBus.toUInt64) <<< 20 ||| slot.toUInt64 <<< 15 ||| func.toUInt64 <<< 12)
        + offset.toUInt64).toNat = r.registerOffset bus slot func offset := by
  have hstart : r.startBus.toNat ≤ bus.toNat := hcovers.2.1
  have hbus := bus.toNat_lt
  have hslot' : slot.toNat < 32 := hslot
  have hfunc' : func.toNat < 8 := hfunc
  have hoffset' : offset.toNat < 4096 := hoffset
  have hrel : (bus.toUInt64 - r.startBus.toUInt64).toNat = bus.toNat - r.startBus.toNat :=
    Word.toNat_sub_of_le hstart
  have hshift : ∀ (x : UInt64) (k : UInt64), k.toNat < 64 → x.toNat * 2 ^ k.toNat < 2 ^ 64 →
      (x <<< k).toNat = x.toNat * 2 ^ k.toNat := by
    intro x k hk hlt
    rw [UInt64.toNat_shiftLeft, Nat.mod_eq_of_lt hk, Nat.shiftLeft_eq, Nat.mod_eq_of_lt hlt]
  have h20 : ((bus.toUInt64 - r.startBus.toUInt64) <<< 20).toNat = (bus.toNat - r.startBus.toNat) * 2 ^ 20 := by
    rw [hshift _ 20 (by decide) (by rw [hrel]; show _ * 2 ^ 20 < _; omega), hrel]
    rfl
  have h15 : (slot.toUInt64 <<< 15).toNat = slot.toNat * 2 ^ 15 :=
    hshift slot.toUInt64 15 (by decide) (by show slot.toNat * 2 ^ 15 < _; omega)
  have h12 : (func.toUInt64 <<< 12).toNat = func.toNat * 2 ^ 12 :=
    hshift func.toUInt64 12 (by decide) (by show func.toNat * 2 ^ 12 < _; omega)
  -- the fields from the top bit down
  have hdev : (bus.toNat - r.startBus.toNat) * 2 ^ 20 ||| slot.toNat * 2 ^ 15
      = (bus.toNat - r.startBus.toNat) * 2 ^ 20 + slot.toNat * 2 ^ 15 := Word.or_eq_add 20 (by omega) (by omega)
  have hfun : (bus.toNat - r.startBus.toNat) * 2 ^ 20 + slot.toNat * 2 ^ 15 ||| func.toNat * 2 ^ 12
      = (bus.toNat - r.startBus.toNat) * 2 ^ 20 + slot.toNat * 2 ^ 15 + func.toNat * 2 ^ 12 :=
    Word.or_eq_add 15 (by omega) (by omega)
  have hor : ((bus.toUInt64 - r.startBus.toUInt64) <<< 20 ||| slot.toUInt64 <<< 15 ||| func.toUInt64 <<< 12).toNat
      = (bus.toNat - r.startBus.toNat) * 2 ^ 20 + slot.toNat * 2 ^ 15 + func.toNat * 2 ^ 12 := by
    rw [UInt64.toNat_or, UInt64.toNat_or, h20, h15, h12, hdev, hfun]
  rw [Word.toNat_add_of_lt (by rw [hor]; show _ + offset.toNat < _; omega), hor]
  rfl

/-- **The address of a register** is as far above the base as its numbers say. -/
theorem toNat_address (hplaced : r.Placed) (hcovers : r.Covers segment bus) (hslot : slot < 32) (hfunc : func < 8)
    (hoffset : offset < 4096) :
    (r.address bus slot func offset).toNat = r.baseAddress.toNat + r.registerOffset bus slot func offset := by
  have hrel := toNat_relative hcovers hslot hfunc hoffset
  have hlt := registerOffset_lt hcovers hslot hfunc hoffset
  have hroom := hplaced.2
  have hoffset' : offset.toNat < 4096 := hoffset
  rw [address, Word.toNat_add_of_lt (by rw [hrel]; omega), hrel]

/-- **The numbers of a register** can be read off its place. -/
theorem registerOffset_inj {segment' : UInt16} {bus' slot' func' : UInt8} {offset' : UInt16}
    (hcovers : r.Covers segment bus) (hcovers' : r.Covers segment' bus') (hslot : slot < 32) (hslot' : slot' < 32) (hfunc : func < 8)
    (hfunc' : func' < 8) (hoffset : offset < 4096) (hoffset' : offset' < 4096)
    (h : r.registerOffset bus slot func offset = r.registerOffset bus' slot' func' offset') :
    (bus, slot, func, offset) = (bus', slot', func', offset') := by
  have hb : r.startBus.toNat ≤ bus.toNat := hcovers.2.1
  have hb' : r.startBus.toNat ≤ bus'.toNat := hcovers'.2.1
  have hs : slot.toNat < 32 := hslot
  have hs' : slot'.toNat < 32 := hslot'
  have hf : func.toNat < 8 := hfunc
  have hf' : func'.toNat < 8 := hfunc'
  have ho : offset.toNat < 4096 := hoffset
  have ho' : offset'.toNat < 4096 := hoffset'
  unfold registerOffset at h
  have hbus : bus.toNat = bus'.toNat := by omega
  have hslot : slot.toNat = slot'.toNat := by omega
  have hfunc : func.toNat = func'.toNat := by omega
  have hoffset : offset.toNat = offset'.toNat := by omega
  rw [UInt8.toNat_inj.mp hbus, UInt8.toNat_inj.mp hslot, UInt8.toNat_inj.mp hfunc, UInt16.toNat_inj.mp hoffset]

end ECAMRegion

/-! ## The accesses -/

section

variable (map : ECAMMap) (segment : UInt16) (bus slot func : UInt8) (offset : UInt16)

/-- A `read32` or a `write32` of the register touches these bytes. -/
def Touches32 (bytes : List Nat) : Prop :=
  (∃ m value, read32 map segment bus slot func offset m = some (value, bytes))
    ∨ ∃ m value m', write32 map segment bus slot func offset m value = some (m', bytes)

end

/-- An access touches the bytes at the address, if there is one. -/
theorem mem_of_access {α : Type} {a : UInt64} {refused done result : α} {width : Nat} {bytes : List Nat}
    (h : (if a = 0 then some (refused, []) else some (done, List.range' a.toNat width)) = some (result, bytes))
    {b : Nat} (hb : b ∈ bytes) : a.toNat ≤ b ∧ b < a.toNat + width := by
  by_cases ha : a = 0
  · rw [if_pos ha] at h
    rw [← (Prod.mk.inj (Option.some.inj h)).2] at hb
    exact absurd hb List.not_mem_nil
  · rw [if_neg ha] at h
    rw [← (Prod.mk.inj (Option.some.inj h)).2] at hb
    exact List.mem_range'_1.mp hb

theorem mem_of_touches32 {a : UInt64} {bytes : List Nat}
    (haddress : getDeviceAddress map segment bus slot func offset = some a)
    (h : Touches32 map segment bus slot func offset bytes) {b : Nat} (hb : b ∈ bytes) :
    a.toNat ≤ b ∧ b < a.toNat + 4 := by
  rcases h with ⟨m, value, hread⟩ | ⟨m, value, m', hwrite⟩
  · rw [read32, readWidth, haddress, Option.bind_eq_bind, Option.bind_some] at hread
    obtain ⟨⟨v, touched⟩, haccess, hpair⟩ := Option.map_eq_some_iff.mp hread
    obtain rfl : touched = bytes := (Prod.mk.inj hpair).2
    exact mem_of_access haccess hb
  · rw [write32, writeWidth, haddress, Option.bind_eq_bind, Option.bind_some] at hwrite
    exact mem_of_access hwrite hb

/-- What `get_device_address` has to be for a register. -/
structure Decodes (map : ECAMMap) (segment : UInt16) (bus slot func : UInt8) (offset : UInt16) (a : UInt64) :
    Prop where
  zero_iff : a = 0 ↔ Uncovered map segment bus
  first : ∀ i, Resolves map segment bus i → a = (map.regions i).address bus slot func offset
    ∧ (map.regions i).baseAddress.toNat ≤ a.toNat
    ∧ a.toNat < (map.regions i).baseAddress.toNat + (map.regions i).size

/-- All regions of the map have a base, and room above it. -/
def ECAMMap.Placed (map : ECAMMap) : Prop := ∀ i : Fin 16, i.val < map.count → (map.regions i).Placed

theorem decodes (hcount : map.count ≤ 16) (hplaced : map.Placed) (hslot : slot < 32) (hfunc : func < 8)
    (hoffset : offset < 4096) :
    ∃ a, getDeviceAddress map segment bus slot func offset = some a
      ∧ Decodes map segment bus slot func offset a := by
  rcases getDeviceAddress_spec hcount hoffset with ⟨k, hk, haddress⟩ | ⟨hnone, haddress⟩
  · have hregion := hplaced k hk.1
    have htoNat := ECAMRegion.toNat_address hregion hk.2.1 hslot hfunc hoffset
    have hlt := ECAMRegion.registerOffset_lt hk.2.1 hslot hfunc hoffset
    have hoffset' : offset.toNat < 4096 := hoffset
    have hbase := Word.ne_zero_iff.mp hregion.1
    refine ⟨_, haddress, ⟨?_, ?_⟩⟩
    · constructor
      · intro hzero
        exact absurd (Word.ne_zero_iff.mpr (by omega)) (not_not_intro hzero)
      · intro hnone
        exact absurd hnone hk.not_uncovered
    · intro i hi
      rw [hi.unique hk]
      exact ⟨rfl, by omega, by omega⟩
  · refine ⟨0, haddress, ⟨⟨fun _ => hnone, fun _ => rfl⟩, ?_⟩⟩
    intro i hi
    exact absurd hnone hi.not_uncovered

/-- **Two registers of a region are apart**, and so are the bytes of aligned accesses to them. -/
theorem apart {i : Fin 16} {segment' : UInt16} {bus' slot' func' : UInt8} {offset' : UInt16} {a a' : UInt64}
    (hplaced : (map.regions i).Placed) (hi : Resolves map segment bus i) (hi' : Resolves map segment' bus' i)
    (hslot : slot < 32) (hslot' : slot' < 32) (hfunc : func < 8) (hfunc' : func' < 8) (hoffset : offset < 4096)
    (hoffset' : offset' < 4096) (hne : (bus, slot, func, offset) ≠ (bus', slot', func', offset'))
    (ha : a = (map.regions i).address bus slot func offset)
    (ha' : a' = (map.regions i).address bus' slot' func' offset') :
    a ≠ a' ∧ (offset.toNat % 4 = 0 → offset'.toNat % 4 = 0 → a.toNat + 4 ≤ a'.toNat ∨ a'.toNat + 4 ≤ a.toNat) := by
  have htoNat := ECAMRegion.toNat_address hplaced hi.2.1 hslot hfunc hoffset
  have htoNat' := ECAMRegion.toNat_address hplaced hi'.2.1 hslot' hfunc' hoffset'
  have hplaces : (map.regions i).registerOffset bus slot func offset
      ≠ (map.regions i).registerOffset bus' slot' func' offset' := fun he =>
    hne (ECAMRegion.registerOffset_inj hi.2.1 hi'.2.1 hslot hslot' hfunc hfunc' hoffset hoffset' he)
  rw [← ha] at htoNat
  rw [← ha'] at htoNat'
  constructor
  · rintro rfl
    omega
  · intro halign halign'
    unfold ECAMRegion.registerOffset at hplaces htoNat htoNat'
    omega

/-- Configuration space is decoded into places that are apart. -/
structure DisjointDecoding (map : ECAMMap) : Prop where
  decodes : ∀ (segment : UInt16) (bus slot func : UInt8) (offset : UInt16), slot < 32 → func < 8 → offset < 4096 →
    ∃ a, getDeviceAddress map segment bus slot func offset = some a
      ∧ Decodes map segment bus slot func offset a
  apart : ∀ (i : Fin 16) (segment segment' : UInt16) (bus slot func bus' slot' func' : UInt8)
    (offset offset' : UInt16), Resolves map segment bus i → Resolves map segment' bus' i → slot < 32 → slot' < 32 →
    func < 8 → func' < 8 → offset < 4096 → offset' < 4096 →
    (bus, slot, func, offset) ≠ (bus', slot', func', offset') →
    getDeviceAddress map segment bus slot func offset ≠ getDeviceAddress map segment' bus' slot' func' offset'
      ∧ (offset.toNat % 4 = 0 → offset'.toNat % 4 = 0 → ∀ bytes bytes',
          Touches32 map segment bus slot func offset bytes →
          Touches32 map segment' bus' slot' func' offset' bytes' → bytes.Disjoint bytes')

theorem disjointDecoding (hcount : map.count ≤ 16) (hplaced : map.Placed) : DisjointDecoding map where
  decodes segment bus slot func offset hslot hfunc hoffset := Acpi.decodes hcount hplaced hslot hfunc hoffset
  apart i segment segment' bus slot func bus' slot' func' offset offset' hi hi' hslot hslot' hfunc hfunc' hoffset
      hoffset' hne := by
    have haddress : getDeviceAddress map segment bus slot func offset
        = some ((map.regions i).address bus slot func offset) := getDeviceAddress_of_resolves hcount hoffset hi
    have haddress' : getDeviceAddress map segment' bus' slot' func' offset'
        = some ((map.regions i).address bus' slot' func' offset') :=
      getDeviceAddress_of_resolves hcount hoffset' hi'
    obtain ⟨hdiff, hapart⟩ :=
      Acpi.apart (hplaced i hi.1) hi hi' hslot hslot' hfunc hfunc' hoffset hoffset' hne rfl rfl
    constructor
    · rw [haddress, haddress']
      exact fun he => hdiff (Option.some.inj he)
    · intro halign halign' bytes bytes' hbytes hbytes' b hb hb'
      have hin := mem_of_touches32 haddress hbytes hb
      have hin' := mem_of_touches32 haddress' hbytes' hb'
      have hfar := hapart halign halign'
      omega

/-! ## Maps from the MCFG -/

theorem count_parseFrom_le {m : Mem} {fin ptr : UInt64} {log : List Fetch} (h : map.count ≤ 16) :
    (parseFrom m fin ptr map log).1.count ≤ 16 := by
  induction ptr, map, log using parseFrom.induct m fin with
  | case1 ptr map log htest ih =>
      rw [parseFrom, dif_pos htest]
      exact ih htest.2
  | case2 ptr map log hstop =>
      rw [parseFrom, dif_neg hstop]
      exact h

theorem count_parseMcfg_le {m : Mem} {mcfg : UInt64} {outMap : ECAMMap} (hmcfg : mcfg ≠ 0) :
    (parseMcfg m mcfg outMap).2.1.count ≤ 16 := by
  rw [parseMcfg, if_neg hmcfg]
  exact count_parseFrom_le (Nat.zero_le 16)

/-- **The regions of an MCFG decode configuration space into places that are apart**, when each is placed. They
    may overlap, and the first decides. -/
theorem ecam_disjoint_decoding {m : Mem} {mcfg : UInt64} {outMap : ECAMMap} (hmcfg : mcfg ≠ 0)
    (hplaced : (parseMcfg m mcfg outMap).2.1.Placed) : DisjointDecoding (parseMcfg m mcfg outMap).2.1 :=
  disjointDecoding (count_parseMcfg_le hmcfg) hplaced

/-- A memory with an MCFG at `0x1000` whose entry has all buses of segment 0 at `0xE0000000`. -/
def mcfgOf : Mem := fun a =>
  if a = 0x1004 then 60 else if a = 0x102F then 0xE0 else if a = 0x1037 then 255 else 0

theorem ecam_disjoint_decoding_one :
    (parseMcfg mcfgOf 0x1000 noRegions).2.1.count = 1
      ∧ DisjointDecoding (parseMcfg mcfgOf 0x1000 noRegions).2.1 := by
  obtain ⟨-, hparsed, hstored, -⟩ := parsesInside mcfgOf (show (0x1000 : UInt32) ≠ 0 by decide) noRegions
  have hcount : (parseMcfg mcfgOf 0x1000 noRegions).2.1.count = 1 := hparsed
  have hregions : ∀ k : Fin 16, (parseMcfg mcfgOf 0x1000 noRegions).2.1.regions k
      = if k.val < 1 then allocationEntry mcfgOf (0x1000 + 44 + 16 * k) else noRegions.regions k := hstored
  refine ⟨hcount, ecam_disjoint_decoding (by decide) ?_⟩
  intro i hi
  have hfirst : i = 0 := Fin.ext (by rw [hcount] at hi; exact Nat.lt_one_iff.mp hi)
  rw [hregions i, hfirst]
  unfold ECAMRegion.Placed
  decide

end AlopexOS.Acpi
