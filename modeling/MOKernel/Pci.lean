import MOKernel.ByteOrder

/-!
# PCI configuration access

`PciHost` is a host bridge of configuration mechanism 1 as bytewise port accesses see it.
Its address latch is loaded by a 32-bit write to 0xCF8 alone; a write of a byte there does
nothing to it.  The four ports from 0xCFC on are the bytes of the dword that the latch selects.

The address that `pci_read32` and `pci_write32` compute selects the dword they are asked for,
and no other (`pciSelected_pciAddr`), but they write it byte by byte, so it never reaches the
latch.  An access goes to the dword the latch happened to select before (`pci_access_iff`).
-/

namespace MOKernel

def pciConfigAddr : UInt16 := 0xCF8
def pciConfigData : UInt16 := 0xCFC

/-- A dword of configuration space. -/
structure PciDword where
  bus : Nat
  slot : Nat
  func : Nat
  reg : Nat
deriving DecidableEq

/-! ## The host bridge -/

/-- `config` has the bytes of a dword by their offset in it. -/
structure PciHost where
  latch : UInt32
  config : PciDword → Nat → UInt8

/-- The dword an address selects when its enable bit is set. -/
def pciSelected (latch : UInt32) : Option PciDword :=
  if latch.toNat / 2 ^ 31 = 1 then
    some ⟨latch.toNat / 2 ^ 16 % 256, latch.toNat / 2 ^ 11 % 32, latch.toNat / 2 ^ 8 % 8,
      latch.toNat / 4 % 64⟩
  else none

/-- The byte of the data register at a port. -/
def pciDataByte (port : UInt16) : Option Nat :=
  if pciConfigData ≤ port ∧ port.toNat < pciConfigData.toNat + 4 then
    some (port.toNat - pciConfigData.toNat)
  else none

namespace PciHost

/-- `read_port`; a read that no byte of configuration space answers gives 0xFF. -/
def readPort (host : PciHost) (port : UInt16) : UInt8 :=
  match pciDataByte port, pciSelected host.latch with
  | some k, some d => host.config d k
  | _, _ => 0xFF

/-- `write_port`; a byte does not load the latch. -/
def writePort (host : PciHost) (port : UInt16) (b : UInt8) : PciHost :=
  match pciDataByte port, pciSelected host.latch with
  | some k, some d =>
    { host with config := Function.update host.config d (Function.update (host.config d) k b) }
  | _, _ => host

/-- The value of a dword. -/
def dword (host : PciHost) (d : PciDword) : UInt32 :=
  ofLe32 (host.config d 0) (host.config d 1) (host.config d 2) (host.config d 3)

end PciHost

/-! ## The driver -/

def pciInl (host : PciHost) (port : UInt16) : UInt32 :=
  ofLe32 (host.readPort port) (host.readPort (port + 1)) (host.readPort (port + 2))
    (host.readPort (port + 3))

def pciOutl (host : PciHost) (port : UInt16) (val : UInt32) : PciHost :=
  (((host.writePort port val.toUInt8).writePort (port + 1) (val >>> 8).toUInt8).writePort
    (port + 2) (val >>> 16).toUInt8).writePort (port + 3) (val >>> 24).toUInt8

/-- The address both accesses compute. -/
def pciAddr (bus slot func offset : UInt8) : UInt32 :=
  ((1 : UInt32) <<< 31) ||| (bus.toUInt32 <<< 16) ||| (slot.toUInt32 <<< 11) |||
    (func.toUInt32 <<< 8) ||| (offset &&& 0xFC).toUInt32

def pciRead32 (host : PciHost) (bus slot func offset : UInt8) : UInt32 × PciHost :=
  let host := pciOutl host pciConfigAddr (pciAddr bus slot func offset)
  (pciInl host pciConfigData, host)

def pciWrite32 (host : PciHost) (bus slot func offset : UInt8) (value : UInt32) : PciHost :=
  pciOutl (pciOutl host pciConfigAddr (pciAddr bus slot func offset)) pciConfigData value

/-! ## The address -/

/-- The dword that bus, slot, function and offset name. -/
def pciTarget (bus slot func offset : UInt8) : PciDword :=
  ⟨bus.toNat, slot.toNat, func.toNat, offset.toNat / 4⟩

section Address

variable {bus slot func offset : UInt8}

theorem toNat_registerOffset (offset : UInt8) :
    (offset &&& 0xFC).toNat = offset.toNat / 4 * 4 := by
  have mask : (0xFC : UInt8).toNat = (2 ^ 6 - 1) <<< 2 := rfl
  have lt := offset.toNat_lt
  rw [UInt8.toNat_and, mask, and_mask_shiftLeft, Nat.shiftLeft_eq]
  omega

/-- The fields of the address do not overlap. -/
theorem toNat_pciAddr (slotLt : slot.toNat < 32) (funcLt : func.toNat < 8) :
    (pciAddr bus slot func offset).toNat =
      offset.toNat / 4 * 4 + 256 * func.toNat + 2048 * slot.toNat + 65536 * bus.toNat + 2 ^ 31 := by
  have busLt := bus.toNat_lt
  have offsetLt := offset.toNat_lt
  have shift {x k : Nat} (lt : x * 2 ^ k < 4294967296) : x <<< k % 4294967296 = x <<< k :=
    Nat.mod_eq_of_lt (by rwa [Nat.shiftLeft_eq])
  have func8 : offset.toNat / 4 * 4 ||| func.toNat <<< 8 =
      offset.toNat / 4 * 4 + 256 * func.toNat := or_shiftLeft_eq_add (by omega)
  have slot11 : offset.toNat / 4 * 4 + 256 * func.toNat ||| slot.toNat <<< 11 =
      offset.toNat / 4 * 4 + 256 * func.toNat + 2048 * slot.toNat :=
    or_shiftLeft_eq_add (by omega)
  have bus16 : offset.toNat / 4 * 4 + 256 * func.toNat + 2048 * slot.toNat ||| bus.toNat <<< 16 =
      offset.toNat / 4 * 4 + 256 * func.toNat + 2048 * slot.toNat + 65536 * bus.toNat :=
    or_shiftLeft_eq_add (by omega)
  have enable : offset.toNat / 4 * 4 + 256 * func.toNat + 2048 * slot.toNat + 65536 * bus.toNat |||
      1 <<< 31 = offset.toNat / 4 * 4 + 256 * func.toNat + 2048 * slot.toNat +
        65536 * bus.toNat + 2 ^ 31 * 1 := or_shiftLeft_eq_add (by omega)
  simp only [pciAddr, UInt32.toNat_or, UInt32.toNat_shiftLeft, UInt8.toNat_toUInt32,
    toNat_registerOffset, UInt32.reduceToNat, Nat.reduceMod, Nat.reducePow]
  have reverse (a b c d e : Nat) : a ||| b ||| c ||| d ||| e = e ||| d ||| c ||| b ||| a := by
    ac_rfl
  rw [shift (by omega), shift (by omega), shift (by omega), shift (by omega), reverse, func8,
    slot11, bus16, enable]
  omega

/-- The computed address selects the dword asked for. -/
theorem pciSelected_pciAddr (slotLt : slot.toNat < 32) (funcLt : func.toNat < 8) :
    pciSelected (pciAddr bus slot func offset) = some (pciTarget bus slot func offset) := by
  have busLt := bus.toNat_lt
  have offsetLt := offset.toNat_lt
  rw [pciSelected, toNat_pciAddr slotLt funcLt, if_pos (by omega), pciTarget]
  congr 2 <;> omega

/-- Different tuples have different addresses. -/
theorem pciTarget_injective {bus' slot' func' offset' : UInt8}
    (same : pciTarget bus slot func offset = pciTarget bus' slot' func' offset') :
    bus = bus' ∧ slot = slot' ∧ func = func' ∧ offset &&& 0xFC = offset' &&& 0xFC := by
  simp only [pciTarget, PciDword.mk.injEq] at same
  obtain ⟨sameBus, sameSlot, sameFunc, sameReg⟩ := same
  refine ⟨UInt8.toNat_inj.mp sameBus, UInt8.toNat_inj.mp sameSlot, UInt8.toNat_inj.mp sameFunc,
    UInt8.toNat_inj.mp ?_⟩
  rw [toNat_registerOffset, toNat_registerOffset, sameReg]

end Address

/-! ## The accesses -/

section Access

variable {host : PciHost} {d : PciDword}

/-- The bytes of an address are lost. -/
theorem pciOutl_configAddr (host : PciHost) (val : UInt32) :
    pciOutl host pciConfigAddr val = host := by
  have lost (host : PciHost) (port : UInt16) (b : UInt8) (outside : pciDataByte port = none) :
      host.writePort port b = host := by
    rw [PciHost.writePort, outside]
  rw [pciOutl, lost _ _ _ (by decide), lost _ _ _ (by decide), lost _ _ _ (by decide),
    lost _ _ _ (by decide)]

/-- A byte written to the data register goes to the selected dword. -/
theorem PciHost.writePort_of_selected {latch : UInt32} (selected : pciSelected latch = some d)
    (config : PciDword → Nat → UInt8) {port : UInt16} {k : Nat}
    (inside : pciDataByte port = some k) (b : UInt8) :
    PciHost.writePort ⟨latch, config⟩ port b =
      ⟨latch, Function.update config d (Function.update (config d) k b)⟩ := by
  rw [writePort, inside, selected]

/-- The data register holds the selected dword. -/
theorem pciInl_configData (selected : pciSelected host.latch = some d) :
    pciInl host pciConfigData = host.dword d := by
  have byte {port : UInt16} {k : Nat} (inside : pciDataByte port = some k) :
      host.readPort port = host.config d k := by
    rw [PciHost.readPort, inside, selected]
  rw [pciInl, byte (k := 0) (by decide), byte (k := 1) (by decide), byte (k := 2) (by decide),
    byte (k := 3) (by decide), PciHost.dword]

/-- A write of the data register writes the selected dword and nothing else. -/
theorem pciOutl_configData (selected : pciSelected host.latch = some d) (value : UInt32)
    (other : PciDword) :
    (pciOutl host pciConfigData value).dword other =
      if other = d then value else host.dword other := by
  obtain ⟨latch, config⟩ := host
  rw [pciOutl, PciHost.writePort_of_selected selected _ (k := 0) (by decide),
    PciHost.writePort_of_selected selected _ (k := 1) (by decide),
    PciHost.writePort_of_selected selected _ (k := 2) (by decide),
    PciHost.writePort_of_selected selected _ (k := 3) (by decide)]
  split
  · rename_i same
    rw [same, PciHost.dword]
    simp only [Function.update_self]
    exact ofLe32_le32 value
  · rename_i apart
    rw [PciHost.dword, PciHost.dword]
    simp only [Function.update_of_ne apart]

/-- Without a selected dword a write is lost. -/
theorem pciOutl_of_disabled (disabled : pciSelected host.latch = none) (port : UInt16)
    (value : UInt32) : pciOutl host port value = host := by
  have lost (port : UInt16) (b : UInt8) : host.writePort port b = host := by
    rw [PciHost.writePort, disabled]
    cases pciDataByte port <;> rfl
  rw [pciOutl, lost, lost, lost, lost]

end Access

/-- The property of `pci_read32` and `pci_write32`, for every content of configuration space: the
read returns the dword asked for, the write sets that dword and no other. -/
def PciAccessCorrect (latch : UInt32) (bus slot func offset : UInt8) : Prop :=
  ∀ (config : PciDword → Nat → UInt8) (value : UInt32) (d : PciDword),
    (pciRead32 ⟨latch, config⟩ bus slot func offset).1 =
        PciHost.dword ⟨latch, config⟩ (pciTarget bus slot func offset) ∧
      (pciWrite32 ⟨latch, config⟩ bus slot func offset value).dword d =
        if d = pciTarget bus slot func offset then value else PciHost.dword ⟨latch, config⟩ d

theorem pciAccessCorrect_iff (latch : UInt32) (bus slot func offset : UInt8) :
    PciAccessCorrect latch bus slot func offset ↔
      pciSelected latch = some (pciTarget bus slot func offset) := by
  constructor
  · intro correct
    -- a write of 1 into a space of zeros shows which dword is selected
    have written := (correct (fun _ _ => 0) 1 (pciTarget bus slot func offset)).2
    rw [if_pos rfl, pciWrite32, pciOutl_configAddr] at written
    cases selected : pciSelected latch with
    | none =>
      rw [pciOutl_of_disabled selected] at written
      exact absurd written (by decide : ¬ ofLe32 0 0 0 0 = 1)
    | some d =>
      rw [pciOutl_configData selected] at written
      split at written
      · rename_i same
        rw [same]
      · exact absurd written (by decide : ¬ ofLe32 0 0 0 0 = 1)
  · intro selected config value d
    rw [pciRead32, pciWrite32, pciOutl_configAddr]
    exact ⟨pciInl_configData selected, pciOutl_configData selected value d⟩

/-- **PCI configuration access.**  The computed address selects exactly the dword asked for, and
different ones are asked for by different tuples, but the address never reaches the latch: an
access is correct for every content of configuration space exactly when the latch selects
that dword already. -/
theorem pci_access_iff (latch : UInt32) {bus slot func offset : UInt8} (slotLt : slot.toNat < 32)
    (funcLt : func.toNat < 8) :
    pciSelected (pciAddr bus slot func offset) = some (pciTarget bus slot func offset) ∧
      (∀ bus' slot' func' offset',
        pciTarget bus slot func offset = pciTarget bus' slot' func' offset' →
          bus = bus' ∧ slot = slot' ∧ func = func' ∧ offset &&& 0xFC = offset' &&& 0xFC) ∧
      (PciAccessCorrect latch bus slot func offset ↔
        pciSelected latch = some (pciTarget bus slot func offset)) :=
  ⟨pciSelected_pciAddr slotLt funcLt, fun _ _ _ _ => pciTarget_injective,
    pciAccessCorrect_iff latch bus slot func offset⟩

/-- A latch that was left at the dword that is asked for. -/
theorem pci_access_latched :
    (3 : UInt8).toNat < 32 ∧ (0 : UInt8).toNat < 8 ∧ PciAccessCorrect 0x80001810 0 3 0 0x10 :=
  ⟨by decide, by decide,
    (@pci_access_iff 0x80001810 0 3 0 0x10 (by decide) (by decide)).2.2.mpr (by decide)⟩

/-- The first access after reset reads no dword. -/
theorem pci_access_misses :
    ¬ ∀ (latch : UInt32) (bus slot func offset : UInt8), slot.toNat < 32 → func.toNat < 8 →
      PciAccessCorrect latch bus slot func offset := by
  intro correct
  have selected := (pciAccessCorrect_iff _ _ _ _ _).mp
    (correct 0 0 3 0 0 (by decide) (by decide))
  exact absurd selected (by decide)

end MOKernel
