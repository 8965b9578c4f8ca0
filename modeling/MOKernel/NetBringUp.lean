import MOKernel.NetDriver

/-!
# The card on a host bridge

`net_init` on a machine: a host bridge at the configuration ports, other devices at all
others, the serial port among them.  On a bridge of configuration mechanism 1 the port
programs are the accesses of `Pci`, so every slot shows the dword that the latch has
happened to select, and what `net_init` takes for the I/O base is not the card's
(`net_init_mechanism1`).
-/

namespace MOKernel

namespace NetDriver

variable {σ : Type}

/-! ## The machine -/

/-- A bridge of mechanism 1 and what answers at the other ports. -/
def onBridge (rest : PortDevice σ) : PortDevice (PciHost × σ) where
  read := fun s port =>
    if 0xCF8 ≤ port ∧ port ≤ 0xCFF then (s.1.readPort port, s)
    else ((rest.read s.2 port).1, (s.1, (rest.read s.2 port).2))
  write := fun s port b =>
    if 0xCF8 ≤ port ∧ port ≤ 0xCFF then (s.1.writePort port b, s.2)
    else (s.1, rest.write s.2 port b)

/-- The other devices after a text has gone to the serial port. -/
def afterText (rest : PortDevice σ) (t : σ) (str : List UInt8) : σ :=
  (cstr str).foldl (fun t chr => rest.write t serialPort chr) t

section Accesses

variable (rest : PortDevice σ) (host : PciHost) (t : σ)

/-- The port program on the bridge is the access of `Pci`. -/
theorem run_pciRead32 (bus slot func offset : UInt8) :
    ((pciRead32 bus slot func offset).run (onBridge rest) (host, t)).value =
        (MOKernel.pciRead32 host bus slot func offset).1 ∧
      ((pciRead32 bus slot func offset).run (onBridge rest) (host, t)).state =
        ((MOKernel.pciRead32 host bus slot func offset).2, t) := ⟨rfl, rfl⟩

theorem run_pciWrite32 (bus slot func offset : UInt8) (value : UInt32) :
    ((pciWrite32 bus slot func offset value).run (onBridge rest) (host, t)).state =
      (MOKernel.pciWrite32 host bus slot func offset value, t) := rfl

/-- The bridge does not see the serial port. -/
theorem state_kprint (str : List UInt8) :
    ((kprint str).run (onBridge rest) (host, t)).state = (host, afterText rest t str) := by
  induction str generalizing t with
  | nil => rfl
  | cons chr str ih =>
    unfold kprint afterText
    by_cases stop : chr = 0
    · rw [if_pos stop, stop]
      rfl
    · have front : cstr (chr :: str) = chr :: cstr str := by simp [cstr, stop]
      have sent : (onBridge rest).write (host, t) serialPort chr =
          (host, rest.write t serialPort chr) := rfl
      rw [if_neg stop, front, PortIo.state_bind, PortIo.run_writePort, PortIo.state_bind,
        PortIo.run_report, sent]
      exact ih (rest.write t serialPort chr)

end Accesses

/-- What every read of configuration space returns. -/
def latched (host : PciHost) : UInt32 := MOKernel.pciInl host pciConfigData

theorem pciRead32_eq (host : PciHost) (bus slot func offset : UInt8) :
    MOKernel.pciRead32 host bus slot func offset = (latched host, host) := by
  rw [MOKernel.pciRead32, pciOutl_configAddr]
  rfl

/-- The identification of the card. -/
theorem rtlId_iff (id : UInt32) :
    (id &&& 0xFFFF).toUInt16 = 0x10EC ∧ ((id >>> 16) &&& 0xFFFF).toUInt16 = 0x8139 ↔
      id = 0x813910EC := by
  have lt := id.toNat_lt
  have low : (id &&& 0xFFFF).toUInt16.toNat = id.toNat % 65536 := by
    rw [UInt32.toNat_toUInt16, UInt32.toNat_and]
    exact (congrArg (· % 65536) (Nat.and_two_pow_sub_one_eq_mod id.toNat 16)).trans
      (Nat.mod_mod _ _)
  have high : ((id >>> 16) &&& 0xFFFF).toUInt16.toNat = id.toNat / 65536 := by
    rw [UInt32.toNat_toUInt16, UInt32.toNat_and, UInt32.toNat_shiftRight]
    have mask := Nat.and_two_pow_sub_one_eq_mod (id.toNat >>> 16) 16
    have shift : id.toNat >>> 16 = id.toNat / 65536 := Nat.shiftRight_eq_div_pow _ 16
    simp only [UInt32.reduceToNat, Nat.reduceMod, Nat.reducePow] at mask ⊢
    rw [mask, shift]
    omega
  have value : (0x813910EC : UInt32).toNat = 0x8139 * 65536 + 0x10EC := rfl
  rw [← UInt16.toNat_inj, ← UInt16.toNat_inj, ← UInt32.toNat_inj, low, high, value]
  have vendor : (0x10EC : UInt16).toNat = 0x10EC := rfl
  have device : (0x8139 : UInt16).toNat = 0x8139 := rfl
  rw [vendor, device]
  omega

section Mechanism1

variable (rest : PortDevice σ) (host : PciHost) (t : σ)

/-- The scan ends at its first slot, or at none. -/
theorem run_pciScan (slots : List (UInt8 × UInt8)) :
    ((pciScan 0x10EC 0x8139 slots).run (onBridge rest) (host, t)).value =
        (if latched host = 0x813910EC then slots.head? else none) ∧
      ((pciScan 0x10EC 0x8139 slots).run (onBridge rest) (host, t)).state = (host, t) := by
  induction slots with
  | nil => exact ⟨(ite_self none).symm, rfl⟩
  | cons entry slots ih =>
    obtain ⟨bus, slot⟩ := entry
    obtain ⟨value, state⟩ := run_pciRead32 rest host t bus slot 0 0
    rw [pciRead32_eq] at value state
    unfold pciScan
    rw [PortIo.run_bind, value, state]
    by_cases own : latched host = 0x813910EC
    · rw [if_pos ((rtlId_iff _).mpr own), if_pos own]
      exact ⟨rfl, rfl⟩
    · rw [if_neg fun both => own ((rtlId_iff _).mp both), if_neg own]
      rw [if_neg own] at ih
      exact ih

theorem writePort_latch (port : UInt16) (b : UInt8) :
    (host.writePort port b).latch = host.latch := by
  unfold PciHost.writePort
  split <;> rfl

/-- A write to the data register is what is read there afterwards. -/
theorem latched_write {d : PciDword} (selected : pciSelected host.latch = some d) (value : UInt32) :
    latched (MOKernel.pciOutl host pciConfigData value) = value := by
  have same : pciSelected (MOKernel.pciOutl host pciConfigData value).latch = some d := by
    rw [MOKernel.pciOutl, writePort_latch, writePort_latch, writePort_latch, writePort_latch]
    exact selected
  rw [latched, pciInl_configData same, pciOutl_configData selected, if_pos rfl]

/-- Where no dword is selected all bits are read as set. -/
theorem selected_of_latched (own : latched host = 0x813910EC) :
    ∃ d, pciSelected host.latch = some d := by
  cases none_ : pciSelected host.latch with
  | some d => exact ⟨d, rfl⟩
  | none =>
    have byte (port : UInt16) : host.readPort port = 0xFF := by
      rw [PciHost.readPort, none_]
      cases pciDataByte port <;> rfl
    rw [latched, MOKernel.pciInl, byte, byte, byte, byte] at own
    exact absurd own (by decide)

/-- What is taken for the first base address register is the command written before. -/
theorem run_bar0 (own : latched host = 0x813910EC) (value : UInt32) :
    ((pciRead32 0 0 0 0x10).run (onBridge rest)
      (MOKernel.pciWrite32 host 0 0 0 0x04 value, t)).value = value := by
  obtain ⟨d, selected⟩ := selected_of_latched host own
  obtain ⟨bar0, -⟩ := run_pciRead32 rest (MOKernel.pciWrite32 host 0 0 0 0x04 value) t 0 0 0 0x10
  rw [bar0, pciRead32_eq, MOKernel.pciWrite32, pciOutl_configAddr]
  exact latched_write host selected value

theorem locate_absent (other : latched host ≠ 0x813910EC) :
    (locate.run (onBridge rest) (host, t)).value = none ∧
      (locate.run (onBridge rest) (host, t)).state =
        (host, afterText rest t (ascii "[NET] RTL8139 not found on PCI bus.\n")) := by
  obtain ⟨value, state⟩ := run_pciScan rest host t pciSlots
  rw [if_neg other] at value
  unfold locate pciFindDevice
  rw [PortIo.value_bind, PortIo.state_bind, value, state]
  dsimp only
  rw [PortIo.value_bind, PortIo.state_bind, PortIo.run_pure, state_kprint]
  exact ⟨rfl, rfl⟩

theorem locate_present (own : latched host = 0x813910EC) :
    (locate.run (onBridge rest) (host, t)).value = some 0x10EC := by
  obtain ⟨value, state⟩ := run_pciScan rest host t pciSlots
  have first : pciSlots.head? = some (0, 0) := rfl
  rw [if_pos own, first] at value
  unfold locate pciFindDevice
  rw [PortIo.value_bind, value, state]
  dsimp only
  -- The five pieces of text, then the command register, its write and the base address.
  rw [PortIo.value_bind, state_kprint, PortIo.value_bind, state_kprint, PortIo.value_bind,
    state_kprint, PortIo.value_bind, state_kprint, PortIo.value_bind, state_kprint]
  generalize afterText rest _ (ascii ".0\n") = t'
  obtain ⟨cmd, kept⟩ := run_pciRead32 rest host t' 0 0 0 0x04
  rw [pciRead32_eq] at cmd kept
  rw [PortIo.value_bind, cmd, kept, own, PortIo.value_bind, run_pciWrite32,
    PortIo.value_bind, run_bar0 rest host t' own, PortIo.run_pure]
  have base : ((0x813910EC ||| 0x05 : UInt32) &&& ~~~0x3).toUInt16 = 0x10EC := by decide
  rw [base]

/-- **On a bridge of mechanism 1.**  Where the latch selects a dword that is the card's
identification, `net_init` goes on with the I/O base 0x10EC, whatever the card's is, and
everywhere else it returns -1 and has only sent its message to the serial port. -/
theorem net_init_mechanism1 (rxBuf txBuf : UInt32) :
    (latched host ≠ 0x813910EC →
      ((netInit rxBuf txBuf).run (onBridge rest) (host, t)).value = none ∧
        ((netInit rxBuf txBuf).run (onBridge rest) (host, t)).state =
          (host, afterText rest t (ascii "[NET] RTL8139 not found on PCI bus.\n"))) ∧
    (latched host = 0x813910EC →
      ∃ mac, ((netInit rxBuf txBuf).run (onBridge rest) (host, t)).value =
        some (0x10EC, mac)) := by
  constructor
  · intro other
    obtain ⟨value, state⟩ := locate_absent rest host t other
    unfold netInit
    rw [PortIo.value_bind, PortIo.state_bind, value, state]
    exact ⟨rfl, rfl⟩
  · intro own
    have found := locate_present rest host t own
    rcases run_netInit (onBridge rest) (host, t) rxBuf txBuf with
      ⟨none_, -⟩ | ⟨iobase, base, value, -⟩
    · rw [found] at none_
      cases none_
    · rw [found] at base
      obtain rfl := Option.some.inj base
      exact ⟨_, value⟩

/-- After a reset of the bridge nothing is selected. -/
theorem net_init_mechanism1_reset :
    let rest : PortDevice Unit := ⟨fun s _ => (0, s), fun s _ _ => s⟩
    let id := fun (_ : PciDword) k => ([0xEC, 0x10, 0x39, 0x81] : List UInt8).getD k 0
    ((netInit 0x1000 0x4000).run (onBridge rest) (⟨0, id⟩, ())).value = none ∧
      ∃ mac, ((netInit 0x1000 0x4000).run (onBridge rest) (⟨0x80000000, id⟩, ())).value =
        some (0x10EC, mac) :=
  ⟨((net_init_mechanism1 _ _ () _ _).1 (by decide)).1,
    (net_init_mechanism1 _ _ () _ _).2 (by decide)⟩

end Mechanism1

end NetDriver

end MOKernel
