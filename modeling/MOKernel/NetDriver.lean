import MOKernel.NetShow
import MOKernel.NumberPrint
import MOKernel.Pci
import MOKernel.PortIo

/-!
# Bringing up the network card

`net_init` and what it calls, as a program on ports; `kprint` writes each character to the
serial port as well.  Whatever the ports answer, its accesses before it knows the I/O base
are to the serial port and the configuration ports only, and if it finds a card it makes one
sequence of writes, which the I/O base and the MAC address it has read determine: the
receiver is enabled after the ring, the filter and the four transmit buffers are set
(`net_init_writes`).
-/

namespace MOKernel

/-- A driver's program; it reports the characters that go to the screen. -/
abbrev NetIo := PortIo UInt8

/-! ## Registers -/

def rtlIdr0 : UInt8 := 0x00
def rtlTsad0 : UInt8 := 0x20
def rtlRbstart : UInt8 := 0x30
def rtlCr : UInt8 := 0x37
def rtlImr : UInt8 := 0x3C
def rtlTcr : UInt8 := 0x40
def rtlRcr : UInt8 := 0x44
def rtlConfig1 : UInt8 := 0x52
def rtlCrRst : UInt8 := 0x10
def rtlCrRe : UInt8 := 0x08
def rtlCrTe : UInt8 := 0x04

/-- The receive configuration: `RTL_RCR_AB` to `RTL_RCR_RXFTH_NONE`. -/
def rtlRcrInit : UInt32 :=
  ((1 : UInt32) <<< 3) ||| ((1 : UInt32) <<< 1) ||| ((1 : UInt32) <<< 0) |||
    ((1 : UInt32) <<< 2) ||| ((1 : UInt32) <<< 7) ||| ((7 : UInt32) <<< 8) |||
    ((2 : UInt32) <<< 11) ||| ((7 : UInt32) <<< 13)

/-- The transmit configuration. -/
def rtlTcrInit : UInt32 := 0x03000700

/-! ## The program -/

namespace NetDriver

def serialPort : UInt16 := 0x3F8

/-- `kprint`, up to the first NUL. -/
def kprint : List UInt8 → NetIo Unit
  | [] => pure ()
  | chr :: str =>
    if chr = 0 then pure ()
    else do
      .writePort serialPort chr
      .report chr
      kprint str

def pciInl (port : UInt16) : NetIo UInt32 := do
  let b0 ← .readPort port
  let b1 ← .readPort (port + 1)
  let b2 ← .readPort (port + 2)
  let b3 ← .readPort (port + 3)
  pure (ofLe32 b0 b1 b2 b3)

def pciOutl (port : UInt16) (val : UInt32) : NetIo Unit := do
  .writePort port val.toUInt8
  .writePort (port + 1) (val >>> 8).toUInt8
  .writePort (port + 2) (val >>> 16).toUInt8
  .writePort (port + 3) (val >>> 24).toUInt8

def pciRead32 (bus slot func offset : UInt8) : NetIo UInt32 := do
  pciOutl pciConfigAddr (pciAddr bus slot func offset)
  pciInl pciConfigData

def pciWrite32 (bus slot func offset : UInt8) (value : UInt32) : NetIo Unit := do
  pciOutl pciConfigAddr (pciAddr bus slot func offset)
  pciOutl pciConfigData value

/-- The buses and slots of the two loops, in order. -/
def pciSlots : List (UInt8 × UInt8) :=
  (List.range 8).flatMap fun bus =>
    (List.range 32).map fun slot => (UInt8.ofNat bus, UInt8.ofNat slot)

/-- The body of the loops of `pci_find_device` over the slots that are left. -/
def pciScan (vendor device : UInt16) : List (UInt8 × UInt8) → NetIo (Option (UInt8 × UInt8))
  | [] => pure none
  | (bus, slot) :: slots => do
    let id ← pciRead32 bus slot 0 0
    if (id &&& 0xFFFF).toUInt16 = vendor ∧ ((id >>> 16) &&& 0xFFFF).toUInt16 = device then
      pure (some (bus, slot))
    else pciScan vendor device slots

def pciFindDevice (vendor device : UInt16) : NetIo (Option (UInt8 × UInt8)) :=
  pciScan vendor device pciSlots

def rtlOutb (iobase : UInt16) (reg val : UInt8) : NetIo Unit :=
  .writePort (iobase + reg.toUInt16) val

def rtlInb (iobase : UInt16) (reg : UInt8) : NetIo UInt8 := .readPort (iobase + reg.toUInt16)

def rtlOutw (iobase : UInt16) (reg : UInt8) (val : UInt16) : NetIo Unit := do
  .writePort (iobase + reg.toUInt16) (val &&& 0xFF).toUInt8
  .writePort (iobase + reg.toUInt16 + 1) ((val >>> 8) &&& 0xFF).toUInt8

def rtlOutl (iobase : UInt16) (reg : UInt8) (val : UInt32) : NetIo Unit := do
  .writePort (iobase + reg.toUInt16) val.toUInt8
  .writePort (iobase + reg.toUInt16 + 1) (val >>> 8).toUInt8
  .writePort (iobase + reg.toUInt16 + 2) (val >>> 16).toUInt8
  .writePort (iobase + reg.toUInt16 + 3) (val >>> 24).toUInt8

/-- `rtl_wait_reset` with `timeout` polls left. -/
def rtlWaitReset (iobase : UInt16) : Nat → NetIo Unit
  | 0 => do
    let _ ← rtlInb iobase rtlCr
    pure ()
  | timeout + 1 => do
    let cr ← rtlInb iobase rtlCr
    if cr &&& rtlCrRst ≠ 0 then rtlWaitReset iobase timeout else pure ()

/-- The MAC address, byte by byte. -/
def readMac (iobase : UInt16) : NetIo MacAddr := do
  let b0 ← rtlInb iobase rtlIdr0
  let b1 ← rtlInb iobase (rtlIdr0 + 1)
  let b2 ← rtlInb iobase (rtlIdr0 + 2)
  let b3 ← rtlInb iobase (rtlIdr0 + 3)
  let b4 ← rtlInb iobase (rtlIdr0 + 4)
  let b5 ← rtlInb iobase (rtlIdr0 + 5)
  pure (Vector.ofFn fun i => [b0, b1, b2, b3, b4, b5].getD i.val 0)

/-- `net_init` up to the I/O base. -/
def locate : NetIo (Option UInt16) := do
  match ← pciFindDevice 0x10EC 0x8139 with
  | none =>
    kprint (ascii "[NET] RTL8139 not found on PCI bus.\n")
    pure none
  | some (bus, slot) =>
    kprint (ascii "[NET] RTL8139 found at PCI ")
    kprint (kprintDec bus.toUInt32)
    kprint (ascii ":")
    kprint (kprintDec slot.toUInt32)
    kprint (ascii ".0\n")
    let cmd ← pciRead32 bus slot 0 0x04
    pciWrite32 bus slot 0 0x04 (cmd ||| 0x05)
    let bar0 ← pciRead32 bus slot 0 0x10
    pure (some (bar0 &&& ~~~0x3).toUInt16)

/-- What `kprint_hex` prints, whatever its arrays hold (`number_printing`). -/
def hexText (val : UInt32) : List UInt8 :=
  (kprintHex (Vector.replicate 16 0) (Vector.replicate 16 0) val).getD []

/-- `net_init` from the I/O base to the reset of the card. -/
def resetCard (iobase : UInt16) : NetIo Unit := do
  kprint (ascii "[NET] I/O base: ")
  kprint (hexText iobase.toUInt32)
  kprint (ascii "\n")
  rtlOutb iobase rtlConfig1 0x00
  rtlOutb iobase rtlCr rtlCrRst
  rtlWaitReset iobase 1000000

/-- The rest of `net_init`, once it has read the MAC address. -/
def enableCard (rxBuf txBuf : UInt32) (iobase : UInt16) (mac : MacAddr) : NetIo Unit := do
  kprint (ascii "[NET] MAC: ")
  kprint (kprintMac mac)
  kprint (ascii "\n")
  rtlOutl iobase rtlRbstart rxBuf
  rtlOutl iobase rtlRcr rtlRcrInit
  rtlOutl iobase rtlTcr rtlTcrInit
  rtlOutl iobase rtlTsad0 txBuf
  rtlOutl iobase (rtlTsad0 + 4) (txBuf + 1536)
  rtlOutl iobase (rtlTsad0 + 8) (txBuf + 2 * 1536)
  rtlOutl iobase (rtlTsad0 + 12) (txBuf + 3 * 1536)
  rtlOutb iobase rtlCr (rtlCrRe ||| rtlCrTe)
  rtlOutw iobase rtlImr (0x0001 ||| 0x0004)
  kprint (ascii "[NET] RTL8139 initialized. IP: ")
  kprint (kprintIp defaultIp)
  kprint (ascii "\n")

/-- `net_init` from the I/O base on; `rxBuf` and `txBuf` are the addresses of the arrays. -/
def bringUp (rxBuf txBuf : UInt32) (iobase : UInt16) : NetIo MacAddr := do
  resetCard iobase
  let mac ← readMac iobase
  enableCard rxBuf txBuf iobase mac
  pure mac

/-- `net_init`: the I/O base and the MAC address it leaves, or none for -1. -/
def netInit (rxBuf txBuf : UInt32) : NetIo (Option (UInt16 × MacAddr)) := do
  match ← locate with
  | none => pure none
  | some iobase =>
    let mac ← bringUp rxBuf txBuf iobase
    pure (some (iobase, mac))

/-! ## Whatever the ports answer -/

/-- The serial port and the configuration ports. -/
def bootPorts : Set UInt16 := {port | port = serialPort ∨ 0xCF8 ≤ port ∧ port ≤ 0xCFF}

/-- The copy of the text for the serial port. -/
def serial (strs : List (List UInt8)) : List (UInt16 × UInt8) :=
  (strs.flatMap cstr).map fun chr => (serialPort, chr)

/-- The bytes of a register that takes several. -/
def regWrites (iobase : UInt16) (reg : UInt8) (val : UInt32) : List (UInt16 × UInt8) :=
  [(iobase + reg.toUInt16, val.toUInt8), (iobase + reg.toUInt16 + 1, (val >>> 8).toUInt8),
    (iobase + reg.toUInt16 + 2, (val >>> 16).toUInt8),
    (iobase + reg.toUInt16 + 3, (val >>> 24).toUInt8)]

/-- Power and reset. -/
def resetWrites (iobase : UInt16) : List (UInt16 × UInt8) :=
  [(iobase + 0x52, 0x00), (iobase + 0x37, 0x10)]

/-- Ring, filter, transmitter, transmit buffers, and only then the receiver and transmitter
are enabled and the interrupts unmasked. -/
def enableWrites (rxBuf txBuf : UInt32) (iobase : UInt16) : List (UInt16 × UInt8) :=
  regWrites iobase rtlRbstart rxBuf ++
    regWrites iobase rtlRcr rtlRcrInit ++ regWrites iobase rtlTcr rtlTcrInit ++
    regWrites iobase rtlTsad0 txBuf ++ regWrites iobase (rtlTsad0 + 4) (txBuf + 1536) ++
    regWrites iobase (rtlTsad0 + 8) (txBuf + 2 * 1536) ++
    regWrites iobase (rtlTsad0 + 12) (txBuf + 3 * 1536) ++
    [(iobase + 0x37, 0x0C), (iobase + 0x3C, 0x05), (iobase + 0x3C + 1, 0x00)]

/-- The writes to the card, with the text in between. -/
def cardSetup (rxBuf txBuf : UInt32) (iobase : UInt16) (mac : MacAddr) : List (UInt16 × UInt8) :=
  serial [ascii "[NET] I/O base: ", hexText iobase.toUInt32, ascii "\n"] ++ resetWrites iobase ++
    serial [ascii "[NET] MAC: ", kprintMac mac, ascii "\n"] ++ enableWrites rxBuf txBuf iobase ++
    serial [ascii "[NET] RTL8139 initialized. IP: ", kprintIp defaultIp, ascii "\n"]

section Config

variable {port : UInt16}

theorem config_mem (low : 0xCF8 ≤ port) (high : port ≤ 0xCFC) {k : UInt16} (le : k ≤ 3) :
    port + k ∈ bootPorts := by
  have first : 0xCF8 ≤ port.toNat := UInt16.le_iff_toNat_le.mp low
  have last : port.toNat ≤ 0xCFC := UInt16.le_iff_toNat_le.mp high
  have few : k.toNat ≤ 3 := UInt16.le_iff_toNat_le.mp le
  have value : (port + k).toNat = port.toNat + k.toNat := by
    rw [UInt16.toNat_add]
    omega
  refine .inr ⟨UInt16.le_iff_toNat_le.mpr ?_, UInt16.le_iff_toNat_le.mpr ?_⟩
  · rw [value]
    exact le_add_right first
  · rw [value]
    exact Nat.add_le_add last few

/-- Four ports from the address or the data register on. -/
theorem accesses_pciInl (low : 0xCF8 ≤ port) (high : port ≤ 0xCFC) :
    (pciInl port).Accesses bootPorts := by
  have first : port ∈ bootPorts := UInt16.add_zero port ▸ config_mem low high (by decide)
  refine (PortIo.accesses_readPort first).bind fun _ => ?_
  refine (PortIo.accesses_readPort (config_mem low high (by decide))).bind fun _ => ?_
  refine (PortIo.accesses_readPort (config_mem low high (by decide))).bind fun _ => ?_
  refine (PortIo.accesses_readPort (config_mem low high (by decide))).bind fun _ => ?_
  exact PortIo.accesses_pure _

theorem accesses_pciOutl (low : 0xCF8 ≤ port) (high : port ≤ 0xCFC) (val : UInt32) :
    (pciOutl port val).Accesses bootPorts := by
  have first : port ∈ bootPorts := UInt16.add_zero port ▸ config_mem low high (by decide)
  refine (PortIo.accesses_writePort first _).bind fun _ => ?_
  refine (PortIo.accesses_writePort (config_mem low high (by decide)) _).bind fun _ => ?_
  refine (PortIo.accesses_writePort (config_mem low high (by decide)) _).bind fun _ => ?_
  exact PortIo.accesses_writePort (config_mem low high (by decide)) _

theorem accesses_pciRead32 (bus slot func offset : UInt8) :
    (pciRead32 bus slot func offset).Accesses bootPorts :=
  (accesses_pciOutl (by decide) (by decide) _).bind fun _ => accesses_pciInl (by decide) (by decide)

theorem accesses_pciWrite32 (bus slot func offset : UInt8) (value : UInt32) :
    (pciWrite32 bus slot func offset value).Accesses bootPorts :=
  (accesses_pciOutl (by decide) (by decide) _).bind fun _ =>
    accesses_pciOutl (by decide) (by decide) value

theorem accesses_pciScan (vendor device : UInt16) (slots : List (UInt8 × UInt8)) :
    (pciScan vendor device slots).Accesses bootPorts := by
  induction slots with
  | nil => exact PortIo.accesses_pure none
  | cons entry slots ih =>
    refine (accesses_pciRead32 _ _ _ _).bind fun id => ?_
    split
    · exact PortIo.accesses_pure _
    · exact ih

theorem accesses_kprint (str : List UInt8) : (kprint str).Accesses bootPorts := by
  induction str with
  | nil => exact PortIo.accesses_pure ()
  | cons chr str ih =>
    unfold kprint
    split
    · exact PortIo.accesses_pure ()
    · refine (PortIo.accesses_writePort (.inl rfl) chr).bind fun _ => ?_
      exact (PortIo.accesses_report chr).bind fun _ => ih

theorem accesses_locate : locate.Accesses bootPorts := by
  refine (accesses_pciScan _ _ pciSlots).bind fun found => ?_
  cases found with
  | none => exact (accesses_kprint _).bind fun _ => PortIo.accesses_pure none
  | some entry =>
    refine (accesses_kprint _).bind fun _ => ?_
    refine (accesses_kprint _).bind fun _ => ?_
    refine (accesses_kprint _).bind fun _ => ?_
    refine (accesses_kprint _).bind fun _ => ?_
    refine (accesses_kprint _).bind fun _ => ?_
    refine (accesses_pciRead32 _ _ _ _).bind fun cmd => ?_
    refine (accesses_pciWrite32 _ _ _ _ _).bind fun _ => ?_
    exact (accesses_pciRead32 _ _ _ _).bind fun bar0 => PortIo.accesses_pure _

end Config

theorem writes_rtlWaitReset (iobase : UInt16) (timeout : Nat) :
    (rtlWaitReset iobase timeout).Writes [] := by
  induction timeout with
  | zero => exact (PortIo.writes_readPort _).bind fun _ => PortIo.writes_pure ()
  | succ timeout ih =>
    refine (PortIo.writes_readPort _).bind fun cr => ?_
    split
    · exact ih
    · exact PortIo.writes_pure ()

theorem writes_readMac (iobase : UInt16) : (readMac iobase).Writes [] := fun _ _ _ => rfl

theorem writes_rtlOutw (iobase : UInt16) (reg : UInt8) (val : UInt16) :
    (rtlOutw iobase reg val).Writes [(iobase + reg.toUInt16, (val &&& 0xFF).toUInt8),
      (iobase + reg.toUInt16 + 1, ((val >>> 8) &&& 0xFF).toUInt8)] := fun _ _ _ => rfl

theorem writes_rtlOutl (iobase : UInt16) (reg : UInt8) (val : UInt32) :
    (rtlOutl iobase reg val).Writes (regWrites iobase reg val) := fun _ _ _ => rfl

theorem writes_kprint (str : List UInt8) : (kprint str).Writes (serial [str]) := by
  induction str with
  | nil => exact PortIo.writes_pure ()
  | cons chr str ih =>
    unfold kprint
    by_cases stop : chr = 0
    · have none_ : serial [chr :: str] = [] := by simp [serial, cstr, stop]
      rw [if_pos stop, none_]
      exact PortIo.writes_pure ()
    · have more : serial [chr :: str] = (serialPort, chr) :: serial [str] := by
        simp [serial, cstr, stop]
      rw [if_neg stop, more]
      refine (PortIo.writes_writePort serialPort chr).bind fun _ => ?_
      exact (PortIo.writes_report chr).bind fun _ => ih

theorem serial_cons (str : List UInt8) (strs : List (List UInt8)) :
    serial (str :: strs) = serial [str] ++ serial strs := by
  simp [serial]

theorem writes_resetCard (iobase : UInt16) : (resetCard iobase).Writes
    (serial [ascii "[NET] I/O base: ", hexText iobase.toUInt32, ascii "\n"] ++
      resetWrites iobase) := by
  rw [serial_cons, serial_cons _ [ascii "\n"], List.append_assoc, List.append_assoc]
  refine (writes_kprint _).bind fun _ => ?_
  refine (writes_kprint _).bind fun _ => ?_
  refine (writes_kprint _).bind fun _ => ?_
  refine (PortIo.writes_writePort _ _).bind fun _ => ?_
  exact (PortIo.writes_writePort _ _).bind fun _ => writes_rtlWaitReset iobase _

theorem writes_enableCard (rxBuf txBuf : UInt32) (iobase : UInt16) (mac : MacAddr) :
    (enableCard rxBuf txBuf iobase mac).Writes
      (serial [ascii "[NET] MAC: ", kprintMac mac, ascii "\n"] ++
        (enableWrites rxBuf txBuf iobase ++
          serial [ascii "[NET] RTL8139 initialized. IP: ", kprintIp defaultIp, ascii "\n"])) := by
  rw [serial_cons, serial_cons _ [ascii "\n"],
    serial_cons (ascii "[NET] RTL8139 initialized. IP: "), serial_cons _ [ascii "\n"],
    enableWrites]
  simp only [List.append_assoc]
  refine (writes_kprint _).bind fun _ => ?_
  refine (writes_kprint _).bind fun _ => ?_
  refine (writes_kprint _).bind fun _ => ?_
  refine (writes_rtlOutl iobase rtlRbstart rxBuf).bind fun _ => ?_
  refine (writes_rtlOutl iobase rtlRcr rtlRcrInit).bind fun _ => ?_
  refine (writes_rtlOutl iobase rtlTcr rtlTcrInit).bind fun _ => ?_
  refine (writes_rtlOutl iobase rtlTsad0 txBuf).bind fun _ => ?_
  refine (writes_rtlOutl iobase (rtlTsad0 + 4) _).bind fun _ => ?_
  refine (writes_rtlOutl iobase (rtlTsad0 + 8) _).bind fun _ => ?_
  refine (writes_rtlOutl iobase (rtlTsad0 + 12) _).bind fun _ => ?_
  refine (PortIo.writes_writePort _ _).bind fun _ => ?_
  refine (writes_rtlOutw iobase rtlImr _).bind fun _ => ?_
  refine (writes_kprint _).bind fun _ => ?_
  exact (writes_kprint _).bind fun _ => writes_kprint _

theorem writes_bringUp (rxBuf txBuf : UInt32) (iobase : UInt16) :
    (bringUp rxBuf txBuf iobase).WritesFor (cardSetup rxBuf txBuf iobase) := by
  intro σ dev s
  have setup := (writes_resetCard iobase).bindFor fun _ =>
    (writes_readMac iobase).bindReturning
      (fun mac => (writes_enableCard rxBuf txBuf iobase mac).bind fun _ => PortIo.writes_pure mac)
      (fun mac σ dev s => by rw [PortIo.value_bind, PortIo.run_pure])
  refine (setup σ dev s).trans ?_
  simp only [cardSetup, List.nil_append, List.append_nil, List.append_assoc]
  rfl

/-- `net_init` once it has looked for the card. -/
theorem run_netInit {σ : Type} (dev : PortDevice σ) (s : σ) (rxBuf txBuf : UInt32) :
    (locate.run dev s).value = none ∧ ((netInit rxBuf txBuf).run dev s).value = none ∧
        ((netInit rxBuf txBuf).run dev s).events = (locate.run dev s).events ∨
      ∃ iobase, (locate.run dev s).value = some iobase ∧
        ((netInit rxBuf txBuf).run dev s).value =
          some (iobase, ((bringUp rxBuf txBuf iobase).run dev (locate.run dev s).state).value) ∧
        ((netInit rxBuf txBuf).run dev s).events = (locate.run dev s).events ++
          ((bringUp rxBuf txBuf iobase).run dev (locate.run dev s).state).events := by
  unfold netInit
  rw [PortIo.run_bind]
  cases found : (locate.run dev s).value with
  | none => exact .inl ⟨rfl, rfl, List.append_nil _⟩
  | some iobase =>
    refine .inr ⟨iobase, rfl, ?_, ?_⟩
    · rw [PortIo.run_bind]
      rfl
    · rw [PortIo.run_bind, PortIo.run_pure, List.append_nil]

/-- **One sequence of writes.**  Whatever the ports answer: up to the I/O base `net_init` touches
the serial port and the configuration ports only; if it finds no card it touches no others;
and if it does, its writes after that are those of `cardSetup`, in this order, for the base
and the MAC address it has read. -/
theorem net_init_writes {σ : Type} (dev : PortDevice σ) (s : σ) (rxBuf txBuf : UInt32) :
    ∃ before after, ((netInit rxBuf txBuf).run dev s).events = before ++ after ∧
      (∀ event ∈ before, ∀ port, event.port = some port →
        port = 0x3F8 ∨ 0xCF8 ≤ port ∧ port ≤ 0xCFF) ∧
      (((netInit rxBuf txBuf).run dev s).value = none → after = []) ∧
      ∀ iobase mac, ((netInit rxBuf txBuf).run dev s).value = some (iobase, mac) →
        after.filterMap PortEvent.written = cardSetup rxBuf txBuf iobase mac := by
  rcases run_netInit dev s rxBuf txBuf with ⟨-, value, events⟩ | ⟨iobase, -, value, events⟩
  · refine ⟨_, [], events.trans (List.append_nil _).symm, accesses_locate σ dev s, fun _ => rfl,
      fun iobase mac some_ => ?_⟩
    rw [value] at some_
    cases some_
  · refine ⟨_, _, events, accesses_locate σ dev s, fun none_ => ?_, fun iobase' mac some_ => ?_⟩
    · rw [value] at none_
      cases none_
    · rw [value] at some_
      obtain ⟨rfl, rfl⟩ := Prod.mk.inj (Option.some.inj some_)
      exact writes_bringUp rxBuf txBuf iobase σ dev _

end NetDriver

end MOKernel
