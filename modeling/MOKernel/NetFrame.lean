import MOKernel.NetStack

/-!
# The header fields of a received frame

The fields the receive path decides on, as functions of the memory that starts at
the frame, and `eth_process` written over them (`run_ethProcess`).  The header
reads of `eth_process` and `ip_handle` stay inside the frame, and every handler
reads inside the slice it is given.
-/

namespace MOKernel

variable (mem : Nat → UInt8)

def frameEtype : UInt16 := ntohs (ofLe16 (mem 12) (mem 13))

/-- The IP header length in bytes, 0 to 60. -/
def frameIhl : UInt8 := (mem 14 &&& 0x0F) * 4

def frameTotalLen : UInt16 := ntohs (ofLe16 (mem 16) (mem 17))

def frameProto : UInt8 := mem 23

def frameSrc : IpAddr := ntohl (ofLe32 (mem 26) (mem 27) (mem 28) (mem 29))

def frameDst : IpAddr := ntohl (ofLe32 (mem 30) (mem 31) (mem 32) (mem 33))

/-- An IPv4 frame of `len` bytes addressed to `netIp`. -/
def IpFrameFor (netIp : IpAddr) (len : Nat) : Prop :=
  34 ≤ len ∧ frameEtype mem = ethTypeIp ∧ frameDst mem = netIp

instance (netIp : IpAddr) (len : Nat) : Decidable (IpFrameFor mem netIp len) :=
  inferInstanceAs (Decidable (_ ∧ _ ∧ _))

/-- The offset and the length of the slice `ip_handle` passes on. -/
def slicePkt : Nat := 14 + (frameIhl mem).toNat

def sliceLen : UInt16 := frameTotalLen mem - (frameIhl mem).toUInt16

variable {mem}

/-- Without a wrap the slice is what the total length leaves after the header. -/
theorem toNat_sliceLen (le : (frameIhl mem).toNat ≤ (frameTotalLen mem).toNat) :
    (sliceLen mem).toNat = (frameTotalLen mem).toNat - (frameIhl mem).toNat := by
  have small : (frameIhl mem).toUInt16 ≤ frameTotalLen mem := by
    rw [UInt16.le_iff_toNat_le, UInt8.toNat_toUInt16]
    exact le
  rw [sliceLen, UInt16.toNat_sub_of_le _ _ small, UInt8.toNat_toUInt16]

theorem toNat_sub_ethHdrSize {len : UInt16} (le : 14 ≤ len.toNat) :
    (len - 14).toNat = len.toNat - 14 := by
  have small : (14 : UInt16) ≤ len := by
    rw [UInt16.le_iff_toNat_le]
    exact le
  rw [UInt16.toNat_sub_of_le _ _ small]
  rfl

/-! ## What `eth_process` dispatches to -/

/-- `ip_handle` over the header fields of the frame. -/
theorem run_ipHandle (netIp : IpAddr) (len : UInt16) :
    (ipHandle netIp 14 len).run mem =
      if len.toNat < ipHdrSize then none
      else if frameIhl mem < 20 then none
      else if frameDst mem ≠ netIp then none
      else if frameProto mem = ipProtoIcmp then
        some (.icmp (frameSrc mem) (slicePkt mem) (sliceLen mem))
      else if frameProto mem = ipProtoUdp then
        some (.udp (frameSrc mem) (slicePkt mem) (sliceLen mem))
      else none := by
  rw [ipHandle, Load.run_ite]
  refine ite_congr rfl (fun _ => rfl) fun _ => ?_
  rw [Load.run_bind, Load.run_ite]
  refine ite_congr rfl (fun _ => rfl) fun _ => ?_
  rw [Load.run_bind, Load.run_ite]
  refine ite_congr rfl (fun _ => rfl) fun _ => ?_
  rw [Load.run_bind, Load.run_bind, Load.run_bind, Load.run_ite]
  refine ite_congr rfl (fun _ => rfl) fun _ => ?_
  rw [Load.run_ite]
  rfl

/-- `eth_process` over the header fields of the frame. -/
theorem run_ethProcess (netIp : IpAddr) (len : UInt16) :
    (ethProcess netIp 0 len).run mem =
      if len.toNat < ethHdrSize then none
      else if frameEtype mem = ethTypeArp then some (.arp 14 (len - 14))
      else if frameEtype mem = ethTypeIp then (ipHandle netIp 14 (len - 14)).run mem
      else none := by
  rw [ethProcess, Load.run_ite]
  refine ite_congr rfl (fun _ => rfl) fun _ => ?_
  rw [Load.run_bind, Load.run_ite]
  refine ite_congr rfl (fun _ => rfl) fun _ => ?_
  rw [Load.run_ite]
  rfl

/-- A frame whose payload `ip_handle` passes on. -/
structure PassedOn (mem : Nat → UInt8) (netIp : IpAddr) (len : Nat) : Prop where
  frame : IpFrameFor mem netIp len
  header : 20 ≤ (frameIhl mem).toNat
  proto : frameProto mem = ipProtoIcmp ∨ frameProto mem = ipProtoUdp

/-- The call `ip_handle` ends in. -/
def passedCall (mem : Nat → UInt8) : NetCall :=
  if frameProto mem = ipProtoIcmp then .icmp (frameSrc mem) (slicePkt mem) (sliceLen mem)
  else .udp (frameSrc mem) (slicePkt mem) (sliceLen mem)

theorem ipHandle_eq_some {netIp : IpAddr} {len : UInt16} {call : NetCall} (le : 14 ≤ len.toNat)
    (etype : frameEtype mem = ethTypeIp)
    (ran : (ipHandle netIp 14 (len - 14)).run mem = some call) :
    PassedOn mem netIp len.toNat ∧ call = passedCall mem := by
  rw [run_ipHandle, toNat_sub_ethHdrSize le] at ran
  split at ran
  · contradiction
  rename_i long
  split at ran
  · contradiction
  rename_i header
  split at ran
  · contradiction
  rename_i dst
  have long' : 34 ≤ len.toNat := by simp only [ipHdrSize] at long; omega
  have header' : 20 ≤ (frameIhl mem).toNat := by
    rw [UInt8.lt_iff_toNat_lt] at header
    exact Nat.le_of_not_lt header
  have frame : IpFrameFor mem netIp len.toNat := ⟨long', etype, not_not.mp dst⟩
  split at ran
  · rename_i icmp
    injection ran with call_eq
    exact ⟨⟨frame, header', .inl icmp⟩, by rw [passedCall, if_pos icmp, call_eq]⟩
  rename_i not_icmp
  split at ran
  · rename_i udp
    injection ran with call_eq
    exact ⟨⟨frame, header', .inr udp⟩, by rw [passedCall, if_neg not_icmp, call_eq]⟩
  · contradiction

/-- What a call of `eth_process` can end in. -/
theorem ethProcess_eq_some {netIp : IpAddr} {len : UInt16} {call : NetCall}
    (ran : (ethProcess netIp 0 len).run mem = some call) :
    (14 ≤ len.toNat ∧ call = .arp 14 (len - 14)) ∨
      (PassedOn mem netIp len.toNat ∧ call = passedCall mem) := by
  rw [run_ethProcess] at ran
  split at ran
  · contradiction
  rename_i long
  split at ran
  · injection ran with call_eq
    exact .inl ⟨Nat.le_of_not_lt long, call_eq.symm⟩
  split at ran
  · rename_i etype
    exact .inr (ipHandle_eq_some (Nat.le_of_not_lt long) etype ran)
  · contradiction

/-- A frame that is passed on reaches its handler. -/
theorem PassedOn.run_ethProcess {netIp : IpAddr} {len : UInt16}
    (passed : PassedOn mem netIp len.toNat) :
    (ethProcess netIp 0 len).run mem = some (passedCall mem) := by
  obtain ⟨⟨long, etype, dst⟩, header, proto⟩ := passed
  have long' : ¬ len.toNat < ethHdrSize := by simp only [ethHdrSize]; omega
  have header' : ¬ frameIhl mem < 20 := by
    rw [UInt8.lt_iff_toNat_lt]
    exact Nat.not_lt.mpr header
  have room : ¬ (len - 14).toNat < ipHdrSize := by
    rw [toNat_sub_ethHdrSize (by omega)]
    simp only [ipHdrSize]
    omega
  rw [MOKernel.run_ethProcess, if_neg long', if_neg (by rw [etype]; decide), if_pos etype,
    run_ipHandle, if_neg room, if_neg header', if_neg (not_not.mpr dst), passedCall]
  rcases proto with icmp | udp
  · rw [if_pos icmp, if_pos icmp]
  · have not_icmp : frameProto mem ≠ ipProtoIcmp := by rw [udp]; decide
    rw [if_neg not_icmp, if_neg not_icmp, if_pos udp]

end MOKernel
