import MOKernel.NetFrame

/-!
# Reads of the receive path

Each handler reads inside the slice it is called with (`exec_readsIn`), and
`eth_process` and `ip_handle` read the headers inside the frame.  What is left is
whether the slice `ip_handle` passes on lies inside the frame.  `ip_handle` derives
it from the IHL and the total length and never compares it with the length it was
given, so it does exactly for the frames whose header fields agree with their
length (`frame_bounds_iff`).
-/

namespace MOKernel

variable {mem : Nat → UInt8} {s : Set Nat}

/-- The header fields of a frame of `len` bytes fit each other and the frame. -/
def LengthsAgree (mem : Nat → UInt8) (len : Nat) : Prop :=
  (frameIhl mem).toNat ≤ (frameTotalLen mem).toNat ∧ (frameTotalLen mem).toNat + ethHdrSize ≤ len

instance (mem : Nat → UInt8) (len : Nat) : Decidable (LengthsAgree mem len) :=
  inferInstanceAs (Decidable (_ ∧ _))

namespace NetCall

def pkt : NetCall → Nat
  | .arp pkt _ => pkt
  | .icmp _ pkt _ => pkt
  | .udp _ pkt _ => pkt

def len : NetCall → UInt16
  | .arp _ len => len
  | .icmp _ _ len => len
  | .udp _ _ len => len

/-- The cells a handler is given. -/
def slice (call : NetCall) : Set Nat := Set.Ico call.pkt (call.pkt + call.len.toNat)

end NetCall

/-- The property of the receive path: no read outside the frame, and the slice passed on
inside the frame, without a wrap of the subtraction that computes its length. -/
structure FrameBounds (mem : Nat → UInt8) (st : NetState) (len : UInt16) : Prop where
  reads : (ethReceive st len).ReadsIn mem (Set.Iio len.toNat)
  slice : ∀ call, (ethProcess st.ip 0 len).run mem = some call →
    call.pkt + call.len.toNat ≤ len.toNat
  noWrap : ∀ srcIp pkt plen,
    (ethProcess st.ip 0 len).run mem = some (.icmp srcIp pkt plen) ∨
      (ethProcess st.ip 0 len).run mem = some (.udp srcIp pkt plen) →
    pkt = ethHdrSize + (frameIhl mem).toNat ∧
      (frameIhl mem).toNat ≤ (frameTotalLen mem).toNat

/-! ## Each handler reads its slice -/

theorem arpHandle_readsIn (st : NetState) (pkt : Nat) (len : UInt16) :
    (arpHandle st pkt len).ReadsIn mem (Set.Ico pkt (pkt + len.toNat)) := by
  refine Load.readsIn_ite (fun _ => Load.readsIn_pure _) fun long => ?_
  have room : 28 ≤ len.toNat := Nat.le_of_not_lt long
  have part {a b : Nat} (le : a + b ≤ 28) :
      Set.Ico (pkt + a) (pkt + a + b) ⊆ Set.Ico pkt (pkt + len.toNat) :=
    Set.Ico_subset_Ico (by omega) (by omega)
  refine Load.readsIn_bind.mpr ⟨loadU32_readsIn (part (by omega)), ?_⟩
  refine Load.readsIn_bind.mpr ⟨loadMac_readsIn (part (by omega)), ?_⟩
  refine Load.readsIn_bind.mpr ⟨loadU16_readsIn (part (by omega)), ?_⟩
  refine Load.readsIn_ite (fun _ => ?_) fun _ => Load.readsIn_pure _
  refine Load.readsIn_bind.mpr ⟨loadU32_readsIn (part (by omega)), ?_⟩
  exact Load.readsIn_ite (fun _ => Load.readsIn_pure _) fun _ => Load.readsIn_pure _

/-- The echo reply copies at most the slice, capped at 64 bytes. -/
theorem icmpHandle_readsIn (st : NetState) (srcIp : IpAddr) (pkt : Nat) (len : UInt16) :
    (icmpHandle st srcIp pkt len).ReadsIn mem (Set.Ico pkt (pkt + len.toNat)) := by
  refine Load.readsIn_ite (fun _ => Load.readsIn_pure _) fun long => ?_
  have room : 8 ≤ len.toNat := Nat.le_of_not_lt long
  refine Load.readsIn_bind.mpr ⟨Load.readsIn_cell.mpr ⟨by omega, by omega⟩, ?_⟩
  refine Load.readsIn_ite (fun _ => ?_) fun _ => ?_
  · have capped : (if len > 64 then 64 else len : UInt16).toNat ≤ len.toNat := by
      split
      · rename_i longer
        exact Nat.le_of_lt (UInt16.lt_iff_toNat_lt.mp longer)
      · exact Nat.le_refl _
    refine Load.readsIn_bind.mpr ⟨Load.readsIn_block fun i lt => ?_, Load.readsIn_pure _⟩
    exact ⟨by omega, by omega⟩
  · refine Load.readsIn_ite (fun _ => ?_) fun _ => Load.readsIn_pure _
    refine Load.readsIn_bind.mpr ⟨loadU16_readsIn ?_, Load.readsIn_pure _⟩
    exact Set.Ico_subset_Ico (by omega) (by omega)

/-- Every handler stays inside its slice. -/
theorem exec_readsIn (st : NetState) (call : NetCall) :
    (call.exec st).ReadsIn mem call.slice := by
  cases call with
  | arp pkt len =>
    exact Load.readsIn_bind.mpr ⟨arpHandle_readsIn st pkt len, Load.readsIn_pure _⟩
  | icmp srcIp pkt len => exact icmpHandle_readsIn st srcIp pkt len
  | udp srcIp pkt len =>
    exact Load.readsIn_bind.mpr ⟨Load.readsIn_pure _, Load.readsIn_pure _⟩

/-! ## Header reads -/

theorem ipHandle_readsIn (netIp : IpAddr) (pkt : Nat) (len : UInt16) :
    (ipHandle netIp pkt len).ReadsIn mem (Set.Ico pkt (pkt + len.toNat)) := by
  refine Load.readsIn_ite (fun _ => Load.readsIn_pure _) fun long => ?_
  have room : 20 ≤ len.toNat := Nat.le_of_not_lt long
  have part {a b : Nat} (le : a + b ≤ 20) :
      Set.Ico (pkt + a) (pkt + a + b) ⊆ Set.Ico pkt (pkt + len.toNat) :=
    Set.Ico_subset_Ico (by omega) (by omega)
  refine Load.readsIn_bind.mpr ⟨Load.readsIn_cell.mpr ⟨by omega, by omega⟩, ?_⟩
  refine Load.readsIn_ite (fun _ => Load.readsIn_pure _) fun _ => ?_
  refine Load.readsIn_bind.mpr ⟨loadU32_readsIn (part (by omega)), ?_⟩
  refine Load.readsIn_ite (fun _ => Load.readsIn_pure _) fun _ => ?_
  refine Load.readsIn_bind.mpr ⟨loadU16_readsIn (part (by omega)), ?_⟩
  refine Load.readsIn_bind.mpr ⟨loadU32_readsIn (part (by omega)), ?_⟩
  refine Load.readsIn_bind.mpr ⟨Load.readsIn_cell.mpr ⟨by omega, by omega⟩, ?_⟩
  refine Load.readsIn_ite (fun _ => Load.readsIn_pure _) fun _ => ?_
  exact Load.readsIn_ite (fun _ => Load.readsIn_pure _) fun _ => Load.readsIn_pure _

theorem ethProcess_readsIn (netIp : IpAddr) (len : UInt16) :
    (ethProcess netIp 0 len).ReadsIn mem (Set.Iio len.toNat) := by
  refine Load.readsIn_ite (fun _ => Load.readsIn_pure _) fun long => ?_
  have room : 14 ≤ len.toNat := Nat.le_of_not_lt long
  refine Load.readsIn_bind.mpr ⟨loadU16_readsIn fun i inside => ?_, ?_⟩
  · have lt := inside.2
    simp only [Set.mem_Iio]
    omega
  refine Load.readsIn_ite (fun _ => Load.readsIn_pure _) fun _ => ?_
  refine Load.readsIn_ite (fun _ => ?_) fun _ => Load.readsIn_pure _
  refine (ipHandle_readsIn netIp _ _).mono fun i inside => ?_
  have lt := inside.2
  rw [toNat_sub_ethHdrSize room] at lt
  simp only [ethHdrSize, Set.mem_Iio] at lt ⊢
  omega

/-- The reads of a whole frame lie inside it once the slice passed on does. -/
theorem ethReceive_readsIn {st : NetState} {len : UInt16}
    (slice : ∀ call, (ethProcess st.ip 0 len).run mem = some call →
      call.pkt + call.len.toNat ≤ len.toNat) :
    (ethReceive st len).ReadsIn mem (Set.Iio len.toNat) := by
  refine Load.readsIn_bind.mpr ⟨ethProcess_readsIn st.ip len, ?_⟩
  cases ran : (ethProcess st.ip 0 len).run mem with
  | none => exact Load.readsIn_pure _
  | some call =>
    refine (exec_readsIn st call).mono fun i inside => ?_
    exact Nat.lt_of_lt_of_le inside.2 (slice call ran)

/-! ## The slice -/

theorem passedCall_pkt : (passedCall mem).pkt = slicePkt mem := by
  rw [passedCall]
  split <;> rfl

theorem passedCall_len : (passedCall mem).len = sliceLen mem := by
  rw [passedCall]
  split <;> rfl

theorem slice_within {len : Nat} (agree : LengthsAgree mem len) :
    slicePkt mem + (sliceLen mem).toNat ≤ len := by
  obtain ⟨le, fits⟩ := agree
  rw [toNat_sliceLen le, slicePkt]
  simp only [ethHdrSize] at fits
  omega

/-- The slice of every call lies inside the frame when the header fields agree. -/
theorem call_within {netIp : IpAddr} {len : UInt16}
    (agree : PassedOn mem netIp len.toNat → LengthsAgree mem len.toNat) (call : NetCall)
    (ran : (ethProcess netIp 0 len).run mem = some call) :
    call.pkt + call.len.toNat ≤ len.toNat := by
  rcases ethProcess_eq_some ran with ⟨long, rfl⟩ | ⟨passed, rfl⟩
  · simp only [NetCall.pkt, NetCall.len, toNat_sub_ethHdrSize long]
    omega
  · rw [passedCall_pkt, passedCall_len]
    exact slice_within (agree passed)

/-- **Received-frame bounds.**  The receive path stays inside the frame exactly when the
frame is not passed on or its header fields agree with its length. -/
theorem frame_bounds_iff (mem : Nat → UInt8) (st : NetState) (len : UInt16) :
    FrameBounds mem st len ↔ (PassedOn mem st.ip len.toNat → LengthsAgree mem len.toNat) := by
  constructor
  · intro bounds passed
    have ran := passed.run_ethProcess
    have within := bounds.slice _ ran
    rw [passedCall_pkt, passedCall_len] at within
    have le : (frameIhl mem).toNat ≤ (frameTotalLen mem).toNat := by
      refine (bounds.noWrap (frameSrc mem) (slicePkt mem) (sliceLen mem) ?_).2
      rw [ran, passedCall]
      rcases passed.proto with icmp | udp
      · exact .inl (by rw [if_pos icmp])
      · exact .inr (by rw [if_neg (by rw [udp]; decide)])
    rw [toNat_sliceLen le, slicePkt] at within
    exact ⟨le, by simp only [ethHdrSize]; omega⟩
  · intro agree
    have slice := call_within agree
    refine ⟨ethReceive_readsIn slice, slice, fun srcIp pkt plen ran => ?_⟩
    obtain ⟨call, ran, call_eq⟩ : ∃ call, (ethProcess st.ip 0 len).run mem = some call ∧
        (call = .icmp srcIp pkt plen ∨ call = .udp srcIp pkt plen) := by
      rcases ran with ran | ran
      · exact ⟨_, ran, .inl rfl⟩
      · exact ⟨_, ran, .inr rfl⟩
    have pkt_eq : pkt = call.pkt := by rcases call_eq with rfl | rfl <;> rfl
    rcases ethProcess_eq_some ran with ⟨_, rfl⟩ | ⟨passed, rfl⟩
    · simp at call_eq
    · exact ⟨pkt_eq.trans passedCall_pkt, (agree passed).1⟩

/-- An echo request of 42 bytes to 10.0.2.15 whose header says 84 bytes. -/
def longEchoRequest : List UInt8 :=
  [0x52, 0x54, 0x00, 0x12, 0x34, 0x56, 0x52, 0x55, 0x0A, 0x00, 0x02, 0x02, 0x08, 0x00,
    0x45, 0x00, 0x00, 0x54, 0x00, 0x01, 0x00, 0x00, 0x40, 0x01, 0x62, 0x94,
    0x0A, 0x00, 0x02, 0x02, 0x0A, 0x00, 0x02, 0x0F,
    0x08, 0x00, 0xAA, 0xAF, 0x4D, 0x4F, 0x00, 0x01]

/-- The reply to that frame is copied from 64 bytes although 8 were received. -/
theorem frame_bounds_fail :
    ¬ FrameBounds (overlay (netInit broadcastMac 0xC000).pktBuf longEchoRequest)
      (netInit broadcastMac 0xC000) 42 := by
  intro bounds
  have outside : 97 ∈ (ethReceive (netInit broadcastMac 0xC000) 42).reads
      (overlay (netInit broadcastMac 0xC000).pktBuf longEchoRequest) := by decide +kernel
  have inside : 97 < 42 := bounds.reads 97 outside
  omega

end MOKernel
