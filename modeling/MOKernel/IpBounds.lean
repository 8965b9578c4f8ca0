import MOKernel.IpFrame

/-!
# The frame buffer of `ip_send`

Three limits meet in `ip_send`: its own `frame` array of 1500 bytes, the 16 bits of
`total_len` and `frame_size`, and the 1536 bytes `net_send` checks for after the copy.
The first is the smallest and nothing checks it: `ip_send` keeps its promise for the
payloads that fit behind the 34 bytes of headers, and for no other (`ip_send_safe_iff`).
-/

namespace MOKernel

/-- `sizeof(frame)` in `ip_send`. -/
abbrev ipFrameSize : Nat := 1500

/-- The stores of `ip_send` to its `frame` array, as offsets with the bytes stored there;
the fields of a header are one store. -/
def ipFrameStores (st : NetState) (dstMac : MacAddr) (args : IpSendArgs) :
    List (Nat × List UInt8) :=
  [(0, (ethBuild st dstMac ethTypeIp).bytes),
    (ethHdrSize, (ipFrameHeader st args).bytes),
    (ethHdrSize + ipHdrSize, args.payload)]

/-- What `ip_send` promises: it stores inside `frame`, and either it returns -1 and has
transmitted nothing, or it has transmitted one frame around the whole payload. -/
structure IpSendSafe (st : NetState) (dstMac : MacAddr) (args : IpSendArgs)
    (out : Int × NetState) : Prop where
  stores : ∀ store ∈ ipFrameStores st dstMac args, store.1 + store.2.length ≤ ipFrameSize
  outcome : (out.1 = -1 ∧ out.2.sent = st.sent) ∨
    ∃ frame, out.2.sent = st.sent ++ [frame] ∧ frame.length = 34 + args.payload.length ∧
      (frameTotalLen (overlay (fun _ => 0) frame)).toNat = 20 + args.payload.length ∧
      frame.drop 34 = args.payload

/-- `ip_send` returns from `st` after its destination was resolved to a MAC address: on entry,
or when the packets polled in its wait have brought the answer. -/
inductive IpSendResolves (st : NetState) (args : IpSendArgs) :
    MacAddr → Int × NetState → Prop
  | broadcast {out : Int × NetState} (dst : args.dst = broadcastIp)
      (ret : ipSend st args = (.returned out.1, out.2)) :
      IpSendResolves st args broadcastMac out
  | cached {dstMac : MacAddr} {out : Int × NetState} (dst : args.dst ≠ broadcastIp)
      (found : arpLookup st.arpCache args.dst = some dstMac)
      (ret : ipSend st args = (.returned out.1, out.2)) :
      IpSendResolves st args dstMac out
  | waited {dstMac : MacAddr} {out : Int × NetState} {left : Nat}
      (found : arpLookup st.arpCache args.dst = some dstMac)
      (ret : ipSendResume st ⟨args, left⟩ = (.returned out.1, out.2)) :
      IpSendResolves st args dstMac out

variable {st : NetState} {dstMac : MacAddr} {args : IpSendArgs} {out : Int × NetState}

theorem returned_inj {a b : Int × NetState}
    (same : (IpSendStatus.returned a.1, a.2) = (IpSendStatus.returned b.1, b.2)) : b = a := by
  injection same with status state
  injection status with ret
  exact Prod.ext ret.symm state.symm

/-- A resolved `ip_send` ends in the same way wherever it resolved. -/
theorem IpSendResolves.eq (resolves : IpSendResolves st args dstMac out) :
    out = ipTransmit st dstMac args := by
  cases resolves with
  | broadcast dst ret =>
    rw [ipSend, if_pos dst] at ret
    exact returned_inj ret
  | cached dst found ret =>
    rw [ipSend, if_neg dst, found] at ret
    exact returned_inj ret
  | waited found ret =>
    rw [ipSendResume, found] at ret
    exact returned_inj ret

/-- The stores stay inside `frame` when the payload fits behind the headers. -/
theorem ipFrameStores_inside_iff :
    (∀ store ∈ ipFrameStores st dstMac args, store.1 + store.2.length ≤ ipFrameSize) ↔
      args.payload.length ≤ 1466 := by
  simp only [ipFrameStores, List.forall_mem_cons, EthHdr.length_bytes, IpHdr.length_bytes,
    ipFrameSize, ethHdrSize, ipHdrSize]
  constructor
  · rintro ⟨-, -, payload, -⟩
    omega
  · intro fits
    exact ⟨by omega, by omega, by omega, List.forall_mem_nil _⟩

/-- A payload that fits is transmitted as a whole, or refused. -/
theorem ipTransmit_of_fits (fits : args.payload.length ≤ 1466) :
    ((ipTransmit st dstMac args).1 = -1 ∧ (ipTransmit st dstMac args).2.sent = st.sent) ∨
      ∃ frame, (ipTransmit st dstMac args).2.sent = st.sent ++ [frame] ∧
        frame.length = 34 + args.payload.length ∧
        (frameTotalLen (overlay (fun _ => 0) frame)).toNat = 20 + args.payload.length ∧
        frame.drop 34 = args.payload := by
  rw [ipTransmit_eq (by omega), netSend]
  split
  · exact .inl ⟨rfl, rfl⟩
  · refine .inr ⟨ipFrame st dstMac args, rfl, length_ipFrame, ?_, ?_⟩
    · have total : frameTotalLen (overlay (fun _ => 0) (ipFrame st dstMac args ++ [])) =
          UInt16.ofNat (ipHdrSize + args.payload.length) := ipFrame_totalLen
      rw [List.append_nil] at total
      rw [total, UInt16.toNat_ofNat']
      exact Nat.mod_eq_of_lt (by simp only [ipHdrSize]; omega)
    · exact List.drop_left' (by simp only [List.length_append, EthHdr.length_bytes,
        IpHdr.length_bytes, ethHdrSize, ipHdrSize])

/-- **Length safety of `ip_send`.**  For a destination that resolves and a payload of `plen`
bytes, `ip_send` keeps inside its frame buffer and transmits the payload whole or not at
all exactly when `plen` is at most 1466. -/
theorem ip_send_safe_iff {dst : IpAddr} {proto : UInt8} {plen : UInt16}
    {payload : Vector UInt8 plen.toNat}
    (resolves : IpSendResolves st ⟨dst, proto, payload.toList⟩ dstMac out) :
    IpSendSafe st dstMac ⟨dst, proto, payload.toList⟩ out ↔ plen.toNat ≤ 1466 := by
  have length : payload.toList.length = plen.toNat := Vector.length_toList
  constructor
  · intro safe
    exact length ▸ ipFrameStores_inside_iff.mp safe.stores
  · intro fits
    have short : payload.toList.length ≤ 1466 := length.trans_le fits
    refine ⟨ipFrameStores_inside_iff.mpr short, ?_⟩
    rw [resolves.eq]
    exact ipTransmit_of_fits short

/-- A stack with a card. -/
def netWithCard : NetState := netInit #v[0x52, 0x54, 0x00, 0x12, 0x34, 0x58] 0xC000

/-- A broadcast of a payload resolves at once. -/
theorem ipSendResolves_broadcast (st : NetState) (proto : UInt8) (payload : List UInt8) :
    IpSendResolves st ⟨broadcastIp, proto, payload⟩ broadcastMac
      (ipTransmit st broadcastMac ⟨broadcastIp, proto, payload⟩) :=
  .broadcast rfl (if_pos rfl)

theorem ip_send_safe_empty :
    IpSendSafe netWithCard broadcastMac ⟨broadcastIp, 17, (#v[] : Vector UInt8 0).toList⟩
      (ipTransmit netWithCard broadcastMac ⟨broadcastIp, 17, []⟩) :=
  (@ip_send_safe_iff netWithCard broadcastMac _ broadcastIp 17 0 #v[]
    (ipSendResolves_broadcast _ _ _)).mpr (by decide)

/-- A payload of 1467 bytes is stored past the end of `frame`. -/
theorem ip_send_overruns_frame :
    ¬ ∀ (st : NetState) (dst : IpAddr) (proto : UInt8) (plen : UInt16)
        (payload : Vector UInt8 plen.toNat) (dstMac : MacAddr) (out : Int × NetState),
      IpSendResolves st ⟨dst, proto, payload.toList⟩ dstMac out →
        IpSendSafe st dstMac ⟨dst, proto, payload.toList⟩ out := by
  intro safe
  have stores := (safe netWithCard broadcastIp 17 1467 (Vector.replicate 1467 0) broadcastMac _
    (ipSendResolves_broadcast _ _ _)).stores
  have fits := ipFrameStores_inside_iff.mp stores
  rw [Vector.length_toList] at fits
  exact absurd fits (by decide)

end MOKernel
