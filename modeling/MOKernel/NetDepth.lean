import MOKernel.NetEcho

/-!
# How deep `ip_send` nests

Nothing stops an `ip_send` that waits for an address from receiving another echo
request for which `ip_send` is called again.  From any state a stream of echo requests
from an unresolved address leaves one waiting activation each (`waits_length_replicate`):
no constant bounds their number (`reentrancy_unbounded`).
-/

namespace MOKernel

variable {st : NetState} {s : PollState} {f : RxFrame}

/-! ## Echo requests from an unresolved address -/

/-- A well-sized echo request for `st` from an address `st` does not resolve. -/
structure Unresolved (st : NetState) (f : RxFrame) : Prop where
  echo : IsEchoRequest st.ip f.bytes
  sized : WellSized st.ip f.bytes
  unicast : frameSrc (bytesOf f.bytes) ≠ broadcastIp
  unknown : arpLookup st.arpCache (frameSrc (bytesOf f.bytes)) = none

theorem Unresolved.of_eq {st' : NetState} (unresolved : Unresolved st f) (ip : st'.ip = st.ip)
    (cache : st'.arpCache = st.arpCache) : Unresolved st' f where
  echo := by rw [ip]; exact unresolved.echo
  sized := by rw [ip]; exact unresolved.sized
  unicast := unresolved.unicast
  unknown := by rw [cache]; exact unresolved.unknown

/-- Such a request starts an activation and changes neither the address nor the cache. -/
theorem pollFrame_unresolved (unresolved : Unresolved s.net f) :
    (pollFrame s f).waits.length = s.waits.length + 1 ∧ Unresolved (pollFrame s f).net f := by
  obtain ⟨net, waits⟩ := s
  set st₀ : NetState := { net with pktBuf := overlay net.pktBuf f.bytes } with st₀_eq
  have filled : Unresolved st₀ f := unresolved.of_eq rfl rfl
  simp only [pollFrame, ← st₀_eq, ethReceive_overlay filled.sized,
    filled.echo.ethReceive_run filled.sized]
  rw [ipSend, if_neg filled.unicast, filled.unknown]
  exact ⟨rfl, filled.of_eq (netSend_ip _ _) (netSend_arpCache _ _)⟩

/-- A stream of such requests leaves one activation each. -/
theorem waits_length_replicate (unresolved : Unresolved s.net f) (n : Nat) :
    (pollRun s (List.replicate n (some f))).waits.length = s.waits.length + n := by
  induction n generalizing s with
  | zero => rfl
  | succ n ih =>
    obtain ⟨length, unresolved'⟩ := pollFrame_unresolved unresolved
    have rest := ih unresolved'
    rw [length] at rest
    rw [List.replicate_succ]
    change (pollRun (pollFrame s f) (List.replicate n (some f))).waits.length = _
    omega

/-- Eight entries leave an address unresolved. -/
theorem exists_unresolved (cache : ArpCache) :
    ∃ ip : IpAddr, ip ≠ broadcastIp ∧ arpLookup cache ip = none := by
  have few : (Finset.univ.image fun i => (cache i).ip.toNat).card < (Finset.range 9).card := by
    refine Nat.lt_of_le_of_lt Finset.card_image_le ?_
    simp
  obtain ⟨n, small, free⟩ := Finset.exists_mem_notMem_of_card_lt_card few
  have lt : n < 9 := Finset.mem_range.mp small
  have value : (UInt32.ofNat n).toNat = n := by
    rw [UInt32.toNat_ofNat']
    omega
  refine ⟨UInt32.ofNat n, fun broadcast => ?_, ?_⟩
  · have eq := congrArg UInt32.toNat broadcast
    rw [value] at eq
    rw [eq] at lt
    exact absurd lt (by decide)
  · rw [arpLookup, Option.map_eq_none_iff, Fin.find?_eq_none_iff]
    intro i
    have other : (cache i).ip ≠ UInt32.ofNat n := by
      intro same
      exact free (Finset.mem_image.mpr ⟨i, Finset.mem_univ i, by rw [same, value]⟩)
    simp [other]

/-- The echo request another instance of the stack sends. -/
def peerRequest (netIp srcIp : IpAddr) : RxFrame where
  bytes := ipFrame { netInit broadcastMac 0 with ip := srcIp } broadcastMac
    ⟨netIp, ipProtoIcmp, icmpEchoPayload 1⟩
  nonempty := by
    rw [length_ipFrame]
    omega
  short := by
    rw [length_ipFrame]
    change 34 + 16 ≤ 1514
    omega

theorem peerRequest_unresolved {srcIp : IpAddr} (unicast : srcIp ≠ broadcastIp)
    (unknown : arpLookup st.arpCache srcIp = none) :
    Unresolved st (peerRequest st.ip srcIp) := by
  set peer : NetState := { netInit broadcastMac 0 with ip := srcIp }
  set args : IpSendArgs := ⟨st.ip, ipProtoIcmp, icmpEchoPayload 1⟩
  have nil : bytesOf (peerRequest st.ip srcIp).bytes =
      overlay (fun _ => 0) (ipFrame peer broadcastMac args ++ []) := by
    rw [List.append_nil]
    rfl
  have size : (peerRequest st.ip srcIp).bytes.length = 50 := length_ipFrame
  have ihl : (frameIhl (bytesOf (peerRequest st.ip srcIp).bytes)).toNat = 20 := by
    rw [nil, ipFrame_ihl]
    rfl
  have total : (frameTotalLen (bytesOf (peerRequest st.ip srcIp).bytes)).toNat = 36 := by
    rw [nil, ipFrame_totalLen]
    rfl
  have src : frameSrc (bytesOf (peerRequest st.ip srcIp).bytes) = srcIp := by
    rw [nil, ipFrame_src]
  refine ⟨⟨⟨?_, ?_, ?_⟩, ?_, ?_, ?_, ?_⟩, fun _ => ⟨?_, ?_⟩, ?_, ?_⟩
  · rw [size]
    omega
  · rw [nil, ipFrame_etype]
  · rw [nil, ipFrame_dst]
  · rw [ihl]
  · rw [nil, ipFrame_proto]
  · rw [ihl, total]
    omega
  · have first : 0 < args.payload.length := Nat.zero_lt_succ 15
    rw [slicePkt, ihl, nil]
    exact ipFrame_payload first
  · rw [ihl, total]
    omega
  · rw [total, size]
    decide
  · rwa [src]
  · rwa [src]

/-- **Unbounded re-entrancy.**  From every state, and for every bound, some stream of
frames has more activations of `ip_send` in progress at once. -/
theorem reentrancy_unbounded (net : NetState) (bound : Nat) :
    ∃ events, bound < (pollRun (pollStart net) events).waits.length := by
  obtain ⟨srcIp, unicast, unknown⟩ := exists_unresolved net.arpCache
  have unresolved : Unresolved (pollStart net).net (peerRequest net.ip srcIp) :=
    (peerRequest_unresolved unicast unknown).of_eq rfl rfl
  refine ⟨List.replicate (bound + 1) (some (peerRequest net.ip srcIp)), ?_⟩
  rw [waits_length_replicate unresolved]
  exact Nat.lt_of_lt_of_le (Nat.lt_succ_self bound) (Nat.le_add_left _ _)

/-- An empty cache and requests from 10.0.2.2 pass every bound. -/
theorem reentrancy_no_constant :
    ¬ ∃ bound, ∀ net events, (pollRun (pollStart net) events).waits.length ≤ bound := by
  intro held
  rcases held with ⟨bound, bounded⟩
  set net := netInit #v[0x52, 0x54, 0x00, 0x12, 0x34, 0x56] 0xC000
  have unresolved : Unresolved (pollStart net).net (peerRequest net.ip 0x0A000202) :=
    (peerRequest_unresolved (by decide) (by decide +kernel)).of_eq rfl rfl
  have le := bounded net (List.replicate (bound + 1) (some (peerRequest net.ip 0x0A000202)))
  rw [waits_length_replicate unresolved] at le
  exact absurd (Nat.le_trans (Nat.le_add_left _ _) le) (Nat.not_succ_le_self bound)

end MOKernel
