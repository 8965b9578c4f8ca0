import MOKernel.Shell

/-!
# udp from the shell

`udp A P M` cuts the address at 19 characters, accumulates the port in 32 bits and passes
16 of them on, and sends `20 - i` bytes from the message on, `i` being the length of the
cut address.  `udpLine_short` and the two lemmas for longer addresses say what a line
calls; `udp_sends_iff` is the exact condition under which that is what was typed.
-/

namespace MOKernel

/-- The line in the buffer, with what lies behind it. -/
def udpLine (addr port : List UInt8) (msg : CStr) (tail : List UInt8) : List UInt8 :=
  ascii "udp " ++ (addr ++ 32 :: (port ++ 32 :: (msg.chars ++ 0 :: tail)))

def udpUsage : List ShellCall := [.kprint (ascii "Usage: udp <ip> <port> <msg>\n")]

def udpSent (dst : IpAddr) (port : UInt32) (data : List UInt8) (dlen : UInt16) : List ShellCall :=
  [.udpSend dst 1234 port.toUInt16 data dlen, .kprint (ascii "UDP packet sent\n")]

/-- The port number is one of UDP's. -/
def PortInRange (port : List UInt8) : Prop := 1 ≤ decimalValue port ∧ decimalValue port ≤ 65535

instance : DecidablePred PortInRange := fun port =>
  inferInstanceAs (Decidable (1 ≤ decimalValue port ∧ decimalValue port ≤ 65535))

/-- The address, the port and the message as they can be typed. -/
structure UdpTyped (addr a b c d port : List UInt8) (msg : CStr) : Prop where
  quad : DottedQuad addr a b c d
  digits : IsDigits port
  nonempty : port ≠ []
  message : msg.chars ≠ []
  start : charAt msg.chars ≠ 32

/-- What was typed is what happens, whatever lies behind the line: a port in range sends
the message to the address, any other prints the usage line. -/
def UdpSends (addr a b c d port : List UInt8) (msg : CStr) : Prop :=
  ∀ tail, if PortInRange port then
    ∃ dstPort data dlen, executeCommand (udpLine addr port msg tail) =
        udpSent (makeIp (octetValue a) (octetValue b) (octetValue c) (octetValue d))
          dstPort data dlen ∧
      dstPort.toUInt16.toNat = decimalValue port ∧ dlen.toNat = msg.chars.length ∧
      data.take dlen.toNat = msg.chars
  else executeCommand (udpLine addr port msg tail) = udpUsage

/-- The characters of a long address that do not fit the buffer are read as a port. -/
def LeftoverPort (addr : List UInt8) : Prop :=
  IsDigits (addr.drop 19) ∧ decimalValue (addr.drop 19) ≠ 0

section Calls

variable {addr a b c d port : List UInt8} {msg : CStr}

theorem charAt_of_digits {s : List UInt8} (digits : IsDigits s) (nonempty : s ≠ [])
    (t : List UInt8) : IsDigit (charAt (s ++ t)) := by
  rw [charAt_append nonempty]
  exact digits _ (charAt_mem nonempty)

/-- An address has no spaces. -/
theorem DottedQuad.plain (quad : DottedQuad addr a b c d) : Plain addr := by
  intro x member
  rcases quad.1.digit_or_dot member with digit | rfl
  · exact digit.plain
  · decide

theorem DottedQuad.nonempty (quad : DottedQuad addr a b c d) : addr ≠ [] := by
  rw [quad.1.text, quadText, ascii]
  simp

/-- What is left of the line after the address is cut. -/
theorem udpCommand_cut (typed : UdpTyped addr a b c d port msg) (tail : List UInt8) :
    cutToken 19 (skipSpaces (addr ++ 32 :: (port ++ 32 :: (msg.chars ++ 0 :: tail)))) =
      (addr.take 19, addr.drop 19 ++ 32 :: (port ++ 32 :: (msg.chars ++ 0 :: tail))) := by
  have plain := typed.quad.plain
  have start := (plain.charAt_ne typed.quad.nonempty).2
  rw [skipSpaces_eq_self (by rwa [charAt_append typed.quad.nonempty]),
    cutToken_append plain (.inr rfl)]

/-- Digits, a space and more of the line: the port and what follows it. -/
theorem scanPort_word {digits rest : List UInt8} (isDigits : IsDigits digits)
    (start : charAt rest ≠ 32) :
    (scanPort 0 (digits ++ 32 :: rest)).1 = UInt32.ofNat (decimalValue digits) ∧
      skipSpaces (scanPort 0 (digits ++ 32 :: rest)).2 = rest := by
  have stop : ¬IsDigit (charAt (32 :: rest)) := by
    change ¬IsDigit 32
    decide
  have scanned := scanPort_append isDigits stop []
  have zero : UInt32.ofNat (decimalValue []) = 0 := rfl
  rw [zero, List.nil_append] at scanned
  rw [scanned]
  exact ⟨rfl, skipSpaces_space start⟩

theorem msg_start (typed : UdpTyped addr a b c d port msg) (tail : List UInt8) :
    charAt (msg.chars ++ 0 :: tail) ≠ 32 ∧ charAt (msg.chars ++ 0 :: tail) ≠ 0 := by
  rw [charAt_append typed.message]
  exact ⟨typed.start, fun zero => msg.nulFree (zero ▸ charAt_mem typed.message)⟩

/-- **Short addresses.**  The line sends to the address it names, unless the port is a
multiple of 2^32. -/
theorem udpLine_short (typed : UdpTyped addr a b c d port msg) (short : addr.length ≤ 19)
    (tail : List UInt8) : executeCommand (udpLine addr port msg tail) =
      if decimalValue port % 4294967296 = 0 then udpUsage
      else udpSent (makeIp (octetValue a) (octetValue b) (octetValue c) (octetValue d))
        (UInt32.ofNat (decimalValue port)) (msg.chars ++ 0 :: tail)
        (UInt16.ofNat (20 - addr.length)) := by
  obtain ⟨start, notNul⟩ := msg_start typed tail
  obtain ⟨number, rest⟩ := scanPort_word typed.digits start
  have first : charAt (port ++ 32 :: (msg.chars ++ 0 :: tail)) ≠ 32 :=
    (charAt_of_digits typed.digits typed.nonempty _).plain.2
  have positive : UInt32.ofNat (decimalValue port) > 0 ↔ ¬decimalValue port % 4294967296 = 0 := by
    rw [gt_iff_lt, UInt32.lt_iff_toNat_lt, UInt32.toNat_ofNat', UInt32.toNat_zero]
    exact Nat.pos_iff_ne_zero
  rw [udpLine, executeCommand_udp, udpCommand, udpCommand_cut typed]
  simp only [List.take_of_length_le short, List.drop_of_length_le short, List.nil_append,
    skipSpaces_space first, number, rest, parseIp_quad typed.quad.1, positive, notNul, ne_eq,
    not_false_eq_true, one_ne_zero, true_and, and_true, ite_not]
  rfl

/-- Digits behind the cut belong to the last octet. -/
theorem cut_in_last (quad : DottedQuad addr a b c d)
    (digits : IsDigits (addr.drop 19)) :
    ∃ d', d = d' ++ addr.drop 19 ∧ OctetQuad (addr.take 19) a b c d' := by
  set front := a ++ ascii "." ++ b ++ ascii "." ++ c with frontEq
  have split : addr = (front ++ [46]) ++ d := quad.1.text
  have inside : (front ++ [46]).length ≤ 19 := by
    by_contra outside
    -- the last dot would be among the digits
    have member : (46 : UInt8) ∈ addr.drop 19 := by
      rw [split, List.drop_append, List.drop_append]
      have room : 19 - front.length = 0 := by
        rw [List.length_append, List.length_singleton] at outside
        omega
      simp [room]
    exact absurd (digits 46 member) (by decide)
  obtain ⟨rest, total⟩ := Nat.exists_eq_add_of_le inside
  have parts : d.take rest ++ d.drop rest = d := List.take_append_drop rest d
  have behind : addr.drop 19 = d.drop rest := by
    rw [split, total, List.drop_append, List.drop_of_length_le (by omega), List.nil_append,
      Nat.add_sub_cancel_left]
  have before : addr.take 19 = (front ++ [46]) ++ d.take rest := by
    rw [split, total, List.take_append, List.take_of_length_le (by omega),
      Nat.add_sub_cancel_left]
  have octets := quad.1.octets
  simp only [List.mem_cons, List.not_mem_nil, or_false, forall_eq_or_imp, forall_eq] at octets
  obtain ⟨first, second, third, fourth⟩ := octets
  have cutOctet : OctetText (d.take rest) := by
    refine ⟨fun c member => fourth.1 c (List.mem_of_mem_take member), ?_⟩
    have le := decimalValue_le_append (d.take rest) (d.drop rest)
    rw [parts] at le
    exact le.trans fourth.2
  refine ⟨d.take rest, by rw [behind, parts], before, ?_⟩
  simp only [List.mem_cons, List.not_mem_nil, or_false, forall_eq_or_imp, forall_eq]
  exact ⟨first, second, third, cutOctet⟩

/-- **Long addresses, digits behind the cut.**  The line sends to the cut address, with
the digits behind the cut as the port and the typed port as the message. -/
theorem udpLine_digits (typed : UdpTyped addr a b c d port msg) (long : 19 < addr.length)
    (digits : IsDigits (addr.drop 19)) {d' : List UInt8}
    (quad : OctetQuad (addr.take 19) a b c d') (last : d = d' ++ addr.drop 19)
    (tail : List UInt8) : executeCommand (udpLine addr port msg tail) =
      if decimalValue (addr.drop 19) = 0 then udpUsage
      else udpSent (makeIp (octetValue a) (octetValue b) (octetValue c) (octetValue d'))
        (UInt32.ofNat (decimalValue (addr.drop 19)))
        (port ++ 32 :: (msg.chars ++ 0 :: tail)) 1 := by
  have leftover : addr.drop 19 ≠ [] := by simpa using long
  have first : IsDigit (charAt (port ++ 32 :: (msg.chars ++ 0 :: tail))) :=
    charAt_of_digits typed.digits typed.nonempty _
  obtain ⟨notNul, start⟩ := first.plain
  have behind : charAt (addr.drop 19 ++ 32 :: (port ++ 32 :: (msg.chars ++ 0 :: tail))) ≠ 32 :=
    (charAt_of_digits digits leftover _).plain.2
  obtain ⟨number, rest⟩ := scanPort_word digits start
  have small : decimalValue (addr.drop 19) ≤ 255 := by
    have octet := (typed.quad.1.octets d (by simp)).2
    have more := decimalValue_append d' (addr.drop 19)
    rw [← last] at more
    omega
  have positive : UInt32.ofNat (decimalValue (addr.drop 19)) > 0 ↔
      ¬decimalValue (addr.drop 19) = 0 := by
    rw [gt_iff_lt, UInt32.lt_iff_toNat_lt, UInt32.toNat_ofNat', UInt32.toNat_zero]
    omega
  have length : (addr.take 19).length = 19 := by
    rw [List.length_take]
    omega
  rw [udpLine, executeCommand_udp, udpCommand, udpCommand_cut typed]
  simp only [skipSpaces_eq_self behind, number, rest, parseIp_quad quad, positive, notNul, length,
    ne_eq, not_false_eq_true, one_ne_zero, true_and, and_true, ite_not]
  rfl

/-- A quad has three dots. -/
theorem OctetQuad.count_dots {s : List UInt8} (quad : OctetQuad s a b c d) :
    s.count 46 = 3 := by
  have none (t : List UInt8) (member : t ∈ [a, b, c, d]) : t.count 46 = 0 :=
    List.count_eq_zero.mpr ((quad.octets t member).1.not_mem (by decide))
  rw [quad.text, quadText, ascii]
  simp [none]

/-- **Long addresses, a dot behind the cut.**  The cut address lacks a dot and is
refused. -/
theorem udpLine_dot (typed : UdpTyped addr a b c d port msg)
    (dot : ¬IsDigits (addr.drop 19)) (tail : List UInt8) :
    executeCommand (udpLine addr port msg tail) = udpUsage := by
  have member : (46 : UInt8) ∈ addr.drop 19 := by
    by_contra absent
    refine dot fun x behind => ?_
    rcases typed.quad.1.digit_or_dot (List.mem_of_mem_drop behind) with digit | rfl
    · exact digit
    · exact (absent behind).elim
  have refused : parseIp (addr.take 19) 0 = (0, 0) := by
    apply parseIp_of_not_quad (typed.quad.plain.take 19).nulFree
    rintro ⟨a', b', c', d', quad⟩
    have all := typed.quad.1.count_dots
    have cut := quad.count_dots
    have behind : 0 < (addr.drop 19).count 46 := List.count_pos_iff.mpr member
    have split := congrArg (List.count 46) (List.take_append_drop 19 addr)
    rw [List.count_append] at split
    omega
  rw [udpLine, executeCommand_udp, udpCommand, udpCommand_cut typed]
  simp [refused, udpUsage]

end Calls

section Sends

variable {addr a b c d port : List UInt8} {msg : CStr}

theorem udpUsage_ne_udpSent (dst : IpAddr) (dstPort : UInt32) (data : List UInt8)
    (dlen : UInt16) : udpUsage ≠ udpSent dst dstPort data dlen := by
  intro same
  simp [udpUsage, udpSent] at same

/-- The last octet of an address can be read off it. -/
theorem makeIp_last {a b c d d' : List UInt8} (le : decimalValue d ≤ 255)
    (le' : decimalValue d' ≤ 255)
    (same : makeIp (octetValue a) (octetValue b) (octetValue c) (octetValue d) =
      makeIp (octetValue a) (octetValue b) (octetValue c) (octetValue d')) :
    decimalValue d = decimalValue d' := by
  have low (x y z w : UInt32) : (makeIp x y z w).toUInt8 = w.toUInt8 := by
    apply UInt8.eq_of_toBitVec_eq
    ext i lt
    interval_cases i <;> simp [makeIp]
  have bytes := congrArg (fun ip => ip.toUInt8.toNat) same
  simp only [low, UInt32.toNat_toUInt8, toNat_octetValue le, toNat_octetValue le'] at bytes
  omega

/-- A long address is refused, or its last digits are missing from the call. -/
theorem udpLine_long_ne (typed : UdpTyped addr a b c d port msg) (long : 19 < addr.length)
    (tail : List UInt8) (dstPort : UInt32) (data : List UInt8) (dlen : UInt16) :
    executeCommand (udpLine addr port msg tail) ≠
      udpSent (makeIp (octetValue a) (octetValue b) (octetValue c) (octetValue d))
        dstPort data dlen := by
  intro calls
  by_cases digits : IsDigits (addr.drop 19)
  · obtain ⟨d', last, quad⟩ := cut_in_last typed.quad digits
    rw [udpLine_digits typed long digits quad last] at calls
    split at calls
    · exact udpUsage_ne_udpSent _ _ _ _ calls
    · next nonzero =>
      obtain ⟨⟨address, -⟩, -⟩ := by simpa only [udpSent, List.cons.injEq,
        ShellCall.udpSend.injEq] using calls
      have more := decimalValue_append d' (addr.drop 19)
      rw [← last] at more
      have larger : decimalValue d' ≤ decimalValue d' * 10 ^ (addr.drop 19).length :=
        Nat.le_mul_of_pos_right _ (by positivity)
      have same := makeIp_last (quad.octets d' (by simp)).2
        (typed.quad.1.octets d (by simp)).2 address
      omega
  · rw [udpLine_dot typed digits] at calls
    exact udpUsage_ne_udpSent _ _ _ _ calls

/-- **A port in range.**  The line does what was typed exactly when address and message
have 20 characters together. -/
theorem udpSends_inRange (typed : UdpTyped addr a b c d port msg) (range : PortInRange port) :
    UdpSends addr a b c d port msg ↔ addr.length + msg.chars.length = 20 := by
  have messageLength := List.length_pos_iff.mpr typed.message
  have ⟨positive, bounded⟩ := range
  have portValue : (UInt32.ofNat (decimalValue port)).toUInt16.toNat = decimalValue port := by
    rw [UInt32.toNat_toUInt16, UInt32.toNat_ofNat']
    omega
  simp only [UdpSends, range, if_true]
  rcases Nat.lt_or_ge 19 addr.length with long | short
  · refine iff_of_false (fun sends => ?_) (by omega)
    obtain ⟨dstPort, data, dlen, calls, -⟩ := sends []
    exact udpLine_long_ne typed long [] dstPort data dlen calls
  · have nonzero : ¬decimalValue port % 4294967296 = 0 := by omega
    have dlenValue : (UInt16.ofNat (20 - addr.length)).toNat = 20 - addr.length := by
      rw [UInt16.toNat_ofNat', Nat.mod_eq_of_lt (by omega)]
    simp only [udpLine_short typed short, nonzero, if_false]
    constructor
    · intro sends
      obtain ⟨dstPort, data, dlen, calls, -, length, -⟩ := sends []
      obtain ⟨⟨-, -, -, rfl⟩, -⟩ := by simpa only [udpSent, List.cons.injEq,
        ShellCall.udpSend.injEq, true_and] using calls
      omega
    · intro total tail
      refine ⟨_, _, _, rfl, portValue, by omega, ?_⟩
      have whole : 20 - addr.length = msg.chars.length := by omega
      rw [dlenValue, whole, List.take_left']
      rfl

/-- **A port out of range.**  The line prints the usage line unless the port, or what is
left of a long address, passes for one. -/
theorem udpSends_outOfRange (typed : UdpTyped addr a b c d port msg)
    (range : ¬PortInRange port) : UdpSends addr a b c d port msg ↔
      if addr.length ≤ 19 then decimalValue port % 4294967296 = 0 else ¬LeftoverPort addr := by
  simp only [UdpSends, range, if_false]
  rcases Nat.lt_or_ge 19 addr.length with long | short
  · rw [if_neg (Nat.not_le.mpr long)]
    by_cases digits : IsDigits (addr.drop 19)
    · obtain ⟨d', last, quad⟩ := cut_in_last typed.quad digits
      simp only [udpLine_digits typed long digits quad last, LeftoverPort, digits, true_and,
        not_not]
      by_cases zero : decimalValue (addr.drop 19) = 0
      · simp [zero]
      · simp only [zero, if_false, iff_false]
        exact fun sends => udpUsage_ne_udpSent _ _ _ _ (sends []).symm
    · simp only [udpLine_dot typed digits, LeftoverPort, digits, false_and, not_false_eq_true,
        implies_true]
  · simp only [if_pos short, udpLine_short typed short]
    by_cases zero : decimalValue port % 4294967296 = 0
    · simp [zero]
    · simp only [zero, if_false, iff_false]
      exact fun sends => udpUsage_ne_udpSent _ _ _ _ (sends []).symm

end Sends

/-- **The udp command.**  When a line does what was typed. -/
theorem udp_sends_iff (addr a b c d port : List UInt8) (msg : CStr)
    (typed : UdpTyped addr a b c d port msg) :
    UdpSends addr a b c d port msg ↔
      if PortInRange port then addr.length + msg.chars.length = 20
      else if addr.length ≤ 19 then decimalValue port % 4294967296 = 0
      else ¬LeftoverPort addr := by
  split
  · next range => exact udpSends_inRange typed range
  · next range => exact udpSends_outOfRange typed range

def helloMsg : CStr := ⟨ascii "hello, world", by decide⟩
def hiMsg : CStr := ⟨ascii "hi", by decide⟩

theorem udpTyped_gateway {msg : CStr} (message : msg.chars ≠ []) (start : charAt msg.chars ≠ 32) :
    UdpTyped (ascii "10.0.2.2") (ascii "10") (ascii "0") (ascii "2") (ascii "2") (ascii "80")
      msg where
  quad := ⟨⟨by decide, by decide⟩, by decide⟩
  digits := by decide
  nonempty := by decide
  message := message
  start := start

/-- Twelve characters fill up the eight of the address. -/
theorem udp_sends_hello : UdpSends (ascii "10.0.2.2") (ascii "10") (ascii "0") (ascii "2")
    (ascii "2") (ascii "80") helloMsg :=
  (udp_sends_iff _ _ _ _ _ _ helloMsg (udpTyped_gateway (by decide) (by decide))).mpr (by
    rw [if_pos (by decide)]
    rfl)

/-- `udp 10.0.2.2 80 hi` sends twelve bytes. -/
theorem udp_sends_more :
    UdpTyped (ascii "10.0.2.2") (ascii "10") (ascii "0") (ascii "2") (ascii "2") (ascii "80")
        hiMsg ∧
      ¬UdpSends (ascii "10.0.2.2") (ascii "10") (ascii "0") (ascii "2") (ascii "2") (ascii "80")
        hiMsg := by
  refine ⟨udpTyped_gateway (by decide) (by decide), ?_⟩
  rw [udpSends_inRange (udpTyped_gateway (by decide) (by decide)) (by decide)]
  decide

end MOKernel
