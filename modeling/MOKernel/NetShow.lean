import MOKernel.ArpCache
import MOKernel.ParseIp

/-!
# What the network commands print

`kprint_mac`, and the text of `arp` and `ifconfig`.  The text can be read back: split into
lines it has the line of an address and a MAC address exactly if the cache answers a lookup
so (`arp_listing`), and the interface's text has its addresses and whether there is a card
(`ifconfig_text_iff`).
-/

namespace MOKernel

/-! ## The text -/

/-- A digit of `kprint_mac`. -/
def macDigit (n : UInt8) : UInt8 := if n < 10 then 48 + n else 65 + n - 10

def kprintMac (m : MacAddr) : List UInt8 :=
  (List.finRange 6).flatMap fun i =>
    [macDigit ((m.get i >>> 4) &&& 0xF), macDigit (m.get i &&& 0xF)] ++
      if i.val < 5 then ascii ":" else []

/-- A line of `arp_print_cache`, up to its newline. -/
def arpLine (entry : IpAddr × MacAddr) : List UInt8 :=
  kprintIp entry.1 ++ ascii "  ->  " ++ kprintMac entry.2

/-- The loop has what is printed, and `found`. -/
def arpPrintCache (cache : ArpCache) : List UInt8 :=
  let printed := (List.finRange arpCacheSize).foldl (fun (acc : List UInt8 × Nat) i =>
    if (cache i).valid then
      (acc.1 ++ arpLine ((cache i).ip, (cache i).mac) ++ ascii "\n", acc.2 + 1)
    else acc) ([], 0)
  printed.1 ++ if printed.2 = 0 then ascii "(ARP cache empty)\n" else []

def netCmdArp (cache : ArpCache) : List UInt8 := ascii "ARP cache:\n" ++ arpPrintCache cache

def netCmdIfconfig (st : NetState) : List UInt8 :=
  ascii "eth0: flags=UP BROADCAST RUNNING\n" ++ ascii "      inet " ++ kprintIp st.ip ++
    ascii "  netmask 255.255.255.0\n" ++ ascii "      ether " ++ kprintMac st.mac ++ ascii "\n" ++
    if st.iobase = 0 then ascii "      [NIC not found]\n" else []

/-! ## Lines -/

/-- Lines that end in a newline are found by splitting at newlines. -/
theorem splitOn_lines {lines : List (List UInt8)} (whole : ∀ l ∈ lines, (10 : UInt8) ∉ l) :
    (lines.flatMap (· ++ [10])).splitOn 10 = lines ++ [[]] := by
  induction lines with
  | nil => rfl
  | cons l lines ih =>
    have first : (10 : UInt8) ∉ l := whole l List.mem_cons_self
    have rest := ih fun l' member => whole l' (List.mem_cons_of_mem _ member)
    rw [List.flatMap_cons, List.append_assoc, List.singleton_append, List.splitOn_append_cons_self,
      List.splitOn_eq_singleton first, rest]
    rfl

/-! ## MAC addresses -/

theorem macDigit_nibble : ∀ n < 16, macDigit (UInt8.ofNat n) =
    (ascii "0123456789ABCDEF").getD n 0 := by
  decide

theorem macDigit_injective {a b : UInt8} (same : macDigit (a &&& 0xF) = macDigit (b &&& 0xF)) :
    a &&& 0xF = b &&& 0xF := by
  have table : ∀ m < 16, ∀ n < 16,
      (ascii "0123456789ABCDEF").getD m 0 = (ascii "0123456789ABCDEF").getD n 0 → m = n := by
    decide
  have nibble (x : UInt8) : (x &&& 0xF).toNat < 16 := by
    rw [UInt8.toNat_and]
    exact Nat.lt_succ_of_le Nat.and_le_right
  have digit (x : UInt8) : macDigit (x &&& 0xF) =
      (ascii "0123456789ABCDEF").getD (x &&& 0xF).toNat 0 := by
    rw [← macDigit_nibble _ (nibble x), UInt8.ofNat_toNat]
  rw [digit, digit] at same
  exact UInt8.toNat_inj.mp (table _ (nibble a) _ (nibble b) same)

/-- A byte is its two digits. -/
theorem byte_of_nibbles {a b : UInt8}
    (high : (a >>> 4) &&& (0xF : UInt8) = (b >>> 4) &&& (0xF : UInt8))
    (low : a &&& 0xF = b &&& 0xF) : a = b := by
  have join (x : UInt8) : x.toNat = ((x >>> 4) &&& 0xF).toNat * 16 + (x &&& 0xF).toNat := by
    have lt := x.toNat_lt
    have mask (n : Nat) : n &&& 15 = n % 16 := Nat.and_two_pow_sub_one_eq_mod n 4
    simp only [UInt8.toNat_and, UInt8.toNat_shiftRight, UInt8.reduceToNat, Nat.reduceMod, mask,
      Nat.shiftRight_eq_div_pow, Nat.reducePow]
    omega
  apply UInt8.toNat_inj.mp
  rw [join a, join b, high, low]

theorem kprintMac_eq (m : MacAddr) : kprintMac m =
    [macDigit ((m.get 0 >>> 4) &&& 0xF), macDigit (m.get 0 &&& 0xF), 58,
      macDigit ((m.get 1 >>> 4) &&& 0xF), macDigit (m.get 1 &&& 0xF), 58,
      macDigit ((m.get 2 >>> 4) &&& 0xF), macDigit (m.get 2 &&& 0xF), 58,
      macDigit ((m.get 3 >>> 4) &&& 0xF), macDigit (m.get 3 &&& 0xF), 58,
      macDigit ((m.get 4 >>> 4) &&& 0xF), macDigit (m.get 4 &&& 0xF), 58,
      macDigit ((m.get 5 >>> 4) &&& 0xF), macDigit (m.get 5 &&& 0xF)] := rfl

theorem kprintMac_injective : Function.Injective kprintMac := by
  intro a b same
  rw [kprintMac_eq, kprintMac_eq] at same
  simp only [List.cons.injEq, true_and, and_true] at same
  obtain ⟨h0, l0, h1, l1, h2, l2, h3, l3, h4, l4, h5, l5⟩ := same
  have byte {x y : UInt8} (high : macDigit ((x >>> 4) &&& 0xF) = macDigit ((y >>> 4) &&& 0xF))
      (low : macDigit (x &&& 0xF) = macDigit (y &&& 0xF)) : x = y :=
    byte_of_nibbles (macDigit_injective high) (macDigit_injective low)
  have all : ∀ i : Fin 6, a.get i = b.get i := by
    intro i
    fin_cases i
    · exact byte h0 l0
    · exact byte h1 l1
    · exact byte h2 l2
    · exact byte h3 l3
    · exact byte h4 l4
    · exact byte h5 l5
  exact Vector.ext fun i lt => all ⟨i, lt⟩

/-- The text is digits and colons. -/
theorem kprintMac_chars {m : MacAddr} {c : UInt8} (member : c ∈ kprintMac m) : c ≠ 10 ∧ c ≠ 99 := by
  have digit : ∀ n < 16, (ascii "0123456789ABCDEF").getD n 0 ≠ 10 ∧
      (ascii "0123456789ABCDEF").getD n 0 ≠ 99 := by decide
  have nibble (x : UInt8) : macDigit (x &&& 0xF) ≠ 10 ∧ macDigit (x &&& 0xF) ≠ 99 := by
    have lt : (x &&& 0xF).toNat < 16 := by
      rw [UInt8.toNat_and]
      exact Nat.lt_succ_of_le Nat.and_le_right
    have own := macDigit_nibble _ lt
    rw [UInt8.ofNat_toNat] at own
    rw [own]
    exact digit _ lt
  obtain ⟨i, -, inside⟩ := List.mem_flatMap.mp member
  rcases List.mem_append.mp inside with pair | colon
  · rcases List.mem_pair.mp pair with rfl | rfl
    · exact nibble _
    · exact nibble _
  · split at colon
    · rw [List.mem_singleton.mp colon]
      decide
    · cases colon

/-! ## Addresses -/

/-- The text of an address is the quad of its octets. -/
theorem kprintIp_quad (ip : IpAddr) : OctetQuad (kprintIp ip)
    (decimalText ((ip >>> 24) &&& 0xFF).toNat) (decimalText ((ip >>> 16) &&& 0xFF).toNat)
    (decimalText ((ip >>> 8) &&& 0xFF).toNat) (decimalText (ip &&& 0xFF).toNat) := by
  have octet (x : UInt32) : OctetText (decimalText (x &&& 0xFF).toNat) := by
    refine ⟨isDigits_decimalText _, ?_⟩
    rw [decimalValue_decimalText, UInt32.toNat_and]
    exact Nat.and_le_right
  refine ⟨?_, ?_⟩
  · simp only [kprintIp, kprintDec_eq, quadText]
  · simp only [List.mem_cons, List.not_mem_nil, or_false]
    rintro t (rfl | rfl | rfl | rfl) <;> exact octet _

theorem kprintIp_injective : Function.Injective kprintIp := by
  have read (ip : IpAddr) : parseIp (kprintIp ip) 0 = (1, ip) := by
    have value (x : UInt32) : octetValue (decimalText (x &&& 0xFF).toNat) = x &&& 0xFF := by
      have le : decimalValue (decimalText (x &&& 0xFF).toNat) ≤ 255 := by
        rw [decimalValue_decimalText, UInt32.toNat_and]
        exact Nat.and_le_right
      apply UInt32.toNat_inj.mp
      rw [toNat_octetValue le, decimalValue_decimalText]
    rw [parseIp_quad (kprintIp_quad ip), value, value, value, value, makeIp_octets]
  intro a b same
  have texts := congrArg (fun text => (parseIp text 0).2) same
  rwa [read, read] at texts

/-- The text is digits and dots. -/
theorem kprintIp_chars {ip : IpAddr} {c : UInt8} (member : c ∈ kprintIp ip) :
    c ≠ 10 ∧ c ≠ 32 ∧ c ≠ 99 := by
  rcases (kprintIp_quad ip).digit_or_dot member with digit | dot
  · refine ⟨?_, ?_, ?_⟩
    · rintro rfl
      exact absurd digit (by decide)
    · rintro rfl
      exact absurd digit (by decide)
    · rintro rfl
      exact absurd digit (by decide)
  · rw [dot]
    decide

/-! ## The cache -/

theorem arpLine_injective : Function.Injective arpLine := by
  rintro ⟨ip, mac⟩ ⟨ip', mac'⟩ same
  have arrow : ascii "  ->  " = 32 :: ascii " ->  " := by decide
  -- the address ends at the first space
  have address (ip : IpAddr) (mac : MacAddr) :
      (arpLine (ip, mac)).takeWhile (fun c => decide (c ≠ 32)) = kprintIp ip := by
    rw [arpLine, List.append_assoc, List.takeWhile_append_of_pos fun c member =>
      decide_eq_true (kprintIp_chars member).2.1, arrow]
    exact List.append_nil _
  have ips : kprintIp ip = kprintIp ip' := by rw [← address ip mac, same, address]
  have macs : kprintMac mac = kprintMac mac' := by
    rw [arpLine, arpLine, ips] at same
    exact List.append_cancel_left same
  rw [kprintIp_injective ips, kprintMac_injective macs]

/-- No newline, and none of the letters of the other lines. -/
theorem arpLine_chars {entry : IpAddr × MacAddr} {c : UInt8} (member : c ∈ arpLine entry) :
    c ≠ 10 ∧ c ≠ 99 := by
  have newline : (10 : UInt8) ∉ ascii "  ->  " := by decide
  have letter : (99 : UInt8) ∉ ascii "  ->  " := by decide
  rcases List.mem_append.mp member with front | mac
  · rcases List.mem_append.mp front with ip | between
    · exact ⟨(kprintIp_chars ip).1, (kprintIp_chars ip).2.2⟩
    · exact ⟨fun same => newline (same ▸ between), fun same => letter (same ▸ between)⟩
  · exact kprintMac_chars mac

/-- The entries that `arp_print_cache` prints. -/
def arpEntries (cache : ArpCache) : List (IpAddr × MacAddr) :=
  (List.finRange arpCacheSize).filterMap (arpSlots cache)

theorem arpPrintCache_eq (cache : ArpCache) : arpPrintCache cache =
    (arpEntries cache).flatMap (fun entry => arpLine entry ++ [10]) ++
      if arpEntries cache = [] then ascii "(ARP cache empty)\n" else [] := by
  have loop (slots : List (Fin arpCacheSize)) (acc : List UInt8 × Nat) :
      slots.foldl (fun (acc : List UInt8 × Nat) i =>
        if (cache i).valid then
          (acc.1 ++ arpLine ((cache i).ip, (cache i).mac) ++ ascii "\n", acc.2 + 1)
        else acc) acc =
      (acc.1 ++ (slots.filterMap (arpSlots cache)).flatMap (fun entry => arpLine entry ++ [10]),
        acc.2 + (slots.filterMap (arpSlots cache)).length) := by
    induction slots generalizing acc with
    | nil => exact Prod.ext (List.append_nil _).symm rfl
    | cons i slots ih =>
      rw [List.foldl_cons, ih]
      have newline : ascii "\n" = [10] := rfl
      cases valid : (cache i).valid with
      | false =>
        have none_ : arpSlots cache i = none := by rw [arpSlots, valid]; rfl
        rw [List.filterMap_cons_none none_]
        rfl
      | true =>
        have some_ : arpSlots cache i = some ((cache i).ip, (cache i).mac) := by
          rw [arpSlots, valid]
          rfl
        rw [List.filterMap_cons_some some_, List.flatMap_cons, List.length_cons, newline,
          if_pos rfl]
        refine Prod.ext ?_ ?_
        · simp only [List.append_assoc]
        · dsimp only
          omega
  have emptyIff : 0 + (arpEntries cache).length = 0 ↔ arpEntries cache = [] := by
    rw [Nat.zero_add, List.length_eq_zero_iff]
  unfold arpPrintCache
  rw [loop]
  exact congrArg _ (if_congr emptyIff rfl rfl)

/-- The lines of `arp`. -/
theorem netCmdArp_lines (cache : ArpCache) : (netCmdArp cache).splitOn 10 =
    ascii "ARP cache:" :: (arpEntries cache).map arpLine ++
      (if arpEntries cache = [] then [ascii "(ARP cache empty)"] else []) ++ [[]] := by
  have header : ascii "ARP cache:\n" = ascii "ARP cache:" ++ [10] := by decide
  have none_ : ascii "(ARP cache empty)\n" = ascii "(ARP cache empty)" ++ [10] := by decide
  have text : netCmdArp cache = (ascii "ARP cache:" :: (arpEntries cache).map arpLine ++
      if arpEntries cache = [] then [ascii "(ARP cache empty)"] else []).flatMap (· ++ [10]) := by
    have message : (if arpEntries cache = [] then ascii "(ARP cache empty)\n" else []) =
        (if arpEntries cache = [] then [ascii "(ARP cache empty)"] else []).flatMap
          (· ++ [10]) := by
      split
      · rw [none_]
        rfl
      · rfl
    rw [netCmdArp, arpPrintCache_eq, header, message, List.flatMap_append, List.flatMap_cons,
      List.flatMap_map]
    simp only [List.append_assoc]
  rw [text, splitOn_lines]
  intro l member
  rw [List.cons_append, List.mem_cons, List.mem_append] at member
  rcases member with rfl | entry | empty
  · decide
  · obtain ⟨e, -, rfl⟩ := List.mem_map.mp entry
    exact fun newline => (arpLine_chars newline).1 rfl
  · split at empty
    · rw [List.mem_singleton.mp empty]
      decide
    · cases empty

/-- The line of an entry is printed exactly if the entry is in the cache. -/
theorem arpLine_mem_iff (cache : ArpCache) (entry : IpAddr × MacAddr) :
    arpLine entry ∈ (netCmdArp cache).splitOn 10 ↔ entry ∈ arpEntries cache := by
  have letter {l : List UInt8} (has : (99 : UInt8) ∈ l) : arpLine entry ≠ l := by
    rintro rfl
    exact (arpLine_chars has).2 rfl
  have nonempty : arpLine entry ≠ [] := by
    intro empty
    have arrow : (32 : UInt8) ∈ arpLine entry :=
      List.mem_append_left _ (List.mem_append_right _ (by decide))
    rw [empty] at arrow
    cases arrow
  rw [netCmdArp_lines, List.mem_append, List.mem_append, List.mem_cons, List.mem_singleton,
    or_iff_left nonempty, or_iff_right (letter (by decide)),
    List.mem_map_of_injective arpLine_injective]
  refine or_iff_left fun empty => ?_
  split at empty
  · exact letter (by decide) (List.mem_singleton.mp empty)
  · cases empty

/-- **What `arp` prints.**  After any received packets a line of the output shows an address
with a MAC address exactly if the cache answers a lookup of the address with it. -/
theorem arp_listing (st : NetState) (calls : List ArpCall) (ip : IpAddr) (mac : MacAddr) :
    let cache := (arpRun { st with arpCache := arpCacheInit st.arpCache } calls).arpCache
    arpLine (ip, mac) ∈ (netCmdArp cache).splitOn 10 ↔ arpLookup cache ip = some mac := by
  intro cache
  have inv : ArpTracks cache _ := arpTracks_run st calls
  rw [arpLine_mem_iff, arpLookup_eq, inv.distinct.get_eq_some, arpEntries, List.mem_filterMap]
  constructor
  · rintro ⟨i, -, entry⟩
    exact ⟨i, entry⟩
  · rintro ⟨i, entry⟩
    exact ⟨i, List.mem_finRange i, entry⟩

/-! ## The interface -/

/-- The lines of `ifconfig`. -/
theorem netCmdIfconfig_lines (st : NetState) : (netCmdIfconfig st).splitOn 10 =
    [ascii "eth0: flags=UP BROADCAST RUNNING",
      ascii "      inet " ++ kprintIp st.ip ++ ascii "  netmask 255.255.255.0",
      ascii "      ether " ++ kprintMac st.mac] ++
      (if st.iobase = 0 then [ascii "      [NIC not found]"] else []) ++ [[]] := by
  have flags : ascii "eth0: flags=UP BROADCAST RUNNING\n" =
    ascii "eth0: flags=UP BROADCAST RUNNING" ++ [10] := by decide
  have netmask : ascii "  netmask 255.255.255.0\n" = ascii "  netmask 255.255.255.0" ++ [10] := by
    decide
  have newline : ascii "\n" = [10] := rfl
  have missing : (if st.iobase = 0 then ascii "      [NIC not found]\n" else []) =
      (if st.iobase = 0 then [ascii "      [NIC not found]"] else []).flatMap (· ++ [10]) := by
    have message :
      ascii "      [NIC not found]\n" = ascii "      [NIC not found]" ++ [10] := by decide
    split
    · rw [message]
      rfl
    · rfl
  have text : netCmdIfconfig st = ([ascii "eth0: flags=UP BROADCAST RUNNING",
      ascii "      inet " ++ kprintIp st.ip ++ ascii "  netmask 255.255.255.0",
      ascii "      ether " ++ kprintMac st.mac] ++
      if st.iobase = 0 then [ascii "      [NIC not found]"] else []).flatMap (· ++ [10]) := by
    rw [netCmdIfconfig, flags, netmask, newline, missing, List.flatMap_append, List.flatMap_cons,
      List.flatMap_cons, List.flatMap_cons, List.flatMap_nil]
    simp only [List.append_assoc, List.append_nil]
  rw [text, splitOn_lines]
  intro l member
  have inet : (10 : UInt8) ∉ ascii "      inet " := by decide
  have mask : (10 : UInt8) ∉ ascii "  netmask 255.255.255.0" := by decide
  have ether : (10 : UInt8) ∉ ascii "      ether " := by decide
  simp only [List.mem_append, List.mem_cons, List.not_mem_nil, or_false] at member
  rcases member with (rfl | rfl | rfl) | none_
  · decide
  · simp only [List.mem_append, inet, mask, false_or, or_false]
    exact fun newline => (kprintIp_chars newline).1 rfl
  · simp only [List.mem_append, ether, false_or]
    exact fun newline => (kprintMac_chars newline).1 rfl
  · split at none_
    · rw [List.mem_singleton.mp none_]
      decide
    · cases none_

/-- The text of `ifconfig` is that of the addresses and of the card's presence, and no other's. -/
theorem ifconfig_text_iff (st st' : NetState) : netCmdIfconfig st = netCmdIfconfig st' ↔
    st.ip = st'.ip ∧ st.mac = st'.mac ∧ (st.iobase = 0 ↔ st'.iobase = 0) := by
  constructor
  · intro same
    have lines := congrArg (·.splitOn 10) same
    simp only [netCmdIfconfig_lines, List.cons_append, List.nil_append, List.cons.injEq, true_and,
      List.append_cancel_left_eq, List.append_cancel_right_eq] at lines
    obtain ⟨ips, macs, missing⟩ := lines
    refine ⟨kprintIp_injective ips, kprintMac_injective macs, ?_⟩
    by_cases absent : st.iobase = 0 <;> by_cases absent' : st'.iobase = 0 <;>
      simp_all
  · rintro ⟨ip, mac, card⟩
    rw [netCmdIfconfig, netCmdIfconfig, ip, mac, if_congr card rfl rfl]

end MOKernel
