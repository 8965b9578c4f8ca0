import MOKernel.Decimal
import MOKernel.NetStack
import MOKernel.Separated

/-!
# Reading addresses

`parse_ip` reads a string in one pass, with the octet it is in and the number of
dots before it.  `scanIp_eq_some_iff` says what the pass has seen: the string is
up to four digit strings of value at most 255, separated by dots, and each of them
may be empty.  What `parse_ip` accepts is therefore exactly a quad of octets
(`parseIp_quad`, `parseIp_eq_one_iff`), and a quad with an empty octet is the one
kind of string on which it differs from dotted quads (`parseIp_dottedQuad_iff`).

`kprint_ip` prints no empty octet, so every printed address is read back
(`parseIp_kprintIp`).
-/

namespace MOKernel

/-! ## The scan -/

def makeIp (a b c d : UInt32) : IpAddr := (a <<< 24) ||| (b <<< 16) ||| (c <<< 8) ||| d

/-- The locals of `parse_ip`. -/
structure IpScan where
  ip : UInt32
  dots : Nat
  octet : UInt32
deriving DecidableEq

/-- The loop body of `parse_ip`; `none` is `return 0`. -/
def scanIpChar (st : IpScan) (c : UInt8) : Option IpScan :=
  if IsDigit c then
    let octet := st.octet * 10 + (c - 48).toUInt32
    if octet > 255 then none else some { st with octet := octet }
  else if c = 46 then
    let dots := st.dots + 1
    if dots > 3 then none else some { ip := (st.ip <<< 8) ||| st.octet, dots := dots, octet := 0 }
  else none

/-- The loop of `parse_ip`, to the NUL. -/
def scanIp (st : IpScan) : List UInt8 → Option IpScan
  | [] => some st
  | c :: s => if c = 0 then some st else (scanIpChar st c).bind fun st => scanIp st s

/-- `parse_ip`: the return value and `*out`. -/
def parseIp (s : List UInt8) (out : IpAddr) : Nat × IpAddr :=
  match scanIp ⟨0, 0, 0⟩ s with
  | none => (0, out)
  | some st => if st.dots ≠ 3 then (0, out) else (1, (st.ip <<< 8) ||| st.octet)

/-- The scan reads no further than the NUL. -/
theorem scanIp_append_nul (st : IpScan) {s : List UInt8} (nulFree : (0 : UInt8) ∉ s)
    (tail : List UInt8) : scanIp st (s ++ 0 :: tail) = scanIp st s := by
  induction s generalizing st with
  | nil => rfl
  | cons c s ih =>
    have tailFree : (0 : UInt8) ∉ s := List.not_mem_of_not_mem_cons nulFree
    have next : (fun st => scanIp st (s ++ 0 :: tail)) = fun st => scanIp st s := by
      funext st
      exact ih st tailFree
    rw [List.cons_append, scanIp, scanIp, next]

theorem scanIp_concat (st : IpScan) {s : List UInt8} {c : UInt8}
    (nulFree : (0 : UInt8) ∉ s ++ [c]) :
    scanIp st (s ++ [c]) = (scanIp st s).bind fun st => scanIpChar st c := by
  induction s generalizing st with
  | nil =>
    have notNul : c ≠ 0 := fun zero => nulFree (by simp [zero])
    simp [scanIp, notNul]
  | cons d s ih =>
    have notNul : d ≠ 0 := fun zero => nulFree (by simp [zero])
    have tailFree : (0 : UInt8) ∉ s ++ [c] := List.not_mem_of_not_mem_cons nulFree
    rw [List.cons_append, scanIp, scanIp, if_neg notNul, if_neg notNul]
    cases scanIpChar st d with
    | none => rfl
    | some st => exact ih st tailFree

/-! ## What has been read -/

/-- The text of an octet: digits, possibly none, of value at most 255. -/
def OctetText (t : List UInt8) : Prop := IsDigits t ∧ decimalValue t ≤ 255

instance : DecidablePred OctetText := fun t =>
  inferInstanceAs (Decidable (IsDigits t ∧ decimalValue t ≤ 255))

/-- Octets that a dot has ended, and the one being read. -/
def octetsText (ended : List (List UInt8)) (last : List UInt8) : List UInt8 :=
  ended.flatMap (fun t => t ++ [46]) ++ last

def octetValue (t : List UInt8) : UInt32 := UInt32.ofNat (decimalValue t)

/-- The locals after these octets. -/
def octetsScan (ended : List (List UInt8)) (last : List UInt8) : IpScan where
  ip := ended.foldl (fun ip t => (ip <<< 8) ||| octetValue t) 0
  dots := ended.length
  octet := octetValue last

theorem toNat_octetValue {t : List UInt8} (le : decimalValue t ≤ 255) :
    (octetValue t).toNat = decimalValue t := by
  rw [octetValue, UInt32.toNat_ofNat', Nat.mod_eq_of_lt (by omega)]

/-- Before the check the accumulator is at most 2559, and exact. -/
theorem octet_step {t : List UInt8} (octet : OctetText t) {c : UInt8} (digit : IsDigit c) :
    octetValue t * 10 + (c - 48).toUInt32 = octetValue (t ++ [c]) ∧
      (octetValue (t ++ [c])).toNat = decimalValue (t ++ [c]) ∧
      decimalValue (t ++ [c]) ≤ 2559 := by
  have small := octet.2
  have low := digit.digitOf_le
  have next := decimalValue_concat t c
  refine ⟨(ofNat_decimalValue_concat t digit).symm, ?_, by omega⟩
  rw [octetValue, UInt32.toNat_ofNat', Nat.mod_eq_of_lt (by omega)]

theorem octetText_prefix {t : List UInt8} {c : UInt8} (octet : OctetText (t ++ [c])) :
    OctetText t ∧ IsDigit c := by
  have digits := isDigits_append.mp octet.1
  exact ⟨⟨digits.1, (decimalValue_le_append t [c]).trans octet.2⟩, digits.2 c (by simp)⟩

/-- A digit goes to the open octet while its value stays an octet's. -/
theorem scanIpChar_digit {ended : List (List UInt8)} {t : List UInt8} (octet : OctetText t)
    {c : UInt8} (digit : IsDigit c) :
    scanIpChar (octetsScan ended t) c =
      if decimalValue (t ++ [c]) ≤ 255 then some (octetsScan ended (t ++ [c])) else none := by
  obtain ⟨step, value, -⟩ := octet_step octet digit
  have check : octetValue (t ++ [c]) > 255 ↔ ¬decimalValue (t ++ [c]) ≤ 255 := by
    rw [gt_iff_lt, UInt32.lt_iff_toNat_lt, value, Nat.not_le]
    rfl
  simp only [scanIpChar, digit, if_true, octetsScan, step, check, ite_not]

/-- A dot ends the open octet while there are fewer than three. -/
theorem scanIpChar_dot (ended : List (List UInt8)) (t : List UInt8) :
    scanIpChar (octetsScan ended t) 46 =
      if ended.length < 3 then some (octetsScan (ended ++ [t]) []) else none := by
  have noDigit : ¬IsDigit 46 := by decide
  have check : ended.length + 1 > 3 ↔ ¬ended.length < 3 := by omega
  simp only [scanIpChar, noDigit, if_false, if_true, octetsScan, check, ite_not,
    List.foldl_append, List.length_append, List.foldl_cons, List.foldl_nil, List.length_singleton]
  rfl

/-- The locals the pass can have after a string. -/
def OctetsRead (s : List UInt8) (st : IpScan) : Prop :=
  ∃ ended t, s = octetsText ended t ∧ st = octetsScan ended t ∧ ended.length ≤ 3 ∧
    (∀ t' ∈ ended, OctetText t') ∧ OctetText t

theorem octetsText_concat (ended : List (List UInt8)) (t : List UInt8) (c : UInt8) :
    octetsText ended (t ++ [c]) = octetsText ended t ++ [c] := by
  rw [octetsText, octetsText, List.append_assoc]

theorem octetsText_dot (ended : List (List UInt8)) (t : List UInt8) :
    octetsText (ended ++ [t]) [] = octetsText ended t ++ [46] := by
  simp [octetsText]

/-- A character the loop body accepts extends what has been read. -/
theorem OctetsRead.concat {s : List UInt8} {st st' : IpScan} {c : UInt8} (read : OctetsRead s st)
    (accepted : scanIpChar st c = some st') : OctetsRead (s ++ [c]) st' := by
  obtain ⟨ended, t, rfl, rfl, dots, octets, octet⟩ := read
  by_cases digit : IsDigit c
  · rw [scanIpChar_digit octet digit] at accepted
    split at accepted
    · next small =>
      cases accepted
      have digits : IsDigits (t ++ [c]) :=
        isDigits_append.mpr ⟨octet.1, isDigits_cons.mpr ⟨digit, isDigits_nil⟩⟩
      exact ⟨ended, t ++ [c], (octetsText_concat ended t c).symm, rfl, dots, octets, digits, small⟩
    · cases accepted
  · by_cases dot : c = 46
    · subst dot
      rw [scanIpChar_dot] at accepted
      split at accepted
      · next few =>
        cases accepted
        refine ⟨ended ++ [t], [], (octetsText_dot ended t).symm, rfl, ?_, ?_, isDigits_nil, ?_⟩
        · simpa using few
        · simpa [or_imp, forall_and] using ⟨octets, octet⟩
        · decide
      · cases accepted
    · simp [scanIpChar, digit, dot] at accepted

/-- What has been read after one more character is what had been read and a character
that the loop body accepts. -/
theorem OctetsRead.of_concat {s : List UInt8} {st' : IpScan} {c : UInt8}
    (read : OctetsRead (s ++ [c]) st') :
    ∃ st, OctetsRead s st ∧ scanIpChar st c = some st' := by
  obtain ⟨ended, t, text, rfl, dots, octets, octet⟩ := read
  rcases List.eq_nil_or_concat t with rfl | ⟨t, d, rfl⟩
  · -- the character is the dot that ended the last octet
    rcases List.eq_nil_or_concat ended with rfl | ⟨ended, t, rfl⟩
    · simp [octetsText] at text
    · rw [List.concat_eq_append, octetsText_dot] at text
      obtain ⟨rfl, last⟩ := List.append_inj' text rfl
      obtain rfl : c = 46 := by simpa using last
      have few : ended.length < 3 := by simpa using dots
      have octets' : (∀ t' ∈ ended, OctetText t') ∧ OctetText t := by
        simpa [or_imp, forall_and] using octets
      refine ⟨_, ⟨ended, t, rfl, rfl, few.le, octets'.1, octets'.2⟩, ?_⟩
      rw [scanIpChar_dot, if_pos few, List.concat_eq_append]
  · rw [List.concat_eq_append] at text octet ⊢
    rw [octetsText_concat] at text
    obtain ⟨rfl, last⟩ := List.append_inj' text rfl
    obtain rfl : c = d := by simpa using last
    obtain ⟨octet', digit⟩ := octetText_prefix octet
    refine ⟨_, ⟨ended, t, rfl, rfl, dots, octets, octet'⟩, ?_⟩
    rw [scanIpChar_digit octet' digit, if_pos octet.2]

/-- **What the pass has seen.**  It goes on while the string is octets separated by
dots, at most three of them ended. -/
theorem scanIp_eq_some_iff {s : List UInt8} (nulFree : (0 : UInt8) ∉ s) (st : IpScan) :
    scanIp ⟨0, 0, 0⟩ s = some st ↔ OctetsRead s st := by
  induction s using List.reverseRecOn generalizing st with
  | nil =>
    constructor
    · intro stop
      cases stop
      exact ⟨[], [], rfl, rfl, by decide, by simp, isDigits_nil, by decide⟩
    · rintro ⟨ended, t, text, rfl, -, -, -⟩
      obtain ⟨noDots, rfl⟩ := List.append_eq_nil_iff.mp text.symm
      obtain rfl : ended = [] := by
        cases ended with
        | nil => rfl
        | cons t' ended => simp at noDots
      rfl
  | append_singleton s c ih =>
    have frontFree : (0 : UInt8) ∉ s := fun member => nulFree (List.mem_append_left _ member)
    rw [scanIp_concat _ nulFree, Option.bind_eq_some_iff]
    constructor
    · rintro ⟨st', front, accepted⟩
      exact ((ih frontFree st').mp front).concat accepted
    · intro read
      obtain ⟨st', front, accepted⟩ := read.of_concat
      exact ⟨st', (ih frontFree st').mpr front, accepted⟩

/-! ## Quads -/

/-- Four texts separated by dots. -/
def quadText (a b c d : List UInt8) : List UInt8 :=
  a ++ ascii "." ++ b ++ ascii "." ++ c ++ ascii "." ++ d

theorem octetsText_quad (a b c d : List UInt8) : octetsText [a, b, c] d = quadText a b c d := by
  simp [octetsText, quadText, ascii]

/-- Quads of texts without dots have the same parts. -/
theorem quadText_inj {a b c d a' b' c' d' : List UInt8}
    (free : ∀ t ∈ [a, b, c, a', b', c'], (46 : UInt8) ∉ t)
    (same : quadText a b c d = quadText a' b' c' d') : a = a' ∧ b = b' ∧ c = c' ∧ d = d' := by
  have dots {x y z w : List UInt8} :
      quadText x y z w = x ++ 46 :: (y ++ 46 :: (z ++ 46 :: w)) := by
    simp [quadText, ascii]
  rw [dots, dots] at same
  obtain ⟨first, same⟩ := append_sep_inj (free a (by simp)) (free a' (by simp)) same
  obtain ⟨second, same⟩ := append_sep_inj (free b (by simp)) (free b' (by simp)) same
  obtain ⟨third, fourth⟩ := append_sep_inj (free c (by simp)) (free c' (by simp)) same
  exact ⟨first, second, third, fourth⟩

/-- Shifting the octets in one by one is `MAKE_IP`. -/
theorem octetsScan_makeIp (a b c d : List UInt8) :
    ((octetsScan [a, b, c] d).ip <<< 8) ||| (octetsScan [a, b, c] d).octet =
      makeIp (octetValue a) (octetValue b) (octetValue c) (octetValue d) := by
  have two (x : UInt32) : x <<< 8 <<< 8 = x <<< 16 :=
    (UInt32.shiftLeft_add_of_toNat_lt (b := 8) (c := 8) (by decide)).symm
  have three (x : UInt32) : x <<< 16 <<< 8 = x <<< 24 :=
    (UInt32.shiftLeft_add_of_toNat_lt (b := 16) (c := 8) (by decide)).symm
  simp only [octetsScan, List.foldl_cons, List.foldl_nil, UInt32.shiftLeft_or, makeIp, two, three,
    UInt32.zero_shiftLeft, UInt32.zero_or]

/-- A quad of octets, any of which may be empty. -/
structure OctetQuad (s a b c d : List UInt8) : Prop where
  text : s = quadText a b c d
  octets : ∀ t ∈ [a, b, c, d], OctetText t

/-- A quad consists of digits and dots. -/
theorem OctetQuad.digit_or_dot {s a b c d : List UInt8} (quad : OctetQuad s a b c d) {x : UInt8}
    (member : x ∈ s) : IsDigit x ∨ x = 46 := by
  have octet (t : List UInt8) (part : t ∈ [a, b, c, d]) (inside : x ∈ t) : IsDigit x :=
    (quad.octets t part).1 x inside
  rw [quad.text, quadText, ascii] at member
  have dot : List.map (fun c => UInt8.ofNat c.toNat) ".".toList = [46] := rfl
  simp only [dot, List.mem_append, List.mem_singleton] at member
  rcases member with (((((in_a | is_dot) | in_b) | is_dot) | in_c) | is_dot) | in_d
  · exact .inl (octet a (by simp) in_a)
  · exact .inr is_dot
  · exact .inl (octet b (by simp) in_b)
  · exact .inr is_dot
  · exact .inl (octet c (by simp) in_c)
  · exact .inr is_dot
  · exact .inl (octet d (by simp) in_d)

theorem OctetQuad.nulFree {s a b c d : List UInt8} (quad : OctetQuad s a b c d) :
    (0 : UInt8) ∉ s := by
  intro member
  rcases quad.digit_or_dot member with digit | dot
  · exact absurd digit (by decide)
  · cases dot

/-- A string is a quad of octets in one way only. -/
theorem OctetQuad.unique {s a b c d a' b' c' d' : List UInt8} (quad : OctetQuad s a b c d)
    (quad' : OctetQuad s a' b' c' d') : a = a' ∧ b = b' ∧ c = c' ∧ d = d' := by
  have free (t : List UInt8) (octet : OctetText t) : (46 : UInt8) ∉ t :=
    octet.1.not_mem (by decide)
  have left := quad.octets
  have right := quad'.octets
  refine quadText_inj ?_ (quad.text.symm.trans quad'.text)
  intro t member
  apply free t
  simp only [List.mem_cons, List.not_mem_nil, or_false] at member left right
  rcases member with rfl | rfl | rfl | rfl | rfl | rfl <;> simp [left, right]

/-- **Quads are accepted**, with the address they denote. -/
theorem parseIp_quad {s a b c d : List UInt8} (quad : OctetQuad s a b c d) (out : IpAddr) :
    parseIp s out = (1, makeIp (octetValue a) (octetValue b) (octetValue c) (octetValue d)) := by
  have octets := quad.octets
  simp only [List.mem_cons, List.not_mem_nil, or_false, forall_eq_or_imp, forall_eq] at octets
  obtain ⟨first, second, third, fourth⟩ := octets
  have read : OctetsRead s (octetsScan [a, b, c] d) :=
    ⟨[a, b, c], d, quad.text.trans (octetsText_quad a b c d).symm, rfl, le_rfl,
      by simp [first, second, third], fourth⟩
  have scan := (scanIp_eq_some_iff quad.nulFree _).mpr read
  have dots : (octetsScan [a, b, c] d).dots = 3 := rfl
  simp only [parseIp, scan, dots, ne_eq, not_true_eq_false, if_false, octetsScan_makeIp]

/-- **Nothing else is accepted**, and `*out` keeps its value. -/
theorem parseIp_of_not_quad {s : List UInt8} (nulFree : (0 : UInt8) ∉ s)
    (other : ¬∃ a b c d, OctetQuad s a b c d) (out : IpAddr) : parseIp s out = (0, out) := by
  cases scan : scanIp ⟨0, 0, 0⟩ s with
  | none => simp [parseIp, scan]
  | some st =>
    obtain ⟨ended, d, text, rfl, -, octets, octet⟩ := (scanIp_eq_some_iff nulFree st).mp scan
    have dots : (octetsScan ended d).dots ≠ 3 := by
      intro three
      obtain ⟨a, b, c, rfl⟩ := List.length_eq_three.mp three
      refine other ⟨a, b, c, d, text.trans (octetsText_quad a b c d), ?_⟩
      simp only [List.mem_cons, List.not_mem_nil, or_false] at octets ⊢
      rintro t (first | second | third | rfl)
      · exact octets t (.inl first)
      · exact octets t (.inr (.inl second))
      · exact octets t (.inr (.inr third))
      · exact octet
    simp [parseIp, scan, dots]

theorem parseIp_append_nul {s : List UInt8} (nulFree : (0 : UInt8) ∉ s) (tail : List UInt8)
    (out : IpAddr) : parseIp (s ++ 0 :: tail) out = parseIp s out := by
  rw [parseIp, parseIp, scanIp_append_nul _ nulFree]

/-! ## Dotted quads -/

/-- Four octets, none of them empty. -/
def DottedQuad (s a b c d : List UInt8) : Prop :=
  OctetQuad s a b c d ∧ ∀ t ∈ [a, b, c, d], t ≠ []

/-- What reading dotted quads asks of `parse_ip` on a string in memory. -/
structure ReadsDottedQuads (s : CStr) (tail : List UInt8) : Prop where
  accepts : ∀ out, (parseIp (s.chars ++ 0 :: tail) out).1 = 1 ↔
    ∃ a b c d, DottedQuad s.chars a b c d
  address : ∀ out a b c d, DottedQuad s.chars a b c d → parseIp (s.chars ++ 0 :: tail) out =
    (1, makeIp (octetValue a) (octetValue b) (octetValue c) (octetValue d))
  rejects : ∀ out, (¬∃ a b c d, DottedQuad s.chars a b c d) →
    parseIp (s.chars ++ 0 :: tail) out = (0, out)
  bounded : ∀ front c rest st, s.chars = front ++ c :: rest → scanIp ⟨0, 0, 0⟩ front = some st →
    IsDigit c → (st.octet * 10 + (c - 48).toUInt32).toNat = st.octet.toNat * 10 + digitOf c ∧
      st.octet.toNat * 10 + digitOf c ≤ 2559

/-- The accumulator is bounded on every string. -/
theorem octet_bounded {front : List UInt8} (nulFree : (0 : UInt8) ∉ front) {c : UInt8}
    {st : IpScan} (scan : scanIp ⟨0, 0, 0⟩ front = some st) (digit : IsDigit c) :
    (st.octet * 10 + (c - 48).toUInt32).toNat = st.octet.toNat * 10 + digitOf c ∧
      st.octet.toNat * 10 + digitOf c ≤ 2559 := by
  obtain ⟨ended, t, -, rfl, -, -, octet⟩ := (scanIp_eq_some_iff nulFree st).mp scan
  obtain ⟨step, value, bound⟩ := octet_step octet digit
  have next := decimalValue_concat t c
  have before : (octetsScan ended t).octet.toNat = decimalValue t := toNat_octetValue octet.2
  have same : (octetsScan ended t).octet * 10 + (c - 48).toUInt32 = octetValue (t ++ [c]) := step
  rw [same, value, before]
  omega

/-- **Dotted quads.**  `parse_ip` reads a string as a dotted quad should be read exactly
when the string is no quad with an empty octet. -/
theorem parseIp_dottedQuad_iff (s : CStr) (tail : List UInt8) :
    ReadsDottedQuads s tail ↔ ¬∃ a b c d, OctetQuad s.chars a b c d ∧ [] ∈ [a, b, c, d] := by
  constructor
  · rintro reads ⟨a, b, c, d, quad, empty⟩
    have one : (parseIp (s.chars ++ 0 :: tail) 0).1 = 1 := by
      rw [parseIp_append_nul s.nulFree, parseIp_quad quad]
    obtain ⟨a', b', c', d', quad', nonempty⟩ := (reads.accepts 0).mp one
    obtain ⟨rfl, rfl, rfl, rfl⟩ := quad.unique quad'
    exact nonempty [] empty rfl
  · intro full
    have dotted {a b c d : List UInt8} (quad : OctetQuad s.chars a b c d) :
        DottedQuad s.chars a b c d := by
      refine ⟨quad, fun t member empty => full ⟨a, b, c, d, quad, ?_⟩⟩
      rwa [empty] at member
    have rejects (other : ¬∃ a b c d, DottedQuad s.chars a b c d) (out : IpAddr) :
        parseIp (s.chars ++ 0 :: tail) out = (0, out) := by
      rw [parseIp_append_nul s.nulFree]
      refine parseIp_of_not_quad s.nulFree ?_ out
      rintro ⟨a, b, c, d, quad⟩
      exact other ⟨a, b, c, d, dotted quad⟩
    have address (out : IpAddr) (a b c d : List UInt8) (quad : DottedQuad s.chars a b c d) :
        parseIp (s.chars ++ 0 :: tail) out =
          (1, makeIp (octetValue a) (octetValue b) (octetValue c) (octetValue d)) := by
      rw [parseIp_append_nul s.nulFree, parseIp_quad quad.1]
    refine ⟨fun out => ⟨fun one => ?_, ?_⟩, address, fun out other => rejects other out, ?_⟩
    · by_contra other
      rw [rejects other] at one
      cases one
    · rintro ⟨a, b, c, d, quad⟩
      rw [address out a b c d quad]
    · intro front c rest st split scan digit
      refine octet_bounded (fun member => s.nulFree ?_) scan digit
      rw [split]
      exact List.mem_append_left _ member

/-- `...` is accepted as 0.0.0.0. -/
theorem parseIp_empty_octets : ¬ReadsDottedQuads ⟨ascii "...", by decide⟩ [] := by
  intro reads
  have one : (parseIp (ascii "..." ++ [0]) 7).1 = 1 := by decide
  obtain ⟨a, b, c, d, quad, nonempty⟩ := (reads.accepts 7).mp one
  have dots : (ascii "...").length = 3 := by decide
  have first : 0 < a.length := List.length_pos_iff.mpr (nonempty a (by simp))
  have length := congrArg List.length quad.text
  rw [dots] at length
  simp only [quadText, List.length_append] at length
  have dot : (ascii ".").length = 1 := rfl
  omega

/-! ## Printed addresses -/

theorem toNat_ne_zero {v : UInt32} (nonzero : v ≠ 0) : v.toNat ≠ 0 :=
  fun zero => nonzero (UInt32.toNat_inj.mp zero)

/-- The last digit as `kprint_dec` computes it. -/
theorem toUInt8_lastDigit (v : UInt32) :
    (48 + v % 10).toUInt8 = UInt8.ofNat (48 + v.toNat % 10) := by
  apply UInt8.toNat_inj.mp
  simp only [UInt32.toNat_toUInt8, UInt32.toNat_add, UInt32.toNat_mod, UInt32.reduceToNat,
    UInt8.toNat_ofNat']
  omega

theorem decDigits_eq (v : UInt32) :
    decDigits v = (Nat.digits 10 v.toNat).map fun d => UInt8.ofNat (48 + d) := by
  fun_induction decDigits v with
  | case1 v more ih =>
    have nonzero := toNat_ne_zero more
    rw [ih, toUInt8_lastDigit, Nat.digits_def' (by decide) (Nat.pos_of_ne_zero nonzero),
      List.map_cons, UInt32.toNat_div]
    rfl
  | case2 v stop =>
    obtain rfl : v = 0 := not_not.mp stop
    rfl

theorem kprintDec_eq (v : UInt32) : kprintDec v = decimalText v.toNat := by
  rw [kprintDec, decimalText]
  rcases eq_or_ne v 0 with rfl | nonzero
  · rfl
  · have nonzero' := toNat_ne_zero nonzero
    rw [if_neg nonzero, if_neg nonzero', decDigits_eq, List.map_reverse]

/-- The four octets of an address, put together again. -/
theorem makeIp_octets (ip : UInt32) :
    makeIp ((ip >>> 24) &&& 0xFF) ((ip >>> 16) &&& 0xFF) ((ip >>> 8) &&& 0xFF) (ip &&& 0xFF) =
      ip := by
  have byte (x : UInt32) : x &&& 0xFF = x.toUInt8.toUInt32 := by
    apply UInt32.toNat_inj.mp
    rw [UInt32.toNat_and, UInt8.toNat_toUInt32, UInt32.toNat_toUInt8]
    exact Nat.and_two_pow_sub_one_eq_mod _ 8
  have reorder (a b c d : UInt32) : a ||| b ||| c ||| d = d ||| c ||| b ||| a := by
    rw [UInt32.or_comm, UInt32.or_comm (a ||| b) c, UInt32.or_comm a b, ← UInt32.or_assoc,
      ← UInt32.or_assoc]
  conv_rhs => rw [← ofLe32_le32 ip, ofLe32]
  rw [makeIp, byte, byte, byte, byte]
  exact reorder _ _ _ _

/-- **Printed addresses are read back.** -/
theorem parseIp_kprintIp (ip out : IpAddr) (tail : List UInt8) :
    parseIp (kprintIp ip ++ 0 :: tail) out = (1, ip) := by
  have le (x : UInt32) : (x &&& 0xFF).toNat ≤ 255 := by
    rw [UInt32.toNat_and]
    exact Nat.and_le_right
  have octet (x : UInt32) : OctetText (decimalText (x &&& 0xFF).toNat) :=
    ⟨isDigits_decimalText _, by rw [decimalValue_decimalText]; exact le x⟩
  have value (x : UInt32) : octetValue (decimalText (x &&& 0xFF).toNat) = x &&& 0xFF := by
    apply UInt32.toNat_inj.mp
    rw [toNat_octetValue (octet x).2, decimalValue_decimalText]
  have quad : OctetQuad (kprintIp ip) (decimalText ((ip >>> 24) &&& 0xFF).toNat)
      (decimalText ((ip >>> 16) &&& 0xFF).toNat) (decimalText ((ip >>> 8) &&& 0xFF).toNat)
      (decimalText (ip &&& 0xFF).toNat) := by
    refine ⟨?_, ?_⟩
    · simp only [kprintIp, kprintDec_eq, quadText]
    · simp only [List.mem_cons, List.not_mem_nil, or_false]
      rintro t (rfl | rfl | rfl | rfl) <;> exact octet _
  rw [parseIp_append_nul quad.nulFree, parseIp_quad quad, value, value, value, value,
    makeIp_octets]

end MOKernel
