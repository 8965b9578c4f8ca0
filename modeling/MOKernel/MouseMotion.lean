import MOKernel.MouseSafe

/-!
# The motion law

A PS/2 packet moves the pointer by two nine-bit numbers, whose signs are in its first
byte.  `motion` is the law: add the horizontal one, subtract the vertical one, stay on the
screen.  The handler keeps the bytes in `char` and sends a pointer that leaves the screen
at the top to the bottom line, so it follows the law on the packets that `Tracked` describes
and on no others (`mouse_motion_iff`).
-/

namespace MOKernel

/-- A packet: its first byte has the sync bit set. -/
structure MousePacket where
  b0 : UInt8
  b1 : UInt8
  b2 : UInt8
  sync : b0 &&& 0x08 ≠ 0

namespace MousePacket

def bytes (p : MousePacket) : List UInt8 := [p.b0, p.b1, p.b2]

/-- The horizontal motion: `b1` and its sign bit. -/
def dx (p : MousePacket) : Int := p.b1.toNat - if p.b0 &&& 0x10 ≠ 0 then 256 else 0

/-- The vertical motion, upwards: `b2` and its sign bit. -/
def dy (p : MousePacket) : Int := p.b2.toNat - if p.b0 &&& 0x20 ≠ 0 then 256 else 0

end MousePacket

/-- The law for one packet. -/
def motion (pos : Int × Int) (p : MousePacket) : Int × Int :=
  (max 0 (min (pos.1 + p.dx) 79), max 0 (min (pos.2 - p.dy) 24))

def Mouse.position (mouse : Mouse) : Int × Int := (mouse.mouseX, mouse.mouseY)

/-- The bytes that a sequence of calls delivers: those read with the output-buffer bit set. -/
def deliveredBytes (calls : List MouseCall) : List UInt8 :=
  (calls.filter fun call => call.status &&& 1 ≠ 0).map MouseCall.byte

/-- The pointer is where the law puts it after each packet of a sequence, however the bytes
are delivered. -/
def FollowsLaw (mouse : Mouse) (packets : List MousePacket) : Prop :=
  ∀ done calls, done <+: packets → deliveredBytes calls = done.flatMap MousePacket.bytes →
    (mouseRun mouse calls).position = done.foldl motion mouse.position

/-- The packets the handler moves by the law, from a position: no byte of 128 or more is added
as the negative number that `char` makes of it, and the pointer does not leave at the
top.  A large byte with its sign bit set does no harm where the law reaches the edge too. -/
def MousePacket.Tracked (p : MousePacket) (pos : Int × Int) : Prop :=
  (p.b1.toNat < 128 ∨ p.b0 &&& 0x10 ≠ 0 ∧ pos.1 + p.b1.toNat ≤ 256) ∧
    (p.b2.toNat < 128 ∧ (p.b0 &&& 0x20 ≠ 0 ∨ p.b2.toNat ≤ pos.2) ∨
      128 ≤ p.b2.toNat ∧ p.b0 &&& 0x20 ≠ 0 ∧ p.b2.toNat ≤ pos.2 + 232)

instance (p : MousePacket) (pos : Int × Int) : Decidable (p.Tracked pos) :=
  inferInstanceAs (Decidable (_ ∧ _))

variable {mouse : Mouse}

/-! ## Calls and bytes -/

theorem mouseRun_eq (mouse : Mouse) (calls : List MouseCall) :
    mouseRun mouse calls = (deliveredBytes calls).foldl mousePacket mouse := by
  induction calls generalizing mouse with
  | nil => rfl
  | cons call calls ih =>
    rw [mouseRun, List.foldl_cons, MouseCall.perform, mouseHandlerMain, deliveredBytes]
    split
    · rename_i idle
      rw [List.filter_cons_of_neg (by simpa using idle)]
      exact ih mouse
    · rename_i read
      rw [List.filter_cons_of_pos (by simpa using read)]
      exact ih (mousePacket mouse call.byte)

/-- Any bytes can be delivered. -/
theorem exists_calls (con : Console) (bytes : List UInt8) :
    ∃ calls, deliveredBytes calls = bytes := by
  refine ⟨bytes.map fun byte => ⟨con, 1, byte⟩, ?_⟩
  induction bytes with
  | nil => rfl
  | cons byte bytes ih =>
    rw [List.map_cons, deliveredBytes, List.filter_cons_of_pos (by simp), List.map_cons]
    exact congrArg (byte :: ·) ih

/-! ## One packet -/

/-- A byte as `char`. -/
theorem toInt8_cases (b : UInt8) :
    b.toNat < 128 ∧ b.toInt8.toInt = b.toNat ∨ 128 ≤ b.toNat ∧ b.toInt8.toInt = b.toNat - 256 := by
  have value : b.toInt8.toInt = b.toBitVec.toInt := rfl
  rw [value, BitVec.toInt_eq_toNat_cond, UInt8.toNat_toBitVec]
  split <;> omega

/-- The bits of a byte are those of the `char`. -/
theorem toInt8_and_ne_zero {b mask : UInt8} : b.toInt8 &&& mask.toInt8 ≠ 0 ↔ b &&& mask ≠ 0 := by
  rw [← UInt8.toInt8_and]
  exact not_congr ⟨fun zero => UInt8.toBitVec_inj.mp (congrArg Int8.toBitVec zero),
    fun zero => congrArg UInt8.toInt8 zero⟩

/-- The globals when the third byte of a packet is in. -/
def packetIn (mouse : Mouse) (p : MousePacket) : Mouse :=
  { mouse with mouseByte := #v[p.b0.toInt8, p.b1.toInt8, p.b2.toInt8], mouseCycle := 2 }

/-- The handler over a packet. -/
theorem mousePacket_packet (start : mouse.mouseCycle = 0) (p : MousePacket) :
    p.bytes.foldl mousePacket mouse = { moveMouse (packetIn mouse p) with mouseCycle := 0 } := by
  have first : mousePacket mouse p.b0 =
      { mouse with mouseByte := mouse.mouseByte.set 0 p.b0.toInt8, mouseCycle := 1 } := by
    rw [mousePacket, if_pos start, if_neg p.sync, start]
    rfl
  have held : ((mouse.mouseByte.set 0 p.b0.toInt8).set 1 p.b1.toInt8).set 2 p.b2.toInt8 =
      #v[p.b0.toInt8, p.b1.toInt8, p.b2.toInt8] := by
    ext i lt
    interval_cases i <;> simp
  have third (mouse : Mouse) (last : mouse.mouseCycle = 2) (byte : UInt8) :
      mousePacket mouse byte =
        { moveMouse { mouse with mouseByte := mouse.mouseByte.set 2 byte.toInt8 } with
          mouseCycle := 0 } := by
    rw [mousePacket, if_neg (by rw [last]; decide), if_neg (by rw [last]; decide), if_pos last]
  have second : mousePacket
      { mouse with mouseByte := mouse.mouseByte.set 0 p.b0.toInt8, mouseCycle := 1 } p.b1 =
        { mouse with
          mouseByte := (mouse.mouseByte.set 0 p.b0.toInt8).set 1 p.b1.toInt8,
          mouseCycle := 2 } := by
    rw [mousePacket, if_neg one_ne_zero, if_pos rfl]
    rfl
  rw [MousePacket.bytes, List.foldl_cons, first, List.foldl_cons, second, List.foldl_cons,
    third _ rfl, packetIn, ← held]
  rfl

theorem movedX_packetIn (mouse : Mouse) (p : MousePacket) :
    movedX (packetIn mouse p) =
      if p.b0 &&& 0x10 ≠ 0 then mouse.mouseX - (256 - p.b1.toInt8.toInt)
      else mouse.mouseX + p.b1.toInt8.toInt :=
  if_congr toInt8_and_ne_zero rfl rfl

theorem movedY_packetIn (mouse : Mouse) (p : MousePacket) :
    movedY (packetIn mouse p) =
      if p.b0 &&& 0x20 ≠ 0 then mouse.mouseY + (256 - p.b2.toInt8.toInt)
      else mouse.mouseY - p.b2.toInt8.toInt :=
  if_congr toInt8_and_ne_zero rfl rfl

/-- Where the handler puts the pointer. -/
theorem position_packet (start : mouse.mouseCycle = 0) (p : MousePacket) :
    (p.bytes.foldl mousePacket mouse).position =
      (max 0 (min (movedX (packetIn mouse p)) 79),
        if movedY (packetIn mouse p) < 0 then 24 else min (movedY (packetIn mouse p)) 24) := by
  rw [mousePacket_packet start, Mouse.position]
  simp only [moveMouse_eq, clampMouse_mouseX, clampMouse_mouseY]

theorem tracksX_iff (inside : mouse.OnScreen) (p : MousePacket) :
    max 0 (min (movedX (packetIn mouse p)) 79) = max 0 (min (mouse.mouseX + p.dx) 79) ↔
      p.b1.toNat < 128 ∨ p.b0 &&& 0x10 ≠ 0 ∧ mouse.mouseX + p.b1.toNat ≤ 256 := by
  have byte := p.b1.toNat_lt
  obtain ⟨left, right, -, -⟩ := inside
  rw [movedX_packetIn, MousePacket.dx]
  rcases toInt8_cases p.b1 with ⟨small, value⟩ | ⟨large, value⟩
  · rw [value]
    split <;> simp only [*, true_or, iff_true] <;> omega
  · rw [value]
    by_cases negative : p.b0 &&& 0x10 ≠ 0
    · rw [if_pos negative, if_pos negative]
      simp only [negative, ne_eq, not_false_eq_true, true_and]
      omega
    · rw [if_neg negative, if_neg negative]
      simp only [negative, false_and, or_false]
      omega

theorem tracksY_iff (inside : mouse.OnScreen) (p : MousePacket) :
    (if movedY (packetIn mouse p) < 0 then 24 else min (movedY (packetIn mouse p)) 24) =
        max 0 (min (mouse.mouseY - p.dy) 24) ↔
      p.b2.toNat < 128 ∧ (p.b0 &&& 0x20 ≠ 0 ∨ p.b2.toNat ≤ mouse.mouseY) ∨
        128 ≤ p.b2.toNat ∧ p.b0 &&& 0x20 ≠ 0 ∧ p.b2.toNat ≤ mouse.mouseY + 232 := by
  have byte := p.b2.toNat_lt
  obtain ⟨-, -, top, bottom⟩ := inside
  rw [movedY_packetIn, MousePacket.dy]
  by_cases negative : p.b0 &&& 0x20 ≠ 0
  · rw [if_pos negative, if_pos negative]
    simp only [negative, ne_eq, not_false_eq_true, true_and, true_or, and_true]
    rcases toInt8_cases p.b2 with ⟨small, value⟩ | ⟨large, value⟩
    · rw [value, if_neg (by omega)]
      omega
    · rw [value, if_neg (by omega)]
      omega
  · rw [if_neg negative, if_neg negative]
    simp only [negative, false_and, false_or, and_false, or_false]
    rcases toInt8_cases p.b2 with ⟨small, value⟩ | ⟨large, value⟩
    · rw [value]
      split <;> omega
    · rw [value, if_neg (by omega)]
      omega

/-- The handler follows the law on exactly the packets that are tracked. -/
theorem motion_iff_tracked (start : mouse.mouseCycle = 0) (inside : mouse.OnScreen)
    (p : MousePacket) :
    (p.bytes.foldl mousePacket mouse).position = motion mouse.position p ↔
      p.Tracked mouse.position := by
  rw [position_packet start, motion, Prod.mk.injEq]
  exact and_congr (tracksX_iff inside p) (tracksY_iff inside p)

/-- A packet leaves the handler ready for the next one. -/
theorem packet_ready (start : mouse.mouseCycle = 0) (p : MousePacket) :
    (p.bytes.foldl mousePacket mouse).mouseCycle = 0 ∧
      (p.bytes.foldl mousePacket mouse).OnScreen := by
  rw [mousePacket_packet start, moveMouse_eq]
  obtain ⟨left, right, top, bottom⟩ := clampMouse_onScreen
    { packetIn mouse p with
      mouseX := movedX (packetIn mouse p), mouseY := movedY (packetIn mouse p) }
  exact ⟨rfl, left, right, top, bottom⟩

theorem packets_ready (start : mouse.mouseCycle = 0) (inside : mouse.OnScreen)
    (packets : List MousePacket) :
    ((packets.flatMap MousePacket.bytes).foldl mousePacket mouse).mouseCycle = 0 ∧
      ((packets.flatMap MousePacket.bytes).foldl mousePacket mouse).OnScreen := by
  induction packets generalizing mouse with
  | nil => exact ⟨start, inside⟩
  | cons p packets ih =>
    rw [List.flatMap_cons, List.foldl_append]
    obtain ⟨start', inside'⟩ := packet_ready start p
    exact ih start' inside'

/-! ## Runs -/

theorem followsLaw_iff (mouse : Mouse) (packets : List MousePacket) :
    FollowsLaw mouse packets ↔ ∀ done, done <+: packets →
      ((done.flatMap MousePacket.bytes).foldl mousePacket mouse).position =
        done.foldl motion mouse.position := by
  constructor
  · intro law done prefixed
    obtain ⟨calls, delivered⟩ := exists_calls ⟨fun _ => 0, 0⟩ (done.flatMap MousePacket.bytes)
    rw [← law done calls prefixed delivered, mouseRun_eq, delivered]
  · intro law done calls prefixed delivered
    rw [mouseRun_eq, delivered]
    exact law done prefixed

/-- **The motion law.**  From any state the driver can be in between packets, the pointer is
where the law puts it after each packet exactly when every packet is tracked from the
position before it. -/
theorem mouse_motion_iff (before : List MouseCall)
    (ready : (mouseRun mouseBoot before).mouseCycle = 0) (packets : List MousePacket) :
    FollowsLaw (mouseRun mouseBoot before) packets ↔
      ∀ done p, done ++ [p] <+: packets →
        p.Tracked (done.foldl motion (mouseRun mouseBoot before).position) := by
  have inside := (mouseRun_sound mouseBoot_sound before).toOnScreen
  generalize mouseRun mouseBoot before = mouse at ready inside ⊢
  rw [followsLaw_iff]
  constructor
  · intro law done p prefixed
    have earlier : done <+: packets := (List.prefix_append done [p]).trans prefixed
    have state := packets_ready ready inside done
    rw [← law done earlier, ← motion_iff_tracked state.1 state.2]
    have later := law _ prefixed
    rw [List.flatMap_append, List.foldl_append, List.foldl_append, List.flatMap_singleton] at later
    rw [later, law done earlier]
    rfl
  · intro tracked done
    induction done using List.reverseRecOn with
    | nil => exact fun _ => rfl
    | append_singleton done p ih =>
      intro prefixed
      have earlier : done <+: packets := (List.prefix_append done [p]).trans prefixed
      have state := packets_ready ready inside done
      have now := tracked done p prefixed
      rw [← ih earlier, ← motion_iff_tracked state.1 state.2] at now
      rw [List.flatMap_append, List.foldl_append, List.foldl_append, List.flatMap_singleton, now,
        ih earlier]
      rfl

theorem mouse_motion_right :
    FollowsLaw (mouseRun mouseBoot []) [⟨0x08, 100, 12, by decide⟩] := by
  refine (mouse_motion_iff [] rfl _).mpr fun done p prefixed => ?_
  obtain ⟨rfl, rfl⟩ : done = [] ∧ p = ⟨0x08, 100, 12, by decide⟩ := by
    cases done with
    | nil => simpa using prefixed
    | cons q done => simpa using prefixed.length_le
  decide

/-- A packet that moves the pointer up by 13 from line 12 puts it on the bottom line, and one that
moves it right by 128 puts it on the left edge. -/
theorem mouse_breaks_motion_law :
    ¬ FollowsLaw mouseBoot [⟨0x08, 0, 13, by decide⟩] ∧
      ¬ FollowsLaw mouseBoot [⟨0x08, 128, 0, by decide⟩] := by
  constructor
  · intro law
    have position := (followsLaw_iff _ _).mp law _ (List.prefix_refl _)
    exact absurd position (by decide)
  · intro law
    have position := (followsLaw_iff _ _).mp law _ (List.prefix_refl _)
    exact absurd position (by decide)

end MOKernel
