import MOKernel.LineEditor

/-!
# Held keys and modifier flags

A physical keyboard, the scancodes of set 1 it sends and the flags the handler keeps of
them.  A key event is a press, a typematic repeat or a release; which keys are held says
which events are possible.  The flags are those of `Modifiers.decode`; the two Shift keys
share one, so it is lost when one of them is released under the other
(`modifiers_track_iff`).
-/

namespace MOKernel

/-! ## Physical keys -/

/-- A make code of set 1.  The break code has the top bit set as well and is not the
prefix `E0`. -/
@[ext]
structure MakeCode where
  code : UInt8
  low : code < 0x80
  noPrefix : code ≠ 0x60
deriving DecidableEq

def MakeCode.breakCode (c : MakeCode) : UInt8 := c.code ||| 0x80

/-- A key sends its make code, or sends it behind `E0`; Pause has a sequence of its own. -/
inductive PhysKey
  | plain (c : MakeCode)
  | extended (c : MakeCode)
  | pause
deriving DecidableEq

namespace PhysKey

def leftCtrl : PhysKey := .plain ⟨0x1D, by decide, by decide⟩

def rightCtrl : PhysKey := .extended ⟨0x1D, by decide, by decide⟩

def leftShift : PhysKey := .plain ⟨0x2A, by decide, by decide⟩

def rightShift : PhysKey := .plain ⟨0x36, by decide, by decide⟩

end PhysKey

/-- What happens at the keyboard.  The keyboard brackets some extended keys with shift
codes behind `E0` that no key stands for. -/
inductive KeyEvent
  | press (k : PhysKey)
  | again (k : PhysKey)
  | release (k : PhysKey)
  | bracket (right released : Bool)
deriving DecidableEq

namespace KeyEvent

/-- Only a key that is up is pressed, and only a held key repeats or is released. -/
def Possible (held : Finset PhysKey) : KeyEvent → Prop
  | .press k => k ∉ held
  | .again k => k ∈ held
  | .release k => k ∈ held
  | .bracket _ _ => True

instance (held : Finset PhysKey) : (e : KeyEvent) → Decidable (e.Possible held)
  | .press k => inferInstanceAs (Decidable (k ∉ held))
  | .again k => inferInstanceAs (Decidable (k ∈ held))
  | .release k => inferInstanceAs (Decidable (k ∈ held))
  | .bracket _ _ => inferInstanceAs (Decidable True)

/-- The keys held after an event. -/
def heldAfter (held : Finset PhysKey) : KeyEvent → Finset PhysKey
  | .press k => insert k held
  | .again _ => held
  | .release k => held.erase k
  | .bracket _ _ => held

/-- The scancodes of an event.  Pause sends make and break codes at once and neither
repeats nor reports its release; with a Ctrl key held it sends another sequence. -/
def codes (held : Finset PhysKey) : KeyEvent → List UInt8
  | .press (.plain c) => [c.code]
  | .press (.extended c) => [0xE0, c.code]
  | .press .pause =>
    if .leftCtrl ∈ held ∨ .rightCtrl ∈ held then [0xE0, 0x46, 0xE0, 0xC6]
    else [0xE1, 0x1D, 0x45, 0xE1, 0x9D, 0xC5]
  | .again (.plain c) => [c.code]
  | .again (.extended c) => [0xE0, c.code]
  | .again .pause => []
  | .release (.plain c) => [c.breakCode]
  | .release (.extended c) => [0xE0, c.breakCode]
  | .release .pause => []
  | .bracket right released =>
    [0xE0, (if right then 0x36 else 0x2A) ||| (if released then 0x80 else 0)]

/-- One of the Shift keys is released while the other is held. -/
def SplitsShift (held : Finset PhysKey) (e : KeyEvent) : Prop :=
  e = .release .leftShift ∧ .rightShift ∈ held ∨ e = .release .rightShift ∧ .leftShift ∈ held

instance (held : Finset PhysKey) (e : KeyEvent) : Decidable (e.SplitsShift held) :=
  inferInstanceAs (Decidable (_ ∧ _ ∨ _ ∧ _))

end KeyEvent

/-- The events are possible one after the other. -/
def Consistent : Finset PhysKey → List KeyEvent → Prop
  | _, [] => True
  | held, e :: es => e.Possible held ∧ Consistent (e.heldAfter held) es

instance decidableConsistent : (held : Finset PhysKey) → (es : List KeyEvent) →
    Decidable (Consistent held es)
  | _, [] => inferInstanceAs (Decidable True)
  | held, e :: es =>
    have := decidableConsistent (e.heldAfter held) es
    inferInstanceAs (Decidable (_ ∧ _))

def heldKeys (held : Finset PhysKey) (es : List KeyEvent) : Finset PhysKey :=
  es.foldl KeyEvent.heldAfter held

/-- The scancodes of a sequence of events. -/
def eventCodes : Finset PhysKey → List KeyEvent → List UInt8
  | _, [] => []
  | held, e :: es => e.codes held ++ eventCodes (e.heldAfter held) es

/-- No Shift key is released while the other is held. -/
def ShiftsApart : Finset PhysKey → List KeyEvent → Prop
  | _, [] => True
  | held, e :: es => ¬e.SplitsShift held ∧ ShiftsApart (e.heldAfter held) es

instance decidableShiftsApart : (held : Finset PhysKey) → (es : List KeyEvent) →
    Decidable (ShiftsApart held es)
  | _, [] => inferInstanceAs (Decidable True)
  | held, e :: es =>
    have := decidableShiftsApart (e.heldAfter held) es
    inferInstanceAs (Decidable (_ ∧ _))

/-- The flags say which modifier keys are held, and no prefix is pending. -/
structure Modifiers.Tracks (m : Modifiers) (held : Finset PhysKey) : Prop where
  shift : m.shift = true ↔ .leftShift ∈ held ∨ .rightShift ∈ held
  ctrl : m.ctrl = true ↔ .leftCtrl ∈ held
  e0 : m.e0 = false

/-- The scancodes that calls of the handler with these status and data bytes read. -/
def deliveredCodes (calls : List (UInt8 × UInt8)) : List UInt8 :=
  (calls.filter fun call => call.1 &&& 0x01 ≠ 0).map Prod.snd

/-- After each event, whatever calls have delivered the scancodes so far, the flags of the
handler say which modifier keys are held. -/
def ModifiersTracked (es : List KeyEvent) : Prop :=
  ∀ done calls, done <+: es → deliveredCodes calls = eventCodes ∅ done →
    ∃ kb effects, keyboardRun keyboardBoot calls = some (kb, effects) ∧
      kb.modifiers.Tracks (heldKeys ∅ done)

/-! ## Scancodes -/

namespace Modifiers

/-- The flags after a sequence of scancodes. -/
def decodeAll (m : Modifiers) (codes : List UInt8) : Modifiers :=
  codes.foldl (fun m keycode => (m.decode keycode).1) m

theorem decodeAll_append (m : Modifiers) (first second : List UInt8) :
    m.decodeAll (first ++ second) = (m.decodeAll first).decodeAll second :=
  List.foldl_append

@[simp] theorem decodeAll_nil (m : Modifiers) : m.decodeAll [] = m := rfl

@[simp] theorem decodeAll_cons (m : Modifiers) (keycode : UInt8) (codes : List UInt8) :
    m.decodeAll (keycode :: codes) = (m.decode keycode).1.decodeAll codes := rfl

end Modifiers

theorem deliveredCodes_cons (status keycode : UInt8) (calls : List (UInt8 × UInt8)) :
    deliveredCodes ((status, keycode) :: calls) =
      if status &&& 0x01 = 0 then deliveredCodes calls else keycode :: deliveredCodes calls := by
  by_cases idle : status &&& 0x01 = 0 <;> simp [deliveredCodes, idle]

/-- The flags of a run are those of the scancodes it reads. -/
theorem editorRun_modifiers (m : Modifiers) (ed : LineEditor) (calls : List (UInt8 × UInt8)) :
    (editorRun m ed calls).1.1 = m.decodeAll (deliveredCodes calls) := by
  induction calls generalizing m ed with
  | nil => rfl
  | cons call calls ih =>
    obtain ⟨status, keycode⟩ := call
    rw [editorRun, deliveredCodes_cons]
    by_cases idle : status &&& 0x01 = 0
    · rw [if_pos idle, if_pos idle]
      exact ih m ed
    · rw [if_neg idle, if_neg idle]
      exact ih _ _

/-- Any scancodes can be delivered. -/
theorem deliveredCodes_map (codes : List UInt8) :
    deliveredCodes (codes.map fun keycode => (1, keycode)) = codes := by
  induction codes with
  | nil => rfl
  | cons keycode codes ih =>
    rw [List.map_cons, deliveredCodes_cons, if_neg (by decide), ih]

namespace MakeCode

variable (c : MakeCode)

theorem toNat_lt : c.code.toNat < 128 := UInt8.lt_iff_toNat_lt.mp c.low

theorem toNat_breakCode : c.breakCode.toNat = c.code.toNat + 128 := by
  have sum : 2 ^ 7 * 1 + c.code.toNat = 2 ^ 7 * 1 ||| c.code.toNat :=
    Nat.two_pow_add_eq_or_of_lt c.toNat_lt 1
  rw [breakCode, UInt8.toNat_or, Nat.or_comm, Nat.add_comm]
  exact sum.symm

theorem code_ne {d : UInt8} (high : 128 ≤ d.toNat) : c.code ≠ d := by
  rintro rfl
  exact absurd c.toNat_lt (not_lt.mpr high)

theorem breakCode_ne {d : UInt8} (low : d.toNat < 128) : c.breakCode ≠ d := by
  rintro rfl
  rw [toNat_breakCode] at low
  omega

/-- A break code is told apart by its make code. -/
theorem breakCode_eq_iff {d e : UInt8} (top : d.toNat = e.toNat + 128) :
    c.breakCode = d ↔ c.code = e := by
  rw [← UInt8.toNat_inj, ← UInt8.toNat_inj, toNat_breakCode, top]
  omega

theorem breakCode_ne_announce : c.breakCode ≠ 0xE0 := by
  have top : c.breakCode = 0xE0 ↔ c.code = 0x60 := c.breakCode_eq_iff (by decide)
  exact fun same => c.noPrefix (top.mp same)

end MakeCode

/-! ## What a key does to the flags -/

namespace Modifiers

variable {m : Modifiers}

/-- A make code outside of `E0`. -/
theorem decode_make (idle : m.e0 = false) (c : MakeCode) :
    (m.decode c.code).1 =
      if c.code = 0x1D then { m with ctrl := true }
      else if c.code = 0x2A ∨ c.code = 0x36 then { m with shift := true }
      else m := by
  have announce : c.code ≠ 0xE0 := c.code_ne (by decide)
  have ctrlUp : c.code ≠ 0x9D := c.code_ne (by decide)
  have leftUp : c.code ≠ 0xAA := c.code_ne (by decide)
  have rightUp : c.code ≠ 0xB6 := c.code_ne (by decide)
  simp only [decode, idle, if_neg announce, if_neg ctrlUp, leftUp, rightUp, or_self, if_false,
    Bool.false_eq_true, apply_ite Prod.fst, ite_self]

/-- A break code outside of `E0`. -/
theorem decode_break (idle : m.e0 = false) (c : MakeCode) :
    (m.decode c.breakCode).1 =
      if c.code = 0x1D then { m with ctrl := false }
      else if c.code = 0x2A ∨ c.code = 0x36 then { m with shift := false }
      else m := by
  have announce : c.breakCode ≠ 0xE0 := c.breakCode_ne_announce
  have ctrlDown : c.breakCode ≠ 0x1D := c.breakCode_ne (by decide)
  have leftDown : c.breakCode ≠ 0x2A := c.breakCode_ne (by decide)
  have rightDown : c.breakCode ≠ 0x36 := c.breakCode_ne (by decide)
  have ctrlUp : c.breakCode = 0x9D ↔ c.code = 0x1D := c.breakCode_eq_iff (by decide)
  have leftUp : c.breakCode = 0xAA ↔ c.code = 0x2A := c.breakCode_eq_iff (by decide)
  have rightUp : c.breakCode = 0xB6 ↔ c.code = 0x36 := c.breakCode_eq_iff (by decide)
  simp only [decode, idle, if_neg announce, if_neg ctrlDown, leftDown, rightDown, or_self,
    if_false, Bool.false_eq_true, apply_ite Prod.fst, ite_self, ctrlUp, leftUp, rightUp]

/-- A code behind `E0` changes no flag and ends the prefix. -/
theorem decodeAll_extended (idle : m.e0 = false) {keycode : UInt8} (single : keycode ≠ 0xE0) :
    m.decodeAll [0xE0, keycode] = m := by
  obtain ⟨e0, ctrl, shift⟩ := m
  obtain rfl : e0 = false := idle
  simp [decodeAll, decode, single]

end Modifiers

/-! ## One event -/

/-- A key goes down or up. -/
def Modifiers.record (m : Modifiers) (k : PhysKey) (down : Bool) : Modifiers :=
  if k = .leftCtrl then { m with ctrl := down }
  else if k = .leftShift ∨ k = .rightShift then { m with shift := down }
  else m

def KeyEvent.modify (m : Modifiers) : KeyEvent → Modifiers
  | .press k => m.record k true
  | .again k => m.record k true
  | .release k => m.record k false
  | .bracket _ _ => m

section Step

variable {m : Modifiers} {held : Finset PhysKey}

theorem record_plain (m : Modifiers) (c : MakeCode) (down : Bool) :
    m.record (.plain c) down =
      if c.code = 0x1D then { m with ctrl := down }
      else if c.code = 0x2A ∨ c.code = 0x36 then { m with shift := down }
      else m := by
  simp [Modifiers.record, PhysKey.leftCtrl, PhysKey.leftShift, PhysKey.rightShift, MakeCode.ext_iff]

/-- Pause leaves the flags alone: its sequence has a Ctrl code, but only without Ctrl. -/
theorem decodeAll_pause (tracks : m.Tracks held) :
    m.decodeAll (KeyEvent.codes held (.press .pause)) = m := by
  have idle := tracks.e0
  rw [KeyEvent.codes]
  split
  · have first : m.decodeAll [0xE0, 0x46] = m := Modifiers.decodeAll_extended idle (by decide)
    have second : m.decodeAll [0xE0, 0xC6] = m := Modifiers.decodeAll_extended idle (by decide)
    exact (m.decodeAll_append [0xE0, 0x46] [0xE0, 0xC6]).trans (by rw [first, second])
  · next free =>
    have up : m.ctrl = false :=
      Bool.eq_false_iff.mpr fun down => free (.inl (tracks.ctrl.mp down))
    obtain ⟨e0, ctrl, shift⟩ := m
    obtain rfl : e0 = false := idle
    obtain rfl : ctrl = false := up
    cases shift <;> rfl

/-- The scancodes of an event do to the flags what the event says. -/
theorem decodeAll_codes (tracks : m.Tracks held) (e : KeyEvent) :
    m.decodeAll (e.codes held) = e.modify m := by
  have idle := tracks.e0
  cases e with
  | press k =>
    cases k with
    | plain c => exact (m.decode_make idle c).trans (record_plain m c true).symm
    | extended c => exact m.decodeAll_extended idle (c.code_ne (by decide))
    | pause => exact decodeAll_pause tracks
  | again k =>
    cases k with
    | plain c => exact (m.decode_make idle c).trans (record_plain m c true).symm
    | extended c => exact m.decodeAll_extended idle (c.code_ne (by decide))
    | pause => rfl
  | release k =>
    cases k with
    | plain c => exact (m.decode_break idle c).trans (record_plain m c false).symm
    | extended c => exact m.decodeAll_extended idle c.breakCode_ne_announce
    | pause => rfl
  | bracket right released =>
    refine m.decodeAll_extended idle ?_
    cases right <;> cases released <;> decide

theorem leftShift_ne_leftCtrl : PhysKey.leftShift ≠ .leftCtrl := by decide

theorem rightShift_ne_leftCtrl : PhysKey.rightShift ≠ .leftCtrl := by decide

theorem rightShift_ne_leftShift : PhysKey.rightShift ≠ .leftShift := by decide

/-- Keys other than the modifier keys do not matter. -/
theorem Modifiers.Tracks.of_same (tracks : m.Tracks held) {held' : Finset PhysKey}
    (shift : .leftShift ∈ held' ∨ .rightShift ∈ held' ↔ .leftShift ∈ held ∨ .rightShift ∈ held)
    (ctrl : .leftCtrl ∈ held' ↔ .leftCtrl ∈ held) : m.Tracks held' where
  shift := tracks.shift.trans shift.symm
  ctrl := tracks.ctrl.trans ctrl.symm
  e0 := tracks.e0

theorem Modifiers.Tracks.withCtrl (tracks : m.Tracks held) {held' : Finset PhysKey} {down : Bool}
    (shift : .leftShift ∈ held' ∨ .rightShift ∈ held' ↔ .leftShift ∈ held ∨ .rightShift ∈ held)
    (ctrl : down = true ↔ .leftCtrl ∈ held') :
    ({ m with ctrl := down } : Modifiers).Tracks held' where
  shift := tracks.shift.trans shift.symm
  ctrl := ctrl
  e0 := tracks.e0

theorem Modifiers.Tracks.withShift_iff (tracks : m.Tracks held) {held' : Finset PhysKey}
    {down : Bool} (ctrl : .leftCtrl ∈ held' ↔ .leftCtrl ∈ held) :
    ({ m with shift := down } : Modifiers).Tracks held' ↔
      (down = true ↔ .leftShift ∈ held' ∨ .rightShift ∈ held') := by
  constructor
  · exact fun after => after.shift
  · exact fun shift =>
      { shift := shift, ctrl := tracks.ctrl.trans ctrl.symm, e0 := tracks.e0 }

/-- A key that goes down is recorded as it should be. -/
theorem Modifiers.Tracks.down (tracks : m.Tracks held) (k : PhysKey) :
    (m.record k true).Tracks (insert k held) := by
  by_cases isCtrl : k = .leftCtrl
  · subst isCtrl
    rw [record, if_pos rfl]
    exact tracks.withCtrl (by simp [leftShift_ne_leftCtrl, rightShift_ne_leftCtrl]) (by simp)
  by_cases isShift : k = .leftShift ∨ k = .rightShift
  · rw [record, if_neg isCtrl, if_pos isShift, tracks.withShift_iff (by simp [Ne.symm isCtrl])]
    refine iff_of_true rfl ?_
    rcases isShift with rfl | rfl
    · exact .inl (Finset.mem_insert_self _ _)
    · exact .inr (Finset.mem_insert_self _ _)
  · obtain ⟨notLeft, notRight⟩ := not_or.mp isShift
    rw [record, if_neg isCtrl, if_neg isShift]
    exact tracks.of_same (by simp [Ne.symm notLeft, Ne.symm notRight]) (by simp [Ne.symm isCtrl])

/-- A key that goes up is recorded as it should be, but for a Shift key under the other. -/
theorem Modifiers.Tracks.up_iff (tracks : m.Tracks held) (k : PhysKey) :
    (m.record k false).Tracks (held.erase k) ↔ ¬(KeyEvent.release k).SplitsShift held := by
  by_cases isCtrl : k = .leftCtrl
  · subst isCtrl
    rw [record, if_pos rfl]
    refine iff_of_true (tracks.withCtrl ?_ (by simp)) ?_
    · simp [leftShift_ne_leftCtrl, rightShift_ne_leftCtrl]
    · simp [KeyEvent.SplitsShift, leftShift_ne_leftCtrl.symm, rightShift_ne_leftCtrl.symm]
  by_cases isShift : k = .leftShift ∨ k = .rightShift
  · -- the flag is down now, so the other Shift key has to be up
    rw [record, if_neg isCtrl, if_pos isShift, tracks.withShift_iff (by simp [Ne.symm isCtrl])]
    rcases isShift with rfl | rfl
    · simp [KeyEvent.SplitsShift, rightShift_ne_leftShift, rightShift_ne_leftShift.symm]
    · simp [KeyEvent.SplitsShift, rightShift_ne_leftShift, rightShift_ne_leftShift.symm]
  · obtain ⟨notLeft, notRight⟩ := not_or.mp isShift
    rw [record, if_neg isCtrl, if_neg isShift]
    refine iff_of_true (tracks.of_same ?_ (by simp [Ne.symm isCtrl])) ?_
    · simp [Ne.symm notLeft, Ne.symm notRight]
    · simp [KeyEvent.SplitsShift, notLeft, notRight]

/-- One event, from flags that say which modifier keys are held. -/
theorem Modifiers.Tracks.step_iff (tracks : m.Tracks held) {e : KeyEvent}
    (possible : e.Possible held) :
    (m.decodeAll (e.codes held)).Tracks (e.heldAfter held) ↔ ¬e.SplitsShift held := by
  rw [decodeAll_codes tracks e]
  cases e with
  | press k => exact iff_of_true (tracks.down k) (by simp [KeyEvent.SplitsShift])
  | again k =>
    have same : insert k held = held := Finset.insert_eq_of_mem possible
    have after := tracks.down k
    rw [same] at after
    exact iff_of_true after (by simp [KeyEvent.SplitsShift])
  | release k => exact tracks.up_iff k
  | bracket right released => exact iff_of_true tracks (by simp [KeyEvent.SplitsShift])

end Step

/-! ## Every run -/

theorem tracks_run_iff {m : Modifiers} {held : Finset PhysKey} (tracks : m.Tracks held)
    {es : List KeyEvent} (consistent : Consistent held es) :
    (∀ done, done <+: es →
      (m.decodeAll (eventCodes held done)).Tracks (heldKeys held done)) ↔ ShiftsApart held es := by
  induction es generalizing m held with
  | nil =>
    refine iff_of_true (fun done front => ?_) trivial
    obtain rfl := List.prefix_nil.mp front
    exact tracks
  | cons e es ih =>
    have step := tracks.step_iff consistent.1
    constructor
    · intro always
      have here := always [e] (List.prefix_append [e] es)
      rw [eventCodes, eventCodes, List.append_nil] at here
      refine ⟨step.mp here, (ih here consistent.2).mp fun done front => ?_⟩
      have later := always (e :: done) (List.cons_prefix_cons.mpr ⟨rfl, front⟩)
      rwa [eventCodes, Modifiers.decodeAll_append] at later
    · rintro ⟨apart, rest⟩ done front
      have next := (ih (step.mpr apart) consistent.2).mpr rest
      rcases List.prefix_cons_iff.mp front with rfl | ⟨done, rfl, front'⟩
      · exact tracks
      · rw [eventCodes, Modifiers.decodeAll_append]
        exact next done front'

theorem tracks_boot : (⟨false, false, false⟩ : Modifiers).Tracks ∅ where
  shift := by simp
  ctrl := by simp
  e0 := rfl

/-- **Modifier tracking.**  After each event of a possible sequence the flags of the
handler say which modifier keys are held, as long as no Shift key is released while the
other is held; and only so long. -/
theorem modifiers_track_iff {es : List KeyEvent} (consistent : Consistent ∅ es) :
    ModifiersTracked es ↔ ShiftsApart ∅ es := by
  rw [← tracks_run_iff tracks_boot consistent]
  constructor
  · intro tracked done front
    have delivered := deliveredCodes_map (eventCodes ∅ done)
    obtain ⟨kb, effects, ran, flags⟩ := tracked done _ front delivered
    obtain ⟨kb', effects', ran', rep, _⟩ :=
      represents_boot.run ((eventCodes ∅ done).map fun keycode => (1, keycode))
    obtain ⟨rfl, rfl⟩ : kb = kb' ∧ effects = effects' := by
      simpa using ran.symm.trans ran'
    rwa [rep.modifiers, editorRun_modifiers, delivered] at flags
  · intro flags done calls front delivered
    obtain ⟨kb, effects, ran, rep, _⟩ := represents_boot.run calls
    refine ⟨kb, effects, ran, ?_⟩
    rw [rep.modifiers, editorRun_modifiers, delivered]
    exact flags done front

/-- A letter typed under the left Shift key, then the right one alone. -/
theorem modifiers_track_letter :
    ModifiersTracked [.press .leftShift, .press (.plain ⟨0x1E, by decide, by decide⟩),
      .release .leftShift, .release (.plain ⟨0x1E, by decide, by decide⟩), .press .rightShift,
      .release .rightShift] :=
  (modifiers_track_iff (by decide)).mpr (by decide)

/-- With both Shift keys held the release of the right one clears the flag. -/
theorem modifiers_lost :
    Consistent ∅ [.press .leftShift, .press .rightShift, .release .rightShift] ∧
      ¬ModifiersTracked [.press .leftShift, .press .rightShift, .release .rightShift] := by
  refine ⟨by decide, fun tracked => ?_⟩
  have run : keyboardRun keyboardBoot [(1, 0x2A), (1, 0x36), (1, 0xB6)] =
      some (keyboardBoot, []) := rfl
  obtain ⟨kb, effects, ran, flags⟩ :=
    tracked _ [(1, 0x2A), (1, 0x36), (1, 0xB6)] (List.prefix_refl _) (by decide)
  obtain ⟨rfl, rfl⟩ : keyboardBoot = kb ∧ [] = effects := by
    simpa using run.symm.trans ran
  cases flags.shift.mpr (.inl (by decide))

end MOKernel
